import CAt.Assembler.PassBounds

namespace CAt

open Faults (Only)
open GuardedLoop.Loop (ok_bind)

section Append

variable {ts : List Token} {e : Token}

theorem LinePass.result_snoc {σ β : Type} {P : LinePass σ β}
    (small : ∀ carry l, P.carried (P.next carry l) ≤ lineSize) (atEnd : isLineEnd e = true)
    (carry : σ) (out : β) :
    P.result (carry, out) (ts ++ [e]) =
      P.result (carry, out) ts >>=
        P.act (P.carryAfter carry (completedLines ts)) (lastLine ts) := by
  rw [result, result, completedLines_snoc atEnd, lastLine_snoc atEnd, runLines_append]
  cases hrun : P.runLines (carry, out) (completedLines ts) with
  | error fault => rfl
  | ok state =>
    have hcarry := runLines_carry hrun
    simp only [ok_bind, runLines, List.foldlM_cons, List.foldlM_nil, bind_pure]
    by_cases hfits : P.carried state.1 + (lastLine ts).length ≤ lineSize
    · rw [step_of_fits hfits, finish, if_pos hfits, ok_bind, lineEnd, ← hcarry]
      cases P.act state.1 (lastLine ts) state.2 with
      | error fault => rfl
      | ok out' => exact if_pos (small state.1 (lastLine ts))
    · rw [step_of_overflow hfits, finish, if_neg hfits]
      rfl

end Append

theorem nextCarry_small (carry : Carry) (l : List Token) :
    indexPass.carried (indexPass.next carry l) ≤ lineSize := by
  simp only [indexPass, nextCarry]
  split
  · rename_i hlabel
    simp only [definesLabel, hlabel, Bool.true_and]
    split
    · exact Nat.zero_le _
    · rename_i hone
      simp only [bne_iff_ne, ne_eq, Decidable.not_not] at hone
      rw [hone]
      decide
  · exact Nat.zero_le _

section Acts

variable {host : Host} {junk : Junk} {labels : List Label} {l : List Token}

theorem index_act_labels_iff (carry : Carry) (out : LabelIndex) :
    LabelIndex.labels <$> indexPass.act carry l out = .ok out.labels ↔
      definesLabel carry l = false := by
  simp only [indexPass]
  cases definesLabel carry l with
  | true =>
    by_cases hroom : out.labels.length < labelsSize
    · simp [hroom, Functor.map, Except.map]
    · simp [hroom, Functor.map, Except.map]
  | false =>
    cases countsLine carry l with
    | true => simp [Functor.map, Except.map]
    | false => simp [Functor.map, Except.map]

theorem assemble_act_iff (stale : Bool) (program : List Instruction) :
    (assemblePass host junk labels).act stale l program = .ok program ↔
      keepsLine stale l = false := by
  simp only [assemblePass]
  cases keepsLine stale l with
  | true =>
    simp only [if_true, emitInstruction]
    cases assembleLine host (junk program.length) labels l with
    | error fault => simp
    | ok inst =>
      by_cases hroom : program.length < programSize
      · simp [hroom]
      · simp [hroom]
  | false => simp

end Acts

def carryAtLastLine (ts : List Token) : Carry :=
  indexPass.carryAfter ⟨[], false⟩ (completedLines ts)

-- Undefined behaviour gives no result that could be the same.
def SameResult {α : Type} (c d : Except PassFault α) : Prop := InBounds c ∧ c = d

theorem sameResult_snoc_iff {α γ : Type} {c : Except PassFault α} {f : α → Except PassFault α}
    (observe : α → γ) {p : Prop} (h : ∀ a, observe <$> f a = .ok (observe a) ↔ p) :
    SameResult (observe <$> (c >>= f)) (observe <$> c) ↔ EndsAt p c := by
  cases c with
  | error fault =>
    have hsame : SameResult (observe <$> (.error fault >>= f)) (observe <$> .error fault) ↔
        InBounds (.error fault : Except PassFault γ) := and_iff_left rfl
    rw [hsame, inBounds_error, endsAt_error]
  | ok a =>
    rw [endsAt_ok, ← h a]
    refine ⟨fun hsame => hsame.2, fun hsame => ⟨?_, hsame⟩⟩
    have hrun : observe <$> (.ok a >>= f) = .ok (observe a) := hsame
    rw [hrun]
    exact inBounds_ok _

theorem indexPass_noAssertion (state : Carry × LabelIndex) (ts : List Token) :
    Only (fun fault => fault.isAssertion = false) (indexPass.result state ts) := by
  have hact (carry : Carry) (l : List Token) (out : LabelIndex) :
      Only (fun fault => fault.isAssertion = false) (indexPass.act carry l out) :=
    Only.ite (fun _ => Only.ite (fun _ => Only.ok _) fun _ => Only.error rfl) fun _ =>
      Only.ite (fun _ => Only.ok _) fun _ => Only.ok _
  have hstep (state : Carry × LabelIndex) (l : List Token) :
      Only (fun fault => fault.isAssertion = false) (indexPass.step state l) :=
    Only.ite (fun _ => (hact state.1 l state.2).map _) fun _ => Only.error rfl
  exact (Only.foldlM hstep _ _).bind fun _ _ =>
    Only.ite (fun _ => Only.ok _) fun _ => Only.error rfl

theorem index_endsAt_iff (p : Prop) (ts : List Token) :
    EndsAt p (indexPass.result (⟨[], false⟩, ⟨[], 0⟩) ts) ↔ indexFits ts ∧ p := by
  have hdefined := indexPass_noAssertion (⟨[], false⟩, ⟨[], 0⟩) ts
  rw [← index_fits_iff]
  cases hrun : indexPass.result (⟨[], false⟩, ⟨[], 0⟩) ts with
  | error fault =>
    have hfault : fault.isAssertion = false := hdefined fault hrun
    rw [endsAt_error, inBounds_error, hfault]
    exact iff_of_false Bool.false_ne_true fun h => Bool.false_ne_true h.1
  | ok out => rw [endsAt_ok, and_iff_right (inBounds_ok out)]

theorem finalNewline_iff (host : Host) (junk : Junk) (labels : List Label) (ts : List Token)
    (text : Option (List Char)) :
    SameResult (indexLabels (ts ++ [⟨text, .symbolExpressionEnd⟩])) (indexLabels ts) ∧
        SameResult (assembleProgram host junk (ts ++ [⟨text, .symbolExpressionEnd⟩]) labels)
          (assembleProgram host junk ts labels) ↔
      (indexFits ts ∧ definesLabel (carryAtLastLine ts) (lastLine ts) = false) ∧
        StaysDefined junk labels
          (fun stale => (lastLine ts).length ≤ lineSize ∧ keepsLine stale (lastLine ts) = false)
          false 0 (completedLines ts) := by
  have hindex : indexPass.result (⟨[], false⟩, ⟨[], 0⟩) (ts ++ [⟨text, .symbolExpressionEnd⟩]) = _ :=
    LinePass.result_snoc nextCarry_small rfl _ _
  have hassemble : (assemblePass host junk labels).result (false, [])
      (ts ++ [⟨text, .symbolExpressionEnd⟩]) = _ :=
    LinePass.result_snoc (fun _ _ => Nat.zero_le _) rfl _ _
  have hact (program : List Instruction) :
      id <$> (assemblePass host junk labels).act ((completedLines ts).foldl nextStale false)
          (lastLine ts) program = .ok (id program) ↔
        keepsLine ((completedLines ts).foldl nextStale false) (lastLine ts) = false := by
    rw [id_map]
    exact assemble_act_iff _ program
  rw [indexLabels_result, indexLabels_result, assembleProgram_result, assembleProgram_result,
    hindex, hassemble]
  apply and_congr
  · rw [sameResult_snoc_iff LabelIndex.labels fun out => index_act_labels_iff _ out]
    exact index_endsAt_iff _ ts
  · have hsame := sameResult_snoc_iff id
      (c := (assemblePass host junk labels).result (false, []) ts) hact
    rw [id_map, id_map] at hsame
    exact hsame.trans (assemble_endsAt_iff (fun stale => keepsLine stale (lastLine ts) = false)
      (lastLine ts) (completedLines ts) false [])

namespace FinalNewline

def nop : Token := ⟨some ['n', 'o', 'p'], .word⟩

theorem last_line_lost :
    ¬ (SameResult (indexLabels ([nop] ++ [⟨none, .symbolExpressionEnd⟩])) (indexLabels [nop]) ∧
      SameResult (assembleProgram Host.integer (fun _ _ => .zero)
          ([nop] ++ [⟨none, .symbolExpressionEnd⟩]) [])
        (assembleProgram Host.integer (fun _ _ => .zero) [nop] [])) := by
  rintro ⟨-, -, h⟩
  cases h

end FinalNewline

end CAt
