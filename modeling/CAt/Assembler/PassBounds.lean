import CAt.Assembler.LineErrors
import CAt.Assembler.LinePasses
import CAt.Assembler.ReadSource
import CAt.Assembler.TokenLists
import CAt.Library.Faults

namespace CAt

open Faults (Only)
open LineErrors (assembleLine_yields)

-- The pass returns or an assertion stops it; an overrun and a NULL string are faults of their own.
def InBounds {α : Type} (pass : Except PassFault α) : Prop :=
  Only (fun fault => fault.isAssertion = true) pass

def linesFit : Carry → List (List Token) → Prop
  | _, [] => True
  | carry, l :: ls => carry.tokens.length + l.length ≤ lineSize ∧ linesFit (nextCarry carry l) ls

def labelCount : Carry → List (List Token) → Nat
  | _, [] => 0
  | carry, l :: ls => (definesLabel carry l).toNat + labelCount (nextCarry carry l) ls

def indexFits (ts : List Token) : Prop :=
  linesFit ⟨[], false⟩ (lines ts) ∧ labelCount ⟨[], false⟩ (completedLines ts) ≤ labelsSize

-- `n` counts the instructions so far; behind a line that an assertion stops nothing is looked at.
def StaysDefined (junk : Junk) (labels : List Label) (atEnd : Bool → Prop) :
    Bool → Nat → List (List Token) → Prop
  | stale, _, [] => atEnd stale
  | stale, n, l :: ls => l.length ≤ lineSize ∧
      if keepsLine stale l then
        match lineOutcome (junk n) labels l with
        | .stored => n < programSize ∧
            StaysDefined junk labels atEnd (nextStale stale l) (n + 1) ls
        | .refused => True
        | .undefined => False
      else StaysDefined junk labels atEnd (nextStale stale l) n ls

def assemblyFits (junk : Junk) (labels : List Label) (ts : List Token) : Prop :=
  StaysDefined junk labels (fun _ => (lastLine ts).length ≤ lineSize) false 0 (completedLines ts)

def EndsAt {α : Type} (p : Prop) (pass : Except PassFault α) : Prop :=
  InBounds pass ∧ ∀ a, pass = .ok a → p

section Bounds

variable {α β : Type} {c : Except PassFault α}

theorem inBounds_ok (a : α) : InBounds (.ok a) := Only.ok a

theorem inBounds_map {f : α → β} : InBounds (f <$> c) ↔ InBounds c := by
  cases c with
  | error fault => exact ⟨fun h => .error (h fault rfl), fun h => .error (h fault rfl)⟩
  | ok a => exact ⟨fun _ => .ok a, fun _ => .ok (f a)⟩

theorem inBounds_error {fault : PassFault} :
    InBounds (.error fault : Except PassFault α) ↔ fault.isAssertion = true :=
  ⟨fun h => h fault rfl, fun h => Only.error h⟩

theorem not_inBounds_error {fault : PassFault} (h : fault.isAssertion = false) :
    ¬ InBounds (.error fault : Except PassFault α) := by
  rw [inBounds_error, h]
  exact Bool.false_ne_true

theorem endsAt_ok {p : Prop} (a : α) : EndsAt p (.ok a) ↔ p :=
  ⟨fun h => h.2 a rfl, fun hp => ⟨inBounds_ok a, fun _ _ => hp⟩⟩

theorem endsAt_error {p : Prop} {fault : PassFault} :
    EndsAt p (.error fault : Except PassFault α) ↔ fault.isAssertion = true := by
  refine ⟨fun h => inBounds_error.mp h.1, fun h => ⟨inBounds_error.mpr h, ?_⟩⟩
  rintro a ⟨⟩

theorem endsAt_true : EndsAt True c ↔ InBounds c := and_iff_left fun _ _ => trivial

end Bounds

theorem finish_inBounds_iff {σ β : Type} {P : LinePass σ β} {last : List Token} {state : σ × β} :
    InBounds (P.finish last state) ↔ P.carried state.1 + last.length ≤ lineSize := by
  unfold LinePass.finish
  split
  · rename_i hfits
    exact iff_of_true (inBounds_ok _) hfits
  · rename_i hfits
    exact iff_of_false (not_inBounds_error rfl) hfits

theorem index_act_stays {carry : Carry} {l : List Token} (hlabel : definesLabel carry l = false)
    (out : LabelIndex) :
    ∃ out', indexPass.act carry l out = .ok out' ∧ out'.labels = out.labels := by
  simp only [indexPass, hlabel]
  cases countsLine carry l with
  | true => exact ⟨_, rfl, rfl⟩
  | false => exact ⟨_, rfl, rfl⟩

theorem index_inBounds_iff (last : List Token) (ls : List (List Token)) (carry : Carry)
    (out : LabelIndex) (hroom : out.labels.length ≤ labelsSize) :
    InBounds (indexPass.runLines (carry, out) ls >>= indexPass.finish last) ↔
      linesFit carry (ls ++ [last]) ∧ out.labels.length + labelCount carry ls ≤ labelsSize := by
  induction ls generalizing carry out with
  | nil =>
    refine finish_inBounds_iff.trans ?_
    simp [linesFit, labelCount, hroom, indexPass]
  | cons l ls ih =>
    rw [LinePass.runLines_cons, bind_assoc, List.cons_append, linesFit, labelCount, and_assoc]
    by_cases hfits : carry.tokens.length + l.length ≤ lineSize
    · rw [LinePass.step_of_fits hfits, LinePass.lineEnd, and_iff_right hfits]
      cases hlabel : definesLabel carry l with
      | true =>
        by_cases hlt : out.labels.length < labelsSize
        · simp only [indexPass, hlabel, hlt, if_true]
          refine (ih (nextCarry carry l) _ ?_).trans ?_
          · rw [List.length_append]
            exact hlt
          · rw [List.length_append, List.length_singleton, Nat.add_assoc]
            rfl
        · simp only [indexPass, hlabel, hlt, if_true, if_false]
          refine iff_of_false (not_inBounds_error rfl) ?_
          rintro ⟨-, hcount⟩
          rw [Bool.toNat_true] at hcount
          omega
      | false =>
        obtain ⟨out', hact, hlabels⟩ := index_act_stays hlabel out
        rw [hact, Bool.toNat_false, Nat.zero_add, ← hlabels]
        exact ih (nextCarry carry l) out' (hlabels ▸ hroom)
    · rw [LinePass.step_of_overflow hfits]
      exact iff_of_false (not_inBounds_error rfl) fun h => hfits h.1

theorem index_fits_iff (ts : List Token) :
    InBounds (indexPass.result (⟨[], false⟩, ⟨[], 0⟩) ts) ↔ indexFits ts := by
  rw [LinePass.result, index_inBounds_iff _ _ _ _ (Nat.zero_le _), ← lines_eq, List.length_nil,
    Nat.zero_add]
  rfl

section Assemble

variable {host : Host} {junk : Junk} {labels : List Label} {stale : Bool} {l last : List Token}
  {program : List Instruction}

theorem emit_stored (h : lineOutcome (junk program.length) labels l = .stored)
    (hroom : program.length < programSize) :
    ∃ inst, emitInstruction host junk labels l program = .ok (program ++ [inst]) := by
  have hyields := assembleLine_yields host (junk program.length) labels l
  obtain ⟨inst, hline⟩ := hyields.ok_iff.mpr h
  rw [emitInstruction, hline]
  exact ⟨inst, if_pos hroom⟩

theorem emit_full (h : lineOutcome (junk program.length) labels l = .stored)
    (hroom : ¬ program.length < programSize) :
    emitInstruction host junk labels l program = .error .programOverflow := by
  have hyields := assembleLine_yields host (junk program.length) labels l
  obtain ⟨inst, hline⟩ := hyields.ok_iff.mpr h
  rw [emitInstruction, hline]
  exact if_neg hroom

theorem emit_fault (h : lineOutcome (junk program.length) labels l ≠ .stored) :
    ∃ fault : PassFault, emitInstruction host junk labels l program = .error fault ∧
      (fault.isAssertion = true ↔ lineOutcome (junk program.length) labels l = .refused) := by
  have hyields := assembleLine_yields host (junk program.length) labels l
  cases hline : assembleLine host (junk program.length) labels l with
  | ok inst => exact absurd (hyields.ok_iff.mp ⟨inst, hline⟩) h
  | error e =>
    rw [emitInstruction, hline]
    exact ⟨.line e, rfl, (hline ▸ hyields).isAssertion_iff⟩

theorem step_dropped (hkeep : keepsLine stale l = false) (hwidth : l.length ≤ lineSize) :
    (assemblePass host junk labels).step (stale, program) l = .ok (nextStale stale l, program) := by
  have hfits : (assemblePass host junk labels).carried stale + l.length ≤ lineSize := by
    simpa [assemblePass] using hwidth
  rw [LinePass.step_of_fits hfits, LinePass.lineEnd]
  simp only [assemblePass, hkeep]
  rfl

theorem step_kept (hkeep : keepsLine stale l = true) (hwidth : l.length ≤ lineSize) :
    (assemblePass host junk labels).step (stale, program) l =
      (fun program => (nextStale stale l, program)) <$>
        emitInstruction host junk labels l program := by
  have hfits : (assemblePass host junk labels).carried stale + l.length ≤ lineSize := by
    simpa [assemblePass] using hwidth
  rw [LinePass.step_of_fits hfits, LinePass.lineEnd]
  simp only [assemblePass, hkeep, if_true]

theorem finish_endsAt_iff {p : Bool → Prop} :
    EndsAt (p stale) ((assemblePass host junk labels).finish last (stale, program)) ↔
      last.length ≤ lineSize ∧ p stale := by
  have hcarried : (assemblePass host junk labels).carried stale + last.length = last.length :=
    Nat.zero_add _
  rw [LinePass.finish, hcarried]
  by_cases hwidth : last.length ≤ lineSize
  · rw [if_pos hwidth, endsAt_ok, and_iff_right hwidth]
  · rw [if_neg hwidth, endsAt_error]
    exact iff_of_false Bool.false_ne_true fun h => hwidth h.1

theorem assemble_endsAt_iff (p : Bool → Prop) (last : List Token) (ls : List (List Token))
    (stale : Bool) (program : List Instruction) :
    EndsAt (p (ls.foldl nextStale stale)) ((assemblePass host junk labels).runLines (stale, program)
        ls >>= (assemblePass host junk labels).finish last) ↔
      StaysDefined junk labels (fun stale => last.length ≤ lineSize ∧ p stale) stale program.length
        ls := by
  induction ls generalizing stale program with
  | nil => exact finish_endsAt_iff
  | cons l ls ih =>
    rw [LinePass.runLines_cons, bind_assoc, StaysDefined, List.foldl_cons]
    by_cases hwidth : l.length ≤ lineSize
    · rw [and_iff_right hwidth]
      cases hkeep : keepsLine stale l with
      | false =>
        rw [step_dropped hkeep hwidth, if_neg Bool.false_ne_true]
        exact ih (nextStale stale l) program
      | true =>
        rw [step_kept hkeep hwidth, if_pos rfl]
        cases houtcome : lineOutcome (junk program.length) labels l with
        | stored =>
          by_cases hroom : program.length < programSize
          · obtain ⟨inst, hemit⟩ := emit_stored houtcome hroom
            have hlength : (program ++ [inst]).length = program.length + 1 := List.length_append
            rw [hemit, and_iff_right hroom, ← hlength]
            exact ih (nextStale stale l) (program ++ [inst])
          · rw [emit_full houtcome hroom]
            exact iff_of_false (fun h => Bool.false_ne_true (endsAt_error.mp h))
              fun h => hroom h.1
        | refused =>
          obtain ⟨fault, hemit, hfault⟩ := emit_fault (houtcome.trans_ne nofun)
          rw [hemit]
          exact iff_of_true (endsAt_error.mpr (hfault.mpr houtcome)) trivial
        | undefined =>
          obtain ⟨fault, hemit, hfault⟩ := emit_fault (houtcome.trans_ne nofun)
          rw [hemit]
          refine iff_of_false (fun h => ?_) id
          cases houtcome.symm.trans (hfault.mp (endsAt_error.mp h))
    · rw [LinePass.step_of_overflow (by simpa [assemblePass] using hwidth)]
      exact iff_of_false (fun h => Bool.false_ne_true (endsAt_error.mp h)) fun h => hwidth h.1

end Assemble

theorem assemblyFits_iff (host : Host) (junk : Junk) (labels : List Label) (ts : List Token) :
    InBounds (assembleProgram host junk ts labels) ↔ assemblyFits junk labels ts := by
  have hends : EndsAt True ((assemblePass host junk labels).runLines (false, [])
      (completedLines ts) >>= (assemblePass host junk labels).finish (lastLine ts)) ↔ _ :=
    assemble_endsAt_iff (fun _ => True) (lastLine ts) (completedLines ts) false []
  rw [assembleProgram_result, LinePass.result, ← endsAt_true, hends]
  simp only [and_true]
  rfl

theorem passes_inBounds_iff (host : Host) (junk : Junk) (labels : List Label) (ts : List Token) :
    InBounds (indexLabels ts) ∧ InBounds (assembleProgram host junk ts labels) ↔
      indexFits ts ∧ assemblyFits junk labels ts := by
  rw [indexLabels_result, inBounds_map, index_fits_iff, assemblyFits_iff]

namespace PassBounds

def colons : List Char := List.replicate 33 ':'

def colonTokens : List Token := List.replicate 33 ⟨none, .symbolColon⟩

theorem lexemes_colons (n : Nat) :
    lexemes (List.replicate n ':') = List.replicate n ⟨[':'], .symbolColon⟩ := by
  induction n with
  | zero => exact lexemes_nil
  | succ n ih =>
    have hfirst (cs : List Char) : firstLexeme ':' cs = ⟨[':'], .symbolColon⟩ := rfl
    rw [List.replicate_succ, lexemes_cons, hfirst, List.replicate_succ]
    exact congrArg _ ih

theorem tokenizes_colons : Tokenizes zeroJunk colons colonTokens := by
  rw [TokenLists.tokenizes_zero_iff, sourceTokens, colons, lexemes_colons]
  refine ⟨⟨?_, ?_⟩, rfl⟩
  · intro l hl
    rw [List.eq_of_mem_replicate hl]
    nofun
  · exact (List.length_filter_le _ _).trans (by simp [tokensBlockSize])

theorem long_line_outside :
    colons.length < maxSize ∧ Tokenizes zeroJunk colons colonTokens ∧
      ¬ (InBounds (indexLabels colonTokens) ∧
        InBounds (assembleProgram Host.integer (fun _ _ => .zero) colonTokens [])) := by
  refine ⟨by simp [colons, maxSize], tokenizes_colons, ?_⟩
  rintro ⟨hindex, -⟩
  have hoverflow : indexLabels colonTokens = .error .tkOverflow := rfl
  rw [hoverflow] at hindex
  exact not_inBounds_error rfl hindex

end PassBounds

end CAt
