import CAt.Assembler.LineModes
import Mathlib.Logic.Relation

namespace CAt

open GuardedLoop.Loop (bind_ok ok_bind)
open Segments (Terminated)
open AssembleProgram (end_empty end_dropped end_emitted)

def isHash (t : Token) : Bool := t.type == .symbolHash

inductive Insertion : List Token → List Token → Prop
  | blankLine {before : List Token} {e : Token} (after : List Token)
      (start : Terminated isLineEnd before) (atEnd : isLineEnd e = true) :
      Insertion (before ++ after) (before ++ e :: after)
  | commentLine {before comment : List Token} {hash e : Token} (after : List Token)
      (start : Terminated isLineEnd before) (opens : isHash hash = true)
      (inside : ∀ t ∈ comment, isLineEnd t = false) (atEnd : isLineEnd e = true) :
      Insertion (before ++ after) (before ++ hash :: (comment ++ e :: after))
  | trailing (before : List Token) {comment : List Token} {hash e : Token} (after : List Token)
      (opens : isHash hash = true) (inside : ∀ t ∈ comment, isLineEnd t = false)
      (atEnd : isLineEnd e = true) :
      Insertion (before ++ e :: after) (before ++ hash :: (comment ++ e :: after))

abbrev Insertions : List Token → List Token → Prop := Relation.ReflTransGen Insertion

theorem isLineEnd_of_isHash {t : Token} (h : isHash t = true) : isLineEnd t = false := by
  simp only [isHash, beq_iff_eq] at h
  simp [isLineEnd, h]

section Scan

variable {β : Type} {atLineEnd : LineBuffer → β → Except PassFault (LineBuffer × β)}
  {line : LineBuffer} {out : β} {hash e : Token} {comment before : List Token}

theorem scanToken_opens (opens : isHash hash = true) :
    scanToken atLineEnd (line, out) hash = .ok ({ line with lineIsComment := true }, out) := by
  have hend : isLineEnd hash = false := isLineEnd_of_isHash opens
  unfold isLineEnd at hend
  cases line with
  | mk tk ic lineIsComment =>
    cases lineIsComment with
    | true => simp [scanToken, hend]
    | false => exact scanToken_hash rfl opens out

-- Up to the end of its line a comment leaves only the flag behind, which the line's end clears.
theorem scan_trailing (opens : isHash hash = true)
    (inside : ∀ t ∈ comment, isLineEnd t = false) (atEnd : isLineEnd e = true)
    (after : List Token) (state : LineBuffer × β) :
    (hash :: (comment ++ e :: after)).foldlM (scanToken atLineEnd) state =
      (e :: after).foldlM (scanToken atLineEnd) state := by
  obtain ⟨line, out⟩ := state
  rw [List.foldlM_cons, scanToken_opens opens, ok_bind, List.foldlM_append,
    scan_comment inside _ rfl, ok_bind, List.foldlM_cons, List.foldlM_cons,
    scanToken_lineEnd atEnd, scanToken_lineEnd atEnd]

def Settled (atLineEnd : LineBuffer → β → Except PassFault (LineBuffer × β))
    (state : LineBuffer × β) : Prop :=
  state.1.lineIsComment = false ∧ atLineEnd state.1 state.2 = .ok state

def Settles (atLineEnd : LineBuffer → β → Except PassFault (LineBuffer × β)) : Prop :=
  ∀ line out state, line.lineIsComment = false → atLineEnd line out = .ok state →
    Settled atLineEnd state

theorem scan_blank {state : LineBuffer × β} (h : Settled atLineEnd state)
    (atEnd : isLineEnd e = true) : scanToken atLineEnd state e = .ok state := by
  obtain ⟨⟨tk, ic, lineIsComment⟩, out⟩ := state
  obtain ⟨hcomment, hend⟩ := h
  cases hcomment
  rw [scanToken_lineEnd atEnd]
  exact hend

theorem scan_settled (settles : Settles atLineEnd) (start : Terminated isLineEnd before)
    {state state' : LineBuffer × β} (h : Settled atLineEnd state)
    (hscan : before.foldlM (scanToken atLineEnd) state = .ok state') :
    Settled atLineEnd state' := by
  induction start generalizing state with
  | nil =>
    cases hscan
    exact h
  | cons inside atEnd tail ih =>
    rw [List.foldlM_append] at hscan
    obtain ⟨mid, -, hrest⟩ := bind_ok hscan
    rw [List.foldlM_cons] at hrest
    obtain ⟨next, hnext, htail⟩ := bind_ok hrest
    rw [scanToken_lineEnd atEnd] at hnext
    exact ih (settles _ _ _ rfl hnext) htail

theorem scan_insert {inserted after : List Token} {state : LineBuffer × β}
    (settles : Settles atLineEnd) (start : Terminated isLineEnd before)
    (h : Settled atLineEnd state)
    (absorbed : ∀ state', Settled atLineEnd state' →
      (inserted ++ after).foldlM (scanToken atLineEnd) state' =
        after.foldlM (scanToken atLineEnd) state') :
    (before ++ (inserted ++ after)).foldlM (scanToken atLineEnd) state =
      (before ++ after).foldlM (scanToken atLineEnd) state := by
  rw [List.foldlM_append, List.foldlM_append]
  cases hscan : before.foldlM (scanToken atLineEnd) state with
  | error fault => rfl
  | ok state' => exact absorbed state' (scan_settled settles start h hscan)

theorem scan_insertion {ts us : List Token} {state : LineBuffer × β}
    (settles : Settles atLineEnd) (h : Settled atLineEnd state) (hstep : Insertion ts us) :
    us.foldlM (scanToken atLineEnd) state = ts.foldlM (scanToken atLineEnd) state := by
  have hblank {e : Token} (atEnd : isLineEnd e = true) (after : List Token)
      (state' : LineBuffer × β) (h' : Settled atLineEnd state') :
      (e :: after).foldlM (scanToken atLineEnd) state' =
        after.foldlM (scanToken atLineEnd) state' := by
    rw [List.foldlM_cons, scan_blank h' atEnd]
    rfl
  cases hstep with
  | @blankLine before e after start atEnd =>
    rw [← List.singleton_append (l := after)]
    exact scan_insert settles start h (hblank atEnd after)
  | @commentLine before comment hash e after start opens inside atEnd =>
    have hsplit : hash :: (comment ++ e :: after) = (hash :: (comment ++ [e])) ++ after := by simp
    rw [hsplit]
    apply scan_insert settles start h
    intro state' h'
    rw [← hsplit, scan_trailing opens inside atEnd]
    exact hblank atEnd after state' h'
  | @trailing before comment hash e after opens inside atEnd =>
    rw [List.foldlM_append, List.foldlM_append]
    exact bind_congr fun state' => scan_trailing opens inside atEnd after state'

theorem scan_insertions {ts us : List Token} {state : LineBuffer × β}
    (settles : Settles atLineEnd) (h : Settled atLineEnd state) (hpath : Insertions ts us) :
    us.foldlM (scanToken atLineEnd) state = ts.foldlM (scanToken atLineEnd) state := by
  induction hpath with
  | refl => rfl
  | tail _ hstep ih => rw [scan_insertion settles h hstep, ih]

end Scan

section LineEnd

variable {line : LineBuffer}

theorem indexLabels_settled {out : LabelIndex} (hcomment : line.lineIsComment = false)
    (hic : line.ic = 0) : Settled indexLabelsLineEnd (line, out) := by
  refine ⟨hcomment, ?_⟩
  cases line
  cases hic
  simp [indexLabelsLineEnd]

-- The line of a one-word instruction after a label definition stays in the buffer with `ic` = 1,
-- and the next end of a line skips over it once more.
theorem indexLabels_settles : Settles indexLabelsLineEnd := by
  intro line out state hcomment h
  unfold indexLabelsLineEnd at h
  split at h
  · split at h
    · rename_i hlabel hone
      cases h
      refine ⟨hcomment, ?_⟩
      rw [indexLabelsLineEnd, if_pos hlabel, if_pos hone]
    · split at h
      · cases h
        exact indexLabels_settled hcomment rfl
      · cases h
  · split at h
    · cases h
      exact indexLabels_settled hcomment rfl
    · cases h
      exact indexLabels_settled hcomment rfl

variable {host : Host} {junk : Junk} {labels : List Label} {program : List Instruction}

theorem assembleProgram_settled (hcomment : line.lineIsComment = false) (hic : line.ic = 0) :
    Settled (assembleProgramLineEnd host junk labels) (line, program) := by
  refine ⟨hcomment, ?_⟩
  cases line
  cases hic
  simp [assembleProgramLineEnd]

theorem assembleProgram_settles : Settles (assembleProgramLineEnd host junk labels) := by
  intro line program state hcomment h
  by_cases hic : line.ic = 0
  · rw [end_empty host junk labels program hic] at h
    cases h
    exact assembleProgram_settled hcomment rfl
  · cases hkeep : line.firstIsWord && line.secondIsColon with
    | true =>
      obtain ⟨hword, hcolon⟩ := Bool.and_eq_true_iff.mp hkeep
      rw [end_dropped host junk labels program hword hcolon hic] at h
      cases h
      exact assembleProgram_settled hcomment rfl
    | false =>
      rw [end_emitted host junk labels program hkeep hic] at h
      obtain ⟨program', -, h⟩ := bind_ok h
      cases h
      exact assembleProgram_settled hcomment rfl

end LineEnd

theorem Insertions.indexLabels_eq {ts us : List Token} (h : Insertions ts us) :
    indexLabels us = indexLabels ts := by
  rw [indexLabels, indexLabels, scan_insertions indexLabels_settles (indexLabels_settled rfl rfl) h]

theorem Insertions.assembleProgram_eq {ts us : List Token} (h : Insertions ts us) (host : Host)
    (junk : Junk) (labels : List Label) :
    assembleProgram host junk us labels = assembleProgram host junk ts labels := by
  rw [assembleProgram, assembleProgram,
    scan_insertions assembleProgram_settles (assembleProgram_settled rfl rfl) h]

theorem insertions_unchanged (host : Host) (junk : Junk) (labels : List Label)
    {ts us : List Token} (h : Insertions ts us) :
    indexLabels us = indexLabels ts ∧
      assembleProgram host junk us labels = assembleProgram host junk ts labels :=
  ⟨h.indexLabels_eq, h.assembleProgram_eq host junk labels⟩

namespace InsertedComments

def lineEnd : Token := ⟨none, .symbolExpressionEnd⟩
def hash : Token := ⟨none, .symbolHash⟩
def nop : Token := ⟨some ['n', 'o', 'p'], .word⟩

theorem nop_commented :
    Insertions [nop, lineEnd] [hash, nop, lineEnd, nop, hash, hash, lineEnd, lineEnd] := by
  have htrailing : Insertion [nop, lineEnd] [nop, hash, hash, lineEnd] :=
    .trailing [nop] [] rfl (List.forall_mem_singleton.mpr rfl) rfl
  have hcomment : Insertion [nop, hash, hash, lineEnd]
      [hash, nop, lineEnd, nop, hash, hash, lineEnd] :=
    .commentLine _ .nil rfl (List.forall_mem_singleton.mpr rfl) rfl
  have hblank : Insertion ([hash, nop, lineEnd, nop, hash, hash, lineEnd] ++ [])
      ([hash, nop, lineEnd, nop, hash, hash, lineEnd] ++ [lineEnd]) :=
    .blankLine [] (Segments.terminated_iff.mpr (by decide)) rfl
  exact ((Relation.ReflTransGen.single htrailing).tail hcomment).tail hblank

theorem insertions_unchanged_nop :
    indexLabels [hash, nop, lineEnd, nop, hash, hash, lineEnd, lineEnd] =
        indexLabels [nop, lineEnd] ∧
      assembleProgram Host.integer (fun _ _ => .zero)
          [hash, nop, lineEnd, nop, hash, hash, lineEnd, lineEnd] [] =
        assembleProgram Host.integer (fun _ _ => .zero) [nop, lineEnd] [] :=
  insertions_unchanged Host.integer (fun _ _ => .zero) [] nop_commented

end InsertedComments

end CAt
