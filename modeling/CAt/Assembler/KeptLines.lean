import CAt.Assembler.InstructionOrder

namespace CAt

open GuardedLoop.Loop (bind_ok)
open Segments (Split)
open InstructionOrder (emitAll programAfter programAfter_line)
open AssembleProgram (end_empty end_dropped end_emitted cleared_secondIsColon)

def completedLines (ts : List Token) : List (List Token) :=
  (ts.splitOnP isLineEnd).dropLast.map stripComment

-- The lines that assemble_program hands to assemble_line, whatever their shape; `stale` says
-- that the second token of the buffer is still the colon of a dropped line.
def kept : Bool → List (List Token) → List (List Token)
  | _, [] => []
  | stale, [] :: ls => kept stale ls
  | stale, [w] :: ls =>
    if w.type == .word && stale then kept stale ls else [w] :: kept stale ls
  | _, (w :: t :: l) :: ls =>
    if w.type == .word && t.type == .symbolColon then kept true ls
    else (w :: t :: l) :: kept false ls

def keptLines (ts : List Token) : List (List Token) := kept false (completedLines ts)

section Completed

variable {raw rest : List Token} {e : Token}

theorem completedLines_last (inside : ∀ t ∈ raw, isLineEnd t = false) :
    completedLines raw = [] := by
  rw [completedLines, List.splitOnP_eq_singleton inside]
  rfl

theorem completedLines_append (inside : ∀ t ∈ raw, isLineEnd t = false)
    (atEnd : isLineEnd e = true) (rest : List Token) :
    completedLines (raw ++ e :: rest) = stripComment raw :: completedLines rest := by
  rw [completedLines, List.splitOnP_append_cons_of_forall_mem inside e atEnd,
    List.dropLast_cons_of_ne_nil (List.splitOnP_ne_nil _ _), List.map_cons]
  rfl

end Completed

structure AtLineStart (stale : Bool) (line : LineBuffer) : Prop where
  notComment : line.lineIsComment = false
  ic : line.ic = 0
  colon : line.secondIsColon = stale

theorem atLineStart_empty : AtLineStart false .empty := ⟨rfl, rfl, rfl⟩

section LineEnd

variable {host : Host} {junk : Junk} {labels : List Label} {stale : Bool} {line : LineBuffer}
  {w t : Token} {l : List Token} {program : List Instruction}

theorem lineEnd_empty (h : AtLineStart stale line) :
    ∃ line', assembleProgramLineEnd host junk labels (line.filled []) program =
      .ok (line', program) ∧ AtLineStart stale line' := by
  rw [LineBuffer.filled_nil h.notComment]
  exact ⟨_, end_empty host junk labels program h.ic, h.notComment, rfl, h.colon⟩

theorem lineEnd_dropped (hword : (line.filled l).firstIsWord = true)
    (hcolon : (line.filled l).secondIsColon = true) (hic : (line.filled l).ic ≠ 0) :
    ∃ line', assembleProgramLineEnd host junk labels (line.filled l) program =
      .ok (line', program) ∧ AtLineStart true line' :=
  ⟨_, end_dropped host junk labels program hword hcolon hic, rfl, rfl, hcolon⟩

theorem lineEnd_emitted (h : AtLineStart stale line) (hfits : l.length ≤ lineSize)
    (hne : l ≠ []) (hkeep : ((line.filled l).firstIsWord && (line.filled l).secondIsColon) = false) :
    ∃ line', AtLineStart (decide (l.length = 1) && stale) line' ∧
      assembleProgramLineEnd host junk labels (line.filled l) program =
        (fun program => (line', program)) <$> emitInstruction host junk labels l program := by
  have hlength : (line.filled l).ic = l.length := by rw [LineBuffer.filled, h.ic, Nat.zero_add]
  have hic : (line.filled l).ic ≠ 0 := by
    rw [hlength]
    exact fun hz => hne (List.length_eq_zero_iff.mp hz)
  have hend := end_emitted host junk labels program hkeep hic
  rw [LineBuffer.tokens_filled h.ic hfits] at hend
  refine ⟨_, ⟨rfl, rfl, ?_⟩, hend⟩
  rw [cleared_secondIsColon, hlength]
  rcases l with _ | ⟨w, _ | ⟨t, l⟩⟩
  · exact absurd rfl hne
  · rw [filled_single_secondIsColon h.ic, h.colon]
    rfl
  · simp

end LineEnd

section Scan

variable {host : Host} {junk : Junk} {labels : List Label} {raw rest l : List Token} {e : Token}
  {line line' : LineBuffer} {stale stale' : Bool} {ls : List (List Token)}
  {program program' : List Instruction}

def KeepsFrom (host : Host) (junk : Junk) (labels : List Label) (ts : List Token) : Prop :=
  ∀ stale line program program', AtLineStart stale line →
    programAfter host junk labels ts (line, program) = .ok program' →
      emitAll host junk labels (kept stale (completedLines ts)) program = .ok program'

theorem KeepsFrom.dropped (hrest : KeepsFrom host junk labels rest)
    (hend : ∃ line', assembleProgramLineEnd host junk labels line program =
      .ok (line', program) ∧ AtLineStart stale line')
    (h : assembleProgramLineEnd host junk labels line program >>= programAfter host junk labels rest =
      .ok program') :
    emitAll host junk labels (kept stale (completedLines rest)) program = .ok program' := by
  obtain ⟨line', hline, h'⟩ := hend
  rw [hline] at h
  exact hrest stale line' program program' h' h

theorem KeepsFrom.emitted (hrest : KeepsFrom host junk labels rest)
    (hend : ∃ line', AtLineStart stale line' ∧
      assembleProgramLineEnd host junk labels line program =
        (fun program => (line', program)) <$> emitInstruction host junk labels l program)
    (h : assembleProgramLineEnd host junk labels line program >>= programAfter host junk labels rest =
      .ok program') :
    emitAll host junk labels (l :: kept stale (completedLines rest)) program = .ok program' := by
  obtain ⟨line', h', hline⟩ := hend
  rw [hline] at h
  rw [emitAll, List.foldlM_cons]
  cases hemit : emitInstruction host junk labels l program with
  | error fault =>
    rw [hemit] at h
    cases h
  | ok mid =>
    rw [hemit] at h
    exact hrest stale line' mid program' h' h

theorem keeps_word (hrest : KeepsFrom host junk labels rest) (hstart : AtLineStart stale line)
    (hfits : l.length ≤ lineSize) (hne : l ≠ [])
    (h : assembleProgramLineEnd host junk labels (line.filled l) program >>=
      programAfter host junk labels rest = .ok program') :
    emitAll host junk labels
      (if (line.filled l).firstIsWord && (line.filled l).secondIsColon then
        kept true (completedLines rest)
      else l :: kept (decide (l.length = 1) && stale) (completedLines rest)) program =
        .ok program' := by
  have hic : (line.filled l).ic ≠ 0 := by
    rw [LineBuffer.filled, hstart.ic, Nat.zero_add]
    exact fun hz => hne (List.length_eq_zero_iff.mp hz)
  split
  · rename_i hdrop
    obtain ⟨hword, hcolon⟩ := Bool.and_eq_true_iff.mp hdrop
    exact hrest.dropped (lineEnd_dropped hword hcolon hic) h
  · rename_i hkeep
    exact hrest.emitted (lineEnd_emitted hstart hfits hne (Bool.eq_false_iff.mpr hkeep)) h

theorem keeps_line (hrest : KeepsFrom host junk labels rest) (hstart : AtLineStart stale line)
    (hfits : l.length ≤ lineSize)
    (h : assembleProgramLineEnd host junk labels (line.filled l) program >>=
      programAfter host junk labels rest = .ok program') :
    emitAll host junk labels (kept stale (l :: completedLines rest)) program = .ok program' := by
  rcases l with _ | ⟨w, _ | ⟨t, l⟩⟩
  · exact hrest.dropped (lineEnd_empty hstart) h
  · have hcolon := (filled_single_secondIsColon (w := w) hstart.ic).trans hstart.colon
    have hline := keeps_word hrest hstart hfits (List.cons_ne_nil _ _) h
    rw [filled_firstIsWord hstart.ic, hcolon] at hline
    cases stale with
    | true => exact hline
    | false =>
      rw [Bool.and_false] at hline
      rw [kept, Bool.and_false]
      exact hline
  · have hline := keeps_word hrest hstart hfits (List.cons_ne_nil _ _) h
    rw [filled_firstIsWord hstart.ic, filled_secondIsColon hstart.ic] at hline
    exact hline

theorem programAfter_last (inside : ∀ t ∈ raw, isLineEnd t = false)
    (hstart : AtLineStart stale line)
    (h : programAfter host junk labels raw (line, program) = .ok program') :
    program' = program := by
  by_cases hfits : line.ic + (stripComment raw).length ≤ lineSize
  · obtain ⟨comment, hbody⟩ := scan_body inside line hstart.notComment hfits program
    rw [programAfter, hbody] at h
    cases h
    rfl
  · rw [programAfter, scan_overflow inside line hstart.notComment (hstart.ic ▸ Nat.zero_le _)
      (Nat.lt_of_not_le hfits)] at h
    cases h

theorem keepsFrom (ts : List Token) : KeepsFrom host junk labels ts := by
  induction Segments.split isLineEnd ts with
  | last inside =>
    intro stale line program program' hstart h
    rw [completedLines_last inside, programAfter_last inside hstart h]
    rfl
  | @cons raw rest e inside atEnd tail ih =>
    intro stale line program program' hstart h
    by_cases hfits : line.ic + (stripComment raw).length ≤ lineSize
    · rw [programAfter_line inside atEnd hstart.notComment hfits] at h
      rw [completedLines_append inside atEnd]
      apply keeps_line ih hstart _ h
      rwa [hstart.ic, Nat.zero_add] at hfits
    · rw [programAfter, List.foldlM_append, scan_overflow inside line hstart.notComment
        (hstart.ic ▸ Nat.zero_le _) (Nat.lt_of_not_le hfits)] at h
      cases h

theorem assembleProgram_kept {ts : List Token} (h : assembleProgram host junk ts labels = .ok program) :
    emitAll host junk labels (keptLines ts) [] = .ok program :=
  keepsFrom ts false .empty [] program atLineStart_empty h

end Scan

end CAt
