import CAt.Assembler.LineModes
import Mathlib.Data.List.Chain

namespace CAt

open GuardedLoop.Loop (bind_ok)
open Segments (Terminated)

namespace InstructionOrder

-- The lines that reach assemble_line; `stale` says that tk still holds a label definition.
def emitted : Bool → List (List Token) → List (List Token)
  | _, [] => []
  | stale, l :: ls =>
    if isLabelLine l then emitted true ls
    else if stale && l.length == 1 then emitted true ls
    else l :: emitted false ls

def modeOf : Bool → Mode
  | false => .clean
  | true => .stale

def emitAll (host : Host) (junk : Junk) (labels : List Label) (ls : List (List Token))
    (program : List Instruction) : Except PassFault (List Instruction) :=
  ls.foldlM (fun program l => emitInstruction host junk labels l program) program

theorem modeOf_ic (stale : Bool) : (modeOf stale).ic = 0 := by
  cases stale with
  | false => rfl
  | true => rfl

theorem modeOf_clean_or {stale : Bool} {p : Prop} (h : stale = false ∨ ¬ p) :
    modeOf stale = .clean ∨ ¬ p := by
  rcases h with rfl | h
  · exact .inl rfl
  · exact .inr h

section Equations

variable {stale : Bool} {l : List Token} {ls : List (List Token)}

theorem emitted_label (hl : isLabelLine l = true) :
    emitted stale (l :: ls) = emitted true ls := by
  rw [emitted, if_pos hl]

theorem emitted_single (hl : isInstructionLine l = true) (hlen : l.length = 1) :
    emitted true (l :: ls) = emitted true ls := by
  rw [emitted, if_neg (not_isLabelLine_of_instruction hl), if_pos (by simp [hlen])]

theorem emitted_instruction (hl : isInstructionLine l = true)
    (hlen : stale = false ∨ l.length ≠ 1) :
    emitted stale (l :: ls) = l :: emitted false ls := by
  rw [emitted, if_neg (not_isLabelLine_of_instruction hl), if_neg]
  rcases hlen with rfl | hlen
  · simp
  · simp [hlen]

end Equations

section Scan

variable {host : Host} {junk : Junk} {labels : List Label} {raw rest l : List Token} {e : Token}
  {line line' : LineBuffer} {stale stale' : Bool} {program : List Instruction}

def programAfter (host : Host) (junk : Junk) (labels : List Label) (ts : List Token)
    (state : LineBuffer × List Instruction) : Except PassFault (List Instruction) :=
  Prod.snd <$> ts.foldlM (scanToken (assembleProgramLineEnd host junk labels)) state

def EmitsFrom (host : Host) (junk : Junk) (labels : List Label) (stale : Bool)
    (ts : List Token) : Prop :=
  ∀ line program, InMode (modeOf stale) line → programAfter host junk labels ts (line, program) =
    emitAll host junk labels (emitted stale (items ts)) program

theorem programAfter_line (inside : ∀ t ∈ raw, isLineEnd t = false) (atEnd : isLineEnd e = true)
    (h : line.lineIsComment = false) (hfits : line.ic + (stripComment raw).length ≤ lineSize) :
    programAfter host junk labels (raw ++ e :: rest) (line, program) =
      assembleProgramLineEnd host junk labels (line.filled (stripComment raw)) program >>=
        programAfter host junk labels rest := by
  rw [programAfter, scan_line inside atEnd rest line h hfits]
  cases assembleProgramLineEnd host junk labels (line.filled (stripComment raw)) program with
  | error fault => rfl
  | ok state => rfl

theorem EmitsFrom.lineEnd (hrest : EmitsFrom host junk labels stale' rest)
    (hend : assembleProgramLineEnd host junk labels line program = .ok (line', program))
    (h' : InMode (modeOf stale') line') :
    assembleProgramLineEnd host junk labels line program >>= programAfter host junk labels rest =
      emitAll host junk labels (emitted stale' (items rest)) program := by
  rw [hend]
  exact hrest line' program h'

theorem emits_instruction (hrest : ∀ stale, EmitsFrom host junk labels stale rest)
    (h : InMode (modeOf stale) line) (hl : isInstructionLine l = true)
    (hwidth : l.length ≤ lineSize) :
    assembleProgramLineEnd host junk labels (line.filled l) program >>=
        programAfter host junk labels rest =
      emitAll host junk labels (emitted stale (l :: items rest)) program := by
  by_cases hlost : stale = true ∧ l.length = 1
  · obtain ⟨rfl, hlen⟩ := hlost
    obtain ⟨line', hend, h'⟩ := AssembleProgram.lineEnd_single host junk labels program h hl hlen
    rw [emitted_single hl hlen]
    exact (hrest true).lineEnd hend h'
  · have hlen := not_stale_or hlost
    obtain ⟨line', h', hend⟩ := AssembleProgram.lineEnd_instruction host junk labels program h
      (modeOf_ic stale) hl (modeOf_clean_or hlen) hwidth
    rw [emitted_instruction hl hlen, hend, emitAll, List.foldlM_cons]
    cases hemit : emitInstruction host junk labels l program with
    | error fault => rfl
    | ok program' => exact hrest false line' program' h'

theorem scan_emits {ts : List Token} (hterminated : Terminated isLineEnd ts) (hshaped : Shaped ts)
    (stale : Bool) : EmitsFrom host junk labels stale ts := by
  induction hterminated generalizing stale with
  | nil =>
    intro line program h
    rfl
  | @cons raw rest e inside atEnd tail ih =>
    obtain ⟨hshape, hwidth⟩ := hshaped.head inside atEnd
    have hrest := ih (hshaped.tail inside atEnd)
    intro line program h
    have hic := modeOf_ic stale
    have hline : line.ic = 0 := h.ic.trans hic
    rw [programAfter_line inside atEnd h.notComment (by omega), items_append inside atEnd]
    rcases hshape with hempty | hl | hl
    · obtain ⟨line', hend, h'⟩ := AssembleProgram.lineEnd_empty host junk labels program h hic
      rw [if_pos hempty, hempty, LineBuffer.filled_nil h.notComment]
      exact (hrest stale).lineEnd hend h'
    · obtain ⟨line', hend, h'⟩ := AssembleProgram.lineEnd_label host junk labels program h hic hl
      rw [if_neg (ne_nil_of_label hl), emitted_label hl]
      exact (hrest true).lineEnd hend h'
    · rw [if_neg (ne_nil_of_instruction hl)]
      exact emits_instruction hrest h hl hwidth

end Scan

section EmitAll

variable {host : Host} {junk : Junk} {labels : List Label}

theorem emitInstruction_ok {l : List Token} {program program' : List Instruction}
    (h : emitInstruction host junk labels l program = .ok program') :
    ∃ inst, assembleLine host (junk program.length) labels l = .ok inst ∧
      program' = program ++ [inst] := by
  unfold emitInstruction at h
  split at h
  · cases h
  · split at h
    · cases h
      exact ⟨_, ‹_›, rfl⟩
    · cases h

theorem emitAll_ok {ls : List (List Token)} {program program' : List Instruction}
    (h : emitAll host junk labels ls program = .ok program') :
    ∃ insts, program' = program ++ insts ∧ insts.length = ls.length ∧
      ∀ (i : Nat) (l : List Token) (inst : Instruction), ls[i]? = some l → insts[i]? = some inst →
        assembleLine host (junk (program.length + i)) labels l = .ok inst := by
  induction ls generalizing program with
  | nil =>
    cases h
    exact ⟨[], by simp, rfl, nofun⟩
  | cons l ls ih =>
    rw [emitAll, List.foldlM_cons] at h
    obtain ⟨mid, hl, hls⟩ := bind_ok h
    obtain ⟨inst, hinst, rfl⟩ := emitInstruction_ok hl
    obtain ⟨insts, rfl, hlen, hall⟩ := ih hls
    refine ⟨inst :: insts, by simp, by simp [hlen], ?_⟩
    intro i l' inst' hl' hinst'
    cases i with
    | zero =>
      cases hl'
      cases hinst'
      exact hinst
    | succ i =>
      have hshift : program.length + (i + 1) = (program ++ [inst]).length + i := by
        rw [List.length_append, List.length_singleton]
        omega
      rw [hshift]
      exact hall i l' inst' hl' hinst'

theorem emitAll_error {ls : List (List Token)} {program : List Instruction} {fault : PassFault}
    (h : emitAll host junk labels ls program = .error fault)
    (hroom : program.length + ls.length ≤ programSize) : ∃ f, fault = .line f := by
  induction ls generalizing program with
  | nil => cases h
  | cons l ls ih =>
    rw [List.length_cons] at hroom
    rw [emitAll, List.foldlM_cons] at h
    cases hl : emitInstruction host junk labels l program with
    | ok mid =>
      rw [hl] at h
      obtain ⟨inst, -, rfl⟩ := emitInstruction_ok hl
      apply ih h
      rw [List.length_append, List.length_singleton]
      omega
    | error fault' =>
      rw [hl] at h
      cases h
      unfold emitInstruction at hl
      split at hl
      · cases hl
        exact ⟨_, rfl⟩
      · rw [if_pos (by omega)] at hl
        cases hl

theorem emitAll_append {ls ls' : List (List Token)} {program program' : List Instruction}
    (h : emitAll host junk labels (ls ++ ls') program = .ok program') :
    ∃ mid, emitAll host junk labels ls program = .ok mid ∧
      emitAll host junk labels ls' mid = .ok program' := by
  rw [emitAll, List.foldlM_append] at h
  exact bind_ok h

end EmitAll

def Kept (line next : List Token) : Prop := isLabelLine line = true → next.length ≠ 1

theorem emitted_sublist {ls : List (List Token)}
    (hshape : ∀ l ∈ ls, isLabelLine l = true ∨ isInstructionLine l = true) (stale : Bool) :
    (emitted stale ls).Sublist (ls.filter isInstructionLine) := by
  induction ls generalizing stale with
  | nil => exact List.Sublist.refl _
  | cons l ls ih =>
    obtain ⟨hl, hls⟩ := List.forall_mem_cons.mp hshape
    have hrest := ih hls
    have hdrop : (emitted true ls).Sublist ((l :: ls).filter isInstructionLine) :=
      (hrest true).trans ((List.sublist_cons_self l ls).filter _)
    rcases hl with hl | hl
    · rw [emitted_label hl]
      exact hdrop
    · by_cases hlost : stale = true ∧ l.length = 1
      · obtain ⟨rfl, hlen⟩ := hlost
        rw [emitted_single hl hlen]
        exact hdrop
      · rw [emitted_instruction hl (not_stale_or hlost), List.filter_cons_of_pos hl]
        exact (hrest false).cons_cons l

theorem emitted_eq_iff {ls : List (List Token)}
    (hshape : ∀ l ∈ ls, isLabelLine l = true ∨ isInstructionLine l = true) (stale : Bool) :
    emitted stale ls = ls.filter isInstructionLine ↔
      (stale = true → ∀ l ∈ ls.head?, l.length ≠ 1) ∧ ls.IsChain Kept := by
  induction ls generalizing stale with
  | nil => simp [emitted]
  | cons l ls ih =>
    obtain ⟨hl, hls⟩ := List.forall_mem_cons.mp hshape
    have ih := ih hls
    rw [List.isChain_cons]
    rcases hl with hl | hl
    · have hnot : ¬ isInstructionLine l = true :=
        fun hinst => not_isLabelLine_of_instruction hinst hl
      have htwo := length_of_label hl
      rw [emitted_label hl, List.filter_cons_of_neg hnot, ih true]
      simp [Kept, hl, htwo]
    · have hnot := not_isLabelLine_of_instruction hl
      rw [List.filter_cons_of_pos hl]
      by_cases hlost : stale = true ∧ l.length = 1
      · obtain ⟨rfl, hlen⟩ := hlost
        rw [emitted_single hl hlen]
        constructor
        · intro h
          have hle := (emitted_sublist hls true).length_le
          rw [h, List.length_cons] at hle
          omega
        · rintro ⟨h, -⟩
          exact absurd hlen (h rfl l rfl)
      · rw [emitted_instruction hl (not_stale_or hlost), List.cons_inj_right, ih false]
        constructor
        · rintro ⟨-, hchain⟩
          refine ⟨?_, fun next _ hl => absurd hl hnot, hchain⟩
          intro hstale first hfirst hlen
          cases hfirst
          exact hlost ⟨hstale, hlen⟩
        · rintro ⟨-, -, hchain⟩
          exact ⟨nofun, hchain⟩

def InstructionsKept (host : Host) (junk : Junk) (labels : List Label) (ts : List Token) : Prop :=
  ∃ program, assembleProgram host junk ts labels = .ok program ∧
    program.length = (instructionLines ts).length ∧
    ∀ (i : Nat) (line : List Token) (inst : Instruction), (instructionLines ts)[i]? = some line →
      program[i]? = some inst → assembleLine host (junk i) labels line = .ok inst

theorem assembleProgram_eq (host : Host) (junk : Junk) (labels : List Label) {ts : List Token}
    (hterminated : Terminated isLineEnd ts) (hshaped : Shaped ts) :
    assembleProgram host junk ts labels = emitAll host junk labels (emitted false (items ts)) [] :=
  scan_emits hterminated hshaped false .empty [] inMode_empty

theorem emitted_instructionLines {ts : List Token} (hshaped : Shaped ts) (stale : Bool) :
    (emitted stale (items ts)).Sublist (instructionLines ts) := by
  have hsublist := emitted_sublist (fun l hl => hshaped.item hl) stale
  have hitems : (items ts).filter isInstructionLine = instructionLines ts := filter_items rfl ts
  rwa [hitems] at hsublist

theorem emitAll_runs {host : Host} {junk : Junk} {labels : List Label} {ts : List Token}
    (hwf : WellFormed ts)
    (hline : ∀ fault, assembleProgram host junk ts labels ≠ .error (.line fault)) :
    ∃ program, emitAll host junk labels (emitted false (items ts)) [] = .ok program := by
  have hassemble := assembleProgram_eq host junk labels
    (Segments.terminated_iff.mpr hwf.terminated) hwf.toShaped
  cases hrun : emitAll host junk labels (emitted false (items ts)) [] with
  | ok program => exact ⟨program, rfl⟩
  | error fault =>
    have hroom : ([] : List Instruction).length + (emitted false (items ts)).length ≤
        programSize := by
      have hle := (emitted_instructionLines hwf.toShaped false).length_le
      have hbound := hwf.instructions
      rw [List.length_nil]
      omega
    obtain ⟨f, rfl⟩ := emitAll_error hrun hroom
    exact absurd (hassemble.trans hrun) (hline f)

theorem instructionsKept_iff (host : Host) (junk : Junk) (labels : List Label) (ts : List Token)
    (hwf : WellFormed ts)
    (hline : ∀ fault, assembleProgram host junk ts labels ≠ .error (.line fault)) :
    InstructionsKept host junk labels ts ↔ (items ts).IsChain Kept := by
  have hitems : (items ts).filter isInstructionLine = instructionLines ts := filter_items rfl ts
  have hchain := emitted_eq_iff (fun l hl => hwf.toShaped.item hl) false
  have hassemble := assembleProgram_eq host junk labels
    (Segments.terminated_iff.mpr hwf.terminated) hwf.toShaped
  have hkept : emitted false (items ts) = instructionLines ts ↔ (items ts).IsChain Kept := by
    rw [← hitems, hchain]
    exact ⟨fun h => h.2, fun h => ⟨nofun, h⟩⟩
  obtain ⟨program, hrun⟩ := emitAll_runs hwf hline
  obtain ⟨insts, hinsts, hlen, hall⟩ := emitAll_ok hrun
  rw [List.nil_append] at hinsts
  subst hinsts
  rw [← hkept]
  constructor
  · rintro ⟨program', hprogram, hlength, -⟩
    rw [hassemble, hrun] at hprogram
    cases hprogram
    rw [hlen] at hlength
    exact (emitted_instructionLines hwf.toShaped false).eq_of_length hlength
  · intro heq
    rw [heq] at hlen hall
    refine ⟨program, hassemble.trans hrun, hlen, ?_⟩
    intro i line inst hl hinst
    have h := hall i line inst hl hinst
    rw [List.length_nil, Nat.zero_add] at h
    exact h

def lineEnd : Token := ⟨none, .symbolExpressionEnd⟩
def colon : Token := ⟨none, .symbolColon⟩
def halt : Token := ⟨some ['h', 'a', 'l', 't'], .word⟩
def rec : Token := ⟨some ['r', 'e', 'c'], .word⟩
def start : Token := ⟨some ['s', 't', 'a', 'r', 't'], .word⟩

theorem wellFormed_rec_halt : WellFormed [rec, lineEnd, halt, lineEnd] where
  shape := by decide
  width := by decide
  terminated := by decide
  instructions := by decide

theorem instructionsKept_iff_rec_halt :
    InstructionsKept Host.integer (fun _ _ => .zero) [] [rec, lineEnd, halt, lineEnd] ↔
      (items [rec, lineEnd, halt, lineEnd]).IsChain Kept :=
  instructionsKept_iff Host.integer (fun _ _ => .zero) [] _ wellFormed_rec_halt nofun

theorem wellFormed_start_halt : WellFormed [start, colon, lineEnd, halt, lineEnd] where
  shape := by decide
  width := by decide
  terminated := by decide
  instructions := by decide

theorem halt_after_label_lost :
    WellFormed [start, colon, lineEnd, halt, lineEnd] ∧
      assembleProgram Host.integer (fun _ _ => .zero) [start, colon, lineEnd, halt, lineEnd] [] =
        .ok [] ∧
      ¬ InstructionsKept Host.integer (fun _ _ => .zero) []
        [start, colon, lineEnd, halt, lineEnd] := by
  refine ⟨wellFormed_start_halt, rfl, ?_⟩
  rintro ⟨program, hprogram, hlength, -⟩
  cases hprogram
  exact absurd hlength (by decide)

end InstructionOrder

end CAt
