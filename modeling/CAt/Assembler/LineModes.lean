import CAt.Assembler.SourceLines

namespace CAt

-- What a line can find in the buffer when it starts: nothing, the label definition of the line
-- before, or that definition with a one-token line already stored over its first token.
inductive Mode where
  | clean
  | stale
  | held
deriving DecidableEq

namespace Mode

def ic : Mode → Nat
  | clean | stale => 0
  | held => 1

def colon : Mode → Bool
  | clean => false
  | stale | held => true

theorem ic_cases (mode : Mode) : mode.ic = 0 ∨ mode = .held := by
  cases mode with
  | clean => exact .inl rfl
  | stale => exact .inl rfl
  | held => exact .inr rfl

theorem clean_or_of_not {mode : Mode} {p : Prop} (hic : mode.ic = 0) (h : ¬ (mode = .stale ∧ p)) :
    mode = .clean ∨ ¬ p := by
  cases mode with
  | clean => exact .inl rfl
  | stale => exact .inr fun hp => h ⟨rfl, hp⟩
  | held => cases hic

end Mode

theorem not_stale_or {stale : Bool} {p : Prop} (h : ¬ (stale = true ∧ p)) :
    stale = false ∨ ¬ p := by
  cases stale with
  | false => exact .inl rfl
  | true => exact .inr fun hp => h ⟨rfl, hp⟩

structure InMode (mode : Mode) (line : LineBuffer) : Prop where
  notComment : line.lineIsComment = false
  ic : line.ic = mode.ic
  colon : line.secondIsColon = mode.colon
  word : mode.colon = true → line.firstIsWord = true

theorem inMode_empty : InMode .clean .empty := ⟨rfl, rfl, rfl, nofun⟩

section Filled

variable {mode : Mode} {line : LineBuffer} {w t : Token} {l : List Token}

theorem isLabelLine_inv (h : isLabelLine l = true) :
    ∃ w c, l = [w, c] ∧ w.type = .word ∧ c.type = .symbolColon := by
  match l, h with
  | [w, c], h =>
    simp only [isLabelLine, Bool.and_eq_true, beq_iff_eq] at h
    exact ⟨w, c, rfl, h.1, h.2⟩

theorem isInstructionLine_cons (h : isInstructionLine (w :: l) = true) :
    isKeywordWord w = true := by
  cases l with
  | nil => exact h
  | cons t l =>
    simp only [isInstructionLine, Bool.and_eq_true] at h
    exact h.1

theorem isInstructionLine_second (h : isInstructionLine (w :: t :: l) = true) :
    t.type ≠ .symbolColon := by
  simp only [isInstructionLine, Bool.and_eq_true, bne_iff_ne] at h
  exact h.2

theorem ne_nil_of_label (h : isLabelLine l = true) : l ≠ [] := by
  rintro rfl
  cases h

theorem ne_nil_of_instruction (h : isInstructionLine l = true) : l ≠ [] := by
  rintro rfl
  cases h

theorem isKeywordWord_type (h : isKeywordWord w = true) : w.type = .word := by
  simp only [isKeywordWord, Bool.and_eq_true, beq_iff_eq] at h
  exact h.1

theorem isLabelLine_of_instruction (h : isInstructionLine l = true) : isLabelLine l = false := by
  match l, h with
  | [w], _ => rfl
  | w :: t :: l, h =>
    cases hl : isLabelLine (w :: t :: l) with
    | false => rfl
    | true =>
      obtain ⟨_, c, heq, _, hc⟩ := isLabelLine_inv hl
      cases heq
      exact absurd hc (isInstructionLine_second h)

theorem not_isLabelLine_of_instruction (h : isInstructionLine l = true) :
    ¬ isLabelLine l = true :=
  Bool.eq_false_iff.mp (isLabelLine_of_instruction h)

theorem length_of_label (h : isLabelLine l = true) : l.length = 2 := by
  obtain ⟨w, c, rfl, -, -⟩ := isLabelLine_inv h
  rfl

theorem cons_of_line (h : isLabelLine l = true ∨ isInstructionLine l = true) :
    ∃ w l', l = w :: l' ∧ w.type = .word := by
  rcases h with h | h
  · obtain ⟨w, c, rfl, hw, -⟩ := isLabelLine_inv h
    exact ⟨w, [c], rfl, hw⟩
  · cases l with
    | nil => cases h
    | cons w l' => exact ⟨w, l', rfl, isKeywordWord_type (isInstructionLine_cons h)⟩

theorem filled_firstIsWord (hic : line.ic = 0) :
    (line.filled (w :: l)).firstIsWord = (w.type == .word) := by
  simp [LineBuffer.firstIsWord, LineBuffer.filled, LineBuffer.fill, hic]

theorem filled_secondIsColon (hic : line.ic = 0) :
    (line.filled (w :: t :: l)).secondIsColon = (t.type == .symbolColon) := by
  simp [LineBuffer.secondIsColon, LineBuffer.filled, LineBuffer.fill, hic]

theorem filled_single_secondIsColon (hic : line.ic = 0) :
    (line.filled [w]).secondIsColon = line.secondIsColon := by
  simp [LineBuffer.secondIsColon, LineBuffer.filled, LineBuffer.fill, hic]

theorem filled_held_secondIsColon (hic : line.ic = 1) :
    (line.filled (w :: l)).secondIsColon = (w.type == .symbolColon) := by
  simp [LineBuffer.secondIsColon, LineBuffer.filled, LineBuffer.fill, hic]

end Filled

def lineName : List Token → Option (List Char)
  | [] => none
  | w :: _ => w.literall

section LineEnd

variable {mode : Mode} {line : LineBuffer} {l : List Token}

theorem filled_label (hic : line.ic = 0) (hl : isLabelLine l = true) :
    (line.filled l).firstIsWord = true ∧ (line.filled l).secondIsColon = true ∧
      (line.filled l).ic = 2 ∧ ((line.filled l).tk 0).literall = lineName l := by
  obtain ⟨w, c, rfl, hw, hc⟩ := isLabelLine_inv hl
  refine ⟨?_, ?_, ?_, ?_⟩
  · rw [filled_firstIsWord hic, hw]
    rfl
  · rw [filled_secondIsColon hic, hc]
    rfl
  · rw [LineBuffer.filled, hic]
    rfl
  · simp [LineBuffer.filled, LineBuffer.fill, hic, lineName]

-- An instruction line keeps a colon of an earlier line in sight only when it has one token.
theorem filled_instruction_colon (h : InMode mode line) (hic : mode.ic = 0)
    (hl : isInstructionLine l = true) (hlen : mode = .clean ∨ l.length ≠ 1) :
    (line.filled l).secondIsColon = false ∧ (line.filled l).ic ≠ 0 := by
  have hline : line.ic = 0 := h.ic.trans hic
  match l, hl with
  | [w], _ =>
    rcases hlen with rfl | hlen
    · refine ⟨?_, ?_⟩
      · rw [filled_single_secondIsColon hline, h.colon]
        rfl
      · simp [LineBuffer.filled]
    · exact absurd rfl hlen
  | w :: t :: l, hl =>
    refine ⟨?_, ?_⟩
    · rw [filled_secondIsColon hline, beq_eq_false_iff_ne]
      exact isInstructionLine_second hl
    · simp [LineBuffer.filled]

theorem filled_single (h : InMode .stale line) (hl : isInstructionLine l = true)
    (hlen : l.length = 1) :
    (line.filled l).firstIsWord = true ∧ (line.filled l).secondIsColon = true ∧
      (line.filled l).ic = 1 := by
  have hline : line.ic = 0 := h.ic
  match l, hl with
  | [w], hl =>
    refine ⟨?_, ?_, ?_⟩
    · rw [filled_firstIsWord hline, isKeywordWord_type hl]
      rfl
    · rw [filled_single_secondIsColon hline, h.colon]
      rfl
    · rw [LineBuffer.filled, hline]
      rfl

theorem firstIsWord_inMode_stale {line : LineBuffer} (hc : line.lineIsComment = false)
    (hword : line.firstIsWord = true) (hcolon : line.secondIsColon = true) :
    InMode .stale { line with ic := 0 } :=
  ⟨hc, rfl, hcolon, fun _ => hword⟩

namespace IndexLabels

variable (out : LabelIndex)

theorem lineEnd_empty (h : InMode mode line) :
    ∃ line', indexLabelsLineEnd line out = .ok (line', out) ∧ InMode mode line' := by
  cases mode with
  | clean =>
    refine ⟨{ line with ic := 0 }, ?_, h.notComment, rfl, h.colon, nofun⟩
    simp [indexLabelsLineEnd, h.ic, Mode.ic]
  | stale =>
    refine ⟨{ line with ic := 0 }, ?_, h.notComment, rfl, h.colon, h.word⟩
    simp [indexLabelsLineEnd, h.ic, Mode.ic]
  | held =>
    refine ⟨line, ?_, h⟩
    simp [indexLabelsLineEnd, h.ic, Mode.ic, h.colon, Mode.colon, h.word rfl]

theorem lineEnd_label (h : InMode mode line) (hic : mode.ic = 0) (hl : isLabelLine l = true)
    (hroom : out.labels.length < labelsSize) :
    ∃ line', indexLabelsLineEnd (line.filled l) out = .ok (line', { out with
      labels := out.labels ++ [⟨lineName l, BitVec.ofNat 32 out.lc⟩] }) ∧ InMode .stale line' := by
  obtain ⟨hword, hcolon, htwo, hname⟩ := filled_label (h.ic.trans hic) hl
  refine ⟨{ line.filled l with ic := 0 }, ?_, firstIsWord_inMode_stale rfl hword hcolon⟩
  simp [indexLabelsLineEnd, hword, hcolon, htwo, hroom, hname]

theorem lineEnd_single (h : InMode .stale line) (hl : isInstructionLine l = true)
    (hlen : l.length = 1) :
    ∃ line', indexLabelsLineEnd (line.filled l) out = .ok (line', out) ∧ InMode .held line' := by
  obtain ⟨hword, hcolon, hone⟩ := filled_single h hl hlen
  refine ⟨line.filled l, ?_, rfl, hone, hcolon, fun _ => hword⟩
  simp [indexLabelsLineEnd, hword, hcolon, hone]

theorem lineEnd_counts {line : LineBuffer} (hc : line.lineIsComment = false)
    (hcolon : line.secondIsColon = false) (hic : line.ic ≠ 0) :
    ∃ line', indexLabelsLineEnd line out = .ok (line', { out with lc := out.lc + 1 }) ∧
      InMode .clean line' := by
  refine ⟨{ line with ic := 0 }, ?_, hc, rfl, hcolon, nofun⟩
  simp [indexLabelsLineEnd, hcolon, hic]

theorem lineEnd_instruction (h : InMode mode line) (hic : mode.ic = 0)
    (hl : isInstructionLine l = true) (hlen : mode = .clean ∨ l.length ≠ 1) :
    ∃ line', indexLabelsLineEnd (line.filled l) out =
      .ok (line', { out with lc := out.lc + 1 }) ∧ InMode .clean line' := by
  obtain ⟨hcolon, hne⟩ := filled_instruction_colon h hic hl hlen
  exact lineEnd_counts out rfl hcolon hne

theorem lineEnd_held {w : Token} (h : InMode .held line) (hw : w.type = .word) :
    ∃ line', indexLabelsLineEnd (line.filled (w :: l)) out =
      .ok (line', { out with lc := out.lc + 1 }) ∧ InMode .clean line' := by
  have hone : line.ic = 1 := h.ic
  apply lineEnd_counts out rfl
  · rw [filled_held_secondIsColon hone, hw]
    rfl
  · simp [LineBuffer.filled, hone]

end IndexLabels

namespace AssembleProgram

variable (host : Host) (junk : Junk) (labels : List Label) (program : List Instruction)

theorem end_empty {line : LineBuffer} (hic : line.ic = 0) :
    assembleProgramLineEnd host junk labels line program = .ok ({ line with ic := 0 }, program) := by
  simp [assembleProgramLineEnd, hic]

theorem end_dropped {line : LineBuffer} (hword : line.firstIsWord = true)
    (hcolon : line.secondIsColon = true) (hic : line.ic ≠ 0) :
    assembleProgramLineEnd host junk labels line program = .ok ({ line with ic := 0 }, program) := by
  simp [assembleProgramLineEnd, hword, hcolon, hic]
  rfl

def cleared (line : LineBuffer) : LineBuffer :=
  { line with tk := fun s => if s.val < line.ic then .zero else line.tk s, ic := 0 }

theorem end_emitted {line : LineBuffer}
    (hkeep : (line.firstIsWord && line.secondIsColon) = false) (hic : line.ic ≠ 0) :
    assembleProgramLineEnd host junk labels line program =
      (fun program => (cleared line, program)) <$>
        emitInstruction host junk labels line.tokens program := by
  have hstore : (line.ic != 0) = true := bne_iff_ne.mpr hic
  rw [assembleProgramLineEnd, hkeep]
  simp only [Bool.false_and, hstore]
  rfl

theorem cleared_secondIsColon (line : LineBuffer) :
    (cleared line).secondIsColon = (decide (line.ic ≤ 1) && line.secondIsColon) := by
  rcases Nat.lt_or_ge 1 line.ic with hlong | hshort
  · have hsecond : (cleared line).tk 1 = .zero := if_pos hlong
    rw [LineBuffer.secondIsColon, hsecond, decide_eq_false (Nat.not_le_of_lt hlong)]
    rfl
  · have hsecond : (cleared line).tk 1 = line.tk 1 := if_neg (Nat.not_lt_of_le hshort)
    rw [LineBuffer.secondIsColon, hsecond, decide_eq_true hshort, Bool.true_and]
    rfl

theorem lineEnd_empty (h : InMode mode line) (hic : mode.ic = 0) :
    ∃ line', assembleProgramLineEnd host junk labels line program = .ok (line', program) ∧
      InMode mode line' :=
  ⟨_, end_empty host junk labels program (h.ic.trans hic), h.notComment, hic.symm, h.colon, h.word⟩

theorem lineEnd_label (h : InMode mode line) (hic : mode.ic = 0) (hl : isLabelLine l = true) :
    ∃ line', assembleProgramLineEnd host junk labels (line.filled l) program =
      .ok (line', program) ∧ InMode .stale line' := by
  obtain ⟨hword, hcolon, htwo, -⟩ := filled_label (h.ic.trans hic) hl
  have hne : (line.filled l).ic ≠ 0 := by omega
  exact ⟨_, end_dropped host junk labels program hword hcolon hne,
    firstIsWord_inMode_stale rfl hword hcolon⟩

theorem lineEnd_single (h : InMode .stale line) (hl : isInstructionLine l = true)
    (hlen : l.length = 1) :
    ∃ line', assembleProgramLineEnd host junk labels (line.filled l) program =
      .ok (line', program) ∧ InMode .stale line' := by
  obtain ⟨hword, hcolon, hone⟩ := filled_single h hl hlen
  have hne : (line.filled l).ic ≠ 0 := by omega
  exact ⟨_, end_dropped host junk labels program hword hcolon hne,
    firstIsWord_inMode_stale rfl hword hcolon⟩

theorem lineEnd_instruction (h : InMode mode line) (hic : mode.ic = 0)
    (hl : isInstructionLine l = true) (hlen : mode = .clean ∨ l.length ≠ 1)
    (hfits : l.length ≤ lineSize) :
    ∃ line', InMode .clean line' ∧ assembleProgramLineEnd host junk labels (line.filled l) program =
      (fun program => (line', program)) <$> emitInstruction host junk labels l program := by
  obtain ⟨hcolon, hne⟩ := filled_instruction_colon h hic hl hlen
  have hkeep : ((line.filled l).firstIsWord && (line.filled l).secondIsColon) = false := by
    rw [hcolon, Bool.and_false]
  have hclean : (cleared (line.filled l)).secondIsColon = false := by
    rw [cleared_secondIsColon, hcolon, Bool.and_false]
  have hend := end_emitted host junk labels program hkeep hne
  rw [LineBuffer.tokens_filled (h.ic.trans hic) hfits] at hend
  exact ⟨_, ⟨rfl, rfl, hclean, nofun⟩, hend⟩

end AssembleProgram

end LineEnd

end CAt
