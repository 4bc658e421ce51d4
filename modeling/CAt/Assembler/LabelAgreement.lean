import CAt.Assembler.InstructionOrder
import CAt.Assembler.LabelEntries

namespace CAt

open Segments (Terminated)
open InstructionOrder (emitted emitted_label emitted_single emitted_instruction emitAll
  emitAll_append emitAll_ok assembleProgram_eq colon halt lineEnd rec start)

namespace LabelAgreement

structure Definition where
  before : List Token
  name : Option (List Char)

def definitionsFrom (before line : List Token) : List Token → List Definition
  | [] => []
  | t :: ts =>
    if isLineEnd t then
      let rest := definitionsFrom (before ++ line ++ [t]) [] ts
      if isLabelLine (stripComment line) then ⟨before, lineName (stripComment line)⟩ :: rest
      else rest
    else definitionsFrom before (line ++ [t]) ts

def definitions (ts : List Token) : List Definition := definitionsFrom [] [] ts

def Records (host : Host) (junk : Junk) (table : List Label) (label : Label) (d : Definition) :
    Prop :=
  label.name = d.name ∧ ∃ program, assembleProgram host junk d.before table = .ok program ∧
    label.address.toNat = program.length

def LabelsAgree (host : Host) (junk : Junk) (table : List Label) (ts : List Token) : Prop :=
  ∃ labels, indexLabels ts = .ok labels ∧
    List.Forall₂ (Records host junk table) labels (definitions ts)

def toLabel (x : Entry) : Label := ⟨x.1, BitVec.ofNat 32 x.2⟩

section Scan

variable {raw rest l : List Token} {e w : Token} {line line' : LineBuffer}
  {labels labels' : List Label} {lc lc' : Nat} {mode mode' : Mode} {out : LabelIndex}

def labelsAfter (ts : List Token) (state : LineBuffer × LabelIndex) :
    Except PassFault (List Label) :=
  (fun s => s.2.labels) <$> ts.foldlM (scanToken indexLabelsLineEnd) state

def recordedLabels (mode : Mode) (labels : List Label) (lc : Nat) (ls : List (List Token)) :
    Except PassFault (List Label) :=
  (fun entries => labels ++ entries.map toLabel) <$> recorded mode lc ls

def RecordsFrom (mode : Mode) (labels : List Label) (lc : Nat) (ts : List Token) : Prop :=
  ∀ line, InMode mode line →
    labels.length + ((items ts).filter isLabelLine).length ≤ labelsSize →
    labelsAfter ts (line, ⟨labels, lc⟩) = recordedLabels mode labels lc (items ts)

theorem labelsAfter_line (inside : ∀ t ∈ raw, isLineEnd t = false) (atEnd : isLineEnd e = true)
    (h : line.lineIsComment = false) (hfits : line.ic + (stripComment raw).length ≤ lineSize) :
    labelsAfter (raw ++ e :: rest) (line, out) =
      indexLabelsLineEnd (line.filled (stripComment raw)) out >>= labelsAfter rest := by
  rw [labelsAfter, scan_line inside atEnd rest line h hfits]
  cases indexLabelsLineEnd (line.filled (stripComment raw)) out with
  | error fault => rfl
  | ok state => rfl

theorem labelsAfter_overflow (inside : ∀ t ∈ raw, isLineEnd t = false)
    (h : line.lineIsComment = false) (hic : line.ic ≤ lineSize)
    (hfull : lineSize < line.ic + (stripComment raw).length) :
    labelsAfter (raw ++ e :: rest) (line, out) = .error .tkOverflow := by
  rw [labelsAfter, List.foldlM_append, scan_overflow inside line h hic hfull]
  rfl

theorem RecordsFrom.lineEnd (hrest : RecordsFrom mode' labels' lc' rest)
    (hend : indexLabelsLineEnd line out = .ok (line', ⟨labels', lc'⟩)) (h' : InMode mode' line')
    (hroom : labels'.length + ((items rest).filter isLabelLine).length ≤ labelsSize) :
    indexLabelsLineEnd line out >>= labelsAfter rest =
      recordedLabels mode' labels' lc' (items rest) := by
  rw [hend]
  exact hrest line' h' hroom

theorem records_empty (hrest : RecordsFrom mode labels lc rest) (h : InMode mode line)
    (hroom : labels.length + ((items rest).filter isLabelLine).length ≤ labelsSize) :
    indexLabelsLineEnd (line.filled []) ⟨labels, lc⟩ >>= labelsAfter rest =
      recordedLabels mode labels lc (items rest) := by
  obtain ⟨line', hend, h'⟩ := IndexLabels.lineEnd_empty ⟨labels, lc⟩ h
  rw [LineBuffer.filled_nil h.notComment]
  exact hrest.lineEnd hend h' hroom

theorem records_label (hrest : ∀ labels, RecordsFrom .stale labels lc rest) (h : InMode mode line)
    (hic : mode.ic = 0) (hl : isLabelLine l = true)
    (hroom : labels.length + ((l :: items rest).filter isLabelLine).length ≤ labelsSize) :
    indexLabelsLineEnd (line.filled l) ⟨labels, lc⟩ >>= labelsAfter rest =
      recordedLabels mode labels lc (l :: items rest) := by
  rw [List.filter_cons_of_pos hl, List.length_cons] at hroom
  obtain ⟨line', hend, h'⟩ :=
    IndexLabels.lineEnd_label ⟨labels, lc⟩ h hic hl (by simp only; omega)
  have hcons (entries : List Entry) :
      labels ++ ((lineName l, lc) :: entries).map toLabel =
        labels ++ [toLabel (lineName l, lc)] ++ entries.map toLabel := by
    rw [List.map_cons, List.append_assoc, List.singleton_append]
  rw [recordedLabels, recorded_label hic hl, Functor.map_map, funext hcons]
  apply (hrest _).lineEnd hend h'
  rw [List.length_append, List.length_singleton]
  change labels.length + 1 + _ ≤ labelsSize
  omega

theorem records_instruction (hrest : ∀ mode lc, RecordsFrom mode labels lc rest)
    (h : InMode mode line) (hic : mode.ic = 0) (hl : isInstructionLine l = true)
    (hroom : labels.length + ((items rest).filter isLabelLine).length ≤ labelsSize) :
    indexLabelsLineEnd (line.filled l) ⟨labels, lc⟩ >>= labelsAfter rest =
      recordedLabels mode labels lc (l :: items rest) := by
  by_cases hlost : mode = .stale ∧ l.length = 1
  · obtain ⟨rfl, hlen⟩ := hlost
    obtain ⟨line', hend, h'⟩ := IndexLabels.lineEnd_single ⟨labels, lc⟩ h hl hlen
    rw [recordedLabels, recorded_single hl hlen]
    exact (hrest .held lc).lineEnd hend h' hroom
  · have hlen := Mode.clean_or_of_not hic hlost
    obtain ⟨line', hend, h'⟩ := IndexLabels.lineEnd_instruction ⟨labels, lc⟩ h hic hl hlen
    rw [recordedLabels, recorded_instruction hic hl hlen]
    exact (hrest .clean (lc + 1)).lineEnd hend h' hroom

theorem records_held (hrest : RecordsFrom .clean labels (lc + 1) rest) (h : InMode .held line)
    (hw : w.type = .word) (hlen : (w :: l).length < lineSize)
    (hroom : labels.length + ((items rest).filter isLabelLine).length ≤ labelsSize) :
    indexLabelsLineEnd (line.filled (w :: l)) ⟨labels, lc⟩ >>= labelsAfter rest =
      recordedLabels .held labels lc ((w :: l) :: items rest) := by
  obtain ⟨line', hend, h'⟩ := IndexLabels.lineEnd_held ⟨labels, lc⟩ h hw
  rw [recordedLabels, recorded_held hlen]
  exact hrest.lineEnd hend h' hroom

theorem records_line (hrest : ∀ mode labels lc, RecordsFrom mode labels lc rest)
    (h : InMode mode line) (hl : isLabelLine l = true ∨ isInstructionLine l = true)
    (hfits : mode.ic + l.length ≤ lineSize)
    (hroom : labels.length + ((l :: items rest).filter isLabelLine).length ≤ labelsSize) :
    indexLabelsLineEnd (line.filled l) ⟨labels, lc⟩ >>= labelsAfter rest =
      recordedLabels mode labels lc (l :: items rest) := by
  have htail : labels.length + ((items rest).filter isLabelLine).length ≤ labelsSize := by
    have hle := ((List.sublist_cons_self l (items rest)).filter isLabelLine).length_le
    omega
  rcases mode.ic_cases with hic | rfl
  · rcases hl with hl | hl
    · exact records_label (fun labels => hrest .stale labels lc) h hic hl hroom
    · exact records_instruction (fun mode lc => hrest mode labels lc) h hic hl htail
  · obtain ⟨w, l', rfl, hw⟩ := cons_of_line hl
    have hlen : (w :: l').length < lineSize := by
      simp only [Mode.ic] at hfits
      omega
    exact records_held (hrest .clean labels (lc + 1)) h hw hlen htail

theorem scan_records {ts : List Token} (hterminated : Terminated isLineEnd ts)
    (hshaped : Shaped ts) (mode : Mode) (labels : List Label) (lc : Nat) :
    RecordsFrom mode labels lc ts := by
  induction hterminated generalizing mode labels lc with
  | nil =>
    intro line h hroom
    exact congrArg Except.ok (List.append_nil labels).symm
  | @cons raw rest e inside atEnd tail ih =>
    obtain ⟨hshape, hwidth⟩ := hshaped.head inside atEnd
    have hrest := ih (hshaped.tail inside atEnd)
    intro line h hroom
    have hic := h.ic
    rw [items_append inside atEnd] at hroom ⊢
    by_cases hfits : line.ic + (stripComment raw).length ≤ lineSize
    · rw [labelsAfter_line inside atEnd h.notComment hfits]
      rw [hic] at hfits
      rcases hshape with hempty | hline
      · rw [if_pos hempty] at hroom ⊢
        rw [hempty]
        exact records_empty (hrest mode labels lc) h hroom
      · have hne : stripComment raw ≠ [] := by
          obtain ⟨w, l, heq, -⟩ := cons_of_line hline
          rw [heq]
          exact List.cons_ne_nil w l
        rw [if_neg hne] at hroom ⊢
        exact records_line hrest h hline hfits hroom
    · rcases mode.ic_cases with hzero | rfl
      · omega
      · change line.ic = 1 at hic
        have hsize : lineSize = 32 := rfl
        have hne : stripComment raw ≠ [] := by
          intro hnil
          rw [hnil, List.length_nil] at hfits
          omega
        rw [labelsAfter_overflow inside h.notComment (by omega) (by omega), if_neg hne,
          recordedLabels, recorded_overflow (by omega)]
        rfl

end Scan

section Definitions

variable {before ts whole : List Token} {stale : Bool} {n : Nat} {l : List Token}

theorem definitionsFrom_append {raw : List Token} {e : Token}
    (inside : ∀ t ∈ raw, isLineEnd t = false) (atEnd : isLineEnd e = true)
    (before line rest : List Token) :
    definitionsFrom before line (raw ++ e :: rest) =
      if isLabelLine (stripComment (line ++ raw)) then
        ⟨before, lineName (stripComment (line ++ raw))⟩ ::
          definitionsFrom (before ++ (line ++ raw) ++ [e]) [] rest
      else definitionsFrom (before ++ (line ++ raw) ++ [e]) [] rest := by
  induction raw generalizing line with
  | nil =>
    rw [List.nil_append, definitionsFrom, if_pos atEnd, List.append_nil]
  | cons t raw ih =>
    obtain ⟨ht, hraw⟩ := List.forall_mem_cons.mp inside
    rw [List.cons_append, definitionsFrom, if_neg (by simp [ht]), ih hraw, List.append_assoc line]
    rfl

def Passed (before : List Token) (stale : Bool) (n : Nat) : Prop :=
  ∃ done, done.length = n ∧
    ∀ ls, emitted false (items before ++ ls) = done ++ emitted stale ls

theorem passed_nil : Passed [] false 0 := ⟨[], rfl, fun _ => rfl⟩

section Line

variable {raw : List Token} {e : Token}

theorem passed_empty (inside : ∀ t ∈ raw, isLineEnd t = false) (atEnd : isLineEnd e = true)
    (hbefore : Terminated isLineEnd before) (hempty : stripComment raw = [])
    (h : Passed before stale n) : Passed (before ++ raw ++ [e]) stale n := by
  obtain ⟨done, hlen, hdone⟩ := h
  refine ⟨done, hlen, fun ls => ?_⟩
  rw [List.append_assoc, items_terminated hbefore, items_append inside atEnd, if_pos hempty,
    List.append_assoc]
  exact hdone ls

theorem passed_line (inside : ∀ t ∈ raw, isLineEnd t = false) (atEnd : isLineEnd e = true)
    (hbefore : Terminated isLineEnd before) (hne : stripComment raw ≠ []) (stale' : Bool)
    (new : List (List Token))
    (hline : ∀ ls, emitted stale (stripComment raw :: ls) = new ++ emitted stale' ls)
    (h : Passed before stale n) : Passed (before ++ raw ++ [e]) stale' (n + new.length) := by
  obtain ⟨done, hlen, hdone⟩ := h
  refine ⟨done ++ new, by rw [List.length_append, hlen], fun ls => ?_⟩
  rw [List.append_assoc, items_terminated hbefore, items_append inside atEnd, if_neg hne,
    List.append_assoc, List.append_assoc, ← hline]
  exact hdone (stripComment raw :: ls)

end Line

structure Counted (whole : List Token) (d : Definition) (x : Entry) : Prop where
  name : d.name = x.1
  terminated : Terminated isLineEnd d.before
  shaped : Shaped d.before
  starts : emitted false (items d.before) <+: emitted false (items whole)
  count : (emitted false (items d.before)).length = x.2

theorem counted_of_passed (hbefore : Terminated isLineEnd before) (hshaped : Shaped (before ++ ts))
    (h : Passed before stale n) (name : Option (List Char)) :
    Counted (before ++ ts) ⟨before, name⟩ (name, n) := by
  obtain ⟨done, hlen, hdone⟩ := h
  have hitems : emitted false (items before) = done := by
    have hnil := hdone []
    rwa [List.append_nil, emitted, List.append_nil] at hnil
  refine ⟨rfl, hbefore, hshaped.left hbefore, ⟨emitted stale (items ts), ?_⟩, ?_⟩
  · rw [items_terminated hbefore, hdone, hitems]
  · rw [hitems, hlen]

theorem definitionsFrom_counted (hts : Terminated isLineEnd ts)
    (hbefore : Terminated isLineEnd before) (hwhole : before ++ ts = whole) (hshaped : Shaped whole)
    (hlined : Lined (items ts)) (hpassed : Passed before stale n) :
    List.Forall₂ (Counted whole) (definitionsFrom before [] ts) (expected stale n (items ts)) := by
  induction hts generalizing before stale n with
  | nil => exact .nil
  | @cons raw rest e inside atEnd tail ih =>
    have hbefore' : Terminated isLineEnd (before ++ raw ++ [e]) := by
      rw [List.append_assoc]
      exact hbefore.append (.segment inside atEnd)
    have hwhole' : before ++ raw ++ [e] ++ rest = whole := by
      rw [← hwhole]
      simp only [List.append_assoc, List.singleton_append]
    rw [definitionsFrom_append inside atEnd, List.nil_append]
    rw [items_append inside atEnd] at hlined ⊢
    by_cases hempty : stripComment raw = []
    · rw [if_pos hempty] at hlined ⊢
      rw [if_neg (by rw [hempty]; nofun)]
      exact ih hbefore' hwhole' hlined (passed_empty inside atEnd hbefore hempty hpassed)
    · rw [if_neg hempty] at hlined ⊢
      obtain ⟨hl, hrest⟩ := List.forall_mem_cons.mp hlined
      rcases hl with hl | hl
      · rw [if_pos hl, expected_label hl]
        refine .cons ?_ (ih hbefore' hwhole' hrest ?_)
        · subst hwhole
          exact counted_of_passed hbefore hshaped hpassed _
        · apply passed_line inside atEnd hbefore hempty true [] _ hpassed
          exact fun ls => emitted_label hl
      · have hnot := not_isLabelLine_of_instruction hl
        rw [if_neg hnot]
        by_cases hlost : stale = true ∧ (stripComment raw).length = 1
        · obtain ⟨rfl, hlen⟩ := hlost
          rw [expected_single hl hlen]
          apply ih hbefore' hwhole' hrest
          apply passed_line inside atEnd hbefore hempty true [] _ hpassed
          exact fun ls => emitted_single hl hlen
        · have hlen := not_stale_or hlost
          rw [expected_instruction hl hlen]
          apply ih hbefore' hwhole' hrest
          apply passed_line inside atEnd hbefore hempty false [stripComment raw] _ hpassed
          exact fun ls => emitted_instruction hl hlen

end Definitions

section Agreement

variable {host : Host} {junk : Junk} {table : List Label} {whole : List Token}
  {program : List Instruction}

theorem Counted.records_iff {d : Definition} {x entry : Entry} (h : Counted whole d x)
    (hrun : emitAll host junk table (emitted false (items whole)) [] = .ok program)
    (hsmall : entry.2 < 2 ^ 32) : Records host junk table (toLabel entry) d ↔ entry = x := by
  obtain ⟨later, hlater⟩ := h.starts
  rw [← hlater] at hrun
  obtain ⟨mid, hmid, -⟩ := emitAll_append hrun
  obtain ⟨insts, hinsts, hlen, -⟩ := emitAll_ok hmid
  have hassemble := (assembleProgram_eq host junk table h.terminated h.shaped).trans hmid
  have hcount : mid.length = x.2 := by rw [hinsts, List.nil_append, hlen, h.count]
  have haddress : (toLabel entry).address.toNat = entry.2 := by
    rw [toLabel, BitVec.toNat_ofNat, Nat.mod_eq_of_lt hsmall]
  constructor
  · rintro ⟨hname, program', hprogram, hsize⟩
    rw [hassemble] at hprogram
    cases hprogram
    rw [haddress, hcount] at hsize
    exact Prod.ext (hname.trans h.name) hsize
  · rintro rfl
    exact ⟨h.name.symm, mid, hassemble, haddress.trans hcount.symm⟩

theorem forall_records_iff {defs : List Definition} {xs entries : List Entry}
    (h : List.Forall₂ (Counted whole) defs xs)
    (hrun : emitAll host junk table (emitted false (items whole)) [] = .ok program)
    (hsmall : ∀ x ∈ entries, x.2 < 2 ^ 32) :
    List.Forall₂ (Records host junk table) (entries.map toLabel) defs ↔ entries = xs := by
  induction h generalizing entries with
  | nil => rw [List.forall₂_nil_right_iff, List.map_eq_nil_iff]
  | @cons d x defs xs hd _ ih =>
    cases entries with
    | nil => exact ⟨nofun, nofun⟩
    | cons entry entries =>
      obtain ⟨hentry, hentries⟩ := List.forall_mem_cons.mp hsmall
      rw [List.map_cons, List.forall₂_cons, hd.records_iff hrun hentry, ih hentries,
        List.cons_eq_cons]

theorem indexLabels_eq {ts : List Token} (hterminated : Terminated isLineEnd ts)
    (hshaped : Shaped ts) (hlabels : (labelLines ts).length ≤ labelsSize) :
    indexLabels ts = (fun entries => entries.map toLabel) <$> recorded .clean 0 (items ts) := by
  have hroom : ([] : List Label).length + ((items ts).filter isLabelLine).length ≤ labelsSize := by
    rw [filter_items rfl, List.length_nil, Nat.zero_add]
    exact hlabels
  exact scan_records hterminated hshaped .clean [] 0 .empty inMode_empty hroom

theorem length_items_le {ts : List Token} (hwf : WellFormed ts)
    (hlabels : (labelLines ts).length ≤ labelsSize) :
    (items ts).length ≤ labelsSize + programSize := by
  have hrest : (items ts).filter (fun l => !isLabelLine l) =
      (items ts).filter isInstructionLine := by
    apply List.filter_congr
    intro l hl
    rcases hwf.toShaped.item hl with hl | hl
    · cases hinst : isInstructionLine l with
      | false => rw [hl, Bool.not_true]
      | true => exact absurd hl (not_isLabelLine_of_instruction hinst)
    · rw [isLabelLine_of_instruction hl, hl, Bool.not_false]
  have hsplit := List.length_eq_length_filter_add (l := items ts) isLabelLine
  rw [hrest, filter_items rfl, filter_items rfl] at hsplit
  have hinsts := hwf.instructions
  rw [labelLines] at hlabels
  rw [instructionLines] at hinsts
  omega

theorem labelsAgree_iff (host : Host) (junk : Junk) (table : List Label) (ts : List Token)
    (hwf : WellFormed ts) (hlabels : (labelLines ts).length ≤ labelsSize)
    (hline : ∀ fault, assembleProgram host junk ts table ≠ .error (.line fault)) :
    LabelsAgree host junk table ts ↔ Agreeable (items ts) := by
  have hterminated := Segments.terminated_iff.mpr hwf.terminated
  have hlined : Lined (items ts) := fun l hl => hwf.toShaped.item hl
  have hcounted : List.Forall₂ (Counted ts) (definitions ts) (expected false 0 (items ts)) :=
    definitionsFrom_counted hterminated .nil (List.nil_append ts) hwf.toShaped hlined passed_nil
  obtain ⟨program, hrun⟩ := InstructionOrder.emitAll_runs hwf hline
  have hagrees : recorded .clean 0 (items ts) = .ok (expected false 0 (items ts)) ↔
      Agreeable (items ts) := recorded_eq_expected_iff hlined .clean 0
  rw [LabelsAgree, indexLabels_eq hterminated hwf.toShaped hlabels, ← hagrees]
  cases hrecorded : recorded .clean 0 (items ts) with
  | error fault => exact ⟨nofun, nofun⟩
  | ok entries =>
    have hsmall : ∀ x ∈ entries, x.2 < 2 ^ 32 := by
      intro x hx
      have hbounds := (recorded_within hrecorded x hx).2
      have hlength := length_items_le hwf hlabels
      simp only [labelsSize, programSize] at hlength
      omega
    have hiff := forall_records_iff hcounted hrun hsmall
    constructor
    · rintro ⟨labels, hlabels, hforall⟩
      cases hlabels
      exact congrArg Except.ok (hiff.mp hforall)
    · intro h
      exact ⟨entries.map toLabel, rfl, hiff.mpr (Except.ok.inj h)⟩

end Agreement

def recStart : List Token := [rec, lineEnd, start, colon, lineEnd]

theorem wellFormed_recStart : WellFormed recStart where
  shape := by decide
  width := by decide
  terminated := by decide
  instructions := by decide

theorem labelsAgree_iff_recStart :
    LabelsAgree Host.integer (fun _ _ => .zero) [] recStart ↔ Agreeable (items recStart) :=
  labelsAgree_iff Host.integer (fun _ _ => .zero) [] recStart wellFormed_recStart (by decide) nofun

def loop : Token := ⟨some ['l', 'o', 'o', 'p'], .word⟩

def haltBetweenLabels : List Token := [start, colon, lineEnd, halt, lineEnd, loop, colon, lineEnd]

theorem wellFormed_haltBetweenLabels : WellFormed haltBetweenLabels where
  shape := by decide
  width := by decide
  terminated := by decide
  instructions := by decide

theorem second_label_lost :
    WellFormed haltBetweenLabels ∧ (labelLines haltBetweenLabels).length = 2 ∧
      assembleProgram Host.integer (fun _ _ => .zero) haltBetweenLabels [] = .ok [] ∧
      indexLabels haltBetweenLabels = .ok [⟨start.literall, 0⟩] ∧
      ¬ LabelsAgree Host.integer (fun _ _ => .zero) [] haltBetweenLabels := by
  have hindex : indexLabels haltBetweenLabels = .ok [⟨start.literall, 0⟩] := rfl
  refine ⟨wellFormed_haltBetweenLabels, by decide, rfl, hindex, ?_⟩
  rintro ⟨labels, hlabels, hforall⟩
  rw [hindex] at hlabels
  cases hlabels
  exact absurd hforall.length_eq (by decide)

end LabelAgreement

end CAt
