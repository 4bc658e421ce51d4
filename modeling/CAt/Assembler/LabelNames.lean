import CAt.Assembler.LabelAgreement
import CAt.Assembler.LinePasses

namespace CAt

open GuardedLoop.Loop (bind_ok)
open InstructionOrder (colon lineEnd)
open LabelAgreement (Entry toLabel)

namespace LabelNames

def defined (carry : Carry) (lc : Nat) : List (List Token) → List Entry
  | [] => []
  | l :: ls =>
    if definesLabel carry l then
      (lineName (carry.tokens ++ l), lc) :: defined (nextCarry carry l) lc ls
    else defined (nextCarry carry l) (if countsLine carry l then lc + 1 else lc) ls

def definitions (ts : List Token) : List Entry := defined ⟨[], false⟩ 0 (completedLines ts)

section Table

variable {carry : Carry} {out : LabelIndex} {ts l : List Token} {ls : List (List Token)}

theorem act_defines (hdefines : definesLabel carry l = true) {out' : LabelIndex}
    (h : indexPass.act carry l out = .ok out') :
    out'.lc = out.lc ∧
      out'.labels = out.labels ++ [toLabel (lineName (carry.tokens ++ l), out.lc)] := by
  simp only [indexPass, hdefines, if_true] at h
  split at h
  · cases h
    exact ⟨rfl, rfl⟩
  · cases h

theorem act_passes (hdefines : definesLabel carry l = false) {out' : LabelIndex}
    (h : indexPass.act carry l out = .ok out') :
    out'.lc = (if countsLine carry l then out.lc + 1 else out.lc) ∧ out'.labels = out.labels := by
  simp only [indexPass, hdefines, Bool.false_eq_true, if_false] at h
  split at h
  · rename_i hcounts
    cases h
    exact ⟨(if_pos hcounts).symm, rfl⟩
  · rename_i hcounts
    cases h
    exact ⟨(if_neg hcounts).symm, rfl⟩

theorem runLines_defined {state : Carry × LabelIndex}
    (h : indexPass.runLines (carry, out) ls = .ok state) :
    state.2.labels = out.labels ++ (defined carry out.lc ls).map toLabel := by
  induction ls generalizing carry out with
  | nil =>
    cases h
    exact (List.append_nil _).symm
  | cons l ls ih =>
    rw [LinePass.runLines_cons] at h
    obtain ⟨⟨carry', out'⟩, hstep, hrest⟩ := bind_ok h
    obtain ⟨-, hnext, hact⟩ := LinePass.step_ok hstep
    change carry' = nextCarry carry l at hnext
    rw [ih hrest, hnext, defined]
    cases hdefines : definesLabel carry l with
    | true =>
      obtain ⟨hlc, hlabels⟩ := act_defines hdefines hact
      rw [hlc, hlabels, if_pos rfl, List.map_cons, List.append_assoc, List.singleton_append]
    | false =>
      obtain ⟨hlc, hlabels⟩ := act_passes hdefines hact
      rw [hlc, hlabels, if_neg Bool.false_ne_true]

theorem indexLabels_definitions {labels : List Label} (h : indexLabels ts = .ok labels) :
    labels = (definitions ts).map toLabel := by
  rw [indexLabels_result] at h
  cases hresult : indexPass.result (⟨[], false⟩, ⟨[], 0⟩) ts with
  | error fault =>
    rw [hresult] at h
    cases h
  | ok out =>
    rw [hresult] at h
    cases h
    obtain ⟨state, hlines, hfinish⟩ := bind_ok hresult
    rw [← LinePass.finish_ok hfinish, runLines_defined hlines]
    rfl

end Table

def recordedAddress (labels : List Label) (name : List Char) : Option Uint :=
  (labels.find? fun l => l.name = some name).map Label.address

def Resolves (labels : List Label) (name : List Char) : Prop :=
  ∃ address, recordedAddress labels name = some address ∧
    ∀ r : Reg, r.valueLabel = some name → findLabel r labels = .ok (some address)

def lineOf (entries : List Entry) (name : List Char) : Option Nat :=
  (entries.find? fun x => x.1 = some name).map Prod.snd

def named (entries : List Entry) : List Entry := entries.takeWhile fun x => x.1.isSome

def DefinedTwice (entries : List Entry) (name : List Char) : Prop :=
  ∃ line line', lineOf entries name = some line ∧ lineOf (named entries) (name.drop 1) = some line' ∧
    BitVec.ofNat 32 line' = BitVec.ofNat 32 line

section Lookup

variable {entries : List Entry} {name : List Char} {address : Uint}

theorem recordedAddress_map : recordedAddress (entries.map toLabel) name =
    (lineOf entries name).map (BitVec.ofNat 32) := by
  rw [recordedAddress, lineOf, List.find?_map, Option.map_map, Option.map_map]
  rfl

theorem searchLabel_eq_iff : searchLabel name (entries.map toLabel) = .ok (some address) ↔
    (lineOf (named entries) name).map (BitVec.ofNat 32) = some address := by
  induction entries with
  | nil => exact ⟨nofun, nofun⟩
  | cons x entries ih =>
    obtain ⟨label, line⟩ := x
    cases label with
    | none => exact ⟨nofun, nofun⟩
    | some other =>
      rw [List.map_cons, searchLabel, named, List.takeWhile_cons_of_pos rfl, lineOf]
      by_cases heq : other = name
      · rw [List.find?_cons_of_pos (by simp [heq])]
        simp [toLabel, heq]
      · rw [List.find?_cons_of_neg (by simp [heq])]
        simp only [toLabel, heq, if_false]
        exact ih

end Lookup

variable {ts : List Token} {labels : List Label} {name : List Char}

theorem resolves_iff (hindexed : indexLabels ts = .ok labels) (hlong : 2 ≤ name.length) :
    Resolves labels name ↔ DefinedTwice (definitions ts) name := by
  have hfind (r : Reg) (hr : r.valueLabel = some name) :
      findLabel r labels = searchLabel (name.drop 1) labels := by
    rw [findLabel, hr]
    exact if_pos hlong
  rw [indexLabels_definitions hindexed] at hfind ⊢
  constructor
  · rintro ⟨address, hrecorded, hresolved⟩
    have hfound := hresolved { Reg.zero with valueLabel := some name } rfl
    rw [hfind _ rfl, searchLabel_eq_iff] at hfound
    rw [recordedAddress_map] at hrecorded
    obtain ⟨line, hline, heq⟩ := Option.map_eq_some_iff.mp hrecorded
    obtain ⟨line', hline', heq'⟩ := Option.map_eq_some_iff.mp hfound
    exact ⟨line, line', hline, hline', heq'.trans heq.symm⟩
  · rintro ⟨line, line', hline, hline', heq⟩
    refine ⟨BitVec.ofNat 32 line, by rw [recordedAddress_map, hline]; rfl, fun r hr => ?_⟩
    rw [hfind r hr, searchLabel_eq_iff, hline', ← heq]
    rfl

def ltop : Token := ⟨some ['L', 't', 'o', 'p'], .word⟩

def top : Token := ⟨some ['t', 'o', 'p'], .word⟩

theorem resolves_iff_twice :
    Resolves [⟨ltop.literall, 0⟩, ⟨top.literall, 0⟩] ['L', 't', 'o', 'p'] ↔
      DefinedTwice (definitions [ltop, colon, lineEnd, top, colon, lineEnd]) ['L', 't', 'o', 'p'] :=
  have hindexed : indexLabels [ltop, colon, lineEnd, top, colon, lineEnd] =
      .ok [⟨ltop.literall, 0⟩, ⟨top.literall, 0⟩] := rfl
  resolves_iff hindexed (by decide)

theorem ltop_unresolved :
    ∃ labels, indexLabels [ltop, colon, lineEnd] = .ok labels ∧
      recordedAddress labels ['L', 't', 'o', 'p'] = some 0 ∧
      ¬ Resolves labels ['L', 't', 'o', 'p'] := by
  refine ⟨[⟨ltop.literall, 0⟩], rfl, rfl, ?_⟩
  rintro ⟨address, -, hresolved⟩
  have hfound := hresolved { Reg.zero with valueLabel := some ['L', 't', 'o', 'p'] } rfl
  cases hfound

end LabelNames

end CAt
