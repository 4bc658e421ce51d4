import CAt.Assembler.AssembleLine
import CAt.Strings.Str

namespace CAt

open GuardedLoop.Loop (bind_ok)
open UintLoop

namespace LiteralClassifiers

variable {str : CString} {s : Str} {b : Bool}

-- for (uint i = 0; i < strlen(str); i++) if (isBad(str[i])) return 0; return 1;
def rejectFirst (isBad : Char → Bool) (fuel : Nat) (str : CString) : Except StrFault Bool := do
  let hit := fun (i : BitVec 32) => isBad <$> loadChar str.chars i.toNat
  let (_, found) ← (search (strlen str) hit).finish .unfinished fuel (0, false)
  return !found

def isDecimalLoop : Nat → CString → Except StrFault Bool :=
  rejectFirst fun c => !isNumber c && c != '-'

def isFloatLoop : Nat → CString → Except StrFault Bool :=
  rejectFirst fun c => !(isNumber c && c != '-' && c != '.')

structure ClassifiersAgree (str : CString) : Prop where
  integer : ∃ s b, strCreate str = .ok s ∧ Completes (fun fuel => isDecimalLoop fuel str) b ∧
    Completes (fun fuel => strIsInteger fuel s) b
  float : ∃ s b, strCreate str = .ok s ∧ Completes (fun fuel => isFloatLoop fuel str) b ∧
    Completes (fun fuel => strIsFloat fuel s) b
  included : Completes (fun fuel => isDecimalLoop fuel str) true →
    Completes (fun fuel => isFloatLoop fuel str) true

section Loops

variable {p : Char → Bool} {chars : List Char} {k : Nat}

def testAt (p : Char → Bool) (chars : List Char) (k : Nat) : Bool := chars[k]?.any p

theorem testAt_of_lt (h : k < chars.length) : testAt p chars k = p chars[k] := by
  rw [testAt, List.getElem?_eq_getElem h]
  rfl

theorem map_loadChar (hn : k < chars.length) (hk : k < 2 ^ 32) :
    p <$> loadChar chars (BitVec.ofNat 32 k).toNat = .ok (testAt p chars k) := by
  rw [counter_toNat hk, loadChar_of_lt hn, testAt_of_lt hn]
  rfl

theorem all_testAt_iff : (List.range chars.length).all (testAt p chars) = true ↔
    chars.all p = true := by
  simp only [List.all_eq_true, List.mem_range]
  constructor
  · intro h c hc
    obtain ⟨k, hk, rfl⟩ := List.mem_iff_getElem.mp hc
    exact (testAt_of_lt hk).symm.trans (h k hk)
  · intro h k hk
    rw [testAt_of_lt hk]
    exact h _ (List.getElem_mem hk)

theorem strAllChars_completes_iff : Completes (fun fuel => strAllChars p fuel s) b ↔
    s.len < 2 ^ 32 ∧ b = s.ptr.all p := by
  have hloop (fuel : Nat) : strAllChars p fuel s = .ok b ↔
      s.len ≤ fuel ∧ s.len < 2 ^ 32 ∧ (b = true ↔ s.ptr.all p = true) :=
    snd_finish_allOf_iff (fun _ hn hk => map_loadChar hn hk) all_testAt_iff
  constructor
  · rintro ⟨fuel, h⟩
    obtain ⟨-, hbound, hall⟩ := (hloop fuel).mp h
    exact ⟨hbound, Bool.eq_iff_iff.mpr hall⟩
  · rintro ⟨hbound, rfl⟩
    exact ⟨s.len, (hloop s.len).mpr ⟨Nat.le_refl _, hbound, Iff.rfl⟩⟩

theorem rejectFirst_value (h : Completes (fun fuel => rejectFirst p fuel str) b) :
    b = str.chars.all fun c => !p c := by
  obtain ⟨fuel, h⟩ := h
  obtain ⟨⟨i, found⟩, hfinish, heq⟩ := bind_ok h
  have htests (k : Nat) (hn : k < strlen str) (hk : k < 2 ^ 32) := map_loadChar (p := p) hn hk
  rcases search_cases htests hfinish with ⟨rfl, k, hn, -, -, hbad, -⟩ | ⟨rfl, -, hgood⟩
  · cases heq
    rw [testAt_of_lt hn] at hbad
    refine (List.all_eq_false.mpr ⟨_, List.getElem_mem hn, ?_⟩).symm
    rw [hbad]
    exact Bool.false_ne_true
  · cases heq
    refine (List.all_eq_true.mpr fun c hc => ?_).symm
    obtain ⟨k, hk, rfl⟩ := List.mem_iff_getElem.mp hc
    exact congrArg Bool.not (testAt_of_lt hk ▸ hgood k hk)

theorem rejectFirst_completes_iff (hbound : strlen str < 2 ^ 32) :
    Completes (fun fuel => rejectFirst p fuel str) b ↔ b = str.chars.all fun c => !p c := by
  refine ⟨rejectFirst_value, ?_⟩
  rintro rfl
  have hfinishes : ∃ t, (search (strlen str) fun i => p <$> loadChar str.chars i.toNat).finish
      .unfinished (strlen str) (0, false) = .ok t :=
    search_finishes (fun k hk => map_loadChar hk (Nat.lt_trans hk hbound)) hbound
  obtain ⟨⟨i, found⟩, hfinish⟩ := hfinishes
  have hok : rejectFirst p (strlen str) str = .ok (!found) := by
    rw [rejectFirst, hfinish]
    rfl
  exact rejectFirst_value ⟨strlen str, hok⟩ ▸ ⟨strlen str, hok⟩

end Loops

theorem isDecimalLoop_completes_iff (hbound : strlen str < 2 ^ 32) :
    Completes (fun fuel => isDecimalLoop fuel str) b ↔ b = isDecimal str.chars := by
  have hsame : isDecimal str.chars = str.chars.all fun c => !(!isNumber c && c != '-') := by
    simp only [isDecimal, Bool.not_and, Bool.not_not, bne]
  rw [hsame]
  exact rejectFirst_completes_iff hbound

theorem isFloatLoop_completes_iff (hbound : strlen str < 2 ^ 32) :
    Completes (fun fuel => isFloatLoop fuel str) b ↔ b = isFloat str.chars := by
  have hsame : isFloat str.chars =
      str.chars.all fun c => !!(isNumber c && c != '-' && c != '.') := by
    simp only [isFloat, Bool.not_not]
  rw [hsame]
  exact rejectFirst_completes_iff hbound

theorem isFloat_iff {chars : List Char} :
    isFloat chars = true ↔ ∀ c ∈ chars, isNumber c = true := by
  rw [isFloat, List.all_eq_true]
  refine forall_congr' fun c => forall_congr' fun _ => ?_
  constructor
  · intro h
    rw [Bool.and_eq_true, Bool.and_eq_true] at h
    exact h.1.1
  · intro h
    have hminus : c ≠ '-' := by
      rintro rfl
      cases h
    have hdot : c ≠ '.' := by
      rintro rfl
      cases h
    rw [h, bne_iff_ne.mpr hminus, bne_iff_ne.mpr hdot]
    rfl

def numeral (c : Char) : Bool := isNumber c || c == '-' || c == '.'

def Distinguished (str : CString) : Prop :=
  (∀ c ∈ str.chars, isNumber c = true) ∨ ∃ c ∈ str.chars, numeral c = false

theorem distinguished_iff : Distinguished str ↔ isFloat str.chars = str.chars.all numeral := by
  rw [Distinguished, ← isFloat_iff]
  cases hall : str.chars.all numeral with
  | true =>
    have hnumeral := List.all_eq_true.mp hall
    refine or_iff_left ?_
    rintro ⟨c, hc, hbad⟩
    rw [hnumeral c hc] at hbad
    cases hbad
  | false =>
    obtain ⟨c, hc, hbad⟩ := List.all_eq_false.mp hall
    have hnot : isFloat str.chars = false := by
      refine Bool.eq_false_iff.mpr fun hfloat => hbad ?_
      rw [numeral, isFloat_iff.mp hfloat c hc]
      rfl
    exact iff_of_true (.inr ⟨c, hc, Bool.eq_false_iff.mpr hbad⟩) hnot

theorem numeral_of_isDecimal {chars : List Char} (h : isDecimal chars = true) :
    chars.all numeral = true := by
  rw [isDecimal, List.all_eq_true] at h
  refine List.all_eq_true.mpr fun c hc => ?_
  rw [numeral, h c hc]
  rfl

theorem classifiersAgree_iff : ClassifiersAgree str ↔ strlen str < 2 ^ 32 ∧ Distinguished str := by
  rw [distinguished_iff]
  constructor
  · rintro ⟨-, ⟨s, b, hs, hfloat, hstr⟩, -⟩
    cases (strCreate_eq str).symm.trans hs
    obtain ⟨hbound, hall⟩ := strAllChars_completes_iff.mp hstr
    exact ⟨hbound, ((isFloatLoop_completes_iff hbound).mp hfloat).symm.trans hall⟩
  · rintro ⟨hbound, hsame⟩
    have hinteger : Completes (fun fuel => strIsInteger fuel ⟨str.chars⟩) (isDecimal str.chars) :=
      strAllChars_completes_iff.mpr ⟨hbound, rfl⟩
    have hfloat : Completes (fun fuel => strIsFloat fuel ⟨str.chars⟩) (isFloat str.chars) :=
      strAllChars_completes_iff.mpr ⟨hbound, hsame⟩
    refine ⟨⟨_, _, strCreate_eq str, (isDecimalLoop_completes_iff hbound).mpr rfl, hinteger⟩,
      ⟨_, _, strCreate_eq str, (isFloatLoop_completes_iff hbound).mpr rfl, hfloat⟩, fun h => ?_⟩
    have hdecimal := (isDecimalLoop_completes_iff hbound).mp h
    rw [isFloatLoop_completes_iff hbound, hsame, numeral_of_isDecimal hdecimal.symm]

def minusThree : CString := ⟨['-', '3'], by decide⟩

theorem sign_not_float : ¬ ClassifiersAgree minusThree ∧ isDecimalLoop 2 minusThree = .ok true ∧
    isFloatLoop 2 minusThree = .ok false ∧ strIsFloat 2 ⟨minusThree.chars⟩ = .ok true := by
  refine ⟨fun h => ?_, rfl, rfl, rfl⟩
  have hfalse := rejectFirst_value (h.included ⟨2, rfl⟩)
  cases hfalse

end LiteralClassifiers

end CAt
