import CAt.Strings.Affixes

namespace CAt

open GuardedLoop.Loop (bind_ok ok_bind)
open UintLoop

def strMoveCstr (cstr : CString) : Str := ⟨cstr.chars⟩

def strDup (s : Str) : Except StrFault Str :=
  if strIsEmpty s then .ok ⟨[]⟩
  else if s.len ≠ 0 then .ok ⟨s.ptr⟩
  else .error (.assertion "String is not reset, but has 0 length")

def strAreEqual (fuel : Nat) (l r : Str) : Except StrFault Bool := do
  if l.len = r.len then
    let test := fun (i : BitVec 32) => sameChar l.ptr i.toNat r.ptr i.toNat
    let (_, equal) ← (upTo l.len (allOf test)).finish .unfinished fuel (0, true)
    return equal
  else return false

-- The buffer that is returned, with the chars that memcpy puts over the cleared ones.
def strGetCstr (fuel : Nat) (s : Str) : Except StrFault (List Char) := do
  let clear := fun (i : BitVec 32) temp => storeChar temp i.toNat nul
  let temp := List.replicate (s.len + 1) nul
  let (_, temp) ← (upTo (s.len + 1) clear).finish .unfinished fuel (0, temp)
  return s.ptr ++ temp.drop s.len

namespace Copies

variable {l r s s' : Str} {b : Bool} {fuel : Nat} {cstr : List Char}

theorem strDup_eq (s : Str) : strDup s = .ok s := by
  cases hempty : strIsEmpty s with
  | true =>
    rw [strDup, if_pos hempty, ← strIsEmpty_iff.mp hempty]
  | false =>
    have hne : s.len ≠ 0 := by
      intro hlen
      rw [strIsEmpty, hlen] at hempty
      cases hempty
    rw [strDup, hempty, if_neg Bool.false_ne_true, if_pos hne]

theorem strAreEqual_of_ne (h : l.len ≠ r.len) : strAreEqual fuel l r = .ok false := by
  rw [strAreEqual, if_neg h]
  rfl

theorem strAreEqual_ok_iff (h : l.len = r.len) : strAreEqual fuel l r = .ok b ↔
    l.len ≤ fuel ∧ l.len < 2 ^ 32 ∧ (b = true ↔ r = l) := by
  have htest (k : Nat) (hk : k < l.len) (hbound : k < 2 ^ 32) :
      sameChar l.ptr (BitVec.ofNat 32 k).toNat r.ptr (BitVec.ofNat 32 k).toNat =
        .ok (l.ptr[0 + k]? == r.ptr[k]?) := by
    rw [counter_toNat hbound, Nat.zero_add]
    exact sameChar_of_lt hk (Nat.lt_of_lt_of_eq hk h)
  have hstart : r.ptr <+: l.ptr ↔ r = l := by
    constructor
    · intro hstart
      exact congrArg Str.mk (hstart.eq_of_length h.symm)
    · rintro rfl
      exact List.prefix_refl _
  have hall : ((List.range l.len).all fun k => l.ptr[0 + k]? == r.ptr[k]?) = true ↔ r = l := by
    have hrange : l.len = r.ptr.length := h
    rw [hrange, ← hstart]
    exact all_sameChar_iff
  have hloop : strAreEqual fuel l r = Prod.snd <$>
      (upTo l.len (allOf fun i => sameChar l.ptr i.toNat r.ptr i.toNat)).finish .unfinished
        fuel (0, true) := by
    rw [strAreEqual, if_pos h]
    rfl
  rw [hloop]
  exact snd_finish_allOf_iff htest hall

def clear (i : BitVec 32) (temp : List Char) : Except StrFault (List Char) :=
  storeChar temp i.toNat nul

theorem foldTo_clear {k n : Nat} (hk : k ≤ n) (hbound : n < 2 ^ 32) :
    foldTo clear (List.replicate n nul) k = .ok (List.replicate n nul) := by
  induction k with
  | zero => rfl
  | succ k ih =>
    have hroom : k < (List.replicate n nul).length :=
      Nat.lt_of_lt_of_eq hk List.length_replicate.symm
    rw [foldTo, ih (Nat.le_of_succ_le hk), ok_bind, clear, counter_toNat (by omega),
      storeChar_of_lt hroom, List.set_replicate_self]

theorem strGetCstr_ok_iff : strGetCstr fuel s = .ok cstr ↔
    s.len + 1 ≤ fuel ∧ s.len + 1 < 2 ^ 32 ∧ cstr = s.ptr ++ [nul] := by
  have hloop : strGetCstr fuel s = (fun t => s.ptr ++ t.2.drop s.len) <$>
      (upTo (s.len + 1) clear).finish .unfinished fuel (0, List.replicate (s.len + 1) nul) := rfl
  have hlast : (List.replicate (s.len + 1) nul).drop s.len = [nul] := by simp
  rw [hloop]
  refine (map_finish_upTo_iff (f := fun temp => s.ptr ++ List.drop s.len temp)).trans ?_
  refine and_congr_right fun _ => and_congr_right fun hbound => ?_
  rw [foldTo_clear (Nat.le_refl _) hbound]
  constructor
  · rintro ⟨temp, htemp, rfl⟩
    cases htemp
    rw [hlast]
  · rintro rfl
    exact ⟨_, rfl, by rw [hlast]⟩

def roundTrip (fuel : Nat) (s : Str) : Except StrFault Bool := do
  let reversed ← strReverse fuel (← strDup s)
  let cstr ← strGetCstr fuel reversed
  let back ← strReverse fuel (strMoveCstr (.ofBuffer cstr))
  strAreEqual fuel back s

theorem ofBuffer_terminated (chars : List Char) :
    (CString.ofBuffer (chars ++ [nul])).chars = chars.takeWhile (· != nul) := by
  change (chars ++ [nul]).takeWhile (· != nul) = chars.takeWhile (· != nul)
  induction chars with
  | nil => rfl
  | cons c chars ih => rw [List.cons_append, List.takeWhile_cons, List.takeWhile_cons, ih]

-- What is left of a string on the way back: the chars behind its last NUL.
def lastPiece (s : Str) : Str := ⟨(s.ptr.reverse.takeWhile (· != nul)).reverse⟩

theorem lastPiece_eq_iff : lastPiece s = s ↔ nul ∉ s.ptr := by
  rw [lastPiece, Str.mk.injEq, List.reverse_eq_iff, List.takeWhile_eq_self_iff]
  simp only [List.mem_reverse, bne_iff_ne, ne_eq]
  constructor
  · intro h hmem
    exact h nul hmem rfl
  · rintro h c hc rfl
    exact h hc

theorem lastPiece_len_le (s : Str) : (lastPiece s).len ≤ s.len := by
  have hle := (List.takeWhile_prefix (l := s.ptr.reverse) (· != nul)).length_le
  rw [List.length_reverse] at hle
  rw [lastPiece, Str.len, List.length_reverse]
  exact hle

theorem roundTrip_ok_iff : roundTrip fuel s = .ok b ↔
    s.len + 1 ≤ fuel ∧ s.len + 1 < 2 ^ 32 ∧ strAreEqual fuel (lastPiece s) s = .ok b := by
  have hlen : (Str.mk s.ptr.reverse).len = s.len := List.length_reverse
  have hpiece (cstr : List Char) (hcstr : cstr = s.ptr.reverse ++ [nul]) :
      (strMoveCstr (.ofBuffer cstr)).ptr.reverse = (lastPiece s).ptr := by
    rw [hcstr, strMoveCstr, ofBuffer_terminated, lastPiece]
  constructor
  · intro h
    rw [roundTrip, strDup_eq, ok_bind] at h
    obtain ⟨⟨r⟩, hreverse, h⟩ := bind_ok h
    obtain ⟨cstr, hcstr, h⟩ := bind_ok h
    obtain ⟨⟨back⟩, hback, h⟩ := bind_ok h
    obtain ⟨-, -, rfl⟩ := Affixes.strReverse_ok_iff.mp hreverse
    obtain ⟨hfuel, hbound, hchars⟩ := strGetCstr_ok_iff.mp hcstr
    obtain ⟨-, -, rfl⟩ := Affixes.strReverse_ok_iff.mp hback
    rw [hlen] at hfuel hbound
    rw [hpiece cstr hchars] at h
    exact ⟨hfuel, hbound, h⟩
  · rintro ⟨hfuel, hbound, h⟩
    have hreverse : strReverse fuel s = .ok ⟨s.ptr.reverse⟩ :=
      Affixes.strReverse_ok_iff.mpr ⟨by omega, by omega, rfl⟩
    have hcstr : strGetCstr fuel ⟨s.ptr.reverse⟩ = .ok (s.ptr.reverse ++ [nul]) :=
      strGetCstr_ok_iff.mpr ⟨by rwa [hlen], by rwa [hlen], rfl⟩
    have hshort : (strMoveCstr (.ofBuffer (s.ptr.reverse ++ [nul]))).len ≤ s.len := by
      rw [Str.len, ← List.length_reverse, hpiece _ rfl]
      exact lastPiece_len_le s
    have hback : strReverse fuel (strMoveCstr (.ofBuffer (s.ptr.reverse ++ [nul]))) =
        .ok (lastPiece s) :=
      Affixes.strReverse_ok_iff.mpr ⟨by omega, by omega, (hpiece _ rfl).symm⟩
    rw [roundTrip, strDup_eq, ok_bind, hreverse, ok_bind, hcstr, ok_bind, hback, ok_bind, h]

theorem round_trip : Completes (fun fuel => roundTrip fuel s) b ↔
    s.len + 1 < 2 ^ 32 ∧ (b = true ↔ nul ∉ s.ptr) := by
  have hle := lastPiece_len_le s
  have hequal (fuel : Nat) (hfuel : s.len + 1 ≤ fuel) (hbound : s.len + 1 < 2 ^ 32) :
      strAreEqual fuel (lastPiece s) s = .ok b ↔ (b = true ↔ nul ∉ s.ptr) := by
    by_cases hlen : (lastPiece s).len = s.len
    · rw [strAreEqual_ok_iff hlen, ← lastPiece_eq_iff, eq_comm (a := s)]
      constructor
      · rintro ⟨-, -, h⟩
        exact h
      · intro h
        exact ⟨by omega, by omega, h⟩
    · have hne : lastPiece s ≠ s := fun heq => hlen (congrArg Str.len heq)
      rw [strAreEqual_of_ne hlen, ← lastPiece_eq_iff, iff_false_right hne, Bool.not_eq_true]
      exact ⟨fun h => (Except.ok.inj h).symm, fun h => congrArg Except.ok h.symm⟩
  constructor
  · rintro ⟨fuel, h⟩
    obtain ⟨hfuel, hbound, h⟩ := roundTrip_ok_iff.mp h
    exact ⟨hbound, (hequal fuel hfuel hbound).mp h⟩
  · rintro ⟨hbound, hb⟩
    have hfuel : s.len + 1 ≤ s.len + 1 := Nat.le_refl _
    exact ⟨s.len + 1, roundTrip_ok_iff.mpr ⟨hfuel, hbound, (hequal _ hfuel hbound).mpr hb⟩⟩

end Copies

end CAt
