import CAt.Strings.Str

namespace CAt

open GuardedLoop.Loop (bind_ok ok_bind)
open UintLoop

namespace AppendChars

def Appends (s : Str) (chars : CString) : Prop :=
  ∀ junk, Completes (fun fuel => strAppendChars fuel junk s chars) ⟨s.ptr ++ chars.chars⟩ ∧
    chars.chars.foldlM (strAppendChar junk) s = .ok ⟨s.ptr ++ chars.chars⟩

section OneByOne

variable {junk : Nat → Char}

theorem reallocarray_append (ptr : List Char) (n : Nat) :
    reallocarray junk ptr (ptr.length + n) = ptr ++ (List.range' ptr.length n).map junk := by
  rw [reallocarray, List.take_of_length_le (Nat.le_add_right _ _), Nat.add_sub_cancel_left]

theorem strAppendChar_eq (s : Str) {ch : Char} (h : ch ≠ nul) :
    strAppendChar junk s ch = .ok ⟨s.ptr ++ [ch]⟩ := by
  cases hempty : strIsEmpty s with
  | true =>
    have hone : (CString.ofBuffer [ch]).chars = [ch] := by
      simp [CString.ofBuffer, h]
    rw [strAppendChar, hempty, if_pos rfl, strCreate_eq, hone, strIsEmpty_iff.mp hempty]
    rfl
  | false =>
    have hroom : s.len < (reallocarray junk s.ptr (s.len + 1)).length := by
      rw [Str.len, reallocarray_append, List.length_append, List.length_map, List.length_range']
      exact Nat.lt_succ_self _
    have hset : (reallocarray junk s.ptr (s.len + 1)).set s.len ch = s.ptr ++ [ch] := by
      rw [Str.len, reallocarray_append, List.set_append_right _ _ (Nat.le_refl _), Nat.sub_self]
      rfl
    rw [strAppendChar, hempty, if_neg Bool.false_ne_true, storeChar_of_lt hroom, ok_bind, hset]
    rfl

theorem foldlM_strAppendChar {chars : List Char} (h : nul ∉ chars) (s : Str) :
    chars.foldlM (strAppendChar junk) s = .ok ⟨s.ptr ++ chars⟩ := by
  induction chars generalizing s with
  | nil =>
    rw [List.append_nil]
    rfl
  | cons ch chars ih =>
    have hch : ch ≠ nul := fun heq => h (heq ▸ List.mem_cons_self)
    rw [List.foldlM_cons, strAppendChar_eq s hch, ok_bind, ih (List.not_mem_of_not_mem_cons h),
      List.append_assoc, List.singleton_append]

end OneByOne

section Copy

variable {junk : Nat → Char} {s : Str} {chars : CString} {fuel n : Nat}

def grown (junk : Nat → Char) (s : Str) (chars : CString) : List Char :=
  reallocarray junk s.ptr (s.len + strlen chars)

def copy (chars : CString) (i : BitVec 32) (ptr : List Char) : Except StrFault (List Char) := do
  storeChar ptr (i.toNat + strlen chars) (← loadChar chars.chars i.toNat)

theorem grown_eq : grown junk s chars = s.ptr ++ (List.range' s.len (strlen chars)).map junk :=
  reallocarray_append s.ptr (strlen chars)

theorem length_grown : (grown junk s chars).length = s.len + strlen chars := by
  rw [grown_eq, List.length_append, List.length_map, List.length_range']
  rfl

theorem strAppendChars_empty (hchars : chars.chars = []) :
    strAppendChars fuel junk s chars = .ok s := by
  have hlen : strlen chars = 0 := congrArg List.length hchars
  rw [strAppendChars, if_pos hlen]
  rfl

theorem strAppendChars_create (hchars : chars.chars ≠ []) (hs : s.ptr = []) :
    strAppendChars fuel junk s chars = .ok ⟨chars.chars⟩ := by
  have hlen : strlen chars ≠ 0 := mt List.length_eq_zero_iff.mp hchars
  rw [strAppendChars, if_neg hlen, if_pos (strIsEmpty_iff.mpr hs)]
  exact strCreate_eq chars

theorem strAppendChars_ok_iff (hchars : chars.chars ≠ []) (hs : s.ptr ≠ []) {s' : Str} :
    Completes (fun fuel => strAppendChars fuel junk s chars) s' ↔
      strlen chars < 2 ^ 32 ∧
        foldTo (copy chars) (grown junk s chars) (strlen chars) = .ok s'.ptr := by
  have hlen : strlen chars ≠ 0 := mt List.length_eq_zero_iff.mp hchars
  have hloop (fuel : Nat) : strAppendChars fuel junk s chars =
      (fun t => ⟨t.2⟩) <$> (upTo (strlen chars) (copy chars)).finish .unfinished fuel
        (0, grown junk s chars) := by
    rw [strAppendChars, if_neg hlen, if_neg (mt strIsEmpty_iff.mp hs), Nat.add_sub_cancel_left]
    rfl
  rw [completes_upTo_iff hloop]
  refine and_congr_right fun _ => ?_
  constructor
  · rintro ⟨ptr, hfold, rfl⟩
    exact hfold
  · exact fun hfold => ⟨s'.ptr, hfold, rfl⟩

theorem foldTo_copy (hn : n ≤ strlen chars) (hfits : n ≤ s.len) (hbound : n ≤ 2 ^ 32) :
    foldTo (copy chars) (grown junk s chars) n =
      .ok ((grown junk s chars).take (strlen chars) ++ chars.chars.take n ++
        (grown junk s chars).drop (strlen chars + n)) := by
  refine foldTo_store (fun k hk => ⟨Nat.lt_of_lt_of_le hk hn, ?_⟩) ?_ hbound
  · have hcounter : (BitVec.ofNat 32 k).toNat = k := counter_toNat (Nat.lt_of_lt_of_le hk hbound)
    rw [hcounter]
    exact loadChar_of_lt (Nat.lt_of_lt_of_le hk hn)
  · rw [length_grown]
    omega

theorem foldTo_overrun (hlonger : s.len < strlen chars) (hbound : strlen chars < 2 ^ 32) :
    foldTo (copy chars) (grown junk s chars) (strlen chars) = .error .outOfBounds := by
  refine foldTo_error (k := s.len + 1) ?_ hlonger
  have hcounter : (BitVec.ofNat 32 s.len).toNat = s.len :=
    counter_toNat (Nat.lt_trans hlonger hbound)
  rw [foldTo, foldTo_copy (Nat.le_of_lt hlonger) (Nat.le_refl _)
    (Nat.le_of_lt (Nat.lt_trans hlonger hbound)), ok_bind, copy, hcounter,
    loadChar_of_lt hlonger, ok_bind]
  apply storeChar_of_le
  simp only [List.length_append, List.length_take, List.length_drop, length_grown]
  omega

theorem foldTo_equal (hlen : s.len = strlen chars) (hbound : strlen chars < 2 ^ 32) :
    foldTo (copy chars) (grown junk s chars) (strlen chars) = .ok (s.ptr ++ chars.chars) := by
  have htake : chars.chars.take (strlen chars) = chars.chars := List.take_length
  have hdrop : (grown junk s chars).drop (strlen chars + strlen chars) = [] :=
    List.drop_of_length_le (by rw [length_grown, hlen])
  have hold : (grown junk s chars).take (strlen chars) = s.ptr := by
    rw [grown_eq, ← hlen]
    exact List.take_left
  rw [foldTo_copy (Nat.le_refl _) (Nat.le_of_eq hlen.symm) (Nat.le_of_lt hbound), htake, hdrop,
    hold, List.append_nil]

theorem foldTo_shorter (hshorter : strlen chars < s.len) (hbound : strlen chars < 2 ^ 32)
    (hchars : chars.chars ≠ []) {ptr : List Char}
    (h : foldTo (copy chars) (grown junk s chars) (strlen chars) = .ok ptr) :
    ptr.getLast? = some (junk (s.len + strlen chars - 1)) := by
  have hpos : 0 < strlen chars := List.length_pos_iff.mpr hchars
  rw [foldTo_copy (Nat.le_refl _) (Nat.le_of_lt hshorter) (Nat.le_of_lt hbound)] at h
  have hrest : ¬ (grown junk s chars).length ≤ strlen chars + strlen chars := by
    rw [length_grown]
    omega
  have hlast : (grown junk s chars).getLast? = some (junk (s.len + strlen chars - 1)) := by
    obtain ⟨k, hk⟩ := Nat.exists_eq_add_of_lt hpos
    rw [grown_eq, hk, List.range'_concat, List.map_append, ← List.append_assoc]
    simp
  rw [← Except.ok.inj h, List.getLast?_append, List.getLast?_drop, if_neg hrest, hlast]
  rfl

end Copy

theorem appends_iff (s : Str) (chars : CString) :
    Appends s chars ↔
      chars.chars = [] ∨ s.ptr = [] ∨ (s.len = strlen chars ∧ strlen chars < 2 ^ 32) := by
  constructor
  · intro h
    by_contra hcondition
    obtain ⟨hchars, hs, hlengths⟩ : chars.chars ≠ [] ∧ s.ptr ≠ [] ∧
        ¬ (s.len = strlen chars ∧ strlen chars < 2 ^ 32) := by
      simpa only [not_or] using hcondition
    have hfold (junk : Nat → Char) := (strAppendChars_ok_iff hchars hs).mp (h junk).1
    obtain ⟨hbound, hone⟩ := hfold fun _ => nul
    rcases Nat.lt_trichotomy (strlen chars) s.len with hlt | heq | hgt
    · have hlast := foldTo_shorter hlt hbound hchars hone
      rw [List.getLast?_append, List.getLast?_eq_some_getLast hchars] at hlast
      exact chars.nonzero (Option.some.inj hlast ▸ List.getLast_mem hchars)
    · exact hlengths ⟨heq.symm, hbound⟩
    · rw [foldTo_overrun hgt hbound] at hone
      cases hone
  · intro h junk
    refine ⟨?_, foldlM_strAppendChar chars.nonzero s⟩
    by_cases hchars : chars.chars = []
    · rw [hchars, List.append_nil]
      exact ⟨0, strAppendChars_empty hchars⟩
    · by_cases hs : s.ptr = []
      · rw [hs, List.nil_append]
        exact ⟨0, strAppendChars_create hchars hs⟩
      · obtain ⟨hlen, hbound⟩ := (h.resolve_left hchars).resolve_left hs
        exact (strAppendChars_ok_iff hchars hs).mpr ⟨hbound, foldTo_equal hlen hbound⟩

def hi : Str := ⟨['h', 'i']⟩

def bang : CString := ⟨['!'], by decide⟩

theorem tail_lost : ¬ Appends hi bang := by
  intro h
  have hresult := ((strAppendChars_ok_iff (by decide) (by decide)).mp (h fun _ => nul).1).2
  have hwritten : foldTo (copy bang) (grown (fun _ => nul) hi bang) 1 = .ok ['h', '!', nul] := rfl
  exact absurd (Except.ok.inj (hwritten.symm.trans hresult)) (by decide)

end AppendChars

end CAt
