import CAt.Strings.Str

namespace CAt

open GuardedLoop.Loop (bind_ok ok_bind)
open UintLoop

namespace Affixes

variable {src pat s s' : Str} {b : Bool} {fuel : Nat}

def copyBack (s : Str) (i : BitVec 32) (ptr : List Char) : Except StrFault (List Char) := do
  storeChar ptr i.toNat (← loadChar s.ptr (s.len - 1 - i.toNat))

theorem foldTo_copyBack (hbound : s.len < 2 ^ 32) :
    foldTo (copyBack s) s.ptr s.len = .ok s.ptr.reverse := by
  have hfold : foldTo (copyBack s) s.ptr s.len =
      .ok (s.ptr.take 0 ++ s.ptr.reverse.take s.len ++ s.ptr.drop (0 + s.len)) := by
    refine foldTo_store (fun k hk => ?_) (Nat.le_of_eq (Nat.zero_add _)) (Nat.le_of_lt hbound)
    have hcounter : (BitVec.ofNat 32 k).toNat = k := counter_toNat (Nat.lt_trans hk hbound)
    have hlen : s.len = s.ptr.length := rfl
    have hlast : s.len - 1 - k < s.ptr.length := by omega
    refine ⟨by rw [List.length_reverse]; exact hk, ?_⟩
    rw [hcounter, loadChar_of_lt hlast, List.getElem_reverse]
    rfl
  have htake : s.ptr.reverse.take s.len = s.ptr.reverse :=
    List.take_of_length_le (Nat.le_of_eq List.length_reverse)
  have hdrop : s.ptr.drop (0 + s.len) = [] :=
    List.drop_of_length_le (Nat.le_of_eq (Nat.zero_add _).symm)
  rw [hfold, htake, hdrop, List.take_zero, List.append_nil, List.nil_append]

theorem strReverse_empty (hempty : strIsEmpty s = true) : strReverse fuel s = .ok s := by
  rw [strReverse, if_pos hempty]
  rfl

theorem strReverse_loop (hempty : strIsEmpty s = false) : strReverse fuel s =
    (fun t => ⟨t.2⟩) <$> (upTo s.len (copyBack s)).finish .unfinished fuel (0, s.ptr) := by
  rw [strReverse, hempty, if_neg Bool.false_ne_true]
  rfl

theorem strReverse_ok_iff : strReverse fuel s = .ok s' ↔
    s.len ≤ fuel ∧ s.len < 2 ^ 32 ∧ s'.ptr = s.ptr.reverse := by
  cases hempty : strIsEmpty s with
  | true =>
    have hnil := strIsEmpty_iff.mp hempty
    have hlen : s.len = 0 := congrArg List.length hnil
    rw [strReverse_empty hempty, hlen, hnil, List.reverse_nil, ← hnil]
    constructor
    · intro h
      cases h
      exact ⟨Nat.zero_le fuel, by decide, rfl⟩
    · rintro ⟨-, -, hptr⟩
      exact congrArg (Except.ok ∘ Str.mk) hptr.symm
  | false =>
    rw [strReverse_loop hempty, map_finish_upTo_iff]
    refine and_congr_right fun _ => and_congr_right fun hbound => ?_
    rw [foldTo_copyBack hbound]
    constructor
    · rintro ⟨ptr, hptr, rfl⟩
      exact (Except.ok.inj hptr).symm
    · intro hptr
      exact ⟨s.ptr.reverse, rfl, congrArg Str.mk hptr.symm⟩

-- What str_ends_with compares: every char of the pattern but the first.
def LaterSame (src pat : Str) : Prop :=
  ∀ k, 0 < k → k < pat.len → src.ptr[src.len - pat.len + k]? = pat.ptr[k]?

section EndsWith

def testBack (src pat : Str) (i : BitVec 32) : Except StrFault Bool :=
  sameChar src.ptr (i.toNat + (src.len - pat.len)) pat.ptr i.toNat

theorem testBack_eq {k : Nat} (hk : k < pat.len) (hlt : pat.len < src.len)
    (hbound : k < 2 ^ 32) :
    testBack src pat (BitVec.ofNat 32 k) =
      .ok (src.ptr[src.len - pat.len + k]? == pat.ptr[k]?) := by
  have hsrc : src.len - pat.len + k < src.len := by omega
  rw [testBack, counter_toNat hbound, Nat.add_comm k]
  exact sameChar_of_lt hsrc hk

theorem laterSame_iff : ((List.range (pat.len - 1)).all fun k =>
    src.ptr[src.len - pat.len + (k + 1)]? == pat.ptr[k + 1]?) = true ↔ LaterSame src pat := by
  simp only [List.all_eq_true, List.mem_range, beq_iff_eq]
  constructor
  · intro h k hpos hk
    obtain ⟨j, rfl⟩ := Nat.exists_eq_add_of_lt hpos
    rw [Nat.zero_add] at hk ⊢
    exact h j (by omega)
  · intro h k hk
    exact h (k + 1) (Nat.succ_pos k) (by omega)

theorem strEndsWith_completes_iff (hpat : 0 < pat.len) (hlt : pat.len < src.len)
    (hsmall : src.len < 2 ^ 32) :
    Completes (fun fuel => strEndsWith fuel src pat) b ↔ (b = true ↔ LaterSame src pat) := by
  have hstart : pat.len - 1 < 2 ^ 32 := by omega
  have hfold : foldDown (allOf (testBack src pat)) (pat.len - 1) true =
      .ok ((List.range (pat.len - 1)).all fun k =>
        src.ptr[src.len - pat.len + (k + 1)]? == pat.ptr[k + 1]?) :=
    foldDown_allOf (p := fun k => src.ptr[src.len - pat.len + k]? == pat.ptr[k]?)
      (fun k hk => testBack_eq (by omega) hlt (by omega)) true
  have hloop (fuel : Nat) : strEndsWith fuel src pat = Prod.snd <$>
      (downFrom (allOf (testBack src pat))).finish .unfinished fuel
        (BitVec.ofNat 32 (pat.len - 1), true) := by
    rw [strEndsWith, assertPattern_ok hpat hlt]
    rfl
  rw [← laterSame_iff, ← Bool.eq_iff_iff]
  constructor
  · rintro ⟨fuel, h⟩
    obtain ⟨t, hfinish, heq⟩ := bind_ok ((hloop fuel).symm.trans h)
    cases heq
    exact congrArg Prod.snd (finish_downFrom_eq hstart hfold hfinish)
  · rintro rfl
    refine ⟨pat.len - 1, (hloop _).trans ?_⟩
    rw [finish_downFrom hstart hfold (Nat.le_refl _)]
    rfl

theorem suffix_iff (hpat : 0 < pat.len) (hlt : pat.len < src.len) : pat.ptr <:+ src.ptr ↔
    src.ptr[src.len - pat.len]? = pat.ptr[0]? ∧ LaterSame src pat := by
  have hlen : (src.ptr.drop (src.len - pat.len)).length = pat.ptr.length := by
    rw [List.length_drop]
    exact Nat.sub_sub_self (Nat.le_of_lt hlt)
  have hwindow : pat.ptr <:+ src.ptr ↔ pat.ptr <+: src.ptr.drop (src.len - pat.len) := by
    rw [List.suffix_iff_eq_drop]
    constructor
    · intro h
      exact h ▸ List.prefix_rfl
    · intro h
      exact h.eq_of_length hlen.symm
  rw [hwindow, prefix_drop_iff]
  constructor
  · intro h
    exact ⟨h 0 hpat, fun k _ hk => h k hk⟩
  · rintro ⟨hfirst, hlater⟩ k hk
    rcases Nat.eq_zero_or_pos k with rfl | hpos
    · exact hfirst
    · exact hlater k hpos hk

end EndsWith

def reversedBegins (fuel : Nat) (src pat : Str) : Except StrFault Bool := do
  strBeginsWith fuel (← strReverse fuel src) (← strReverse fuel pat)

theorem reversedBegins_completes_iff (hpat : 0 < pat.len) (hlt : pat.len < src.len) :
    Completes (fun fuel => reversedBegins fuel src pat) b ↔
      src.len < 2 ^ 32 ∧ (b = true ↔ pat.ptr <:+ src.ptr) := by
  have hsrc : (Str.mk src.ptr.reverse).len = src.len := List.length_reverse
  have hpattern : (Str.mk pat.ptr.reverse).len = pat.len := List.length_reverse
  have hbegins (fuel : Nat) : strBeginsWith fuel ⟨src.ptr.reverse⟩ ⟨pat.ptr.reverse⟩ = .ok b ↔
      pat.len ≤ fuel ∧ pat.len < 2 ^ 32 ∧ (b = true ↔ pat.ptr <:+ src.ptr) := by
    rw [strBeginsWith_ok_iff (by rwa [hpattern]) (by rwa [hsrc, hpattern]), hpattern,
      List.reverse_prefix]
  constructor
  · rintro ⟨fuel, h⟩
    obtain ⟨⟨r⟩, hr, h⟩ := bind_ok h
    obtain ⟨⟨p⟩, hp, h⟩ := bind_ok h
    obtain ⟨-, hbound, rfl⟩ := strReverse_ok_iff.mp hr
    obtain ⟨-, -, rfl⟩ := strReverse_ok_iff.mp hp
    exact ⟨hbound, ((hbegins fuel).mp h).2.2⟩
  · rintro ⟨hbound, hb⟩
    have hle := Nat.le_of_lt hlt
    have hpbound := Nat.lt_trans hlt hbound
    have hr : strReverse src.len src = .ok ⟨src.ptr.reverse⟩ :=
      strReverse_ok_iff.mpr ⟨Nat.le_refl _, hbound, rfl⟩
    have hp : strReverse src.len pat = .ok ⟨pat.ptr.reverse⟩ :=
      strReverse_ok_iff.mpr ⟨hle, hpbound, rfl⟩
    refine ⟨src.len, ?_⟩
    change reversedBegins src.len src pat = .ok b
    rw [reversedBegins, hr, ok_bind, hp, ok_bind]
    exact (hbegins src.len).mpr ⟨hle, hpbound, hb⟩

def MirrorsPrefix (src pat : Str) : Prop :=
  ∃ b, Completes (fun fuel => strEndsWith fuel src pat) b ∧ (b = true ↔ pat.ptr <:+ src.ptr) ∧
    Completes (fun fuel => reversedBegins fuel src pat) b

theorem mirrorsPrefix_iff (hpat : 0 < pat.len) (hlt : pat.len < src.len) :
    MirrorsPrefix src pat ↔ src.len < 2 ^ 32 ∧
      (src.ptr[src.len - pat.len]? = pat.ptr[0]? ∨ ¬ LaterSame src pat) := by
  constructor
  · rintro ⟨b, hends, hsuffix, hreversed⟩
    have hsmall := ((reversedBegins_completes_iff hpat hlt).mp hreversed).1
    have hlater := (strEndsWith_completes_iff hpat hlt hsmall).mp hends
    rw [suffix_iff hpat hlt, hlater] at hsuffix
    refine ⟨hsmall, ?_⟩
    by_cases h : LaterSame src pat
    · exact .inl (hsuffix.mp h).1
    · exact .inr h
  · rintro ⟨hsmall, hcondition⟩
    have hsuffix : LaterSame src pat ↔ pat.ptr <:+ src.ptr := by
      rw [suffix_iff hpat hlt]
      exact ⟨fun h => ⟨hcondition.resolve_right (not_not_intro h), h⟩, And.right⟩
    obtain ⟨b, hb⟩ : ∃ b : Bool, b = true ↔ LaterSame src pat := by
      by_cases h : LaterSame src pat
      · exact ⟨true, iff_of_true rfl h⟩
      · exact ⟨false, iff_of_false Bool.false_ne_true h⟩
    exact ⟨b, (strEndsWith_completes_iff hpat hlt hsmall).mpr hb, hb.trans hsuffix,
      (reversedBegins_completes_iff hpat hlt).mpr ⟨hsmall, hb.trans hsuffix⟩⟩

def magnum : Str := ⟨['m', 'a', 'g', 'n', 'u', 'm']⟩

def gum : Str := ⟨['g', 'u', 'm']⟩

def num : Str := ⟨['n', 'u', 'm']⟩

theorem mirrorsPrefix_iff_num : MirrorsPrefix magnum num ↔ magnum.len < 2 ^ 32 ∧
    (magnum.ptr[magnum.len - num.len]? = num.ptr[0]? ∨ ¬ LaterSame magnum num) :=
  mirrorsPrefix_iff (by decide) (by decide)

theorem first_char_skipped :
    ¬ MirrorsPrefix magnum gum ∧ strEndsWith 2 magnum gum = .ok true ∧
      reversedBegins 6 magnum gum = .ok false := by
  refine ⟨?_, rfl, rfl⟩
  rintro ⟨b, hends, hsuffix, -⟩
  have hlater : LaterSame magnum gum := by
    intro k hpos hk
    change k < 3 at hk
    obtain rfl | rfl : k = 1 ∨ k = 2 := by omega
    · rfl
    · rfl
  have hb : b = true := ((strEndsWith_completes_iff (by decide) (by decide) (by decide)).mp
    hends).mpr hlater
  exact absurd (hsuffix.mp hb) (by decide)

end Affixes

end CAt
