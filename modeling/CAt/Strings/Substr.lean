import CAt.Strings.Str

namespace CAt

open GuardedLoop.Loop (bind_ok ok_bind run_error)
open UintLoop

namespace Substr

variable {orig s : Str} {index len : BitVec 64} {fuel : Nat} {message : String}

def InBounds (orig : Str) (index len : BitVec 64) : Prop :=
  index.toNat < orig.len ∧ index.toNat + len.toNat ≤ orig.len

def slice (orig : Str) (index len : BitVec 64) : List Char :=
  (orig.ptr.drop index.toNat).take len.toNat

def FailsAssertion (orig : Str) (index len : BitVec 64) : Prop :=
  ∃ fuel message, strSubstr fuel orig index len = .error (.assertion message)

structure Slices (orig : Str) (index len : BitVec 64) : Prop where
  refused : FailsAssertion orig index len ↔ ¬ InBounds orig index len
  returned : InBounds orig index len → ∃ s, Completes (fun fuel => strSubstr fuel orig index len) s ∧
    s.len = len.toNat ∧ ∀ i < len.toNat, s.ptr[i]? = orig.ptr[index.toNat + i]?

def Admitted (orig : Str) (index len : BitVec 64) : Prop :=
  index.toNat < orig.len ∧ len.toNat < orig.len ∧ (index + len).toNat ≤ orig.len

section Assertions

theorem assertSlice_ok_iff : assertSlice orig index len = .ok () ↔ Admitted orig index len := by
  unfold assertSlice Admitted
  by_cases hindex : index.toNat < orig.len
  · by_cases hlen : len.toNat < orig.len
    · by_cases hsum : (index + len).toNat ≤ orig.len
      · rw [if_pos hindex, if_pos hlen, if_pos hsum]
        exact iff_of_true rfl ⟨hindex, hlen, hsum⟩
      · rw [if_pos hindex, if_pos hlen, if_neg hsum]
        exact iff_of_false (fun h => by cases h) fun h => hsum h.2.2
    · rw [if_pos hindex, if_neg hlen]
      exact iff_of_false (fun h => by cases h) fun h => hlen h.2.1
  · rw [if_neg hindex]
    exact iff_of_false (fun h => by cases h) fun h => hindex h.1

theorem assertSlice_cases (orig : Str) (index len : BitVec 64) :
    assertSlice orig index len = .ok () ∨
      ∃ message, assertSlice orig index len = .error (.assertion message) := by
  unfold assertSlice
  split
  · split
    · split
      · exact .inl rfl
      · exact .inr ⟨_, rfl⟩
    · exact .inr ⟨_, rfl⟩
  · exact .inr ⟨_, rfl⟩

end Assertions

section Copy

def copyAt (orig : Str) (index : BitVec 64) (i : BitVec 32) (buffer : List Char) :
    Except StrFault (List Char) := do
  storeChar buffer i.toNat (← loadChar orig.ptr (index + i.setWidth 64).toNat)

def cleared (len : BitVec 64) : List Char := List.replicate (len.toNat + 1) nul

def created (buffer : List Char) : Str := ⟨(CString.ofBuffer buffer).chars⟩

theorem strSubstr_loop (h : Admitted orig index len) : strSubstr fuel orig index len =
    (fun t => created t.2) <$> (upTo len.toNat (copyAt orig index)).finish .unfinished fuel
      (0, cleared len) := by
  rw [strSubstr, assertSlice_ok_iff.mpr h, ok_bind]
  simp only [strCreate_eq]
  rfl

theorem copyAt_error {i : BitVec 32} {buffer : List Char} {e : StrFault}
    (h : copyAt orig index i buffer = .error e) : e = .outOfBounds := by
  unfold copyAt loadChar storeChar at h
  split at h
  · rw [ok_bind] at h
    split at h
    · cases h
    · exact (Except.error.inj h).symm
  · exact (Except.error.inj h).symm

theorem strSubstr_no_assertion (h : Admitted orig index len) :
    strSubstr fuel orig index len ≠ .error (.assertion message) := by
  rw [strSubstr_loop h]
  intro hassert
  rcases map_finish_upTo_error hassert with hunfinished | ⟨i, buffer, hbody⟩
  · cases hunfinished
  · cases copyAt_error hbody

theorem failsAssertion_iff : FailsAssertion orig index len ↔ ¬ Admitted orig index len := by
  constructor
  · rintro ⟨fuel, message, hassert⟩ hadmitted
    exact strSubstr_no_assertion hadmitted hassert
  · intro h
    rcases assertSlice_cases orig index len with hok | ⟨message, hassert⟩
    · exact absurd (assertSlice_ok_iff.mp hok) h
    · refine ⟨0, message, ?_⟩
      rw [strSubstr, hassert]
      rfl

theorem length_slice (h : InBounds orig index len) : (slice orig index len).length = len.toNat := by
  have hroom : len.toNat ≤ (orig.ptr.drop index.toNat).length := by
    rw [List.length_drop]
    exact Nat.le_sub_of_add_le' h.2
  exact List.length_take_of_le hroom

theorem getElem?_slice {i : Nat} (hi : i < len.toNat) :
    (slice orig index len)[i]? = orig.ptr[index.toNat + i]? := by
  rw [slice, List.getElem?_take_of_lt hi, List.getElem?_drop]

theorem sum_toNat {k : Nat} (hk : k < 2 ^ 32) (h : index.toNat + k < 2 ^ 64) :
    (index + (BitVec.ofNat 32 k).setWidth 64).toNat = index.toNat + k := by
  have hwide : k < 2 ^ 64 := Nat.lt_of_le_of_lt (Nat.le_add_left _ _) h
  rw [BitVec.toNat_add, BitVec.toNat_setWidth, counter_toNat hk, Nat.mod_eq_of_lt hwide,
    Nat.mod_eq_of_lt h]

theorem foldTo_copyAt (horig : orig.len < 2 ^ 64) (h : InBounds orig index len)
    (hsmall : len.toNat < 2 ^ 32) :
    foldTo (copyAt orig index) (cleared len) len.toNat = .ok (slice orig index len ++ [nul]) := by
  have hroom : 0 + len.toNat ≤ (cleared len).length := by
    rw [Nat.zero_add, cleared, List.length_replicate]
    exact Nat.le_succ _
  have hfold : foldTo (copyAt orig index) (cleared len) len.toNat =
      .ok ((cleared len).take 0 ++ (orig.ptr.drop index.toNat).take len.toNat ++
        (cleared len).drop (0 + len.toNat)) := by
    refine foldTo_store (fun k hk => ?_) hroom (Nat.le_of_lt hsmall)
    have hend := h.2
    have hread : index.toNat + k < orig.ptr.length := by
      change index.toNat + k < orig.len
      omega
    have hsum : (index + (BitVec.ofNat 32 k).setWidth 64).toNat = index.toNat + k :=
      sum_toNat (Nat.lt_trans hk hsmall) (Nat.lt_trans hread horig)
    have hrest : k < (orig.ptr.drop index.toNat).length := by
      rw [List.length_drop]
      omega
    refine ⟨hrest, ?_⟩
    rw [hsum, loadChar_of_lt hread, List.getElem_drop]
  have hend : (cleared len).drop len.toNat = [nul] := by
    rw [cleared, List.drop_replicate, Nat.add_sub_cancel_left]
    rfl
  rw [hfold, List.take_zero, List.nil_append, Nat.zero_add, hend]
  rfl

theorem created_snoc (chars : List Char) :
    created (chars ++ [nul]) = ⟨chars.takeWhile (· != nul)⟩ := by
  refine congrArg Str.mk ?_
  change (chars ++ [nul]).takeWhile (· != nul) = _
  rw [List.takeWhile_append]
  split
  · rename_i hall
    rw [List.takeWhile_cons_of_neg (by simp), List.append_nil]
    exact (List.takeWhile_prefix _).eq_of_length hall |>.symm
  · rfl

theorem takeWhile_length_iff {chars : List Char} :
    (chars.takeWhile (· != nul)).length = chars.length ↔ nul ∉ chars := by
  constructor
  · intro h hnul
    have hall : chars.takeWhile (· != nul) = chars := (List.takeWhile_prefix _).eq_of_length h
    rw [List.takeWhile_eq_self_iff] at hall
    have hne := hall nul hnul
    rw [bne_self_eq_false] at hne
    exact Bool.false_ne_true hne
  · intro h
    refine congrArg List.length (List.takeWhile_eq_self_iff.mpr fun c hc => ?_)
    exact bne_iff_ne.mpr fun heq => h (heq ▸ hc)

theorem strSubstr_completes_iff (horig : orig.len < 2 ^ 64) (hin : InBounds orig index len)
    (h : Admitted orig index len) : Completes (fun fuel => strSubstr fuel orig index len) s ↔
      len.toNat < 2 ^ 32 ∧ s = ⟨(slice orig index len).takeWhile (· != nul)⟩ := by
  rw [completes_upTo_iff fun fuel => strSubstr_loop h]
  refine and_congr_right fun hsmall => ?_
  rw [foldTo_copyAt horig hin hsmall]
  constructor
  · rintro ⟨buffer, hbuffer, rfl⟩
    cases hbuffer
    exact created_snoc _
  · rintro rfl
    exact ⟨_, rfl, created_snoc _⟩

end Copy

theorem admitted_iff_within (horig : orig.len < 2 ^ 64) (hin : InBounds orig index len) :
    Admitted orig index len ↔ len.toNat < orig.len := by
  obtain ⟨hindex, hend⟩ := hin
  have hsum : (index + len).toNat = index.toNat + len.toNat := by
    rw [BitVec.toNat_add, Nat.mod_eq_of_lt (Nat.lt_of_le_of_lt hend horig)]
  constructor
  · exact fun h => h.2.1
  · exact fun hlen => ⟨hindex, hlen, hsum ▸ hend⟩

theorem admitted_iff_outside (horig : orig.len < 2 ^ 64) (hout : ¬ InBounds orig index len) :
    Admitted orig index len ↔
      index.toNat < orig.len ∧ len.toNat < orig.len ∧ 2 ^ 64 ≤ index.toNat + len.toNat := by
  refine and_congr_right fun hindex => and_congr_right fun hlen => ?_
  have hend : orig.len < index.toNat + len.toNat := Nat.lt_of_not_le fun h => hout ⟨hindex, h⟩
  rw [BitVec.toNat_add]
  constructor
  · intro h
    by_contra hwraps
    rw [Nat.mod_eq_of_lt (Nat.lt_of_not_le hwraps)] at h
    omega
  · intro hwraps
    have hlt : index.toNat + len.toNat - 2 ^ 64 < 2 ^ 64 := by omega
    rw [Nat.mod_eq_sub_mod hwraps, Nat.mod_eq_of_lt hlt]
    omega

structure Sliceable (orig : Str) (index len : BitVec 64) : Prop where
  within : InBounds orig index len →
    len.toNat < orig.len ∧ len.toNat < 2 ^ 32 ∧ nul ∉ slice orig index len
  outside : ¬ InBounds orig index len →
    orig.len ≤ index.toNat ∨ orig.len ≤ len.toNat ∨ index.toNat + len.toNat < 2 ^ 64

theorem slices_iff (horig : orig.len < 2 ^ 64) :
    Slices orig index len ↔ Sliceable orig index len := by
  constructor
  · rintro ⟨hrefused, hreturned⟩
    rw [failsAssertion_iff, not_iff_not] at hrefused
    refine ⟨fun hin => ?_, fun hout => ?_⟩
    · have hadmitted := hrefused.mpr hin
      obtain ⟨s, hs, hlen, -⟩ := hreturned hin
      obtain ⟨hsmall, rfl⟩ := (strSubstr_completes_iff horig hin hadmitted).mp hs
      rw [← length_slice hin] at hlen
      exact ⟨hadmitted.2.1, hsmall, takeWhile_length_iff.mp hlen⟩
    · have hnot := mt hrefused.mp hout
      rw [admitted_iff_outside horig hout] at hnot
      omega
  · rintro ⟨hwithin, houtside⟩
    have hadmitted (hin : InBounds orig index len) : Admitted orig index len :=
      (admitted_iff_within horig hin).mpr (hwithin hin).1
    refine ⟨?_, fun hin => ?_⟩
    · rw [failsAssertion_iff, not_iff_not]
      refine ⟨fun h => ?_, hadmitted⟩
      by_contra hout
      have hwraps := (admitted_iff_outside horig hout).mp h
      have hcaught := houtside hout
      omega
    · obtain ⟨-, hsmall, hnul⟩ := hwithin hin
      have hall : (slice orig index len).takeWhile (· != nul) = slice orig index len :=
        (List.takeWhile_prefix _).eq_of_length (takeWhile_length_iff.mpr hnul)
      refine ⟨⟨slice orig index len⟩, ?_, length_slice hin, fun i hi => getElem?_slice hi⟩
      exact (strSubstr_completes_iff horig hin (hadmitted hin)).mpr
        ⟨hsmall, congrArg Str.mk hall.symm⟩

def jojo : Str := ⟨['J', 'o', 'J', 'o']⟩

theorem slices_iff_jojo : Slices jojo 2#64 2#64 ↔ Sliceable jojo 2#64 2#64 := slices_iff (by decide)

theorem full_slice_refused : ¬ Slices jojo 0#64 4#64 ∧ InBounds jojo 0#64 4#64 ∧
    FailsAssertion jojo 0#64 4#64 := by
  have hin : InBounds jojo 0#64 4#64 := ⟨by decide, by decide⟩
  have hrefused : FailsAssertion jojo 0#64 4#64 := ⟨4, _, rfl⟩
  exact ⟨fun h => h.refused.mp hrefused hin, hin, hrefused⟩

end Substr

end CAt
