import CAt.Strings.Str
import Mathlib.Algebra.Group.Int.Defs

namespace CAt

open GuardedLoop.Loop (bind_ok ok_bind)
open UintLoop

namespace Pattern

def MatchAt (src pat : Str) (k : Nat) : Prop := pat.ptr <+: src.ptr.drop k

instance (src pat : Str) (k : Nat) : Decidable (MatchAt src pat k) :=
  inferInstanceAs (Decidable (pat.ptr <+: src.ptr.drop k))

-- The window at `k` with the positions reduced to 32 bits, as str_has_pattern reads it.
def WrapsAt (src pat : Str) (k : Nat) : Prop :=
  ∀ c < pat.len, src.ptr[(k + c) % 2 ^ 32]? = pat.ptr[c]?

def FirstAt (p : Nat → Prop) (k : Nat) : Prop := p k ∧ ∀ j < k, ¬ p j

variable {src pat : Str} {fuel k : Nat} {v : Int}

section Windows

theorem FirstAt.unique {p : Nat → Prop} {j k : Nat} (hj : FirstAt p j) (hk : FirstAt p k) :
    j = k := by
  rcases Nat.lt_trichotomy j k with hlt | heq | hgt
  · exact absurd hj.1 (hk.2 j hlt)
  · exact heq
  · exact absurd hk.1 (hj.2 k hgt)

theorem exists_firstAt {p : Nat → Prop} (h : ∃ k, p k) : ∃ k, FirstAt p k := by
  classical
  exact ⟨Nat.find h, Nat.find_spec h, fun j hj => Nat.find_min h hj⟩

theorem matchAt_le (hpat : 0 < pat.len) (h : MatchAt src pat k) : k + pat.len ≤ src.len := by
  have hlen := h.length_le
  rw [List.length_drop] at hlen
  have hsrc : src.len = src.ptr.length := rfl
  have hpattern : pat.len = pat.ptr.length := rfl
  omega

theorem wrapsAt_iff (h : k + pat.len ≤ 2 ^ 32) : WrapsAt src pat k ↔ MatchAt src pat k := by
  rw [WrapsAt, MatchAt, prefix_drop_iff]
  refine forall_congr' fun c => forall_congr' fun hc => ?_
  have hc' : c < pat.len := hc
  rw [Nat.mod_eq_of_lt (by omega)]

theorem matchAt_single (hone : pat.len = 1) : MatchAt src pat k ↔ src.ptr[k]? = pat.ptr[0]? := by
  rw [MatchAt, prefix_drop_iff]
  constructor
  · intro h
    exact h 0 (Nat.lt_of_lt_of_eq Nat.zero_lt_one hone.symm)
  · intro h c hc
    have hzero : c = 0 := by
      have hlt : c < pat.len := hc
      omega
    rw [hzero]
    exact h

theorem toInt_counter (hk : k < 2 ^ 32) :
    (BitVec.ofNat 32 k).toInt = if k < 2 ^ 31 then (k : Int) else (k : Int) - 2 ^ 32 := by
  rw [BitVec.toInt_eq_toNat_cond, counter_toNat hk]
  split <;> split <;> omega

end Windows

section OneChar

def singleAt (src pat : Str) (i : BitVec 32) : Except StrFault Bool :=
  sameChar src.ptr i.toNat pat.ptr 0

theorem strHasPattern_single (hone : pat.len = 1) (hlt : pat.len < src.len) :
    strHasPattern fuel src pat =
      (fun t => if t.2 then 1 else strNopattern) <$>
        (search src.len (singleAt src pat)).finish .unfinished fuel (0, false) := by
  rw [strHasPattern, assertPattern_ok (by omega) hlt, ok_bind, if_pos hone]
  rfl

theorem singleAt_eq (hpat : 0 < pat.len) (hn : k < src.len) (hk : k < 2 ^ 32) :
    singleAt src pat (BitVec.ofNat 32 k) = .ok (src.ptr[k]? == pat.ptr[0]?) := by
  rw [singleAt, counter_toNat hk]
  exact sameChar_of_lt hn hpat

theorem single_completes_iff (hone : pat.len = 1) (hlt : pat.len < src.len) :
    Completes (fun fuel => strHasPattern fuel src pat) v ↔
      (v = 1 ∧ ∃ k < 2 ^ 32, FirstAt (MatchAt src pat) k) ∨
        (v = strNopattern ∧ src.len < 2 ^ 32 ∧ ∀ k, ¬ MatchAt src pat k) := by
  have hpat : 0 < pat.len := Nat.lt_of_lt_of_eq Nat.zero_lt_one hone.symm
  have hsame (k : Nat) : (src.ptr[k]? == pat.ptr[0]?) = true ↔ MatchAt src pat k :=
    beq_iff_eq.trans (matchAt_single hone).symm
  have hdiffers (k : Nat) : (src.ptr[k]? == pat.ptr[0]?) = false ↔ ¬ MatchAt src pat k :=
    Bool.eq_false_iff.trans (not_congr (hsame k))
  have htest (k : Nat) (hn : k < src.len) (hk : k < 2 ^ 32) := singleAt_eq hpat hn hk
  constructor
  · rintro ⟨fuel, h⟩
    obtain ⟨⟨i, found⟩, hfinish, heq⟩ := bind_ok ((strHasPattern_single hone hlt).symm.trans h)
    rcases search_cases htest hfinish with ⟨rfl, k, -, hk, -, hhit, hleast⟩ | ⟨rfl, hbound, hall⟩
    · cases heq
      exact .inl ⟨rfl, k, hk, (hsame k).mp hhit, fun j hj => (hdiffers j).mp (hleast j hj)⟩
    · cases heq
      refine .inr ⟨rfl, hbound, fun k hmatch => ?_⟩
      have hle := matchAt_le hpat hmatch
      exact (hdiffers k).mp (hall k (by omega)) hmatch
  · rintro (⟨rfl, k, hk, hmatch, hleast⟩ | ⟨rfl, hbound, hnone⟩)
    · have hle := matchAt_le hpat hmatch
      have hn : k < src.len := by omega
      refine ⟨k + 1, (strHasPattern_single hone hlt).trans ?_⟩
      rw [search_finds (fun j hj => htest j (by omega) (by omega)) hn hk ((hsame k).mpr hmatch)
        (fun j hj => (hdiffers j).mpr (hleast j hj)) (Nat.lt_succ_self k)]
      rfl
    · refine ⟨src.len, (strHasPattern_single hone hlt).trans ?_⟩
      rw [search_misses (fun j hj => htest j hj (Nat.lt_trans hj hbound)) hbound
        (fun j _ => (hdiffers j).mpr (hnone j)) (Nat.le_refl _)]
      rfl

end OneChar

section Window

theorem patternAt_ok_iff {b : Bool} (hk : k ≤ src.len - pat.len) (hlt : pat.len < src.len) :
    patternAt fuel src pat (BitVec.ofNat 32 k) = .ok b ↔
      pat.len ≤ fuel ∧ pat.len < 2 ^ 32 ∧ (b = true ↔ WrapsAt src pat k) := by
  have htest (c : Nat) (hc : c < pat.len) (hbound : c < 2 ^ 32) :
      sameChar src.ptr (BitVec.ofNat 32 k + BitVec.ofNat 32 c).toNat pat.ptr
        (BitVec.ofNat 32 c).toNat = .ok (src.ptr[(k + c) % 2 ^ 32]? == pat.ptr[c]?) := by
    have hle := Nat.mod_le (k + c) (2 ^ 32)
    have hsrc : (k + c) % 2 ^ 32 < src.len := by omega
    rw [← BitVec.ofNat_add, BitVec.toNat_ofNat, counter_toNat hbound]
    exact sameChar_of_lt hsrc hc
  have hall : ((List.range pat.len).all fun c => src.ptr[(k + c) % 2 ^ 32]? == pat.ptr[c]?) =
      true ↔ WrapsAt src pat k := by
    simp only [List.all_eq_true, List.mem_range, beq_iff_eq, WrapsAt]
  exact snd_finish_allOf_iff htest hall

theorem strHasPattern_window (hlong : 1 < pat.len) (hlt : pat.len < src.len) :
    strHasPattern fuel src pat =
      (fun t => if t.2 then t.1.toInt else strNopattern) <$>
        (search (src.len - pat.len + 1) (patternAt fuel src pat)).finish .unfinished fuel
          (0, false) := by
  rw [strHasPattern, assertPattern_ok (by omega) hlt, ok_bind, if_neg (by omega)]
  rfl

theorem window_completes_iff (hlong : 1 < pat.len) (hlt : pat.len < src.len) :
    Completes (fun fuel => strHasPattern fuel src pat) v ↔ pat.len < 2 ^ 32 ∧
      ((∃ k < 2 ^ 32, k ≤ src.len - pat.len ∧ FirstAt (WrapsAt src pat) k ∧
          v = (BitVec.ofNat 32 k).toInt) ∨
        (v = strNopattern ∧ src.len - pat.len + 1 < 2 ^ 32 ∧
          ∀ k ≤ src.len - pat.len, ¬ WrapsAt src pat k)) := by
  classical
  have hwraps (k : Nat) : decide (WrapsAt src pat k) = true ↔ WrapsAt src pat k := decide_eq_true_iff
  constructor
  · rintro ⟨fuel, h⟩
    obtain ⟨⟨i, found⟩, hfinish, heq⟩ := bind_ok ((strHasPattern_window hlong hlt).symm.trans h)
    obtain ⟨b, hfirst⟩ := search_first (Nat.succ_pos _) hfinish
    obtain ⟨hfuel, hbound, -⟩ := (patternAt_ok_iff (Nat.zero_le _) hlt).mp hfirst
    have htest (j : Nat) (hn : j < src.len - pat.len + 1) (_ : j < 2 ^ 32) :
        patternAt fuel src pat (BitVec.ofNat 32 j) = .ok (decide (WrapsAt src pat j)) :=
      (patternAt_ok_iff (Nat.le_of_lt_succ hn) hlt).mpr ⟨hfuel, hbound, hwraps j⟩
    refine ⟨hbound, ?_⟩
    rcases search_cases htest hfinish with
      ⟨rfl, k, hn, hk, rfl, hhit, hleast⟩ | ⟨rfl, hsteps, hall⟩
    · cases heq
      exact .inl ⟨k, hk, Nat.le_of_lt_succ hn,
        ⟨(hwraps k).mp hhit, fun j hj => of_decide_eq_false (hleast j hj)⟩, rfl⟩
    · cases heq
      exact .inr ⟨rfl, hsteps, fun k hk => of_decide_eq_false (hall k (Nat.lt_succ_of_le hk))⟩
  · rintro ⟨hbound, hresult⟩
    have hpat : pat.len ≤ src.len + 1 := by omega
    have htest (j : Nat) (hn : j ≤ src.len - pat.len) :
        patternAt (src.len + 1) src pat (BitVec.ofNat 32 j) = .ok (decide (WrapsAt src pat j)) :=
      (patternAt_ok_iff hn hlt).mpr ⟨hpat, hbound, hwraps j⟩
    refine ⟨src.len + 1, (strHasPattern_window hlong hlt).trans ?_⟩
    rcases hresult with ⟨k, hk, hn, ⟨hhit, hleast⟩, rfl⟩ | ⟨rfl, hsteps, hnone⟩
    · rw [search_finds (fun j hj => htest j (Nat.le_trans hj hn)) (Nat.lt_succ_of_le hn) hk
        (decide_eq_true hhit) (fun j hj => decide_eq_false (hleast j hj)) (by omega)]
      rfl
    · rw [search_misses (fun j hj => htest j (Nat.le_of_lt_succ hj)) hsteps
        (fun j hj => decide_eq_false (hnone j (Nat.le_of_lt_succ hj))) (by omega)]
      rfl

end Window

structure FindsFirst (src pat : Str) : Prop where
  found : ∀ k, FirstAt (MatchAt src pat) k → Completes (fun fuel => strHasPattern fuel src pat) k
  absent : Completes (fun fuel => strHasPattern fuel src pat) strNopattern ↔
    ∀ k, ¬ MatchAt src pat k
  begins : Completes (fun fuel => strHasPattern fuel src pat) 0 ↔
    Completes (fun fuel => strBeginsWith fuel src pat) true

def Searchable (src pat : Str) : Prop :=
  if pat.len = 1 then
    FirstAt (MatchAt src pat) 1 ∨ (src.len < 2 ^ 32 ∧ ∀ k, ¬ MatchAt src pat k)
  else pat.len < 2 ^ 32 ∧
    ((∃ k < 2 ^ 31, FirstAt (MatchAt src pat) k ∧ FirstAt (WrapsAt src pat) k) ∨
      ((∀ k, ¬ MatchAt src pat k) ∧
        ((src.len - pat.len + 1 < 2 ^ 32 ∧ ∀ k ≤ src.len - pat.len, ¬ WrapsAt src pat k) ∨
          (2 ^ 32 - 1 ≤ src.len - pat.len ∧ FirstAt (WrapsAt src pat) (2 ^ 32 - 1)))))

-- On a source that an int can index, only the patterns of one char are searched wrongly.
theorem searchable_iff_of_short (hpat : 0 < pat.len) (hlt : pat.len < src.len)
    (hshort : src.len ≤ 2 ^ 31) :
    Searchable src pat ↔
      (pat.len = 1 → FirstAt (MatchAt src pat) 1 ∨ ∀ k, ¬ MatchAt src pat k) := by
  have hsmall : src.len < 2 ^ 32 := Nat.lt_of_le_of_lt hshort (by decide)
  by_cases hone : pat.len = 1
  · rw [Searchable, if_pos hone]
    simp only [hsmall, true_and, hone, true_implies]
  · rw [Searchable, if_neg hone]
    refine iff_of_true ⟨Nat.lt_trans hlt hsmall, ?_⟩ fun h => absurd h hone
    have hwraps (k : Nat) (hk : k + pat.len ≤ src.len) : WrapsAt src pat k ↔ MatchAt src pat k :=
      wrapsAt_iff (Nat.le_trans hk (Nat.le_of_lt hsmall))
    by_cases hexists : ∃ k, MatchAt src pat k
    · obtain ⟨k, hk⟩ := exists_firstAt hexists
      have hle := matchAt_le hpat hk.1
      refine .inl ⟨k, by omega, hk, (hwraps k hle).mpr hk.1, fun j hj hj' => ?_⟩
      exact hk.2 j hj ((hwraps j (by omega)).mp hj')
    · have hnone := not_exists.mp hexists
      exact .inr ⟨hnone, .inl ⟨by omega, fun k hk hk' => hnone k ((hwraps k (by omega)).mp hk')⟩⟩

section FirstIndex

theorem begins_completes_iff (hpat : 0 < pat.len) (hlt : pat.len < src.len) :
    Completes (fun fuel => strBeginsWith fuel src pat) true ↔
      pat.len < 2 ^ 32 ∧ MatchAt src pat 0 := by
  constructor
  · rintro ⟨fuel, h⟩
    obtain ⟨-, hbound, hbegins⟩ := (strBeginsWith_ok_iff hpat hlt).mp h
    exact ⟨hbound, hbegins.mp rfl⟩
  · rintro ⟨hbound, hmatch⟩
    exact ⟨pat.len, (strBeginsWith_ok_iff hpat hlt).mpr
      ⟨Nat.le_refl _, hbound, iff_of_true rfl hmatch⟩⟩

theorem FirstAt.of_zero {p : Nat → Prop} (h : FirstAt p k) (hzero : p 0) : k = 0 :=
  h.unique ⟨hzero, fun _ hj => absurd hj (Nat.not_lt_zero _)⟩

theorem single_searchable (hone : pat.len = 1) (hlt : pat.len < src.len)
    (h : FindsFirst src pat) : Searchable src pat := by
  rw [Searchable, if_pos hone]
  by_cases hexists : ∃ k, MatchAt src pat k
  · obtain ⟨k, hk⟩ := exists_firstAt hexists
    rcases (single_completes_iff hone hlt).mp (h.found k hk) with ⟨hv, -⟩ | ⟨hv, -⟩
    · have hkone : k = 1 := by omega
      exact .inl (hkone ▸ hk)
    · simp only [strNopattern] at hv
      omega
  · have hnone := not_exists.mp hexists
    rcases (single_completes_iff hone hlt).mp (h.absent.mpr hnone) with ⟨hv, -⟩ | ⟨-, hbound, -⟩
    · cases hv
    · exact .inr ⟨hbound, hnone⟩

theorem single_findsFirst (hone : pat.len = 1) (hlt : pat.len < src.len)
    (h : Searchable src pat) : FindsFirst src pat := by
  have hpat : 0 < pat.len := Nat.lt_of_lt_of_eq Nat.zero_lt_one hone.symm
  rw [Searchable, if_pos hone] at h
  rcases h with hfirst | ⟨hbound, hnone⟩
  · refine ⟨fun k hk => ?_, ⟨fun hv => ?_, fun hnone => absurd hfirst.1 (hnone 1)⟩,
      ⟨fun hv => ?_, fun hb => ?_⟩⟩
    · cases hfirst.unique hk
      exact (single_completes_iff hone hlt).mpr (.inl ⟨rfl, 1, by decide, hfirst⟩)
    · rcases (single_completes_iff hone hlt).mp hv with ⟨hv, -⟩ | ⟨-, -, hnone⟩
      · cases hv
      · exact hnone
    · rcases (single_completes_iff hone hlt).mp hv with ⟨hv, -⟩ | ⟨hv, -⟩ <;> cases hv
    · exact absurd (hfirst.of_zero ((begins_completes_iff hpat hlt).mp hb).2) (by decide)
  · refine ⟨fun k hk => absurd hk.1 (hnone k), iff_of_true ?_ hnone, ⟨fun hv => ?_, fun hb => ?_⟩⟩
    · exact (single_completes_iff hone hlt).mpr (.inr ⟨rfl, hbound, hnone⟩)
    · rcases (single_completes_iff hone hlt).mp hv with ⟨hv, -⟩ | ⟨hv, -⟩ <;> cases hv
    · exact absurd ((begins_completes_iff hpat hlt).mp hb).2 (hnone 0)

theorem window_searchable (hlong : 1 < pat.len) (hlt : pat.len < src.len)
    (h : FindsFirst src pat) : Searchable src pat := by
  rw [Searchable, if_neg (by omega)]
  by_cases hexists : ∃ k, MatchAt src pat k
  · obtain ⟨k, hk⟩ := exists_firstAt hexists
    obtain ⟨hbound, hresult⟩ := (window_completes_iff hlong hlt).mp (h.found k hk)
    refine ⟨hbound, .inl ⟨k, ?_⟩⟩
    rcases hresult with ⟨w, hw, -, hfirst, hv⟩ | ⟨hv, -⟩
    · rw [toInt_counter hw] at hv
      split at hv
      · cases Int.ofNat.inj hv
        exact ⟨‹_›, hk, hfirst⟩
      · omega
    · simp only [strNopattern] at hv
      omega
  · have hnone := not_exists.mp hexists
    obtain ⟨hbound, hresult⟩ := (window_completes_iff hlong hlt).mp (h.absent.mpr hnone)
    refine ⟨hbound, .inr ⟨hnone, ?_⟩⟩
    rcases hresult with ⟨w, hw, hle, hfirst, hv⟩ | ⟨-, hsteps, hmisses⟩
    · rw [toInt_counter hw] at hv
      have hlast : w = 2 ^ 32 - 1 := by
        simp only [strNopattern] at hv
        split at hv <;> omega
      exact .inr ⟨hlast ▸ hle, hlast ▸ hfirst⟩
    · exact .inl ⟨hsteps, hmisses⟩

theorem window_value (hlong : 1 < pat.len) (hlt : pat.len < src.len) (hle : k ≤ src.len - pat.len)
    (hfirst : FirstAt (WrapsAt src pat) k)
    (hv : Completes (fun fuel => strHasPattern fuel src pat) v) : v = (BitVec.ofNat 32 k).toInt := by
  obtain ⟨-, ⟨w, -, -, hw, rfl⟩ | ⟨-, -, hmisses⟩⟩ := (window_completes_iff hlong hlt).mp hv
  · rw [hw.unique hfirst]
  · exact absurd hfirst.1 (hmisses k hle)

theorem window_found (hlong : 1 < pat.len) (hlt : pat.len < src.len) (hbound : pat.len < 2 ^ 32)
    (hk : k < 2 ^ 31) (hmatch : FirstAt (MatchAt src pat) k) (hwraps : FirstAt (WrapsAt src pat) k) :
    FindsFirst src pat := by
  have hpat : 0 < pat.len := Nat.lt_trans Nat.zero_lt_one hlong
  have hle : k ≤ src.len - pat.len := by
    have hend := matchAt_le hpat hmatch.1
    omega
  have hk32 : k < 2 ^ 32 := by omega
  have hvalue : (BitVec.ofNat 32 k).toInt = k := by rw [toInt_counter hk32, if_pos hk]
  have hreturns : Completes (fun fuel => strHasPattern fuel src pat) k :=
    (window_completes_iff hlong hlt).mpr ⟨hbound, .inl ⟨k, hk32, hle, hwraps, hvalue.symm⟩⟩
  refine ⟨fun j hj => hmatch.unique hj ▸ hreturns, ⟨fun hv => ?_, fun hnone => ?_⟩,
    ⟨fun hv => ?_, fun hb => ?_⟩⟩
  · have hneg := (window_value hlong hlt hle hwraps hv).trans hvalue
    simp only [strNopattern] at hneg
    omega
  · exact absurd hmatch.1 (hnone k)
  · have hzero : 0 = k := Int.ofNat.inj ((window_value hlong hlt hle hwraps hv).trans hvalue)
    exact (begins_completes_iff hpat hlt).mpr ⟨hbound, hzero ▸ hmatch.1⟩
  · have hzero := hmatch.of_zero ((begins_completes_iff hpat hlt).mp hb).2
    rw [hzero] at hreturns
    exact hreturns

theorem window_absent (hlong : 1 < pat.len) (hlt : pat.len < src.len)
    (hnone : ∀ k, ¬ MatchAt src pat k)
    (hreturns : Completes (fun fuel => strHasPattern fuel src pat) strNopattern)
    (honly : ¬ Completes (fun fuel => strHasPattern fuel src pat) 0) : FindsFirst src pat := by
  have hpat : 0 < pat.len := Nat.lt_trans Nat.zero_lt_one hlong
  refine ⟨fun k hk => absurd hk.1 (hnone k), iff_of_true hreturns hnone, iff_of_false honly ?_⟩
  exact fun hb => hnone 0 ((begins_completes_iff hpat hlt).mp hb).2

theorem window_findsFirst (hlong : 1 < pat.len) (hlt : pat.len < src.len)
    (h : Searchable src pat) : FindsFirst src pat := by
  rw [Searchable, if_neg (by omega)] at h
  obtain ⟨hbound, ⟨k, hk, hmatch, hwraps⟩ | ⟨hnone, ⟨hsteps, hmisses⟩ | ⟨hle, hfirst⟩⟩⟩ := h
  · exact window_found hlong hlt hbound hk hmatch hwraps
  · refine window_absent hlong hlt hnone ?_ fun hv => ?_
    · exact (window_completes_iff hlong hlt).mpr ⟨hbound, .inr ⟨rfl, hsteps, hmisses⟩⟩
    · obtain ⟨-, ⟨w, -, hw, hfirst, -⟩ | ⟨hv, -⟩⟩ := (window_completes_iff hlong hlt).mp hv
      · exact absurd hfirst.1 (hmisses w hw)
      · cases hv
  · refine window_absent hlong hlt hnone ?_ fun hv => ?_
    · exact (window_completes_iff hlong hlt).mpr
        ⟨hbound, .inl ⟨2 ^ 32 - 1, by decide, hle, hfirst, rfl⟩⟩
    · cases window_value hlong hlt hle hfirst hv

end FirstIndex

theorem findsFirst_iff (hpat : 0 < pat.len) (hlt : pat.len < src.len) :
    FindsFirst src pat ↔ Searchable src pat := by
  by_cases hone : pat.len = 1
  · exact ⟨single_searchable hone hlt, single_findsFirst hone hlt⟩
  · have hlong : 1 < pat.len := by omega
    exact ⟨window_searchable hlong hlt, window_findsFirst hlong hlt⟩

def magnum : Str := ⟨['M', 'a', 'g', 'n', 'u', 'm']⟩

theorem findsFirst_iff_gn : FindsFirst magnum ⟨['g', 'n']⟩ ↔ Searchable magnum ⟨['g', 'n']⟩ :=
  findsFirst_iff (by decide) (by decide)

theorem single_index_lost :
    ¬ FindsFirst magnum ⟨['n']⟩ ∧ strHasPattern 6 magnum ⟨['n']⟩ = .ok 1 ∧
      FirstAt (MatchAt magnum ⟨['n']⟩) 3 := by
  have hfirst : FirstAt (MatchAt magnum ⟨['n']⟩) 3 := ⟨by decide, by decide⟩
  refine ⟨fun h => ?_, rfl, hfirst⟩
  rcases (single_completes_iff rfl (by decide)).mp (h.found 3 hfirst) with ⟨hv, -⟩ | ⟨hv, -⟩
  · cases hv
  · cases hv

end Pattern

end CAt
