import Mathlib.Algebra.Group.Nat.Defs
import Mathlib.Algebra.Ring.Int.Defs
import Mathlib.Algebra.Order.Ring.Int

namespace Binary32

def exponentField (f : BitVec 32) : Nat := f.toNat / 2 ^ 23 % 256

def fraction (f : BitVec 32) : Nat := f.toNat % 2 ^ 23

def significand (f : BitVec 32) : Nat :=
  if exponentField f = 0 then fraction f else 2 ^ 23 + fraction f

-- 2 ^ 150 times the absolute value of a finite pattern.
def scaled (f : BitVec 32) : Nat := significand f * 2 ^ max 1 (exponentField f)

def signed (f : BitVec 32) (n : Nat) : Int := if f.msb then -n else n

def HoldsInt (f : BitVec 32) (n : Int) : Prop :=
  exponentField f < 255 ∧ n * (2 ^ 150 : Nat) = signed f (scaled f)

def truncate (f : BitVec 32) : Int := signed f (scaled f / 2 ^ 150)

-- To nearest, ties to even; a significand that rounds up to 2 ^ 24 carries into the exponent.
def rounded (v : Nat) : Nat :=
  if v.log2 ≤ 23 then v * 2 ^ (23 - v.log2)
  else
    let shift := v.log2 - 23
    let q := v / 2 ^ shift
    let r := v % 2 ^ shift
    if 2 ^ (shift - 1) < r ∨ (r = 2 ^ (shift - 1) ∧ q % 2 = 1) then q + 1 else q

def ofNat (v : Nat) : BitVec 32 :=
  if v = 0 then 0 else BitVec.ofNat 32 ((v.log2 + 126) * 2 ^ 23 + rounded v)

theorem natAbs_signed (f : BitVec 32) (n : Nat) : (signed f n).natAbs = n := by
  unfold signed
  split
  · rw [Int.natAbs_neg, Int.natAbs_natCast]
  · rw [Int.natAbs_natCast]

theorem signed_mul (f : BitVec 32) (n d : Nat) : signed f (n * d) = signed f n * d := by
  unfold signed
  split
  · rw [Int.natCast_mul, Int.neg_mul]
  · rw [Int.natCast_mul]

theorem truncate_of_holds {f : BitVec 32} {n : Int} (h : HoldsInt f n) : truncate f = n := by
  have hvalue := h.2
  have hscaled : scaled f = n.natAbs * 2 ^ 150 := by
    have habs := congrArg Int.natAbs hvalue
    rw [Int.natAbs_mul, natAbs_signed, Int.natAbs_natCast] at habs
    exact habs.symm
  rw [hscaled, signed_mul] at hvalue
  rw [truncate, hscaled, Nat.mul_div_cancel _ (by decide)]
  exact (Int.eq_of_mul_eq_mul_right (by decide) hvalue).symm

theorem nonneg_of_holds {f : BitVec 32} {n : Int} (h : HoldsInt f n) (hsign : f.msb = false) :
    0 ≤ n := by
  have hvalue := h.2
  rw [signed, hsign, if_neg Bool.false_ne_true] at hvalue
  omega

section OfNat

variable {v : Nat}

theorem log2_bounds (hv : v ≠ 0) : 2 ^ v.log2 ≤ v ∧ v < 2 ^ (v.log2 + 1) :=
  ⟨Nat.log2_self_le hv, Nat.lt_log2_self⟩

theorem rounded_lt (hv : v ≠ 0) (h : v.log2 ≤ 23) : rounded v < 2 ^ 24 := by
  have hlt := (log2_bounds hv).2
  rw [rounded, if_pos h]
  calc v * 2 ^ (23 - v.log2) < 2 ^ (v.log2 + 1) * 2 ^ (23 - v.log2) :=
        Nat.mul_lt_mul_of_pos_right hlt (Nat.two_pow_pos _)
    _ = 2 ^ 24 := by rw [← Nat.pow_add]; congr 1; omega

theorem le_rounded (hv : v ≠ 0) (h : v.log2 ≤ 23) : 2 ^ 23 ≤ rounded v := by
  have hle := (log2_bounds hv).1
  rw [rounded, if_pos h]
  calc 2 ^ 23 = 2 ^ v.log2 * 2 ^ (23 - v.log2) := by rw [← Nat.pow_add]; congr 1; omega
    _ ≤ v * 2 ^ (23 - v.log2) := Nat.mul_le_mul_right _ hle

theorem rounded_le (hv : v ≠ 0) : rounded v ≤ 2 ^ 24 := by
  by_cases h : v.log2 ≤ 23
  · exact Nat.le_of_lt (rounded_lt hv h)
  · have hlt := (log2_bounds hv).2
    have hq : v / 2 ^ (v.log2 - 23) < 2 ^ 24 := by
      rw [Nat.div_lt_iff_lt_mul (Nat.two_pow_pos _), ← Nat.pow_add]
      have hshift : 24 + (v.log2 - 23) = v.log2 + 1 := by omega
      rwa [hshift]
    rw [rounded, if_neg h]
    simp only
    split
    · exact hq
    · exact Nat.le_of_lt hq

theorem msb_ofNat (hv : v < 2 ^ 32) : (ofNat v).msb = false := by
  by_cases hzero : v = 0
  · rw [ofNat, if_pos hzero]
    rfl
  · have hlog : v.log2 < 32 := (Nat.log2_lt hzero).mpr hv
    have hle := rounded_le hzero
    rw [ofNat, if_neg hzero, BitVec.msb_eq_false_iff_two_mul_lt, BitVec.toNat_ofNat]
    omega

theorem holds_ofNat (hv : v ≤ 2 ^ 24) : HoldsInt (ofNat v) v := by
  have hmsb : (ofNat v).msb = false := msb_ofNat (by omega)
  by_cases hzero : v = 0
  · subst hzero
    exact ⟨by decide, by decide⟩
  · by_cases hlog : v.log2 ≤ 23
    · have hlt := rounded_lt hzero hlog
      have hle := le_rounded hzero hlog
      have hbits : (ofNat v).toNat = (v.log2 + 127) * 2 ^ 23 + (rounded v - 2 ^ 23) := by
        rw [ofNat, if_neg hzero, BitVec.toNat_ofNat]
        omega
      have hexponent : exponentField (ofNat v) = v.log2 + 127 := by
        rw [exponentField, hbits]
        omega
      have hsignificand : significand (ofNat v) = rounded v := by
        rw [significand, hexponent, if_neg (by omega), fraction, hbits]
        omega
      refine ⟨by omega, ?_⟩
      have hmax : max 1 (v.log2 + 127) = v.log2 + 127 := by omega
      have hscaled : scaled (ofNat v) = v * 2 ^ 150 := by
        rw [scaled, hsignificand, hexponent, hmax, rounded, if_pos hlog, Nat.mul_assoc,
          ← Nat.pow_add]
        congr 2
        omega
      rw [signed, hmsb, if_neg Bool.false_ne_true, hscaled, Int.natCast_mul]
    · have htop : v = 2 ^ 24 := by
        have hle := (log2_bounds hzero).1
        have hpow : 2 ^ 24 ≤ 2 ^ v.log2 := Nat.pow_le_pow_right (by decide) (by omega)
        omega
      subst htop
      exact ⟨by decide, by decide⟩

end OfNat

end Binary32
