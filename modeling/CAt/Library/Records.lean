import Mathlib.Algebra.Group.Nat.Defs
import Mathlib.Data.List.Basic

namespace LittleEndian

def toBytes : Nat → Nat → List (BitVec 8)
  | 0, _ => []
  | n + 1, v => BitVec.ofNat 8 v :: toBytes n (v / 256)

def ofBytes : List (BitVec 8) → Nat
  | [] => 0
  | b :: bs => b.toNat + 256 * ofBytes bs

@[simp] theorem length_toBytes (n v : Nat) : (toBytes n v).length = n := by
  induction n generalizing v with
  | zero => rfl
  | succ n ih => rw [toBytes, List.length_cons, ih]

theorem ofBytes_toBytes {n v : Nat} (h : v < 256 ^ n) : ofBytes (toBytes n v) = v := by
  induction n generalizing v with
  | zero =>
    rw [Nat.pow_zero] at h
    exact (Nat.lt_one_iff.mp h).symm
  | succ n ih =>
    have hdiv : v / 256 < 256 ^ n := by
      rw [Nat.pow_succ] at h
      exact Nat.div_lt_of_lt_mul (by omega)
    rw [toBytes, ofBytes, ih hdiv, BitVec.toNat_ofNat]
    exact Nat.mod_add_div v 256

theorem toBytes_ofBytes {n : Nat} {bs : List (BitVec 8)} (h : bs.length = n) :
    toBytes n (ofBytes bs) = bs := by
  induction bs generalizing n with
  | nil =>
    subst h
    rfl
  | cons b bs ih =>
    subst h
    have hlow : BitVec.ofNat 8 (b.toNat + 256 * ofBytes bs) = b := by
      apply BitVec.eq_of_toNat_eq
      rw [BitVec.toNat_ofNat]
      have := b.isLt
      omega
    have hhigh : (b.toNat + 256 * ofBytes bs) / 256 = ofBytes bs := by
      have := b.isLt
      omega
    rw [List.length_cons, ofBytes, toBytes, hlow, hhigh, ih rfl]

theorem ofBytes_lt (bs : List (BitVec 8)) : ofBytes bs < 256 ^ bs.length := by
  induction bs with
  | nil => decide
  | cons b bs ih =>
    have := b.isLt
    rw [ofBytes, List.length_cons, Nat.pow_succ]
    omega

end LittleEndian

namespace Records

variable {β ρ : Type}

structure Layout (β ρ : Type) where
  size : Nat
  pos : 0 < size
  encode : ρ → List β
  decode : List β → ρ
  length_encode : ∀ r, (encode r).length = size
  decode_encode : ∀ r, decode (encode r) = r
  encode_decode : ∀ bs, bs.length = size → encode (decode bs) = bs

namespace Layout

variable (L : Layout β ρ)

def record (bs : List β) (j : Nat) : List β := (bs.drop (L.size * j)).take L.size

def write (rs : List ρ) : List β := rs.flatMap L.encode

def read (bs : List β) : List ρ :=
  (List.range (bs.length / L.size)).map fun j => L.decode (L.record bs j)

theorem length_write (rs : List ρ) : (L.write rs).length = L.size * rs.length := by
  induction rs with
  | nil => rfl
  | cons r rs ih =>
    rw [write, List.flatMap_cons, List.length_append, ← write, ih, L.length_encode,
      List.length_cons, Nat.mul_succ, Nat.add_comm]

theorem length_read (bs : List β) : (L.read bs).length = bs.length / L.size := by
  rw [read, List.length_map, List.length_range]

theorem getElem_read (bs : List β) (j : Nat) (h : j < (L.read bs).length) :
    (L.read bs)[j] = L.decode (L.record bs j) := by
  simp only [read, List.getElem_map, List.getElem_range]

theorem record_write_zero (r : ρ) (rs : List ρ) :
    L.record (L.write (r :: rs)) 0 = L.encode r := by
  rw [record, Nat.mul_zero, List.drop_zero, write, List.flatMap_cons,
    List.take_left' (L.length_encode r)]

theorem record_write_succ (r : ρ) (rs : List ρ) (j : Nat) :
    L.record (L.write (r :: rs)) (j + 1) = L.record (L.write rs) j := by
  rw [record, record, write, List.flatMap_cons, ← write, Nat.mul_succ, Nat.add_comm,
    ← List.drop_drop, List.drop_left' (L.length_encode r)]

theorem record_write (rs : List ρ) (j : Nat) (h : j < rs.length) :
    L.record (L.write rs) j = L.encode rs[j] := by
  induction rs generalizing j with
  | nil => cases h
  | cons r rs ih =>
    cases j with
    | zero => exact L.record_write_zero r rs
    | succ j =>
      rw [record_write_succ]
      exact ih j (Nat.lt_of_succ_lt_succ h)

theorem read_write (rs : List ρ) : L.read (L.write rs) = rs := by
  have hlen : (L.read (L.write rs)).length = rs.length := by
    rw [length_read, length_write, Nat.mul_div_cancel_left _ L.pos]
  apply List.ext_getElem hlen
  intro j h h'
  rw [getElem_read, L.record_write rs j h', L.decode_encode]

theorem write_range (bs : List β) (k : Nat) (h : L.size * k ≤ bs.length) :
    L.write ((List.range k).map fun j => L.decode (L.record bs j)) = bs.take (L.size * k) := by
  induction k with
  | zero => rw [Nat.mul_zero, List.take_zero]; rfl
  | succ k ih =>
    have hprefix : L.size * k ≤ bs.length := by
      rw [Nat.mul_succ] at h
      omega
    have hlast : (L.record bs k).length = L.size := by
      rw [record, List.length_take, List.length_drop]
      rw [Nat.mul_succ] at h
      omega
    rw [List.range_succ, List.map_append, write, List.flatMap_append, ← write, ih hprefix,
      List.map_singleton, List.flatMap_singleton, L.encode_decode _ hlast, Nat.mul_succ,
      List.take_add, record]

theorem write_read (bs : List β) :
    L.write (L.read bs) = bs.take (L.size * (bs.length / L.size)) :=
  L.write_range bs _ (Nat.mul_div_le _ _)

end Layout

end Records
