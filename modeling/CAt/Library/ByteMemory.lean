import Mathlib.Data.Fin.Basic
import Mathlib.Data.List.OfFn

namespace ByteMemory

abbrev Memory (size : Nat) := Fin size → BitVec 8

variable {size : Nat}

def byteOf (v : BitVec 32) (i : Nat) : BitVec 8 := v.extractLsb' (8 * i) 8

def load (mem : Memory size) (a : Nat) (h : a + 4 ≤ size) : BitVec 32 :=
  mem ⟨a + 3, by omega⟩ ++ mem ⟨a + 2, by omega⟩ ++ mem ⟨a + 1, by omega⟩ ++ mem ⟨a, by omega⟩

def store (mem : Memory size) (a : Nat) (v : BitVec 32) : Memory size :=
  fun i => if a ≤ i.val ∧ i.val < a + 4 then byteOf v (i.val - a) else mem i

def slice (mem : Memory size) (a n : Nat) (h : a + n ≤ size) : List (BitVec 8) :=
  List.ofFn fun i : Fin n => mem ⟨a + i.val, by omega⟩

theorem bytes_append (v : BitVec 32) :
    (byteOf v 3 ++ byteOf v 2 ++ byteOf v 1 ++ byteOf v 0 : BitVec 32) = v := by
  have bit (n : Nat) {i : Nat} (hi : i < 32) (hn : n = i) : v.getLsbD n = v[i] := by
    subst hn
    exact BitVec.getLsbD_eq_getElem hi
  ext i hi
  simp only [byteOf, BitVec.getElem_append, BitVec.getElem_extractLsb']
  split
  · exact bit _ hi (by omega)
  · split
    · exact bit _ hi (by omega)
    · split <;> exact bit _ hi (by omega)

theorem store_apply_inside (mem : Memory size) (v : BitVec 32) {a i : Nat} (h : i < 4)
    (hi : a + i < size) : store mem a v ⟨a + i, hi⟩ = byteOf v i := by
  simp [store, h]

theorem store_apply_outside (mem : Memory size) (v : BitVec 32) {a : Nat} {i : Fin size}
    (h : i.val < a ∨ a + 4 ≤ i.val) : store mem a v i = mem i := by
  have : ¬ (a ≤ i.val ∧ i.val < a + 4) := by omega
  simp [store, this]

theorem load_congr {mem mem' : Memory size} {a : Nat} (h : a + 4 ≤ size)
    (he : ∀ i : Fin size, a ≤ i.val → i.val < a + 4 → mem i = mem' i) :
    load mem a h = load mem' a h := by
  unfold load
  rw [he ⟨a + 3, by omega⟩ (by simp) (by simp), he ⟨a + 2, by omega⟩ (by simp) (by simp),
    he ⟨a + 1, by omega⟩ (by simp) (by simp), he ⟨a, by omega⟩ (by simp) (by simp)]

theorem load_store_same (mem : Memory size) (v : BitVec 32) {a : Nat} (h : a + 4 ≤ size) :
    load (store mem a v) a h = v := by
  have h0 : store mem a v ⟨a, by omega⟩ = byteOf v 0 :=
    store_apply_inside mem v (i := 0) (by omega) (by omega)
  unfold load
  rw [store_apply_inside mem v (i := 3) (by omega), store_apply_inside mem v (i := 2) (by omega),
    store_apply_inside mem v (i := 1) (by omega), h0]
  exact bytes_append v

theorem load_store_disjoint (mem : Memory size) (v : BitVec 32) {a b : Nat} (h : b + 4 ≤ size)
    (hd : b + 4 ≤ a ∨ a + 4 ≤ b) : load (store mem a v) b h = load mem b h :=
  load_congr h fun _ hl hr => store_apply_outside mem v (by omega)

def Holds (mem : Memory size) (base : Nat) (ws : List (BitVec 32)) : Prop :=
  ∀ (k : Nat) (hk : k < ws.length), ∃ h, load mem (base + 4 * k) h = ws[k]

theorem holds_nil (mem : Memory size) (base : Nat) : Holds mem base [] := by
  intro k hk
  simp at hk

theorem Holds.dropLast {mem : Memory size} {base : Nat} {ws : List (BitVec 32)}
    (h : Holds mem base ws) : Holds mem base ws.dropLast := by
  intro k hk
  rw [List.length_dropLast] at hk
  obtain ⟨hb, hv⟩ := h k (by omega)
  exact ⟨hb, by rw [hv, List.getElem_dropLast]⟩

theorem Holds.store_outside {mem : Memory size} {base a : Nat} {ws : List (BitVec 32)}
    (h : Holds mem base ws) (v : BitVec 32) (hd : a + 4 ≤ base ∨ base + 4 * ws.length ≤ a) :
    Holds (store mem a v) base ws := by
  intro k hk
  obtain ⟨hb, hv⟩ := h k hk
  refine ⟨hb, ?_⟩
  rw [load_store_disjoint mem v hb (by omega)]
  exact hv

theorem Holds.push {mem : Memory size} {base : Nat} {ws : List (BitVec 32)}
    (h : Holds mem base ws) (v : BitVec 32) (hb : base + 4 * ws.length + 4 ≤ size) :
    Holds (store mem (base + 4 * ws.length) v) base (ws ++ [v]) := by
  intro k hk
  by_cases hlt : k < ws.length
  · obtain ⟨hk', hv⟩ := h.store_outside v (.inr (Nat.le_refl _)) k hlt
    exact ⟨hk', by rw [hv, List.getElem_append_left hlt]⟩
  · have hk' : k = ws.length := by
      simp only [List.length_append, List.length_singleton] at hk
      omega
    subst hk'
    exact ⟨hb, by rw [load_store_same, List.getElem_concat_length rfl]⟩

def wordBytes (v : BitVec 32) : List (BitVec 8) := (List.range 4).map (byteOf v)

theorem byteOf_load (mem : Memory size) {a i : Nat} (h : a + 4 ≤ size) (hi : i < 4) :
    byteOf (load mem a h) i = mem ⟨a + i, by omega⟩ := by
  ext k hk
  have bit (b : BitVec 8) (n : Nat) (hn : n = k) : b.getLsbD n = b[k] := by
    subst hn
    exact BitVec.getLsbD_eq_getElem hk
  simp only [byteOf, load, BitVec.getElem_extractLsb', BitVec.getLsbD_append]
  match i with
  | 0 => rw [if_pos (by omega), bit _ _ (by omega)]; rfl
  | 1 => rw [if_neg (by omega), if_pos (by omega), bit _ _ (by omega)]
  | 2 => rw [if_neg (by omega), if_neg (by omega), if_pos (by omega), bit _ _ (by omega)]
  | 3 => rw [if_neg (by omega), if_neg (by omega), if_neg (by omega), bit _ _ (by omega)]

theorem slice_append (mem : Memory size) {a m n : Nat} (h : a + (m + n) ≤ size) :
    slice mem a (m + n) h = slice mem a m (by omega) ++ slice mem (a + m) n (by omega) := by
  rw [slice, List.ofFn_add]
  congr 1
  simp only [slice, Fin.val_natAdd, Nat.add_assoc]

theorem slice_word (mem : Memory size) {a : Nat} (h : a + 4 ≤ size) :
    slice mem a 4 h = wordBytes (load mem a h) := by
  have hbytes : wordBytes (load mem a h) =
      List.ofFn fun i : Fin 4 => byteOf (load mem a h) i.val := rfl
  rw [hbytes, slice]
  congr 1
  funext i
  exact (byteOf_load mem h i.isLt).symm

theorem Holds.tail {mem : Memory size} {base : Nat} {w : BitVec 32} {ws : List (BitVec 32)}
    (h : Holds mem base (w :: ws)) : Holds mem (base + 4) ws := by
  intro k hk
  obtain ⟨hb, hv⟩ := h (k + 1) (Nat.succ_lt_succ hk)
  have haddress : base + 4 + 4 * k = base + 4 * (k + 1) := by omega
  simp only [haddress]
  exact ⟨hb, hv⟩

theorem Holds.slice_eq {mem : Memory size} {base : Nat} {ws : List (BitVec 32)}
    (h : Holds mem base ws) (hsize : base + 4 * ws.length ≤ size) :
    slice mem base (4 * ws.length) hsize = ws.flatMap wordBytes := by
  induction ws generalizing base with
  | nil => rfl
  | cons w ws ih =>
    have hlength : 4 * (w :: ws).length = 4 + 4 * ws.length := by
      rw [List.length_cons]
      omega
    obtain ⟨hb, hload⟩ := h 0 (Nat.succ_pos _)
    have hword : slice mem base 4 hb = wordBytes w := by
      rw [slice_word]
      exact congrArg wordBytes hload
    simp only [hlength] at hsize ⊢
    rw [slice_append, hword, ih h.tail, List.flatMap_cons]

theorem slice_within (mem : Memory size) {a n b m : Nat} (h : a + n ≤ size) (hb : a ≤ b)
    (hm : b + m ≤ a + n) :
    slice mem b m (by omega) = ((slice mem a n h).drop (b - a)).take m := by
  obtain ⟨k, rfl⟩ := Nat.exists_eq_add_of_le hb
  obtain ⟨l, rfl⟩ : ∃ l, n = k + (m + l) := ⟨n - k - m, by omega⟩
  have hk : (slice mem a k (by omega)).length = k := List.length_ofFn
  have hlen : (slice mem (a + k) m (by omega)).length = m := List.length_ofFn
  rw [slice_append, slice_append, Nat.add_sub_cancel_left, List.drop_left' hk, List.take_left' hlen]

end ByteMemory
