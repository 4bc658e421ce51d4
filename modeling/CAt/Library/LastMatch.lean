import Mathlib.Data.List.Basic

namespace LastMatch

structure Last (P : Nat → Prop) (n i : Nat) : Prop where
  pos : 1 ≤ i
  le : i ≤ n
  found : P i
  last : ∀ j, i < j → j ≤ n → ¬ P j

theorem Last.unique {P : Nat → Prop} {n i j : Nat} (hi : Last P n i) (hj : Last P n j) : i = j := by
  rcases Nat.lt_trichotomy i j with h | h | h
  · exact absurd hj.found (hi.last j h hj.le)
  · exact h
  · exact absurd hi.found (hj.last i h hi.le)

variable {β : Type} (P : Nat → Prop) [DecidablePred P] (f : Nat → β)

def scan (b : β) (n : Nat) : β :=
  (List.range' 1 n).foldl (fun b i => if P i then f i else b) b

variable {P f}

theorem scan_succ (b : β) (n : Nat) :
    scan P f b (n + 1) = if P (n + 1) then f (n + 1) else scan P f b n := by
  rw [scan, scan, List.range'_1_concat, List.foldl_append, Nat.add_comm 1 n]
  rfl

theorem scan_cases (b : β) (n : Nat) :
    (∃ i, Last P n i ∧ scan P f b n = f i) ∨
      ((∀ i, 1 ≤ i → i ≤ n → ¬ P i) ∧ scan P f b n = b) := by
  induction n with
  | zero =>
    refine .inr ⟨fun i hpos hle => ?_, rfl⟩
    exact absurd (Nat.le_trans hpos hle) (Nat.not_succ_le_zero 0)
  | succ n ih =>
    rw [scan_succ]
    by_cases h : P (n + 1)
    · rw [if_pos h]
      refine .inl ⟨n + 1, ⟨Nat.succ_pos n, Nat.le_refl _, h, fun j hj hle => ?_⟩, rfl⟩
      exact absurd hj (Nat.not_lt.mpr hle)
    · rw [if_neg h]
      have hstep (j : Nat) (hle : j ≤ n + 1) : j ≤ n ∨ ¬ P j := by
        rcases Nat.le_succ_iff.mp hle with hle | rfl
        · exact .inl hle
        · exact .inr h
      rcases ih with ⟨i, hi, hscan⟩ | ⟨hnone, hscan⟩
      · refine .inl ⟨i, ⟨hi.pos, Nat.le_succ_of_le hi.le, hi.found, fun j hj hle => ?_⟩, hscan⟩
        exact (hstep j hle).elim (hi.last j hj) id
      · exact .inr ⟨fun i hpos hle => (hstep i hle).elim (hnone i hpos) id, hscan⟩

theorem scan_of_last {n i : Nat} (h : Last P n i) (b : β) : scan P f b n = f i := by
  rcases scan_cases (P := P) (f := f) b n with ⟨j, hj, hscan⟩ | ⟨hnone, -⟩
  · rw [hscan, hj.unique h]
  · exact absurd h.found (hnone i h.pos h.le)

end LastMatch
