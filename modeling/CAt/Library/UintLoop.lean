import CAt.Library.GuardedLoop
import Mathlib.Algebra.Group.Nat.Defs
import Mathlib.Data.Nat.Find
import Mathlib.Order.Basic

namespace UintLoop

open GuardedLoop
open GuardedLoop.Loop

variable {σ ε : Type}

-- for (uint i = 0; i < n; i++): the counter has 32 bits, the bound may have more.
def upTo (n : Nat) (body : BitVec 32 → σ → Except ε σ) : Loop (BitVec 32 × σ) ε where
  guard s := s.1.toNat < n
  body s := (fun a => (s.1 + 1, a)) <$> body s.1 s.2

-- for (uint i = start; i > 0; i--)
def downFrom (body : BitVec 32 → σ → Except ε σ) : Loop (BitVec 32 × σ) ε where
  guard s := s.1 != 0
  body s := (fun a => (s.1 - 1, a)) <$> body s.1 s.2

-- for (uint i = 0; i < n; i++) if (hit(i)) return i;
def search (n : Nat) (hit : BitVec 32 → Except ε Bool) : Loop (BitVec 32 × Bool) ε where
  guard s := !s.2 && decide (s.1.toNat < n)
  body s := (fun found => (if found then s.1 else s.1 + 1, found)) <$> hit s.1

-- all = all && test(i): the test is not made once `all` is false.
def allOf (test : BitVec 32 → Except ε Bool) (i : BitVec 32) (all : Bool) : Except ε Bool :=
  if all then test i else .ok false

theorem counter_toNat {k : Nat} (h : k < 2 ^ 32) : (BitVec.ofNat 32 k).toNat = k := by
  rw [BitVec.toNat_ofNat, Nat.mod_eq_of_lt h]

theorem counter_succ (k : Nat) : BitVec.ofNat 32 k + 1 = BitVec.ofNat 32 (k + 1) := by
  rw [BitVec.ofNat_add]
  rfl

theorem counter_pred (k : Nat) : BitVec.ofNat 32 (k + 1) - 1 = BitVec.ofNat 32 k := by
  rw [← counter_succ, BitVec.add_sub_cancel]

section UpTo

variable {n k fuel : Nat} {body : BitVec 32 → σ → Except ε σ} {a : σ} {unfinished : ε}
  {t : BitVec 32 × σ}

def foldTo (body : BitVec 32 → σ → Except ε σ) (a : σ) : Nat → Except ε σ
  | 0 => .ok a
  | k + 1 => foldTo body a k >>= body (BitVec.ofNat 32 k)

theorem foldTo_error {e : ε} (h : foldTo body a k = .error e) (hk : k ≤ n) :
    foldTo body a n = .error e := by
  induction n, hk using Nat.le_induction with
  | base => exact h
  | succ n _ ih =>
    rw [foldTo, ih]
    rfl

theorem guard_upTo (i : BitVec 32) (b : σ) : (upTo n body).guard (i, b) = decide (i.toNat < n) :=
  rfl

theorem stop_upTo (hn : n < 2 ^ 32) (b : σ) :
    (upTo n body).guard (BitVec.ofNat 32 n, b) = false := by
  rw [guard_upTo, counter_toNat hn]
  exact decide_eq_false (Nat.lt_irrefl n)

theorem run_upTo (hn : k ≤ n) (hk : k ≤ 2 ^ 32) :
    (upTo n body).run k (0, a) = (fun b => (BitVec.ofNat 32 k, b)) <$> foldTo body a k := by
  induction k with
  | zero => rfl
  | succ k ih =>
    rw [run_succ_last, ih (Nat.le_of_succ_le hn) (Nat.le_of_succ_le hk), foldTo]
    cases foldTo body a k with
    | error e => rfl
    | ok b =>
      have hguard : (upTo n body).guard (BitVec.ofNat 32 k, b) = true := by
        rw [guard_upTo, counter_toNat hk]
        exact decide_eq_true hn
      change (upTo n body).iterate (BitVec.ofNat 32 k, b) = _ <$> body (BitVec.ofNat 32 k) b
      rw [iterate_of_guard hguard, ← counter_succ]
      rfl

theorem upTo_bound (h : (upTo n body).guard t = false) : n < 2 ^ 32 := by
  have hle : n ≤ t.1.toNat := Nat.le_of_not_lt (of_decide_eq_false h)
  exact Nat.lt_of_le_of_lt hle t.1.isLt

theorem upTo_fuel (h : (upTo n body).finish unfinished fuel (0, a) = .ok t) : n ≤ fuel := by
  obtain ⟨hrun, hguard⟩ := finish_ok_iff.mp h
  by_contra hlt
  have hle := Nat.le_of_not_le hlt
  have hsmall := Nat.lt_of_le_of_lt hle (upTo_bound hguard)
  rw [run_upTo hle (Nat.le_of_lt hsmall)] at hrun
  obtain ⟨b, -, hb⟩ := bind_ok hrun
  cases hb
  have hge : n ≤ (BitVec.ofNat 32 fuel).toNat := Nat.le_of_not_lt (of_decide_eq_false hguard)
  rw [counter_toNat hsmall] at hge
  exact hlt hge

theorem upTo_endless (P : σ → Prop) (hn : 2 ^ 32 ≤ n)
    (step : ∀ i b, P b → ∃ b', body i b = .ok b' ∧ P b') (ha : P a) (fuel : Nat) :
    (upTo n body).finish unfinished fuel (0, a) = .error unfinished := by
  have hkept (s t : BitVec 32 × σ) (hs : P s.2) (_ : (upTo n body).guard s = true)
      (hbody : (upTo n body).body s = .ok t) : P t.2 := by
    obtain ⟨b', hstep, hb'⟩ := step s.1 s.2 hs
    simp only [upTo, hstep] at hbody
    cases hbody
    exact hb'
  cases hfinish : (upTo n body).finish unfinished fuel (0, a) with
  | ok t =>
    obtain ⟨-, hguard⟩ := finish_ok_iff.mp hfinish
    exact absurd (upTo_bound hguard) (Nat.not_lt_of_le hn)
  | error e =>
    cases hrun : (upTo n body).run fuel (0, a) with
    | ok t =>
      have hguard : (upTo n body).guard t = true :=
        decide_eq_true (Nat.lt_of_lt_of_le t.1.isLt hn)
      rw [finish, hrun, ok_bind, if_pos hguard] at hfinish
      rw [hfinish]
    | error e' =>
      obtain ⟨k, t, hreached, -, hbody⟩ := run_error hrun
      obtain ⟨b', hstep, -⟩ := step t.1 t.2 (run_invariant (fun s => P s.2) hkept ha hreached)
      simp only [upTo, hstep] at hbody
      cases hbody

theorem finish_upTo_iff : (upTo n body).finish unfinished fuel (0, a) = .ok t ↔
    n ≤ fuel ∧ n < 2 ^ 32 ∧ foldTo body a n = .ok t.2 ∧ t.1 = BitVec.ofNat 32 n := by
  constructor
  · intro h
    have hfuel := upTo_fuel h
    obtain ⟨hrun, hguard⟩ := finish_ok_iff.mp h
    have hbound := upTo_bound hguard
    have hsplit := run_add (upTo n body) n (fuel - n) (0, a)
    rw [Nat.add_sub_cancel' hfuel, hrun, run_upTo (Nat.le_refl n) (Nat.le_of_lt hbound)] at hsplit
    cases hfold : foldTo body a n with
    | error e =>
      rw [hfold] at hsplit
      cases hsplit
    | ok b =>
      rw [hfold] at hsplit
      change _ = (upTo n body).run (fuel - n) (BitVec.ofNat 32 n, b) at hsplit
      rw [run_of_not_guard (stop_upTo hbound b)] at hsplit
      cases hsplit
      exact ⟨hfuel, hbound, rfl, rfl⟩
  · rintro ⟨hfuel, hbound, hfold, hcounter⟩
    obtain ⟨i, b⟩ := t
    subst hcounter
    refine finish_of_run ?_ (stop_upTo hbound b) hfuel
    rw [run_upTo (Nat.le_refl n) (Nat.le_of_lt hbound), hfold]
    rfl

theorem map_finish_upTo_iff {τ : Type} {f : σ → τ} {y : τ} :
    (fun t => f t.2) <$> (upTo n body).finish unfinished fuel (0, a) = .ok y ↔
      n ≤ fuel ∧ n < 2 ^ 32 ∧ ∃ b, foldTo body a n = .ok b ∧ f b = y := by
  constructor
  · intro h
    obtain ⟨t, hfinish, heq⟩ := bind_ok h
    obtain ⟨hfuel, hbound, hfold, -⟩ := finish_upTo_iff.mp hfinish
    exact ⟨hfuel, hbound, t.2, hfold, Except.ok.inj heq⟩
  · rintro ⟨hfuel, hbound, b, hfold, rfl⟩
    have hfinish : (upTo n body).finish unfinished fuel (0, a) = .ok (BitVec.ofNat 32 n, b) :=
      finish_upTo_iff.mpr ⟨hfuel, hbound, hfold, rfl⟩
    rw [hfinish]
    rfl

theorem map_finish_upTo_error {τ : Type} {f : σ → τ} {e : ε}
    (h : (fun t => f t.2) <$> (upTo n body).finish unfinished fuel (0, a) = .error e) :
    e = unfinished ∨ ∃ i b, body i b = .error e := by
  refine (finish_error (map_error h)).imp_right ?_
  rintro ⟨⟨i, b⟩, -, hbody⟩
  exact ⟨i, b, map_error hbody⟩

theorem foldTo_allOf {test : BitVec 32 → Except ε Bool} {p : Nat → Bool}
    (h : ∀ k < n, test (BitVec.ofNat 32 k) = .ok (p k)) :
    foldTo (allOf test) true n = .ok ((List.range n).all p) := by
  induction n with
  | zero => rfl
  | succ n ih =>
    rw [foldTo, ih fun k hk => h k (Nat.lt_succ_of_lt hk), ok_bind, List.range_succ,
      List.all_append, List.all_cons, List.all_nil, Bool.and_true, allOf]
    cases (List.range n).all p with
    | true => exact h n (Nat.lt_succ_self n)
    | false => rfl

theorem finish_allOf_iff {test : BitVec 32 → Except ε Bool} {p : Nat → Bool}
    (h : ∀ k < n, k < 2 ^ 32 → test (BitVec.ofNat 32 k) = .ok (p k)) {t : BitVec 32 × Bool} :
    (upTo n (allOf test)).finish unfinished fuel (0, true) = .ok t ↔
      n ≤ fuel ∧ n < 2 ^ 32 ∧ t = (BitVec.ofNat 32 n, (List.range n).all p) := by
  rw [finish_upTo_iff]
  refine and_congr_right fun _ => and_congr_right fun hn => ?_
  rw [foldTo_allOf fun k hk => h k hk (Nat.lt_trans hk hn)]
  constructor
  · rintro ⟨hall, hcounter⟩
    exact Prod.ext hcounter (Except.ok.inj hall).symm
  · rintro rfl
    exact ⟨rfl, rfl⟩

theorem snd_finish_allOf_iff {test : BitVec 32 → Except ε Bool} {p : Nat → Bool} {P : Prop}
    (h : ∀ k < n, k < 2 ^ 32 → test (BitVec.ofNat 32 k) = .ok (p k))
    (hall : (List.range n).all p = true ↔ P) {b : Bool} :
    Prod.snd <$> (upTo n (allOf test)).finish unfinished fuel (0, true) = .ok b ↔
      n ≤ fuel ∧ n < 2 ^ 32 ∧ (b = true ↔ P) := by
  rw [← hall, ← Bool.eq_iff_iff]
  constructor
  · intro hok
    obtain ⟨t, hfinish, heq⟩ := bind_ok hok
    obtain ⟨hfuel, hbound, rfl⟩ := (finish_allOf_iff h).mp hfinish
    cases heq
    exact ⟨hfuel, hbound, rfl⟩
  · rintro ⟨hfuel, hbound, rfl⟩
    rw [(finish_allOf_iff h).mpr ⟨hfuel, hbound, rfl⟩]
    rfl

end UpTo

section DownFrom

variable {k fuel : Nat} {body : BitVec 32 → σ → Except ε σ} {a : σ} {unfinished : ε}
  {t : BitVec 32 × σ}

def foldDown (body : BitVec 32 → σ → Except ε σ) : Nat → σ → Except ε σ
  | 0, a => .ok a
  | k + 1, a => body (BitVec.ofNat 32 (k + 1)) a >>= foldDown body k

theorem run_downFrom (hk : k < 2 ^ 32) :
    (downFrom body).run k (BitVec.ofNat 32 k, a) = (fun b => (0, b)) <$> foldDown body k a := by
  induction k generalizing a with
  | zero => rfl
  | succ k ih =>
    have hguard : (downFrom body).guard (BitVec.ofNat 32 (k + 1), a) = true := by
      refine bne_iff_ne.mpr fun hzero => ?_
      have hnat := congrArg BitVec.toNat hzero
      rw [counter_toNat hk] at hnat
      exact absurd hnat (Nat.succ_ne_zero k)
    rw [run_succ, iterate_of_guard hguard, foldDown]
    cases hbody : body (BitVec.ofNat 32 (k + 1)) a with
    | error e =>
      have hstep : (downFrom body).body (BitVec.ofNat 32 (k + 1), a) = .error e :=
        congrArg (Except.map _) hbody
      rw [hstep]
      rfl
    | ok b =>
      have hstep : (downFrom body).body (BitVec.ofNat 32 (k + 1), a) =
          .ok (BitVec.ofNat 32 k, b) := by
        rw [← counter_pred k]
        exact congrArg (Except.map _) hbody
      rw [hstep, ok_bind, ok_bind]
      exact ih (Nat.lt_of_succ_lt hk)

theorem finish_downFrom (hk : k < 2 ^ 32) {b : σ} (hfold : foldDown body k a = .ok b)
    (hfuel : k ≤ fuel) :
    (downFrom body).finish unfinished fuel (BitVec.ofNat 32 k, a) = .ok (0, b) := by
  refine finish_of_run ?_ rfl hfuel
  rw [run_downFrom hk, hfold]
  rfl

theorem finish_downFrom_eq (hk : k < 2 ^ 32) {b : σ} (hfold : foldDown body k a = .ok b)
    (h : (downFrom body).finish unfinished fuel (BitVec.ofNat 32 k, a) = .ok t) : t = (0, b) := by
  have hends : (downFrom body).finish unfinished k (BitVec.ofNat 32 k, a) = .ok (0, b) :=
    finish_downFrom hk hfold (Nat.le_refl k)
  exact finishes_unique (Finishes.of_finish h) (Finishes.of_finish hends)

theorem foldDown_allOf {test : BitVec 32 → Except ε Bool} {p : Nat → Bool}
    (h : ∀ j < k, test (BitVec.ofNat 32 (j + 1)) = .ok (p (j + 1))) (all : Bool) :
    foldDown (allOf test) k all = .ok (all && (List.range k).all fun j => p (j + 1)) := by
  induction k generalizing all with
  | zero => exact congrArg Except.ok (Bool.and_true all).symm
  | succ k ih =>
    have hrest := ih fun j hj => h j (Nat.lt_succ_of_lt hj)
    have hnext : allOf test (BitVec.ofNat 32 (k + 1)) all = .ok (all && p (k + 1)) := by
      cases all with
      | true => exact h k (Nat.lt_succ_self k)
      | false => rfl
    rw [foldDown, hnext, ok_bind, hrest, List.range_succ, List.all_append, List.all_cons,
      List.all_nil, Bool.and_true, Bool.and_assoc, Bool.and_comm (p (k + 1))]

end DownFrom

section Search

variable {n k fuel : Nat} {hit : BitVec 32 → Except ε Bool} {unfinished : ε}

theorem guard_search (i : BitVec 32) (found : Bool) :
    (search n hit).guard (i, found) = (!found && decide (i.toNat < n)) := rfl

theorem run_search (hn : k ≤ n) (hk : k ≤ 2 ^ 32)
    (misses : ∀ j < k, hit (BitVec.ofNat 32 j) = .ok false) :
    (search n hit).run k (0, false) = .ok (BitVec.ofNat 32 k, false) := by
  induction k with
  | zero => rfl
  | succ k ih =>
    have hrun := ih (Nat.le_of_succ_le hn) (Nat.le_of_succ_le hk)
      fun j hj => misses j (Nat.lt_succ_of_lt hj)
    have hguard : (search n hit).guard (BitVec.ofNat 32 k, false) = true := by
      rw [guard_search, counter_toNat hk]
      exact decide_eq_true hn
    have hbody : (search n hit).body (BitVec.ofNat 32 k, false) =
        .ok (BitVec.ofNat 32 (k + 1), false) := by
      rw [← counter_succ]
      exact congrArg (Except.map _) (misses k (Nat.lt_succ_self k))
    rw [run_succ_last, hrun, ok_bind, iterate_of_guard hguard, hbody]

theorem search_finds {p : Nat → Bool} (tests : ∀ j ≤ k, hit (BitVec.ofNat 32 j) = .ok (p j))
    (hn : k < n) (hk : k < 2 ^ 32) (hits : p k = true) (misses : ∀ j < k, p j = false)
    (hfuel : k < fuel) :
    (search n hit).finish unfinished fuel (0, false) = .ok (BitVec.ofNat 32 k, true) := by
  have hrun : (search n hit).run k (0, false) = .ok (BitVec.ofNat 32 k, false) := by
    refine run_search (Nat.le_of_lt hn) (Nat.le_of_lt hk) fun j hj => ?_
    rw [tests j (Nat.le_of_lt hj), misses j hj]
  have hguard : (search n hit).guard (BitVec.ofNat 32 k, false) = true := by
    rw [guard_search, counter_toNat hk]
    exact decide_eq_true hn
  have hbody : (search n hit).body (BitVec.ofNat 32 k, false) = .ok (BitVec.ofNat 32 k, true) := by
    have htest := tests k (Nat.le_refl k)
    rw [hits] at htest
    exact congrArg (Except.map _) htest
  refine finish_of_run ?_ rfl hfuel
  rw [run_succ_last, hrun, ok_bind, iterate_of_guard hguard, hbody]

theorem search_misses {p : Nat → Bool} (tests : ∀ j < n, hit (BitVec.ofNat 32 j) = .ok (p j))
    (hn : n < 2 ^ 32) (misses : ∀ j < n, p j = false) (hfuel : n ≤ fuel) :
    (search n hit).finish unfinished fuel (0, false) = .ok (BitVec.ofNat 32 n, false) := by
  have hrun : (search n hit).run n (0, false) = .ok (BitVec.ofNat 32 n, false) := by
    refine run_search (Nat.le_refl n) (Nat.le_of_lt hn) fun j hj => ?_
    rw [tests j hj, misses j hj]
  refine finish_of_run hrun ?_ hfuel
  rw [guard_search, counter_toNat hn]
  exact decide_eq_false (Nat.lt_irrefl n)

-- With no hit below 2 ^ 32 and the bound above it, the counter wraps and the loop goes on.
theorem search_endless (hn : 2 ^ 32 ≤ n)
    (misses : ∀ j < 2 ^ 32, hit (BitVec.ofNat 32 j) = .ok false) (t : BitVec 32 × Bool) :
    (search n hit).finish unfinished fuel (0, false) ≠ .ok t := by
  intro h
  obtain ⟨hrun, hguard⟩ := finish_ok_iff.mp h
  have hmissed : t.2 = false := by
    refine run_invariant (fun s => s.2 = false) ?_ rfl hrun
    intro s u _ _ hbody
    have hmiss := misses s.1.toNat s.1.isLt
    rw [BitVec.ofNat_toNat, BitVec.setWidth_eq] at hmiss
    simp only [search, hmiss] at hbody
    cases hbody
    rfl
  obtain ⟨i, found⟩ := t
  have hlt : i.toNat < n := Nat.lt_of_lt_of_le i.isLt hn
  rw [guard_search, show found = false from hmissed, decide_eq_true hlt] at hguard
  cases hguard

theorem search_first {t : BitVec 32 × Bool} (hn : 0 < n)
    (h : (search n hit).finish unfinished fuel (0, false) = .ok t) : ∃ b, hit 0 = .ok b := by
  obtain ⟨hrun, hstop⟩ := finish_ok_iff.mp h
  have hguard : (search n hit).guard (0, false) = true := decide_eq_true hn
  cases fuel with
  | zero =>
    cases hrun
    rw [hguard] at hstop
    cases hstop
  | succ fuel =>
    rw [run_succ, iterate_of_guard hguard] at hrun
    obtain ⟨u, hbody, -⟩ := bind_ok hrun
    obtain ⟨b, hb, -⟩ := bind_ok hbody
    exact ⟨b, hb⟩

theorem search_cases {p : Nat → Bool} {i : BitVec 32} {found : Bool}
    (tests : ∀ j < n, j < 2 ^ 32 → hit (BitVec.ofNat 32 j) = .ok (p j))
    (h : (search n hit).finish unfinished fuel (0, false) = .ok (i, found)) :
    (found = true ∧ ∃ k < n, k < 2 ^ 32 ∧ i = BitVec.ofNat 32 k ∧ p k = true ∧
      ∀ j < k, p j = false) ∨ (found = false ∧ n < 2 ^ 32 ∧ ∀ j < n, p j = false) := by
  by_cases hexists : ∃ k, k < n ∧ k < 2 ^ 32 ∧ p k = true
  · obtain ⟨hn, hk, hhit⟩ := Nat.find_spec hexists
    have hleast : ∀ j < Nat.find hexists, p j = false := by
      intro j hj
      have hmin := Nat.find_min hexists hj
      exact Bool.eq_false_iff.mpr fun hpj => hmin ⟨Nat.lt_trans hj hn, Nat.lt_trans hj hk, hpj⟩
    have hfinds : (search n hit).finish unfinished (Nat.find hexists + 1) (0, false) =
        .ok (BitVec.ofNat 32 (Nat.find hexists), true) := by
      refine search_finds (fun j hj => ?_) hn hk hhit hleast (Nat.lt_succ_self _)
      exact tests j (Nat.lt_of_le_of_lt hj hn) (Nat.lt_of_le_of_lt hj hk)
    have hsame := finishes_unique (Finishes.of_finish h) (Finishes.of_finish hfinds)
    cases hsame
    exact .inl ⟨rfl, _, hn, hk, rfl, hhit, hleast⟩
  · have hnone (j : Nat) (hn : j < n) (hj : j < 2 ^ 32) : p j = false :=
      Bool.eq_false_iff.mpr fun hpj => hexists ⟨j, hn, hj, hpj⟩
    by_cases hbound : n < 2 ^ 32
    · have hall : ∀ j < n, p j = false := fun j hj => hnone j hj (Nat.lt_trans hj hbound)
      have hends : (search n hit).finish unfinished n (0, false) = .ok (BitVec.ofNat 32 n, false) :=
        search_misses (fun j hj => tests j hj (Nat.lt_trans hj hbound)) hbound hall (Nat.le_refl n)
      have hsame := finishes_unique (Finishes.of_finish h) (Finishes.of_finish hends)
      cases hsame
      exact .inr ⟨rfl, hbound, hall⟩
    · have hle := Nat.le_of_not_lt hbound
      refine absurd h (search_endless hle (fun j hj => ?_) _)
      have hn := Nat.lt_of_lt_of_le hj hle
      rw [tests j hn hj, hnone j hn hj]

theorem search_finishes {p : Nat → Bool} (tests : ∀ j < n, hit (BitVec.ofNat 32 j) = .ok (p j))
    (hn : n < 2 ^ 32) : ∃ t, (search n hit).finish unfinished n (0, false) = .ok t := by
  by_cases hexists : ∃ k, k < n ∧ p k = true
  · obtain ⟨hk, hhit⟩ := Nat.find_spec hexists
    refine ⟨_, search_finds (fun j hj => tests j (Nat.lt_of_le_of_lt hj hk)) hk
      (Nat.lt_trans hk hn) hhit (fun j hj => ?_) hk⟩
    have hmin := Nat.find_min hexists hj
    exact Bool.eq_false_iff.mpr fun hpj => hmin ⟨Nat.lt_trans hj hk, hpj⟩
  · have hnone (j : Nat) (hj : j < n) : p j = false :=
      Bool.eq_false_iff.mpr fun hpj => hexists ⟨j, hj, hpj⟩
    exact ⟨_, search_misses tests hn hnone (Nat.le_refl n)⟩

theorem search_mono {hit' : BitVec 32 → Except ε Bool} {fuel' : Nat} {s t : BitVec 32 × Bool}
    (hits : ∀ i b, hit i = .ok b → hit' i = .ok b) (hle : fuel ≤ fuel')
    (h : (search n hit).finish unfinished fuel s = .ok t) :
    (search n hit').finish unfinished fuel' s = .ok t := by
  obtain ⟨hrun, hguard⟩ := finish_ok_iff.mp h
  have hbodies (s s' t : BitVec 32 × Bool) (heq : s = s') (_ : (search n hit).guard s = true)
      (hbody : (search n hit).body s = .ok t) :
      ∃ t', (search n hit').body s' = .ok t' ∧ t = t' := by
    subst heq
    obtain ⟨b, hb, hpair⟩ := bind_ok hbody
    refine ⟨t, ?_, rfl⟩
    change (fun found => (if found then s.1 else s.1 + 1, found)) <$> hit' s.1 = .ok t
    rw [hits s.1 b hb]
    exact hpair
  have hguards (s s' : BitVec 32 × Bool) (heq : s = s') :
      (search n hit).guard s = (search n hit').guard s' := congrArg (search n hit).guard heq
  obtain ⟨u, hrun', rfl⟩ := run_lockstep Eq hguards hbodies rfl hrun
  exact finish_of_run hrun' hguard hle

end Search

end UintLoop
