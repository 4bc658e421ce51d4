import Mathlib.Logic.Relation

namespace GuardedLoop

structure Loop (σ ε : Type) where
  guard : σ → Bool
  body : σ → Except ε σ

namespace Loop

variable {σ τ ε γ : Type}

def iterate (L : Loop σ ε) (s : σ) : Except ε σ :=
  if L.guard s then L.body s else .ok s

def run (L : Loop σ ε) : Nat → σ → Except ε σ
  | 0, s => .ok s
  | n + 1, s => L.iterate s >>= L.run n

def Finishes (L : Loop σ ε) (s t : σ) : Prop :=
  ∃ n, L.run n s = .ok t ∧ L.guard t = false

def Reaches (L : Loop σ ε) (s t : σ) : Prop :=
  ∃ n, L.run n s = .ok t

theorem iterate_of_guard {L : Loop σ ε} {s : σ} (h : L.guard s = true) :
    L.iterate s = L.body s := by
  simp [iterate, h]

theorem iterate_of_not_guard {L : Loop σ ε} {s : σ} (h : L.guard s = false) :
    L.iterate s = .ok s := by
  simp [iterate, h]

@[simp] theorem run_zero (L : Loop σ ε) (s : σ) : L.run 0 s = .ok s := rfl

theorem run_succ (L : Loop σ ε) (n : Nat) (s : σ) :
    L.run (n + 1) s = L.iterate s >>= L.run n := rfl

theorem ok_bind {α β : Type} (a : α) (f : α → Except ε β) : (Except.ok a >>= f) = f a := rfl

theorem bind_ok {α β : Type} {x : Except ε α} {f : α → Except ε β} {b : β}
    (h : x >>= f = .ok b) : ∃ a, x = .ok a ∧ f a = .ok b := by
  cases x with
  | error e => cases h
  | ok a => exact ⟨a, rfl, h⟩

theorem map_error {α β : Type} {x : Except ε α} {f : α → β} {e : ε} (h : f <$> x = .error e) :
    x = .error e := by
  cases x with
  | error e' => exact congrArg Except.error (Except.error.inj h)
  | ok a => cases h

theorem run_add (L : Loop σ ε) (m n : Nat) (s : σ) :
    L.run (m + n) s = L.run m s >>= L.run n := by
  induction m generalizing s with
  | zero => simp; rfl
  | succ m ih =>
    rw [Nat.succ_add, run_succ, run_succ, bind_assoc]
    exact bind_congr fun t => ih t

theorem run_one (L : Loop σ ε) (s : σ) : L.run 1 s = L.iterate s := by
  rw [run_succ]
  exact bind_pure _

theorem run_succ_last (L : Loop σ ε) (n : Nat) (s : σ) :
    L.run (n + 1) s = L.run n s >>= L.iterate := by
  rw [run_add]
  exact bind_congr fun t => L.run_one t

theorem run_succ_ok {L : Loop σ ε} {n : Nat} {s u : σ} (h : L.run (n + 1) s = .ok u) :
    ∃ t, L.run n s = .ok t ∧ L.iterate t = .ok u := by
  rw [run_succ_last] at h
  exact bind_ok h

theorem run_of_not_guard {L : Loop σ ε} {s : σ} (h : L.guard s = false) (n : Nat) :
    L.run n s = .ok s := by
  induction n with
  | zero => rfl
  | succ n ih => rw [run_succ, iterate_of_not_guard h]; exact ih

theorem run_finished {L : Loop σ ε} {m : Nat} {s t : σ} (h : L.run m s = .ok t)
    (ht : L.guard t = false) (n : Nat) : L.run (m + n) s = .ok t := by
  rw [run_add, h]
  exact run_of_not_guard ht n

theorem finishes_unique {L : Loop σ ε} {s t u : σ} (ht : L.Finishes s t) (hu : L.Finishes s u) :
    t = u := by
  obtain ⟨m, hm, hgm⟩ := ht
  obtain ⟨n, hn, hgn⟩ := hu
  have h1 := run_finished hm hgm n
  have h2 := run_finished hn hgn m
  rw [Nat.add_comm, h2] at h1
  exact (Except.ok.inj h1).symm

theorem Reaches.refl (L : Loop σ ε) (s : σ) : L.Reaches s s := ⟨0, rfl⟩

theorem Reaches.step {L : Loop σ ε} {s t u : σ} (h : L.Reaches s t) (hg : L.guard t = true)
    (hb : L.body t = .ok u) : L.Reaches s u := by
  obtain ⟨n, hn⟩ := h
  refine ⟨n + 1, ?_⟩
  rw [run_succ_last, hn]
  exact (iterate_of_guard hg).trans hb

theorem Reaches.finishes {L : Loop σ ε} {s t : σ} (h : L.Reaches s t) (hg : L.guard t = false) :
    L.Finishes s t := by
  obtain ⟨n, hn⟩ := h
  exact ⟨n, hn, hg⟩

theorem run_head {L : Loop σ ε} {s t : σ} (hg : L.guard s = true) (hb : L.body s = .ok t)
    (n : Nat) : L.run (n + 1) s = L.run n t := by
  rw [run_succ, iterate_of_guard hg, hb]
  rfl

theorem Finishes.of_head {L : Loop σ ε} {s t u : σ} (h : L.Finishes t u)
    (hg : L.guard s = true) (hb : L.body s = .ok t) : L.Finishes s u := by
  obtain ⟨n, hn, hu⟩ := h
  exact ⟨n + 1, (run_head hg hb n).trans hn, hu⟩

theorem not_finishes_of_error {L : Loop σ ε} {n : Nat} {s t : σ} {e : ε}
    (h : L.run n s = .error e) : ¬ L.Finishes s t := by
  rintro ⟨m, hm, hg⟩
  have herror : L.run (m + n) s = .error e := by
    rw [Nat.add_comm, run_add, h]
    rfl
  rw [run_finished hm hg n] at herror
  cases herror

def finish (L : Loop σ ε) (unfinished : ε) (fuel : Nat) (s : σ) : Except ε σ := do
  let t ← L.run fuel s
  if L.guard t then .error unfinished else .ok t

theorem finish_ok_iff {L : Loop σ ε} {unfinished : ε} {fuel : Nat} {s t : σ} :
    L.finish unfinished fuel s = .ok t ↔ L.run fuel s = .ok t ∧ L.guard t = false := by
  constructor
  · intro h
    obtain ⟨u, hrun, h⟩ := bind_ok h
    split at h
    · cases h
    · rename_i hguard
      cases h
      exact ⟨hrun, Bool.eq_false_iff.mpr hguard⟩
  · rintro ⟨hrun, hguard⟩
    rw [finish, hrun, ok_bind, hguard]
    rfl

theorem Finishes.of_finish {L : Loop σ ε} {unfinished : ε} {fuel : Nat} {s t : σ}
    (h : L.finish unfinished fuel s = .ok t) : L.Finishes s t :=
  ⟨fuel, finish_ok_iff.mp h⟩

theorem finish_of_run {L : Loop σ ε} {unfinished : ε} {n fuel : Nat} {s t : σ}
    (h : L.run n s = .ok t) (hg : L.guard t = false) (hfuel : n ≤ fuel) :
    L.finish unfinished fuel s = .ok t := by
  have hrun := run_finished h hg (fuel - n)
  rw [Nat.add_sub_cancel' hfuel] at hrun
  exact finish_ok_iff.mpr ⟨hrun, hg⟩

def Ends (L : Loop σ ε) (s : σ) (r : Except ε σ) : Prop :=
  ∃ n, L.run n s = r ∧ ∀ t, r = .ok t → L.guard t = false

theorem Ends.of_finishes {L : Loop σ ε} {s t : σ} (h : L.Finishes s t) : L.Ends s (.ok t) := by
  obtain ⟨n, hn, hg⟩ := h
  refine ⟨n, hn, ?_⟩
  rintro u ⟨⟩
  exact hg

theorem Ends.of_body_error {L : Loop σ ε} {s : σ} {e : ε} (hg : L.guard s = true)
    (hb : L.body s = .error e) : L.Ends s (.error e) := by
  refine ⟨1, ?_, ?_⟩
  · rw [run_one, iterate_of_guard hg, hb]
  · rintro t ⟨⟩

theorem Ends.of_head {L : Loop σ ε} {s t : σ} {r : Except ε σ} (h : L.Ends t r)
    (hg : L.guard s = true) (hb : L.body s = .ok t) : L.Ends s r := by
  obtain ⟨n, hn, hr⟩ := h
  exact ⟨n + 1, (run_head hg hb n).trans hn, hr⟩

theorem Ends.eq_of_error {L : Loop σ ε} {s : σ} {r : Except ε σ} (h : L.Ends s r) {n : Nat}
    {e : ε} (hn : L.run n s = .error e) : r = .error e := by
  obtain ⟨m, hm, hr⟩ := h
  cases r with
  | ok t => exact absurd ⟨m, hm, hr t rfl⟩ (not_finishes_of_error hn)
  | error e' =>
    have hlater : L.run (m + n) s = .error e' := by
      rw [run_add, hm]
      rfl
    rw [Nat.add_comm, run_add, hn] at hlater
    exact hlater.symm

theorem Ends.finishes_iff {L : Loop σ ε} {s t : σ} {r : Except ε σ} (h : L.Ends s r) :
    L.Finishes s t ↔ r = .ok t := by
  obtain ⟨n, hn, hr⟩ := h
  constructor
  · intro ht
    cases r with
    | ok u => exact congrArg Except.ok (finishes_unique ⟨n, hn, hr u rfl⟩ ht)
    | error e => exact absurd ht (not_finishes_of_error hn)
  · rintro rfl
    exact ⟨n, hn, hr t rfl⟩

theorem Ends.unique {L : Loop σ ε} {s : σ} {r r' : Except ε σ} (h : L.Ends s r)
    (h' : L.Ends s r') : r = r' := by
  cases r' with
  | ok t =>
    obtain ⟨n, hn, hg⟩ := h'
    exact h.finishes_iff.mp ⟨n, hn, hg t rfl⟩
  | error e =>
    obtain ⟨n, hn, -⟩ := h'
    exact h.eq_of_error hn

theorem Ends.of_variant {L : Loop σ ε} (fuel : σ → Nat)
    (step : ∀ s, L.guard s = true → 0 < fuel s ∧ ∀ t, L.body s = .ok t → fuel t < fuel s)
    {n : Nat} {s : σ} (hn : fuel s ≤ n) : L.Ends s (L.run n s) := by
  induction n generalizing s with
  | zero =>
    refine .of_finishes ((Reaches.refl L s).finishes ?_)
    cases hg : L.guard s with
    | false => rfl
    | true => exact absurd (step s hg).1 (Nat.not_lt.mpr hn)
  | succ n ih =>
    cases hg : L.guard s with
    | false =>
      rw [run_of_not_guard hg]
      exact .of_finishes ((Reaches.refl L s).finishes hg)
    | true =>
      cases hb : L.body s with
      | error e =>
        have hrun : L.run (n + 1) s = .error e := by
          rw [run_succ, iterate_of_guard hg, hb]
          rfl
        rw [hrun]
        exact .of_body_error hg hb
      | ok t =>
        rw [run_head hg hb]
        exact (ih (Nat.le_of_lt_succ (Nat.lt_of_lt_of_le ((step s hg).2 t hb) hn))).of_head hg hb

theorem run_error {L : Loop σ ε} {n : Nat} {s : σ} {e : ε} (h : L.run n s = .error e) :
    ∃ k t, L.run k s = .ok t ∧ L.guard t = true ∧ L.body t = .error e := by
  induction n generalizing s with
  | zero => cases h
  | succ n ih =>
    rw [run_succ] at h
    cases hi : L.iterate s with
    | error e' =>
      rw [hi] at h
      cases h
      cases hg : L.guard s with
      | true => exact ⟨0, s, rfl, hg, iterate_of_guard hg ▸ hi⟩
      | false =>
        rw [iterate_of_not_guard hg] at hi
        cases hi
    | ok t =>
      rw [hi] at h
      obtain ⟨k, u, hu, hg, hb⟩ := ih h
      exact ⟨k + 1, u, by rw [run_succ, hi]; exact hu, hg, hb⟩

theorem finish_error {L : Loop σ ε} {unfinished : ε} {fuel : Nat} {s : σ} {e : ε}
    (h : L.finish unfinished fuel s = .error e) :
    e = unfinished ∨ ∃ t, L.guard t = true ∧ L.body t = .error e := by
  unfold finish at h
  cases hrun : L.run fuel s with
  | error e' =>
    rw [hrun] at h
    cases h
    obtain ⟨-, t, -, hguard, hbody⟩ := run_error hrun
    exact .inr ⟨t, hguard, hbody⟩
  | ok t =>
    rw [hrun, ok_bind] at h
    split at h
    · exact .inl (Except.error.inj h).symm
    · cases h

theorem run_invariant {L : Loop σ ε} (P : σ → Prop)
    (step : ∀ s t, P s → L.guard s = true → L.body s = .ok t → P t)
    {n : Nat} {s t : σ} (hs : P s) (h : L.run n s = .ok t) : P t := by
  induction n generalizing s with
  | zero => cases h; exact hs
  | succ n ih =>
    obtain ⟨u, hu, hrun⟩ := bind_ok h
    cases hg : L.guard s with
    | true => exact ih (step s u hs hg (iterate_of_guard hg ▸ hu)) hrun
    | false =>
      rw [iterate_of_not_guard hg] at hu
      cases hu
      exact ih hs hrun

def history (L : Loop σ ε) (record : σ → γ → γ) (g : γ) (s : σ) : Nat → γ
  | 0 => g
  | n + 1 =>
    match L.run n s with
    | .ok t => if L.guard t then record t (L.history record g s n) else L.history record g s n
    | .error _ => L.history record g s n

theorem history_succ_of_guard {L : Loop σ ε} {record : σ → γ → γ} {g : γ} {s t : σ} {n : Nat}
    (h : L.run n s = .ok t) (hg : L.guard t = true) :
    L.history record g s (n + 1) = record t (L.history record g s n) := by
  simp [history, h, hg]

theorem history_succ_of_not_guard {L : Loop σ ε} {record : σ → γ → γ} {g : γ} {s t : σ} {n : Nat}
    (h : L.run n s = .ok t) (hg : L.guard t = false) :
    L.history record g s (n + 1) = L.history record g s n := by
  simp [history, h, hg]

theorem history_invariant {L : Loop σ ε} {record : σ → γ → γ} (P : γ → σ → Prop)
    {g : γ} {s : σ} (init : P g s) {n : Nat}
    (step : ∀ k t u, k < n → L.run k s = .ok t → L.guard t = true → L.body t = .ok u →
      P (L.history record g s k) t → P (record t (L.history record g s k)) u)
    {t : σ} (h : L.run n s = .ok t) : P (L.history record g s n) t := by
  induction n generalizing t with
  | zero => cases h; exact init
  | succ n ih =>
    obtain ⟨u, hu, hrun⟩ := run_succ_ok h
    have hP := ih (fun k v w hk => step k v w (Nat.lt_succ_of_lt hk)) hu
    cases hg : L.guard u with
    | true =>
      rw [history_succ_of_guard hu hg]
      exact step n u t (Nat.lt_succ_self n) hu hg (iterate_of_guard hg ▸ hrun) hP
    | false =>
      rw [iterate_of_not_guard hg] at hrun
      cases hrun
      rw [history_succ_of_not_guard hu hg]
      exact hP

theorem run_lockstep {L : Loop σ ε} {M : Loop τ ε} (R : σ → τ → Prop)
    (guards : ∀ s t, R s t → L.guard s = M.guard t)
    (bodies : ∀ s t s', R s t → L.guard s = true → L.body s = .ok s' →
      ∃ t', M.body t = .ok t' ∧ R s' t')
    {n : Nat} {s s' : σ} {t : τ} (h : R s t) (hrun : L.run n s = .ok s') :
    ∃ t', M.run n t = .ok t' ∧ R s' t' := by
  induction n generalizing s t with
  | zero => cases hrun; exact ⟨t, rfl, h⟩
  | succ n ih =>
    obtain ⟨u, hu, hrest⟩ := bind_ok hrun
    cases hg : L.guard s with
    | true =>
      obtain ⟨v, hv, huv⟩ := bodies s t u h hg (iterate_of_guard hg ▸ hu)
      obtain ⟨t', ht', hR⟩ := ih huv hrest
      refine ⟨t', ?_, hR⟩
      rw [run_succ, iterate_of_guard (guards s t h ▸ hg), hv]
      exact ht'
    | false =>
      rw [iterate_of_not_guard hg] at hu
      cases hu
      obtain ⟨t', ht', hR⟩ := ih h hrest
      refine ⟨t', ?_, hR⟩
      rw [run_succ, iterate_of_not_guard (guards s t h ▸ hg)]
      exact ht'

inductive Alike (R : σ → τ → Prop) : Except ε σ → Except ε τ → Prop
  | error (e : ε) : Alike R (.error e) (.error e)
  | ok {s : σ} {t : τ} (related : R s t) : Alike R (.ok s) (.ok t)

theorem run_alike {L : Loop σ ε} {M : Loop τ ε} (R : σ → τ → Prop)
    (guards : ∀ s t, R s t → L.guard s = M.guard t)
    (bodies : ∀ s t, R s t → L.guard s = true → Alike R (L.body s) (M.body t))
    {s : σ} {t : τ} (h : R s t) (n : Nat) : Alike R (L.run n s) (M.run n t) := by
  induction n generalizing s t with
  | zero => exact .ok h
  | succ n ih =>
    rw [run_succ, run_succ]
    cases hg : L.guard s with
    | false =>
      rw [iterate_of_not_guard hg, iterate_of_not_guard (guards s t h ▸ hg)]
      exact ih h
    | true =>
      rw [iterate_of_guard hg, iterate_of_guard (guards s t h ▸ hg)]
      have hbody := bodies s t h hg
      generalize L.body s = c at hbody ⊢
      generalize M.body t = d at hbody ⊢
      cases hbody with
      | error e => exact .error e
      | ok related => exact ih related

theorem run_unwinding {L : Loop σ ε} (f : σ → τ) (P : σ → Prop)
    (keeps : ∀ s t, P s → L.body s = .ok t → P t)
    (guards : ∀ s t, f s = f t → L.guard s = L.guard t)
    (bodies : ∀ s t, P s → f s = f t → f <$> L.body s = f <$> L.body t)
    {s t : σ} (hs : P s) (h : f s = f t) (n : Nat) : f <$> L.run n s = f <$> L.run n t := by
  induction n generalizing s t with
  | zero => exact congrArg Except.ok h
  | succ n ih =>
    rw [run_succ, run_succ]
    cases hg : L.guard s with
    | false =>
      rw [iterate_of_not_guard hg, iterate_of_not_guard (guards s t h ▸ hg)]
      exact ih hs h
    | true =>
      rw [iterate_of_guard hg, iterate_of_guard (guards s t h ▸ hg)]
      have hbody := bodies s t hs h
      cases hu : L.body s with
      | error e =>
        cases hv : L.body t with
        | error e' =>
          rw [hu, hv] at hbody
          exact hbody
        | ok v =>
          rw [hu, hv] at hbody
          cases hbody
      | ok u =>
        cases hv : L.body t with
        | error e' =>
          rw [hu, hv] at hbody
          cases hbody
        | ok v =>
          rw [hu, hv] at hbody
          exact ih (keeps s u hs hu) (Except.ok.inj hbody)

theorem run_variant {L : Loop σ ε} (P : σ → Prop) (fuel : σ → Nat)
    (step : ∀ s t, P s → L.guard s = true → L.body s = .ok t → P t ∧ fuel t < fuel s)
    {s : σ} (hs : P s) :
    (∃ n t, n ≤ fuel s ∧ L.run n s = .ok t ∧ L.guard t = false) ∨
      ∃ n e, L.run n s = .error e := by
  induction hf : fuel s using Nat.strongRecOn generalizing s with
  | ind k ih =>
    cases hg : L.guard s with
    | false => exact .inl ⟨0, s, Nat.zero_le _, rfl, hg⟩
    | true =>
      have hrun (n : Nat) : L.run (n + 1) s = L.body s >>= L.run n := by
        rw [run_succ, iterate_of_guard hg]
      cases hb : L.body s with
      | error e => exact .inr ⟨1, e, by rw [hrun, hb]; rfl⟩
      | ok t =>
        rw [hb] at hrun
        obtain ⟨ht, hlt⟩ := step s t hs hg hb
        rcases ih (fuel t) (hf ▸ hlt) ht rfl with ⟨n, u, hn, hu, hgu⟩ | ⟨n, e, he⟩
        · exact .inl ⟨n + 1, u, by omega, (hrun n).trans hu, hgu⟩
        · exact .inr ⟨n + 1, e, (hrun n).trans he⟩

inductive Traced (L : Loop σ ε) (label : σ → γ) : List γ → σ → σ → Prop
  | nil (s : σ) : Traced L label [] s s
  | cons {s t u : σ} {trace : List γ} (guard : L.guard s = true) (body : L.body s = .ok t)
      (rest : Traced L label trace t u) : Traced L label (label s :: trace) s u

namespace Traced

variable {L : Loop σ ε} {label : σ → γ}

theorem append {trace trace' : List γ} {s t u : σ} (h : Traced L label trace s t)
    (h' : Traced L label trace' t u) : Traced L label (trace ++ trace') s u := by
  induction h with
  | nil => exact h'
  | cons guard body _ ih => exact .cons guard body (ih h')

theorem next {a : γ} {trace : List γ} {s t u : σ} (h : Traced L label [a] s t)
    (h' : Traced L label trace t u) : Traced L label (a :: trace) s u :=
  h.append h'

theorem run {trace : List γ} {s t : σ} (h : Traced L label trace s t) :
    L.run trace.length s = .ok t := by
  induction h with
  | nil => rfl
  | cons guard body _ ih =>
    rw [List.length_cons, run_head guard body]
    exact ih

theorem finishes {trace : List γ} {s t : σ} (h : Traced L label trace s t)
    (ht : L.guard t = false) : L.Finishes s t := ⟨trace.length, h.run, ht⟩

theorem repeat_of {body : List γ} {m : Nat} (P : Nat → σ → Prop)
    (step : ∀ i s, i < m → P i s → ∃ t, Traced L label body s t ∧ P (i + 1) t) {s : σ}
    (h : P 0 s) :
    ∃ t, Traced L label (List.replicate m body).flatten s t ∧ P m t := by
  induction m with
  | zero => exact ⟨s, .nil s, h⟩
  | succ m ih =>
    obtain ⟨t, hst, ht⟩ := ih fun i s hi => step i s (Nat.lt_succ_of_lt hi)
    obtain ⟨u, htu, hu⟩ := step m t (Nat.lt_succ_self m) ht
    refine ⟨u, ?_, hu⟩
    rw [List.replicate_succ', List.flatten_append, List.flatten_singleton]
    exact hst.append htu

end Traced

end Loop

end GuardedLoop
