import Mathlib.Logic.Basic

namespace Faults

variable {α β ε : Type} {P : ε → Prop}

def Only (P : ε → Prop) (c : Except ε α) : Prop := ∀ e, c = .error e → P e

namespace Only

theorem ok (a : α) : Only P (.ok a : Except ε α) := by
  intro e h
  cases h

theorem error {e : ε} (h : P e) : Only P (.error e : Except ε α) := by
  intro e' he
  cases he
  exact h

theorem bind {c : Except ε α} {f : α → Except ε β} (hc : Only P c)
    (hf : ∀ a, c = .ok a → Only P (f a)) : Only P (c >>= f) := by
  intro e h
  cases hrun : c with
  | ok a =>
    rw [hrun] at h
    exact hf a hrun e h
  | error e' =>
    rw [hrun] at h
    cases h
    exact hc _ hrun

theorem of_bind {c : Except ε α} {f : α → Except ε β} (h : Only P (c >>= f)) : Only P c := by
  intro e hrun
  exact h e (by rw [hrun]; rfl)

theorem map {c : Except ε α} (hc : Only P c) (f : α → β) : Only P (c >>= fun a => .ok (f a)) :=
  hc.bind fun _ _ => ok _

theorem foldlM {f : β → α → Except ε β} (h : ∀ b a, Only P (f b a)) (b : β) (l : List α) :
    Only P (l.foldlM f b) := by
  induction l generalizing b with
  | nil => exact ok b
  | cons a l ih =>
    rw [List.foldlM_cons]
    exact (h b a).bind fun b' _ => ih b'

theorem ite {p : Prop} [Decidable p] {c d : Except ε α} (hc : p → Only P c)
    (hd : ¬ p → Only P d) : Only P (if p then c else d) := by
  split
  · exact hc ‹_›
  · exact hd ‹_›

theorem dite {p : Prop} [Decidable p] {c : p → Except ε α} {d : ¬ p → Except ε α}
    (hc : ∀ h, Only P (c h)) (hd : ∀ h, Only P (d h)) : Only P (if h : p then c h else d h) := by
  split
  · exact hc _
  · exact hd _

end Only

end Faults
