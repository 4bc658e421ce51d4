import CAt.Library.Faults

namespace FoldOutput

open Faults (Only)

variable {σ α γ ε : Type}

def outputs (step : σ → α → Except ε σ) (out : σ → α → List γ) : σ → List α → List γ
  | _, [] => []
  | s, a :: as => out s a ++
    match step s a with
    | .ok s' => outputs step out s' as
    | .error _ => []

section Forall

variable {step : σ → α → Except ε σ} {out : σ → α → List γ} {P : ε → Prop} {Q : γ → Prop}

theorem forall_outputs (s : σ) (as : List α)
    (h : ∀ s, ∀ a ∈ as, Only P (step s a) → ∀ x ∈ out s a, Q x)
    (hrun : Only P (as.foldlM step s)) : ∀ x ∈ outputs step out s as, Q x := by
  induction as generalizing s with
  | nil => exact List.forall_mem_nil Q
  | cons a as ih =>
    rw [List.foldlM_cons] at hrun
    rw [outputs, List.forall_mem_append]
    refine ⟨h s a List.mem_cons_self hrun.of_bind, ?_⟩
    cases hstep : step s a with
    | error e => exact List.forall_mem_nil Q
    | ok s' =>
      rw [hstep] at hrun
      exact ih s' (fun s b hb => h s b (List.mem_cons_of_mem a hb)) hrun

end Forall

end FoldOutput
