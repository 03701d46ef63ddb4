import Mathlib.Data.List.Basic

/-!
# Runs of a step function

A system that takes one atomic action at a time is a step function `step : σ → α → σ`;
an interleaving of its parties is a list of actions, and a run folds the step over it.
An invariant is shown once for one step; it then holds after every run whose actions are
all allowed. A relation between two systems that one step of each keeps holds along their
runs on the same actions.
-/

namespace Run

variable {σ α : Type}

/-- The state after the actions of `trace`, in order. -/
def run (step : σ → α → σ) (s : σ) (trace : List α) : σ := trace.foldl step s

variable {step : σ → α → σ}

@[simp] theorem run_nil (s : σ) : run step s [] = s := rfl

@[simp] theorem run_cons (s : σ) (a : α) (trace : List α) :
    run step s (a :: trace) = run step (step s a) trace := rfl

/-- What every allowed action preserves holds after every run of allowed actions. -/
theorem invariant {Inv : σ → Prop} {Allowed : α → Prop}
    (preserved : ∀ s a, Inv s → Allowed a → Inv (step s a)) :
    ∀ {trace : List α} {s : σ}, Inv s → (∀ a ∈ trace, Allowed a) → Inv (run step s trace) := by
  intro trace
  induction trace with
  | nil => exact fun holds _ => holds
  | cons a trace ih =>
    intro s holds allowed
    exact ih (preserved s a holds (allowed a (List.mem_cons_self ..)))
      (fun a' mem => allowed a' (List.mem_cons_of_mem a mem))

/-- What every action preserves holds after every run. -/
theorem invariant_always {Inv : σ → Prop} (preserved : ∀ s a, Inv s → Inv (step s a))
    {trace : List α} {s : σ} (holds : Inv s) : Inv (run step s trace) :=
  @invariant σ α step Inv (fun _ => True) (fun s a holds _ => preserved s a holds) trace s holds
    (fun _ _ => trivial)

/-- Two systems driven by the same actions stay related along a run when one step of each keeps
them related: the run of an implementation simulates that of its abstract model. -/
theorem simulation {τ : Type} {step' : τ → α → τ} {R : σ → τ → Prop}
    (preserved : ∀ s t a, R s t → R (step s a) (step' t a)) :
    ∀ {trace : List α} {s : σ} {t : τ}, R s t → R (run step s trace) (run step' t trace) := by
  intro trace
  induction trace with
  | nil => exact fun related => related
  | cons a trace ih => exact fun related => ih (preserved _ _ a related)

end Run
