import Mathlib.Data.List.Basic
import Mathlib.Logic.Function.Iterate

/-!
# Runs of a transition system

A transition system is given by what its steps are: `step s a t` says that the action `a`
may take the state `s` to the state `t`.  A run is a sequence of steps, labelled by the
actions taken.
-/

variable {σ α : Type}

/-- The state `t` is reached from `s` by taking the actions of a list in order. -/
inductive Run (step : σ → α → σ → Prop) (s : σ) : List α → σ → Prop where
  | nil : Run step s [] s
  | snoc {as : List α} {t u : σ} {a : α} : Run step s as t → step t a u → Run step s (as ++ [a]) u

/-- The steps of a system that meet a condition on the state and the action. -/
def Meeting (ok : σ → α → Prop) (step : σ → α → σ → Prop) (s : σ) (a : α) (t : σ) : Prop :=
  ok s a ∧ step s a t

namespace Run

variable {step : σ → α → σ → Prop} {s t u : σ} {as : List α}

/-- What holds at the start and is kept by every step holds at the end of a run. -/
theorem invariant {I : σ → Prop} (h : Run step s as t) (h₀ : I s)
    (hstep : ∀ s a t, I s → step s a t → I t) :
  I t
  := by
  induction h with
  | nil => exact h₀
  | snoc _ hlast ih => exact hstep _ _ _ ih hlast

theorem cons {a : α} (hfirst : step s a t) (h : Run step t as u) :
  Run step s (a :: as) u
  := by
  induction h with
  | nil => exact Run.snoc Run.nil hfirst
  | snoc _ hlast ih => exact Run.snoc ih hlast

theorem append {as' : List α} (h : Run step s as t) (h' : Run step t as' u) :
  Run step s (as ++ as') u
  := by
  induction h' with
  | nil => rwa [List.append_nil]
  | snoc _ hlast ih =>
      rw [← List.append_assoc]
      exact Run.snoc ih hlast

/-- The steps of a run may be read as steps of a larger system. -/
theorem mono {step' : σ → α → σ → Prop} (h : Run step s as t)
    (hstep : ∀ s a t, step s a t → step' s a t) :
  Run step' s as t
  := by
  induction h with
  | nil => exact Run.nil
  | snoc _ hlast ih => exact Run.snoc ih (hstep _ _ _ hlast)

end Run

/-- The run of a system in which every action can be taken. -/
theorem run_foldl (f : σ → α → σ) (s : σ) (as : List α) :
  Run (fun s a t => f s a = t) s as (as.foldl f s)
  := by
  induction as generalizing s with
  | nil => exact Run.nil
  | cons a as ih => exact Run.cons rfl (ih (f s a))

/-- Every action of a list meets the condition, in a system in which every action can be taken. -/
def meets (ok : σ → α → Prop) [∀ s a, Decidable (ok s a)] (f : σ → α → σ) : σ → List α → Bool
  | _, [] => true
  | s, a :: as => decide (ok s a) && meets ok f (f s a) as

theorem run_of_meets {ok : σ → α → Prop} [∀ s a, Decidable (ok s a)] {f : σ → α → σ} {s : σ}
    {as : List α} (h : meets ok f s as = true) :
  Run (Meeting ok fun s a t => f s a = t) s as (as.foldl f s)
  := by
  induction as generalizing s with
  | nil => exact Run.nil
  | cons a as ih =>
      rw [meets, Bool.and_eq_true, decide_eq_true_iff] at h
      exact Run.cons ⟨h.1, rfl⟩ (ih h.2)

/-- The end of the run of a system whose steps are computed, when every action can be taken
and meets the condition. -/
def execute (ok : σ → α → Prop) [∀ s a, Decidable (ok s a)] (step : σ → α → Option σ) :
    σ → List α → Option σ
  | s, [] => some s
  | s, a :: as => if ok s a then (step s a).bind fun t => execute ok step t as else none

theorem run_of_execute {ok : σ → α → Prop} [∀ s a, Decidable (ok s a)] {step : σ → α → Option σ}
    {as : List α} {s t : σ} (h : execute ok step s as = some t) :
  Run (Meeting ok fun s a t => step s a = some t) s as t
  := by
  induction as generalizing s with
  | nil =>
      obtain rfl := Option.some.inj h
      exact Run.nil
  | cons a as ih =>
      rw [execute] at h
      split at h
      · rename_i hok
        obtain ⟨u, hu, hrest⟩ := Option.bind_eq_some_iff.mp h
        exact Run.cons ⟨hok, hu⟩ (ih hrest)
      · simp at h

/-- A function that comes to an end, or at least nearer to one, comes to an end when it is
iterated more often than the distance says. -/
theorem iterate_of_rank {f : σ → σ} {I E : σ → Prop} {rank : σ → ℕ}
    (hend : ∀ s, E s → E (f s))
    (hstep : ∀ s, I s → E (f s) ∨ I (f s) ∧ rank (f s) < rank s) {n : ℕ} (hI : I s)
    (hn : rank s < n) :
  E (f^[n] s)
  := by
  induction n generalizing s with
  | zero => exact absurd hn (Nat.not_lt_zero _)
  | succ n ih =>
      rw [Function.iterate_succ_apply]
      obtain hE | ⟨hI', hlt⟩ := hstep s hI
      · clear ih hn
        induction n with
        | zero => exact hE
        | succ n ih =>
            rw [Function.iterate_succ_apply']
            exact hend _ ih
      · exact ih hI' (Nat.lt_of_lt_of_le hlt (Nat.le_of_lt_succ hn))
