import Udm.Library.Wp

/-!
# Runs

A program with a state and errors is run again and again, on a sequence of
inputs, until it fails or its state says to stop. `runs` is the sequence of
configurations it goes through; it stays where it stops.

* `wp_iff_exec`, `exec_of_wp`: one execution, by its weakest precondition;
* `runs_induction`, `runs_invariant`: what holds of the first state and is
  preserved by every successful execution holds as long as there is no error;
* `runs_safe`: if nothing fails from where it holds, there is no error;
* `runs_stops`: a run in which a measure decreases comes to its end.
-/

namespace Udm

variable {ε σ ι : Type}

/-- The state of a run, and the error it has stopped with. -/
structure Conf (ε σ : Type) where
  /-- The state. -/
  state : σ
  /-- The error, if there is one. -/
  error : Option ε := none

variable (prog : ι → EStateM ε σ Unit) (stop : σ → Bool)

namespace Conf

/-- The program is run again. -/
def Alive (c : Conf ε σ) : Prop := c.error = none ∧ stop c.state = false

instance (c : Conf ε σ) : Decidable (c.Alive stop) :=
  decidable_of_iff (c.error.isNone ∧ stop c.state = false) (by rw [Alive, Option.isNone_iff_eq_none])

/-- Running the program once. -/
def exec (i : ι) (s : σ) : Conf ε σ :=
  match prog i s with
  | .ok _ s' => { state := s' }
  | .error e s' => { state := s', error := some e }

/-- The next configuration of a run. -/
def next (i : ι) (c : Conf ε σ) : Conf ε σ := if c.Alive stop then exec prog i c.state else c

/-- The configurations of a run from `s`, on the inputs `input`. -/
def runs (s : σ) (input : ℕ → ι) : ℕ → Conf ε σ
  | 0 => { state := s }
  | n + 1 => next prog stop (input n) (runs s input n)

variable {prog stop}

theorem next_of_alive {i : ι} {c : Conf ε σ} (h : c.Alive stop) :
    next prog stop i c = exec prog i c.state := if_pos h

/-- What an execution leads to, by its weakest precondition. -/
theorem wp_iff_exec {i : ι} {s : σ} {Q : σ → Prop} {E : ε → σ → Prop} :
    wp (prog i) (fun _ => Q) E s ↔
      ((exec prog i s).error = none → Q (exec prog i s).state) ∧
      ∀ e, (exec prog i s).error = some e → E e (exec prog i s).state := by
  rw [wp, exec]
  cases prog i s <;> simp

theorem exec_of_wp {i : ι} {s : σ} {C : Conf ε σ → Prop}
    (h : wp (prog i) (fun _ s' => C { state := s' })
      (fun e s' => C { state := s', error := some e }) s) : C (exec prog i s) := by
  rw [wp] at h
  rw [exec]
  cases hx : prog i s <;> rw [hx] at h <;> exact h

theorem runs_succ (s : σ) (input : ℕ → ι) (n : ℕ) :
    runs prog stop s input (n + 1) = next prog stop (input n) (runs prog stop s input n) := rfl

/-- A run without an error had none before. -/
theorem error_of_next {i : ι} {c : Conf ε σ} (h : (next prog stop i c).error = none) :
    c.error = none := by
  by_cases hc : c.Alive stop
  · exact hc.1
  · rwa [next, if_neg hc] at h

/-- The induction on a run: `I` may depend on how far it is. -/
theorem runs_induction {s : σ} {input : ℕ → ι} {I : ℕ → σ → Prop} (init : I 0 s)
    (step : ∀ n, (runs prog stop s input n).Alive stop → I n (runs prog stop s input n).state →
      wp (prog (input n)) (fun _ s' => I (n + 1) s') (fun _ _ => True)
        (runs prog stop s input n).state)
    (stay : ∀ n s, stop s = true → I n s → I (n + 1) s) (n : ℕ)
    (h : (runs prog stop s input n).error = none) : I n (runs prog stop s input n).state := by
  induction n with
  | zero => exact init
  | succ n ih =>
    have hn := error_of_next h
    rw [runs_succ] at h ⊢
    cases hstop : stop (runs prog stop s input n).state with
    | false =>
      have halive : (runs prog stop s input n).Alive stop := ⟨hn, hstop⟩
      rw [next_of_alive halive] at h ⊢
      exact (wp_iff_exec.1 (step n halive (ih hn))).1 h
    | true =>
      have hdead : ¬(runs prog stop s input n).Alive stop := fun hc => by simp [hc.2] at hstop
      rw [next, if_neg hdead]
      exact stay n _ hstop (ih hn)

/-- An invariant holds as long as there is no error. -/
theorem runs_invariant {s : σ} {input : ℕ → ι} {I : σ → Prop} (init : I s)
    (step : ∀ i s, I s → stop s = false → wp (prog i) (fun _ s' => I s') (fun _ _ => True) s)
    (n : ℕ) (h : (runs prog stop s input n).error = none) : I (runs prog stop s input n).state :=
  runs_induction (I := fun _ => I) init (fun _ hc hI => step _ _ hI hc.2) (fun _ _ _ hI => hI) n h

/-- A program that keeps an invariant and does not fail from where it holds never
    fails in a run. -/
theorem runs_safe {s : σ} {input : ℕ → ι} {I : σ → Prop} (init : I s)
    (step : ∀ i s, I s → stop s = false → wp (prog i) (fun _ s' => I s') (fun _ _ => False) s)
    (n : ℕ) : (runs prog stop s input n).error = none ∧ I (runs prog stop s input n).state := by
  induction n with
  | zero => exact ⟨rfl, init⟩
  | succ n ih =>
    rw [runs_succ]
    by_cases halive : (runs prog stop s input n).Alive stop
    · rw [next_of_alive halive]
      have hstep := wp_iff_exec.1 (step (input n) _ ih.2 halive.2)
      have herror : (exec prog (input n) (runs prog stop s input n).state).error = none :=
        Option.eq_none_iff_forall_ne_some.2 fun e he => hstep.2 e he
      exact ⟨herror, hstep.1 herror⟩
    · rwa [next, if_neg halive]

/-- A run that does not fail, and in which a measure decreases with every step, comes to
    its end. -/
theorem runs_stops {s : σ} {input : ℕ → ι} {I : ℕ → Prop} {μ : ℕ → ℕ}
    (step : ∀ n, (runs prog stop s input n).Alive stop → I n →
      (runs prog stop s input (n + 1)).error = none ∧ I (n + 1) ∧ μ (n + 1) < μ n)
    {n : ℕ} (h : (runs prog stop s input n).error = none) (hI : I n) :
    ∃ m, (runs prog stop s input m).error = none ∧ stop (runs prog stop s input m).state = true ∧
      I m := by
  induction hμ : μ n using Nat.strong_induction_on generalizing n with
  | _ k ih =>
    cases hstop : stop (runs prog stop s input n).state with
    | true => exact ⟨n, h, hstop, hI⟩
    | false =>
      obtain ⟨h', hI', hlt⟩ := step n ⟨h, hstop⟩ hI
      exact ih _ (hμ ▸ hlt) h' hI' rfl

end Conf

end Udm
