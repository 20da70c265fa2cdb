import Mathlib

/-!
# Weakest preconditions

Programs with a state and errors, `EStateM ε σ α`, keep the state they were in
when an error is raised. `wp x Q E s` says that running `x` from the state `s`
ends in a result and a state related by `Q`, or in an error and a state related
by `E`. The rules compute it along the program: simplifying with them executes
the program symbolically.

* `wp_bind`, `wp_ite` and the rules of the primitives;
* `wp_congr`: equivalent postconditions of the results;
* `wp_mono`: weakening the postconditions.

All rules but `wp_mono` are equivalences, so nothing is lost by rewriting with them: after it, the
goal says of the result and the state what was asked, and of every error that can be raised. What
`wp` says is the same as a Hoare triple, with the precondition in the context. An error keeps the
state that was reached, so that a postcondition can speak of what had happened by then.
-/

namespace Udm

variable {ε σ α β : Type}

/-- Running `x` from `s` ends as `Q` says, or in an error as `E` says. -/
def wp (x : EStateM ε σ α) (Q : α → σ → Prop) (E : ε → σ → Prop) (s : σ) : Prop :=
  match x s with
  | .ok a s' => Q a s'
  | .error e s' => E e s'

variable {Q : α → σ → Prop} {E : ε → σ → Prop} {s : σ}

/-- A result is given, and nothing happens. -/
@[simp] theorem wp_pure (a : α) : wp (pure a) Q E s ↔ Q a s := Iff.rfl

/-- An error is raised in the state it is raised in. -/
@[simp] theorem wp_throw (e : ε) : wp (throw e) Q E s ↔ E e s := Iff.rfl

/-- The state is read. -/
@[simp] theorem wp_get {Q : σ → σ → Prop} : wp get Q E s ↔ Q s s := Iff.rfl

/-- The state is replaced. -/
@[simp] theorem wp_set {Q : PUnit → σ → Prop} (s' : σ) : wp (set s') Q E s ↔ Q ⟨⟩ s' := Iff.rfl

/-- The state is changed. -/
@[simp] theorem wp_modify {Q : PUnit → σ → Prop} (f : σ → σ) :
    wp (modify f) Q E s ↔ Q ⟨⟩ (f s) := Iff.rfl

/-- One after the other; an error of the first program is that of both. -/
@[simp] theorem wp_bind (x : EStateM ε σ α) (f : α → EStateM ε σ β) {Q : β → σ → Prop} :
    wp (x >>= f) Q E s ↔ wp x (fun a => wp (f a) Q E) E s := by
  show (match EStateM.bind x f s with | .ok a s' => Q a s' | .error e s' => E e s') ↔ _
  rw [EStateM.bind, wp]
  cases x s <;> rfl

/-- A function is applied to the result. -/
@[simp] theorem wp_map (f : α → β) (x : EStateM ε σ α) {Q : β → σ → Prop} :
    wp (f <$> x) Q E s ↔ wp x (fun a => Q (f a)) E s := by
  show (match EStateM.map f x s with | .ok a s' => Q a s' | .error e s' => E e s') ↔ _
  rw [EStateM.map, wp]
  cases x s <;> rfl

/-- Either branch. -/
theorem wp_ite (c : Prop) [Decidable c] (x y : EStateM ε σ α) :
    wp (if c then x else y) Q E s ↔ if c then wp x Q E s else wp y Q E s := by
  split <;> rfl

/-- Equivalent postconditions of the results. -/
theorem wp_congr {x : EStateM ε σ α} {Q' : α → σ → Prop} (h : ∀ a s', Q a s' ↔ Q' a s') :
    wp x Q E s ↔ wp x Q' E s := by
  rw [wp, wp]
  cases x s with
  | ok a s' => exact h a s'
  | error e s' => exact Iff.rfl

/-- Weaker postconditions. -/
theorem wp_mono {x : EStateM ε σ α} {Q' : α → σ → Prop} {E' : ε → σ → Prop}
    (h : wp x Q E s) (hQ : ∀ a s', Q a s' → Q' a s') (hE : ∀ e s', E e s' → E' e s') :
    wp x Q' E' s := by
  rw [wp] at h ⊢
  cases hx : x s with
  | ok a s' => rw [hx] at h; exact hQ a s' h
  | error e s' => rw [hx] at h; exact hE e s' h

end Udm
