import Udm.Library.Fairness
import Udm.Library.Run

/-!
# Lockstep

Two executions that go the same way from related states: what the relation leaves
open is not seen by the one nor the other.

* `Lockstep`: two programs end in related states, with related results or with the
  same error; `Lockstep.bind` and the rules of the primitives put such programs
  together;
* `SameBut`: states that are the same but for a part, and the rules for programs that
  do not see this part;
* `Conf.same_exec`, `Conf.same_runs`: their executions and runs;
* `Machine.Alike`: related parties await the same, and send related datagrams, if they
  get related ones;
* `Network.Rel.run`: so related datagrams are under way in the runs of two networks of
  such parties.

A statement of the kind "nothing depends on this part of the state" is about two runs, and
no invariant of one of them. The rules here are those of a relational logic: the two programs
are of the same shape, and taken apart together, command by command. Where they branch, the
conditions have to agree (`Lockstep.ite`), which is all that a proof about a program has to
say about what it tests.

The results may be related by something weaker than equality, as may the datagrams of a
network. With equality, the part is neither used nor shown; with a relation, it is shown, and
the relation says which part of it the other party then does not use.
-/

namespace Udm

/-! ## Programs -/

section Programs

variable {ε σ τ α β γ δ : Type} {R : σ → τ → Prop} {V : α → β → Prop} {W : γ → δ → Prop}

/-- The same end: related results or the same error, in related states. -/
def SameEnd (R : σ → τ → Prop) (V : α → β → Prop) :
    EStateM.Result ε σ α → EStateM.Result ε τ β → Prop
  | .ok a s, .ok b t => V a b ∧ R s t
  | .error e s, .error e' t => e = e' ∧ R s t
  | _, _ => False

/-- The same end, by what the programs are known to do. -/
theorem SameEnd.of_wp {x : EStateM ε σ α} {y : EStateM ε τ β} {s : σ} {t : τ}
    (h : wp x (fun a s' => wp y (fun b t' => V a b ∧ R s' t') (fun _ _ => False) t)
      (fun e s' => wp y (fun _ _ => False) (fun e' t' => e = e' ∧ R s' t') t) s) :
    SameEnd R V (x s) (y t) := by
  rw [wp] at h
  cases hx : x s with
  | ok a s' =>
    simp only [hx, wp] at h
    cases hy : y t with
    | ok b t' => rwa [hy] at h
    | error e t' => rw [hy] at h; exact h.elim
  | error e s' =>
    simp only [hx, wp] at h
    cases hy : y t with
    | ok b t' => rw [hy] at h; exact h.elim
    | error e' t' => rwa [hy] at h

/-- From states related by `R`, both programs end in related states, with results related
    by `V` or with the same error. -/
def Lockstep (R : σ → τ → Prop) (V : α → β → Prop) (x : EStateM ε σ α) (y : EStateM ε τ β) : Prop :=
  ∀ s t, R s t → SameEnd R V (x s) (y t)

/-- The states are the same but for what `put` puts there, of which `S` is known. -/
def SameBut {κ : Type} (put : κ → σ → σ) (S : σ → κ → Prop) (s t : σ) : Prop :=
  ∃ k, t = put k s ∧ S s k

namespace Lockstep

/-- The results are given. -/
theorem pure {a : α} {b : β} (h : V a b) :
    Lockstep R V (pure a : EStateM ε σ α) (pure b : EStateM ε τ β) := fun _ _ hR => ⟨h, hR⟩

/-- The same error. -/
theorem throw (e : ε) :
    Lockstep R V (throw e : EStateM ε σ α) (throw e : EStateM ε τ β) :=
  fun _ _ hR => ⟨rfl, hR⟩

/-- Both programs read their states. -/
theorem get : Lockstep R R (get : EStateM ε σ σ) (get : EStateM ε τ τ) :=
  fun _ _ hR => ⟨hR, hR⟩

/-- Assignments that keep the states related. -/
protected theorem modify {f : σ → σ} {g : τ → τ} (h : ∀ s t, R s t → R (f s) (g t)) :
    Lockstep R Eq (modify f : EStateM ε σ PUnit) (modify g : EStateM ε τ PUnit) :=
  fun s t hR => ⟨rfl, h s t hR⟩

/-- One after the other. -/
theorem bind {x : EStateM ε σ α} {y : EStateM ε τ β} {f : α → EStateM ε σ γ}
    {g : β → EStateM ε τ δ} (h : Lockstep R V x y) (hf : ∀ a b, V a b → Lockstep R W (f a) (g b)) :
    Lockstep R W (x >>= f) (y >>= g) := by
  intro s t hR
  have hxy := h s t hR
  show SameEnd R W (EStateM.bind x f s) (EStateM.bind y g t)
  rw [EStateM.bind, EStateM.bind]
  cases hx : x s with
  | ok a s' =>
    cases hy : y t with
    | ok b t' =>
      rw [hx, hy] at hxy
      exact hf a b hxy.1 s' t' hxy.2
    | error e t' => rw [hx, hy] at hxy; exact hxy.elim
  | error e s' =>
    cases hy : y t with
    | ok b t' => rw [hx, hy] at hxy; exact hxy.elim
    | error e' t' => rwa [hx, hy] at hxy

/-- Equal results are passed on. -/
theorem seq {x : EStateM ε σ α} {y : EStateM ε τ α} {f : α → EStateM ε σ γ}
    {g : α → EStateM ε τ δ} (h : Lockstep R Eq x y) (hf : ∀ a, Lockstep R W (f a) (g a)) :
    Lockstep R W (x >>= f) (y >>= g) := h.bind fun a _ hab => hab ▸ hf a

/-- What is read of the states is related. -/
theorem read {f : σ → EStateM ε σ γ} {g : τ → EStateM ε τ δ}
    (h : ∀ s t, R s t → Lockstep R W (f s) (g t)) :
    Lockstep R W (MonadState.get >>= f) (MonadState.get >>= g) := get.bind h

/-- Branches with the same condition. -/
theorem ite {c d : Prop} [Decidable c] [Decidable d] {x x' : EStateM ε σ α} {y y' : EStateM ε τ β}
    (hcd : c ↔ d) (h : Lockstep R V x y) (h' : Lockstep R V x' y') :
    Lockstep R V (if c then x else x') (if d then y else y') := by
  by_cases hc : c
  · rwa [if_pos hc, if_pos (hcd.1 hc)]
  · rwa [if_neg hc, if_neg fun hd => hc (hcd.2 hd)]

/-! ### What the programs do not see -/

section SameBut

variable {κ : Type} {put : κ → σ → σ} {S : σ → κ → Prop} {U : α → α → Prop}

/-- Assignments with the same outcome, but for what is put there. -/
theorem modify_put {f g : σ → σ}
    (h : ∀ s k, S s k → ∃ k', g (put k s) = put k' (f s) ∧ S (f s) k') :
    Lockstep (SameBut put S) Eq (modify f : EStateM ε σ PUnit) (modify g : EStateM ε σ PUnit) := by
  refine Lockstep.modify ?_
  rintro s _ ⟨k, rfl, hk⟩
  exact h s k hk

/-- An assignment that neither reads nor writes what is put there. -/
theorem modify_frame {f : σ → σ} (hf : ∀ s k, f (put k s) = put k (f s))
    (hS : ∀ s k, S s k → S (f s) k) :
    Lockstep (SameBut put S) Eq (modify f : EStateM ε σ PUnit) (modify f : EStateM ε σ PUnit) :=
  modify_put fun s k hk => ⟨k, hf s k, hS s k hk⟩

/-- A program whose rest does not depend on what is put there. -/
theorem read_frame {f g : σ → EStateM ε σ α} (hg : ∀ s k, g (put k s) = g s)
    (h : ∀ s, Lockstep (SameBut put S) U (f s) (g s)) :
    Lockstep (SameBut put S) U (MonadState.get >>= f) (MonadState.get >>= g) := by
  refine read ?_
  rintro s _ ⟨k, rfl, -⟩
  rw [hg]
  exact h s

end SameBut

end Lockstep

/-! ### Runs -/

namespace Conf

variable {ι κ : Type} {prog : ι → EStateM ε σ Unit} {prog' : κ → EStateM ε τ Unit}
  {stop : σ → Bool} {stop' : τ → Bool}

/-- Configurations in related states, with the same error if any. -/
def Same (R : σ → τ → Prop) (c : Conf ε σ) (c' : Conf ε τ) : Prop :=
  c.error = c'.error ∧ R c.state c'.state

/-- An execution ends as its program does. -/
theorem same_exec {i : ι} {k : κ} {s : σ} {t : τ} (h : SameEnd R Eq (prog i s) (prog' k t)) :
    Same R (exec prog i s) (exec prog' k t) := by
  rw [exec, exec]
  cases hx : prog i s with
  | ok a s' =>
    cases hy : prog' k t with
    | ok b t' => rw [hx, hy] at h; exact ⟨rfl, h.2⟩
    | error e t' => rw [hx, hy] at h; exact h.elim
  | error e s' =>
    cases hy : prog' k t with
    | ok b t' => rw [hx, hy] at h; exact h.elim
    | error e' t' =>
      rw [hx, hy] at h
      exact ⟨congrArg some h.1, h.2⟩

/-- Both runs go on, or both are over. -/
theorem Same.alive_iff (hstop : ∀ s t, R s t → stop s = stop' t) {c : Conf ε σ} {c' : Conf ε τ}
    (h : Same R c c') : c.Alive stop ↔ c'.Alive stop' := by
  rw [Alive, Alive, h.1, hstop _ _ h.2]

/-- Runs in which every step has the same end. -/
theorem same_runs (hstop : ∀ s t, R s t → stop s = stop' t) {input : ℕ → ι} {input' : ℕ → κ}
    {s : σ} {t : τ}
    (h : ∀ n, (runs prog stop s input n).Alive stop → ∀ t', R (runs prog stop s input n).state t' →
      SameEnd R Eq (prog (input n) (runs prog stop s input n).state) (prog' (input' n) t'))
    (hR : R s t) (n : ℕ) : Same R (runs prog stop s input n) (runs prog' stop' t input' n) := by
  induction n with
  | zero => exact ⟨rfl, hR⟩
  | succ n ih =>
    rw [runs_succ, runs_succ, next, next]
    have halive := ih.alive_iff hstop
    split_ifs with hc hc' hc'
    exacts [same_exec (h n hc _ ih.2), absurd (halive.1 hc) hc', absurd (halive.2 hc') hc, ih]

/-- Runs in lockstep. -/
theorem lockstep_runs (hstop : ∀ s t, R s t → stop s = stop' t) {input : ℕ → ι} {input' : ℕ → κ}
    (h : ∀ n, Lockstep R Eq (prog (input n)) (prog' (input' n))) {s : σ} {t : τ} (hR : R s t)
    (n : ℕ) : Same R (runs prog stop s input n) (runs prog' stop' t input' n) :=
  same_runs hstop (fun n _ t' => h n _ t') hR n

end Conf

end Programs

/-! ## Parties and networks -/

/-- Nothing is under way yet. -/
theorem Channel.rel_empty {α β : Type} {C : α → β → Prop} : Channel.Rel C {} {} :=
  ⟨.nil, .nil, .nil⟩

variable {σ τ σ' τ' α β ι κ : Type} {M : Machine σ ι α} {N : Machine τ ι α} {M' : Machine σ' κ β}
  {N' : Machine τ' κ β} {C : α → β → Prop} {K L : ι → κ → Prop} {R : σ → σ' → Prop}
  {S : τ → τ' → Prop}

/-- Parties related by `R` await the same, and with inputs related by `K`, and datagrams related
    by `C`, they send datagrams that are, and stay related. -/
structure Machine.Alike (M : Machine σ ι α) (M' : Machine σ' κ β) (C : α → β → Prop)
    (K : ι → κ → Prop) (R : σ → σ' → Prop) : Prop where
  /-- Both wait, or none of them does. -/
  awaits : ∀ {t t'}, R t t' → M.awaits t = M'.awaits t'
  /-- Steps keep the parties related, and send related datagrams. -/
  step : ∀ {t t' i k d d'}, R t t' → K i k → Option.Rel C d d' →
    R (M.step i d t).1 (M'.step k d' t').1 ∧ List.Forall₂ C (M.step i d t).2 (M'.step k d' t').2

namespace Machine.Alike

variable {t : σ} {t' : σ'} {i : ι} {k : κ}

/-- Related parties take related datagrams, if any, at the same places of related channels. -/
theorem move (h : M.Alike M' C K R) (ht : R t t') (hK : K i k) (dl : Delivery) {c : Channel α}
    {c' : Channel β} (hc : Channel.Rel C c c') :
    R (M.move i dl t c).1.1 (M'.move k dl t' c').1.1 ∧
      List.Forall₂ C (M.move i dl t c).1.2 (M'.move k dl t' c').1.2 ∧
      Channel.Rel C (M.move i dl t c).2 (M'.move k dl t' c').2 := by
  rw [Machine.move, Machine.move, ← h.awaits ht]
  split_ifs with haw
  · have hdel := hc.deliver dl
    generalize c.deliver dl = x at hdel
    generalize c'.deliver dl = y at hdel
    cases hdel with
    | none => exact ⟨ht, .nil, hc⟩
    | some hd =>
      obtain ⟨hstep, hout⟩ := h.step ht hK (.some hd.1)
      exact ⟨hstep, hout, hd.2⟩
  · obtain ⟨hstep, hout⟩ := h.step ht hK (.none : Option.Rel C none none)
    exact ⟨hstep, hout, hc⟩

/-- The calls of related parties for a datagram fail alike. -/
theorem fail (h : M.Alike M' C K R) (ht : R t t') (hK : K i k) :
    R (M.fail i t).1 (M'.fail k t').1 ∧ List.Forall₂ C (M.fail i t).2 (M'.fail k t').2 := by
  rw [Machine.fail, Machine.fail, ← h.awaits ht]
  split_ifs
  · exact h.step ht hK (.none : Option.Rel C none none)
  · exact ⟨ht, .nil⟩

end Machine.Alike

namespace Network

/-- The inputs of the party that takes a step are related. -/
def Matches (K L : ι → κ → Prop) (i : ι) (k : κ) : Event → Prop
  | .tx _ | .failTx => K i k
  | .rx _ | .failRx => L i k
  | .loseTx _ | .loseRx _ => True

namespace Rel

variable {s : Network σ τ α} {s' : Network σ' τ' β}

/-- An event keeps networks of such parties related: whatever is delivered, or lost, at a place of
    the one channel is related to what is at this place of the other. -/
theorem lockstep (hM : M.Alike M' C K R) (hN : N.Alike N' C L S) (h : Rel C R S s s') {i : ι}
    {k : κ} {e : Event} (he : Matches K L i k e) :
    Rel C R S (s.step M N i e) (s'.step M' N' k e) := by
  cases e with
  | tx dl =>
    obtain ⟨ht, hout, hc⟩ := hM.move h.tx he dl h.toTx
    exact ⟨ht, h.rx, hc, h.toRx.send hout⟩
  | rx dl =>
    obtain ⟨ht, hout, hc⟩ := hN.move h.rx he dl h.toRx
    exact ⟨h.tx, ht, h.toTx.send hout, hc⟩
  | loseTx j => exact ⟨h.tx, h.rx, h.toTx.lose j, h.toRx⟩
  | loseRx j => exact ⟨h.tx, h.rx, h.toTx, h.toRx.lose j⟩
  | failTx =>
    obtain ⟨ht, hout⟩ := hM.fail h.tx he
    exact ⟨ht, h.rx, h.toTx, h.toRx.send hout⟩
  | failRx =>
    obtain ⟨ht, hout⟩ := hN.fail h.rx he
    exact ⟨h.tx, ht, h.toTx.send hout, h.toRx⟩

/-- The runs with related inputs and the same events stay related. -/
theorem run (hM : M.Alike M' C K R) (hN : N.Alike N' C L S) (h : Rel C R S s s')
    {sched : ℕ → ι × Event} {sched' : ℕ → κ × Event}
    (hsched : ∀ n, Matches K L (sched n).1 (sched' n).1 (sched n).2 ∧ (sched n).2 = (sched' n).2)
    (n : ℕ) : Rel C R S (Network.run M N s sched n) (Network.run M' N' s' sched' n) := by
  induction n with
  | zero => exact h
  | succ n ih =>
    obtain ⟨hmatch, he⟩ := hsched n
    rw [Network.run, Network.run, ← he]
    exact ih.lockstep hM hN hmatch

/-- As many datagrams are under way, so that the same deliveries lose none. -/
theorem lossless_iff (h : Rel C R S s s') {e : Event} : Lossless s e ↔ Lossless s' e := by
  cases e with
  | tx dl => rw [Lossless, Lossless, h.toTx.flight.length_eq]
  | rx dl => rw [Lossless, Lossless, h.toRx.flight.length_eq]
  | loseTx | loseRx | failTx | failRx => exact Iff.rfl

end Rel

end Network

end Udm
