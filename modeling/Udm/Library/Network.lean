import Mathlib

/-!
# Networks of two parties

Two parties take steps in any order, and send each other datagrams over two
channels. What a channel does with the datagrams is said by the events that may
happen (`may`): deliver the first one under way or any other, deliver a further
copy of one that was sent, or lose one. The call by which a party asks for a
datagram may also fail; the party then takes its step without one.

* `Reachable`: the states of the runs of a network in which only such events
  happen;
* `Reachable.local_tx`, `Reachable.local_rx`: what is known of one party;
* `Reachable.fifo`: channels that deliver in order;
* `Simulates`: a kind of party does what another kind does, on other datagrams;
* `Network.Rel.step`, `Reachable.simulated`: networks of such parties simulate
  each other, as long as every message that is received is one the receiving
  party expects;
* `Reachable.leads`: given events have related outcomes.

A party is a function (`Machine`), and everything that is not determined is in the
events and in the inputs of its steps, so a run is given by a list of both. Nothing
here says which party comes next: a statement about reachable states is one about
every interleaving.

There are two ways to get from the steps of a party to the runs of a network. What
only concerns one party is an invariant of its state, with what it has received and
sent; the other party is then out of the picture (`local_tx`). What concerns both is
proved of a smaller network, on messages in the place of datagrams, and carried over
by a simulation. The simulation is proved party by party, and only asks what a
datagram means to the party that receives it. Whether a party ever receives a message
it does not expect is a question about the smaller network (`Expected`).

Channels keep all that was sent and delivered, besides what is under way, so that an
invariant can speak of the past.
-/

namespace Udm

variable {σ τ σ' τ' α β ι κ : Type}

/-! ## Channels -/

/-- A channel: the datagrams that were sent, those under way, and those that were
    delivered, in this order. -/
structure Channel (α : Type) where
  /-- What was sent. -/
  sent : List α := []
  /-- What is under way. -/
  flight : List α := []
  /-- What was delivered. -/
  delivered : List α := []

/-- Which datagram is delivered: the one at a place among those under way, or a
    further copy of one that was sent. -/
inductive Delivery
  | flight (i : ℕ)
  | copy (j : ℕ)

namespace Channel

/-- Sending datagrams. -/
@[simps] def send (ds : List α) (c : Channel α) : Channel α :=
  { c with sent := c.sent ++ ds, flight := c.flight ++ ds }

@[simp] theorem send_nil (c : Channel α) : c.send [] = c := by simp [send]

/-- Losing a datagram. -/
@[simps] def lose (i : ℕ) (c : Channel α) : Channel α := { c with flight := c.flight.eraseIdx i }

/-- Delivering a datagram, if there is one. -/
def deliver (c : Channel α) : Delivery → Option (α × Channel α)
  | .flight i => c.flight[i]?.map fun d =>
      (d, { c with flight := c.flight.eraseIdx i, delivered := c.delivered ++ [d] })
  | .copy j => c.sent[j]?.map fun d => (d, { c with delivered := c.delivered ++ [d] })

/-- A datagram under way is delivered once. -/
theorem deliver_flight_eq {c c' : Channel α} {i : ℕ} {d : α} :
    c.deliver (.flight i) = some (d, c') ↔ c.flight[i]? = some d ∧
      c' = { c with flight := c.flight.eraseIdx i, delivered := c.delivered ++ [d] } := by
  simp only [deliver, Option.map_eq_some_iff, Prod.mk.injEq]
  constructor
  · rintro ⟨_, h, rfl, rfl⟩
    exact ⟨h, rfl⟩
  · rintro ⟨h, rfl⟩
    exact ⟨d, h, rfl, rfl⟩

/-- A copy leaves what is under way as it is. -/
theorem deliver_copy_eq {c c' : Channel α} {j : ℕ} {d : α} :
    c.deliver (.copy j) = some (d, c') ↔ c.sent[j]? = some d ∧
      c' = { c with delivered := c.delivered ++ [d] } := by
  simp only [deliver, Option.map_eq_some_iff, Prod.mk.injEq]
  constructor
  · rintro ⟨_, h, rfl, rfl⟩
    exact ⟨h, rfl⟩
  · rintro ⟨h, rfl⟩
    exact ⟨d, h, rfl, rfl⟩

/-- What a delivery changes. -/
theorem deliver_eq {c c' : Channel α} {dl : Delivery} {d : α} (h : c.deliver dl = some (d, c')) :
    c'.sent = c.sent ∧ c'.flight.Sublist c.flight ∧ c'.delivered = c.delivered ++ [d] := by
  cases dl with
  | flight i =>
    obtain ⟨-, rfl⟩ := deliver_flight_eq.1 h
    exact ⟨rfl, List.eraseIdx_sublist _ _, rfl⟩
  | copy j =>
    obtain ⟨-, rfl⟩ := deliver_copy_eq.1 h
    exact ⟨rfl, .refl _, rfl⟩

/-- What is delivered is not under way any more. -/
theorem perm_of_deliver {c c' : Channel α} {i : ℕ} {d : α}
    (h : c.deliver (.flight i) = some (d, c')) : (d :: c'.flight).Perm c.flight := by
  obtain ⟨hd, rfl⟩ := deliver_flight_eq.1 h
  obtain ⟨hi, rfl⟩ := List.getElem?_eq_some_iff.1 hd
  exact List.getElem_cons_eraseIdx_perm hi

/-- What is delivered was sent. -/
theorem mem_of_deliver {c c' : Channel α} {dl : Delivery} {d : α}
    (hsub : c.flight.Sublist c.sent) (h : c.deliver dl = some (d, c')) : d ∈ c.sent := by
  cases dl with
  | flight i => exact hsub.subset (List.mem_of_getElem? (deliver_flight_eq.1 h).1)
  | copy j => exact List.mem_of_getElem? (deliver_copy_eq.1 h).1

/-- The only datagram under way is delivered. -/
theorem deliver_singleton {c c' : Channel α} {i : ℕ} {d d' : α} (hc : c.flight.Sublist [d])
    (h : c.deliver (.flight i) = some (d', c')) : d' = d ∧ c'.flight = [] := by
  obtain ⟨hd, rfl⟩ := deliver_flight_eq.1 h
  rcases List.sublist_singleton.1 hc with he | he
  · simp [he] at hd
  · rw [he] at hd
    cases i with
    | zero => simpa [he] using hd.symm
    | succ i => simp at hd

/-- Channels with datagrams related by `C`. -/
structure Rel (C : α → β → Prop) (c : Channel α) (c' : Channel β) : Prop where
  sent : List.Forall₂ C c.sent c'.sent
  flight : List.Forall₂ C c.flight c'.flight
  delivered : List.Forall₂ C c.delivered c'.delivered

variable {C : α → β → Prop} {c : Channel α} {c' : Channel β}

/-- What stands for the same datagram is the same, if no datagram is repeated. -/
theorem eq_of_forall₂ {l : List α} {l' : List β} (h : List.Forall₂ C l l') (hnodup : l'.Nodup)
    {a₁ a₂ : α} {b : β} (h₁ : a₁ ∈ l) (h₂ : a₂ ∈ l) (hu₁ : ∀ b' ∈ l', C a₁ b' → b' = b)
    (hu₂ : ∀ b' ∈ l', C a₂ b' → b' = b) : a₁ = a₂ := by
  obtain ⟨i, hi, rfl⟩ := List.mem_iff_getElem.1 h₁
  obtain ⟨j, hj, rfl⟩ := List.mem_iff_getElem.1 h₂
  have hi' : i < l'.length := h.length_eq ▸ hi
  have hj' : j < l'.length := h.length_eq ▸ hj
  have heq : l'[i] = l'[j] :=
    (hu₁ _ (List.getElem_mem hi') (h.get hi hi')).trans
      (hu₂ _ (List.getElem_mem hj') (h.get hj hj')).symm
  obtain rfl := hnodup.getElem_inj_iff.1 heq
  rfl

/-- Related lists without the elements at a place. -/
theorem rel_eraseIdx {l : List α} {l' : List β} (h : List.Forall₂ C l l') (i : ℕ) :
    List.Forall₂ C (l.eraseIdx i) (l'.eraseIdx i) := by
  rw [List.eraseIdx_eq_take_drop_succ, List.eraseIdx_eq_take_drop_succ]
  exact List.rel_append (List.forall₂_take i h) (List.forall₂_drop (i + 1) h)

/-- The elements at a place are related, or there are none. -/
theorem rel_getElem? {l : List α} {l' : List β} (h : List.Forall₂ C l l') (i : ℕ) :
    Option.Rel C l[i]? l'[i]? := by
  induction h generalizing i with
  | nil => exact .none
  | cons hab _ ih =>
    cases i with
    | zero => exact .some hab
    | succ i => simpa using ih i

/-- Functions that keep relations can be applied. -/
theorem rel_map {γ δ : Type} {D : γ → δ → Prop} {f : α → γ} {g : β → δ} {o : Option α}
    {o' : Option β} (h : Option.Rel C o o') (hfg : ∀ {a b}, C a b → D (f a) (g b)) :
    Option.Rel D (o.map f) (o'.map g) := by
  cases h with
  | some hab => exact .some (hfg hab)
  | none => exact .none

/-- Related datagrams are sent over both. -/
theorem Rel.send (h : Rel C c c') {ds : List α} {ms : List β} (hd : List.Forall₂ C ds ms) :
    Rel C (c.send ds) (c'.send ms) :=
  ⟨List.rel_append h.sent hd, List.rel_append h.flight hd, h.delivered⟩

/-- The datagrams at the same place are lost. -/
theorem Rel.lose (h : Rel C c c') (i : ℕ) : Rel C (c.lose i) (c'.lose i) :=
  ⟨h.sent, rel_eraseIdx h.flight i, h.delivered⟩

/-- The datagrams at the same place are delivered. -/
theorem Rel.deliver (h : Rel C c c') (dl : Delivery) :
    Option.Rel (fun x y => C x.1 y.1 ∧ Rel C x.2 y.2) (c.deliver dl) (c'.deliver dl) := by
  have hone {d : α} {m : β} (hdm : C d m) : List.Forall₂ C (c.delivered ++ [d])
      (c'.delivered ++ [m]) := List.rel_append h.delivered (.cons hdm .nil)
  cases dl with
  | flight i =>
    exact rel_map (rel_getElem? h.flight i) fun hdm =>
      ⟨hdm, h.sent, rel_eraseIdx h.flight i, hone hdm⟩
  | copy j => exact rel_map (rel_getElem? h.sent j) fun hdm => ⟨hdm, h.sent, h.flight, hone hdm⟩

end Channel

/-! ## Parties and networks -/

/-- A kind of party, with states in `σ`: whether it awaits a datagram, and what a
    step does, given the datagram it awaited, if any, and an input from its
    environment. The step gives a state and the datagrams that are sent. -/
structure Machine (σ ι α : Type) where
  /-- Whether the next step takes a datagram. -/
  awaits : σ → Bool
  /-- The next step. -/
  step : ι → Option α → σ → σ × List α

/-- A step of a party, with the datagrams on their way to it. Without one that it
    awaits, it does not go on. -/
def Machine.move (M : Machine σ ι α) (i : ι) (dl : Delivery) (t : σ) (c : Channel α) :
    (σ × List α) × Channel α :=
  if M.awaits t then
    match c.deliver dl with
    | some (d, c') => (M.step i (some d) t, c')
    | none => ((t, []), c)
  else (M.step i none t, c)

/-- What a step of a party does, by the datagram it takes, if any. -/
theorem Machine.move_cases (M : Machine σ ι α) (i : ι) (dl : Delivery) (t : σ) (c : Channel α) :
    M.move i dl t c = ((t, []), c) ∨
    (M.awaits t = false ∧ M.move i dl t c = (M.step i none t, c)) ∨
    ∃ d c', M.awaits t = true ∧ c.deliver dl = some (d, c') ∧
      M.move i dl t c = (M.step i (some d) t, c') := by
  rw [Machine.move]
  cases ht : M.awaits t with
  | false => exact .inr (.inl ⟨rfl, rfl⟩)
  | true =>
    rcases hd : c.deliver dl with - | ⟨d, c'⟩
    · exact .inl rfl
    · exact .inr (.inr ⟨d, c', rfl, rfl, rfl⟩)

/-- A step of a party whose call for a datagram fails. One that does not call for a datagram has
    none to fail. -/
def Machine.fail (M : Machine σ ι α) (i : ι) (t : σ) : σ × List α :=
  if M.awaits t then M.step i none t else (t, [])

/-- What a failing call does. -/
theorem Machine.fail_cases (M : Machine σ ι α) (i : ι) (t : σ) :
    M.fail i t = (t, []) ∨ M.awaits t = true ∧ M.fail i t = M.step i none t := by
  rw [Machine.fail]
  cases ht : M.awaits t with
  | false => exact .inl rfl
  | true => exact .inr ⟨rfl, rfl⟩

/-- The two parties, and the channels to each of them. -/
structure Network (σ τ α : Type) where
  /-- The one party. -/
  tx : σ
  /-- The other one. -/
  rx : τ
  /-- What is on its way to the one party. -/
  toTx : Channel α := {}
  /-- What is on its way to the other one. -/
  toRx : Channel α := {}

/-- What happens in a network: a step of a party, the loss of a datagram on its
    way to it, or the failure of its call for one. -/
inductive Event
  | tx (dl : Delivery)
  | rx (dl : Delivery)
  | loseTx (i : ℕ)
  | loseRx (i : ℕ)
  | failTx
  | failRx

namespace Network

/-- The network after an event. -/
def step (M : Machine σ ι α) (N : Machine τ ι α) (i : ι) (e : Event) (s : Network σ τ α) :
    Network σ τ α :=
  match e with
  | .tx dl =>
    let r := M.move i dl s.tx s.toTx
    { s with tx := r.1.1, toTx := r.2, toRx := s.toRx.send r.1.2 }
  | .rx dl =>
    let r := N.move i dl s.rx s.toRx
    { s with rx := r.1.1, toRx := r.2, toTx := s.toTx.send r.1.2 }
  | .loseTx k => { s with toTx := s.toTx.lose k }
  | .loseRx k => { s with toRx := s.toRx.lose k }
  | .failTx =>
    let r := M.fail i s.tx
    { s with tx := r.1, toRx := s.toRx.send r.2 }
  | .failRx =>
    let r := N.fail i s.rx
    { s with rx := r.1, toTx := s.toTx.send r.2 }

variable (M : Machine σ ι α) (N : Machine τ ι α)

/-- The network after some events. -/
def exec (s : Network σ τ α) (es : List (ι × Event)) : Network σ τ α :=
  es.foldl (fun s e => s.step M N e.1 e.2) s

/-- The states reached from `s₀` by events that may happen, with inputs that
    satisfy `ok`. -/
inductive Reachable (ok : ι → Prop) (may : Network σ τ α → Event → Prop) (s₀ : Network σ τ α) :
    Network σ τ α → Prop
  | init : Reachable ok may s₀ s₀
  | step {s : Network σ τ α} (h : Reachable ok may s₀ s) {i : ι} (hi : ok i) {e : Event}
      (he : may s e) : Reachable ok may s₀ (s.step M N i e)

variable {M N} {ok : ι → Prop} {may : Network σ τ α → Event → Prop} {s₀ s : Network σ τ α}

/-- What holds at the start and is preserved by every event holds in every
    reachable state. -/
theorem Reachable.invariant {I : Network σ τ α → Prop} (init : I s₀)
    (step : ∀ s i e, Reachable M N ok may s₀ s → I s → ok i → may s e → I (s.step M N i e))
    (h : Reachable M N ok may s₀ s) : I s := by
  induction h with
  | init => exact init
  | step h hi he ih => exact step _ _ _ h ih hi he

/-- A network in which more may happen reaches more. -/
theorem Reachable.mono {may' : Network σ τ α → Event → Prop} (hmay : ∀ s e, may s e → may' s e)
    (h : Reachable M N ok may s₀ s) : Reachable M N ok may' s₀ s := by
  induction h with
  | init => exact .init
  | step _ hi he ih => exact ih.step hi (hmay _ _ he)

/-- So does one with more inputs. -/
theorem Reachable.mono_ok {ok' : ι → Prop} (hok : ∀ i, ok i → ok' i)
    (h : Reachable M N ok may s₀ s) : Reachable M N ok' may s₀ s := by
  induction h with
  | init => exact .init
  | step _ hi he ih => exact ih.step (hok _ hi) he

/-- Executing events that may happen leads to a reachable state. -/
theorem reachable_exec (may : Event → Prop) {es : List (ι × Event)}
    (hes : ∀ e ∈ es, ok e.1 ∧ may e.2) :
    Reachable M N ok (fun _ => may) s₀ (exec M N s₀ es) := by
  induction es using List.reverseRecOn with
  | nil => exact .init
  | append_singleton es e ih =>
    rw [exec, List.foldl_append]
    obtain ⟨hok, hmay⟩ := hes e (by simp)
    exact (ih fun e' he' => hes e' (List.mem_append_left _ he')).step hok hmay

/-! ### One party

What is known of a party is known of its state together with the datagrams it has
received and those it has sent, whatever the other party does.
-/

/-- What holds of the party `tx` and is preserved by its steps. -/
theorem Reachable.local_tx {P : σ → List α → List α → Prop}
    (init : P s₀.tx s₀.toTx.delivered s₀.toRx.sent)
    (step : ∀ i d t ds es, ok i → P t ds es → (d.isSome → M.awaits t) →
      P (M.step i d t).1 (ds ++ d.toList) (es ++ (M.step i d t).2))
    (h : Reachable M N ok may s₀ s) : P s.tx s.toTx.delivered s.toRx.sent := by
  -- What the party has received and sent only changes with its own steps: the other one adds to
  -- what is under way to it, or takes from what it has sent, and both are still recorded.
  refine h.invariant (I := fun s => P s.tx s.toTx.delivered s.toRx.sent) init ?_
  intro s i e _ hP hi _
  cases e with
  | tx dl =>
    rcases M.move_cases i dl s.tx s.toTx with hm | ⟨ha, hm⟩ | ⟨d, c', ha, hd, hm⟩
    · simpa [Network.step, hm] using hP
    · simpa [Network.step, hm] using step i none _ _ _ hi hP (by simp)
    · have hdelivered := (Channel.deliver_eq hd).2.2
      simpa [Network.step, hm, hdelivered] using step i (some d) _ _ _ hi hP fun _ => ha
  | failTx =>
    rcases M.fail_cases i s.tx with hm | ⟨-, hm⟩
    · simpa [Network.step, hm] using hP
    · simpa [Network.step, hm] using step i none _ _ _ hi hP (by simp)
  | failRx =>
    rcases N.fail_cases i s.rx with hm | ⟨-, hm⟩
    · simpa [Network.step, hm] using hP
    · simpa [Network.step, hm] using hP
  | rx dl =>
    rcases N.move_cases i dl s.rx s.toRx with hm | ⟨-, hm⟩ | ⟨d, c', -, hd, hm⟩
    · simpa [Network.step, hm] using hP
    · simpa [Network.step, hm] using hP
    · have hsent := (Channel.deliver_eq hd).1
      simpa [Network.step, hm, hsent] using hP
  | loseTx | loseRx => exact hP

/-- What holds of the party `rx` and is preserved by its steps. -/
theorem Reachable.local_rx {P : τ → List α → List α → Prop}
    (init : P s₀.rx s₀.toRx.delivered s₀.toTx.sent)
    (step : ∀ i d t ds es, ok i → P t ds es → (d.isSome → N.awaits t) →
      P (N.step i d t).1 (ds ++ d.toList) (es ++ (N.step i d t).2))
    (h : Reachable M N ok may s₀ s) : P s.rx s.toRx.delivered s.toTx.sent := by
  refine h.invariant (I := fun s => P s.rx s.toRx.delivered s.toTx.sent) init ?_
  intro s i e _ hP hi _
  cases e with
  | rx dl =>
    rcases N.move_cases i dl s.rx s.toRx with hm | ⟨ha, hm⟩ | ⟨d, c', ha, hd, hm⟩
    · simpa [Network.step, hm] using hP
    · simpa [Network.step, hm] using step i none _ _ _ hi hP (by simp)
    · have hdelivered := (Channel.deliver_eq hd).2.2
      simpa [Network.step, hm, hdelivered] using step i (some d) _ _ _ hi hP fun _ => ha
  | failRx =>
    rcases N.fail_cases i s.rx with hm | ⟨-, hm⟩
    · simpa [Network.step, hm] using hP
    · simpa [Network.step, hm] using step i none _ _ _ hi hP (by simp)
  | failTx =>
    rcases M.fail_cases i s.tx with hm | ⟨-, hm⟩
    · simpa [Network.step, hm] using hP
    · simpa [Network.step, hm] using hP
  | tx dl =>
    rcases M.move_cases i dl s.tx s.toTx with hm | ⟨-, hm⟩ | ⟨d, c', -, hd, hm⟩
    · simpa [Network.step, hm] using hP
    · simpa [Network.step, hm] using hP
    · have hsent := (Channel.deliver_eq hd).1
      simpa [Network.step, hm, hsent] using hP
  | loseTx | loseRx => exact hP

/-! ### Kinds of networks -/

/-- Every datagram is delivered, once, in the order of sending. -/
def InOrder (_ : Network σ τ α) : Event → Prop
  | .tx dl | .rx dl => dl = .flight 0
  | .loseTx _ | .loseRx _ | .failTx | .failRx => False

/-- Datagrams are delivered in any order, at most once, and calls for them may fail. -/
def Unordered (_ : Network σ τ α) : Event → Prop
  | .tx dl | .rx dl => ∃ i, dl = .flight i
  | .loseTx _ | .loseRx _ | .failTx | .failRx => True

/-- Every datagram to `rx` is delivered in the order of sending, and further copies
    are delivered of some, as `may` says; those to `tx` are delivered at most once. Calls
    for them may fail. -/
def Duplicating (may : Network σ τ α → α → Prop) (s : Network σ τ α) : Event → Prop
  | .tx dl => ∃ i, dl = .flight i
  | .rx (.flight i) => i = 0
  | .rx (.copy j) => ∃ d ∈ s.toRx.sent[j]?, may s d
  | .loseTx _ | .failTx | .failRx => True
  | .loseRx _ => False

/-- Anything, but that further copies are only delivered to `rx`, and of some
    datagrams only, as `may` says. -/
def Arbitrary (may : Network σ τ α → α → Prop) (s : Network σ τ α) : Event → Prop
  | .tx dl => ∃ i, dl = .flight i
  | .rx (.flight _) => True
  | .rx (.copy j) => ∃ d ∈ s.toRx.sent[j]?, may s d
  | .loseTx _ | .loseRx _ | .failTx | .failRx => True

/-- In order is one of the orders. -/
theorem InOrder.unordered {e : Event} (h : InOrder s e) : Unordered s e := by
  cases e with
  | tx dl | rx dl => exact ⟨0, h⟩
  | loseTx | loseRx | failTx | failRx => exact h.elim

/-- No further copies are some. -/
theorem InOrder.duplicating {copies : Network σ τ α → α → Prop} {e : Event} (h : InOrder s e) :
    Duplicating copies s e := by
  cases e with
  | tx dl => exact ⟨0, h⟩
  | rx dl =>
    obtain rfl : dl = .flight 0 := h
    exact rfl
  | loseTx | loseRx | failTx | failRx => exact h.elim

/-- Any order, without copies, is a case of anything. -/
theorem Unordered.arbitrary {copies : Network σ τ α → α → Prop} {e : Event} (h : Unordered s e) :
    Arbitrary copies s e := by
  cases e with
  | tx dl => exact h
  | rx dl =>
    obtain ⟨i, rfl⟩ := h
    exact trivial
  | loseTx | loseRx | failTx | failRx => exact trivial

/-- Copies of fewer datagrams are a case of copies of more. -/
theorem Duplicating.arbitrary {copies copies' : Network σ τ α → α → Prop}
    (hle : ∀ d, copies s d → copies' s d) {e : Event} (h : Duplicating copies s e) :
    Arbitrary copies' s e := by
  cases e with
  | tx dl => exact h
  | rx dl =>
    cases dl with
    | flight i => exact trivial
    | copy j =>
      obtain ⟨d, hd, hcopy⟩ := h
      exact ⟨d, hd, hle d hcopy⟩
  | loseTx | loseRx | failTx | failRx => exact trivial

end Network

/-! ## Channels in order -/

/-- What was sent was delivered, but for what is under way. -/
def Channel.Fifo (c : Channel α) : Prop := c.delivered ++ c.flight = c.sent

/-- Nothing was sent. -/
theorem Channel.Fifo.start : Channel.Fifo ({} : Channel α) := rfl

/-- What is sent is last under way. -/
theorem Channel.Fifo.send {c : Channel α} (h : c.Fifo) (ds : List α) : (c.send ds).Fifo := by
  simp only [Fifo, Channel.send, ← List.append_assoc] at h ⊢
  rw [h]

/-- What is delivered was first under way. -/
theorem Channel.Fifo.deliver {c c' : Channel α} {d : α} (h : c.Fifo)
    (hd : c.deliver (.flight 0) = some (d, c')) : c'.Fifo := by
  obtain ⟨hfst, rfl⟩ := Channel.deliver_flight_eq.1 hd
  rw [Fifo] at h ⊢
  cases hf : c.flight with
  | nil => simp [hf] at hfst
  | cons d' l =>
    obtain rfl : d' = d := by simpa [hf] using hfst
    rw [← h, hf]
    simp

/-- A step of a party keeps the order. -/
theorem Machine.fifo_move {M : Machine σ ι α} {c : Channel α} (h : c.Fifo) (i : ι) (t : σ) :
    (M.move i (.flight 0) t c).2.Fifo := by
  rcases M.move_cases i (.flight 0) t c with hm | ⟨-, hm⟩ | ⟨d, c', -, hd, hm⟩
  · rwa [hm]
  · rwa [hm]
  · rw [hm]
    exact h.deliver hd

/-- In a network that delivers in order, both channels do. -/
theorem Network.Reachable.fifo {M : Machine σ ι α} {N : Machine τ ι α} {ok : ι → Prop}
    {s₀ s : Network σ τ α} (hTx : s₀.toTx.Fifo) (hRx : s₀.toRx.Fifo)
    (h : Reachable M N ok InOrder s₀ s) : s.toTx.Fifo ∧ s.toRx.Fifo := by
  refine h.invariant (I := fun s => s.toTx.Fifo ∧ s.toRx.Fifo) ⟨hTx, hRx⟩ ?_
  rintro s i e - ⟨hTx, hRx⟩ - he
  cases e with
  | tx dl =>
    obtain rfl : dl = .flight 0 := he
    exact ⟨Machine.fifo_move hTx i s.tx, hRx.send _⟩
  | rx dl =>
    obtain rfl : dl = .flight 0 := he
    exact ⟨hTx.send _, Machine.fifo_move hRx i s.rx⟩
  | loseTx | loseRx | failTx | failRx => exact he.elim

/-! ## Channels that make nothing up -/

/-- Everything under way or delivered was sent. -/
structure Channel.Honest (c : Channel α) : Prop where
  /-- What is under way was sent in this order. -/
  flight : c.flight.Sublist c.sent
  /-- What was delivered was sent, maybe only once. -/
  delivered : c.delivered ⊆ c.sent

namespace Channel.Honest

variable {c : Channel α}

/-- Nothing is under way. -/
theorem start : Honest ({} : Channel α) := ⟨.refl _, List.Subset.refl _⟩

/-- What is sent may be delivered. -/
theorem send (h : c.Honest) (ds : List α) : (c.send ds).Honest :=
  ⟨h.flight.append (.refl ds), List.Subset.trans h.delivered (List.subset_append_left _ _)⟩

/-- What is lost was sent. -/
theorem lose (h : c.Honest) (i : ℕ) : (c.lose i).Honest :=
  ⟨(List.eraseIdx_sublist _ _).trans h.flight, h.delivered⟩

/-- A step takes what is under way, or a copy of what was sent. -/
theorem move (h : c.Honest) (M : Machine σ ι α) (i : ι) (dl : Delivery) (t : σ) :
    (M.move i dl t c).2.Honest := by
  rcases M.move_cases i dl t c with hm | ⟨-, hm⟩ | ⟨d, c', -, hd, hm⟩
  · rwa [hm]
  · rwa [hm]
  · obtain ⟨hsent, hflight, hdelivered⟩ := deliver_eq hd
    rw [hm]
    refine ⟨hsent ▸ hflight.trans h.flight, ?_⟩
    rw [hdelivered, hsent]
    exact List.append_subset.2 ⟨h.delivered, by simpa using mem_of_deliver h.flight hd⟩

end Channel.Honest

/-- No network makes anything up. -/
theorem Network.Reachable.honest {M : Machine σ ι α} {N : Machine τ ι α} {ok : ι → Prop}
    {may : Network σ τ α → Event → Prop} {s₀ s : Network σ τ α} (hTx : s₀.toTx.Honest)
    (hRx : s₀.toRx.Honest) (h : Reachable M N ok may s₀ s) : s.toTx.Honest ∧ s.toRx.Honest := by
  refine h.invariant (I := fun s => s.toTx.Honest ∧ s.toRx.Honest) ⟨hTx, hRx⟩ ?_
  rintro s i e - ⟨hTx, hRx⟩ - -
  cases e with
  | tx dl => exact ⟨hTx.move M i dl s.tx, hRx.send _⟩
  | rx dl => exact ⟨hTx.send _, hRx.move N i dl s.rx⟩
  | loseTx k => exact ⟨hTx.lose k, hRx⟩
  | loseRx k => exact ⟨hTx, hRx.lose k⟩
  | failTx => exact ⟨hTx, hRx.send _⟩
  | failRx => exact ⟨hTx.send _, hRx⟩

/-! ## Simulation -/

/-- What `M` does on a datagram, `M'` does on a message the datagram carries, if
    it expects this message, on an input that `K` relates. -/
structure Simulates (M : Machine σ ι α) (M' : Machine σ' κ β) (ok : ι → Prop) (K : ι → κ → Prop)
    (C : α → β → Prop) (expects : σ' → β → Prop) (R : σ → σ' → Prop) : Prop where
  /-- Every input is one of the messages' network. -/
  input : ∀ i, ok i → ∃ k, K i k
  /-- Both wait, or none of them does. -/
  awaits : ∀ {t t'}, R t t' → M.awaits t = M'.awaits t'
  /-- A step on a datagram, or without one, is a step on the message. -/
  step : ∀ {t t' i d m}, R t t' → ok i → Option.Rel C d m → (d.isSome → M.awaits t) →
    (∀ m' ∈ m, expects t' m') → ∃ k, K i k ∧ R (M.step i d t).1 (M'.step k m t').1 ∧
      List.Forall₂ C (M.step i d t).2 (M'.step k m t').2

section Simulation

variable {M : Machine σ ι α} {N : Machine τ ι α} {M' : Machine σ' κ β} {N' : Machine τ' κ β}
  {ok : ι → Prop} {K : ι → κ → Prop} {C : α → β → Prop} {expectsM : σ' → β → Prop}
  {expectsN : τ' → β → Prop} {R : σ → σ' → Prop} {S : τ → τ' → Prop}

/-- A step of the one is a step of the other, each with what it takes from its channel. -/
theorem Simulates.move (hR : Simulates M M' ok K C expectsM R) {t : σ} {t' : σ'} (ht : R t t')
    {c : Channel α} {c' : Channel β} (hc : Channel.Rel C c c') {i : ι} (hi : ok i) {dl : Delivery}
    (hexp : M'.awaits t' → ∀ m c'', c'.deliver dl = some (m, c'') → expectsM t' m) :
    ∃ k, K i k ∧ R (M.move i dl t c).1.1 (M'.move k dl t' c').1.1 ∧
      List.Forall₂ C (M.move i dl t c).1.2 (M'.move k dl t' c').1.2 ∧
      Channel.Rel C (M.move i dl t c).2 (M'.move k dl t' c').2 := by
  have haw := hR.awaits ht
  cases hm : M.awaits t with
  | false =>
    obtain ⟨k, hK, hk, hout⟩ :=
      hR.step ht hi (.none : Option.Rel C none none) (by simp) (by simp)
    refine ⟨k, hK, ?_⟩
    simp only [Machine.move, hm, ← haw]
    exact ⟨hk, hout, hc⟩
  | true =>
    have hdel := hc.deliver dl
    simp only [Machine.move, hm, ← haw, if_true]
    generalize hx : c.deliver dl = x at hdel
    generalize hy : c'.deliver dl = y at hdel
    -- Both channels have a datagram at this place, or none of them does, and nothing happens.
    cases hdel with
    | none =>
      obtain ⟨k, hK⟩ := hR.input i hi
      exact ⟨k, hK, ht, .nil, hc⟩
    | some hd =>
      have hexp' := hexp (haw ▸ hm) _ _ hy
      obtain ⟨k, hK, hk, hout⟩ := hR.step ht hi (.some hd.1) (fun _ => hm) (by simpa using hexp')
      exact ⟨k, hK, hk, hout, hd.2⟩

/-- A call that fails, on both sides. -/
theorem Simulates.fail (hR : Simulates M M' ok K C expectsM R) {t : σ} {t' : σ'} (ht : R t t')
    {i : ι}
    (hi : ok i) : ∃ k, K i k ∧ R (M.fail i t).1 (M'.fail k t').1 ∧
      List.Forall₂ C (M.fail i t).2 (M'.fail k t').2 := by
  simp only [Machine.fail, ← hR.awaits ht]
  split_ifs
  · exact hR.step ht hi (.none : Option.Rel C none none) (by simp) (by simp)
  · obtain ⟨k, hK⟩ := hR.input i hi
    exact ⟨k, hK, ht, .nil⟩

namespace Network

/-- Networks with related parties and channels. -/
structure Rel (C : α → β → Prop) (R : σ → σ' → Prop) (S : τ → τ' → Prop) (s : Network σ τ α)
    (s' : Network σ' τ' β) : Prop where
  tx : R s.tx s'.tx
  rx : S s.rx s'.rx
  toTx : Channel.Rel C s.toTx s'.toTx
  toRx : Channel.Rel C s.toRx s'.toRx

/-- The messages that an event can deliver are expected. -/
structure Expected (M' : Machine σ' κ β) (N' : Machine τ' κ β) (expectsM : σ' → β → Prop)
    (expectsN : τ' → β → Prop) (s : Network σ' τ' β) (e : Event) : Prop where
  /-- The one party expects what it gets. -/
  tx : ∀ dl, e = .tx dl → M'.awaits s.tx → ∀ m c, s.toTx.deliver dl = some (m, c) → expectsM s.tx m
  /-- The other one does, too. -/
  rx : ∀ dl, e = .rx dl → N'.awaits s.rx → ∀ m c, s.toRx.deliver dl = some (m, c) → expectsN s.rx m

variable {s : Network σ τ α} {s' : Network σ' τ' β}

/-- An event has related effects on related networks. -/
theorem Rel.step (hR : Simulates M M' ok K C expectsM R) (hS : Simulates N N' ok K C expectsN S)
    (h : Rel C R S s s') {i : ι} (hi : ok i) {e : Event}
    (he : Expected M' N' expectsM expectsN s' e) :
    ∃ k, K i k ∧ Rel C R S (s.step M N i e) (s'.step M' N' k e) := by
  cases e with
  | tx dl =>
    obtain ⟨k, hK, ht, hout, hc⟩ := hR.move h.tx h.toTx hi (he.tx dl rfl)
    exact ⟨k, hK, ht, h.rx, hc, h.toRx.send hout⟩
  | rx dl =>
    obtain ⟨k, hK, ht, hout, hc⟩ := hS.move h.rx h.toRx hi (he.rx dl rfl)
    exact ⟨k, hK, h.tx, ht, h.toTx.send hout, hc⟩
  | loseTx j =>
    obtain ⟨k, hK⟩ := hR.input i hi
    exact ⟨k, hK, h.tx, h.rx, h.toTx.lose j, h.toRx⟩
  | loseRx j =>
    obtain ⟨k, hK⟩ := hR.input i hi
    exact ⟨k, hK, h.tx, h.rx, h.toTx, h.toRx.lose j⟩
  | failTx =>
    obtain ⟨k, hK, ht, hout⟩ := hR.fail h.tx hi
    exact ⟨k, hK, ht, h.rx, h.toTx, h.toRx.send hout⟩
  | failRx =>
    obtain ⟨k, hK, ht, hout⟩ := hS.fail h.rx hi
    exact ⟨k, hK, h.tx, ht, h.toTx.send hout, h.toRx⟩

variable {may : Network σ τ α → Event → Prop} {may' : Network σ' τ' β → Event → Prop}
  {s₀ : Network σ τ α} {s₀' : Network σ' τ' β}

/-- Every run is related to a run of the network it simulates, in which all the
    messages are expected. Events that change nothing are left out there. -/
theorem Reachable.simulated (hR : Simulates M M' ok K C expectsM R)
    (hS : Simulates N N' ok K C expectsN S) (h₀ : Rel C R S s₀ s₀')
    (hmay : ∀ s s' i e, Reachable M' N' (fun _ => True) may' s₀' s' → Rel C R S s s' → may s e →
      may' s' e ∨ s.step M N i e = s)
    (hexp : ∀ s' e, Reachable M' N' (fun _ => True) may' s₀' s' → may' s' e →
      Expected M' N' expectsM expectsN s' e)
    (h : Reachable M N ok may s₀ s) :
    ∃ s', Reachable M' N' (fun _ => True) may' s₀' s' ∧ Rel C R S s s' := by
  induction h with
  | init => exact ⟨s₀', .init, h₀⟩
  | @step s _ i hi e he ih =>
    obtain ⟨s', hs', hrel⟩ := ih
    rcases hmay s s' i e hs' hrel he with he' | hstay
    · obtain ⟨k, -, hk⟩ := hrel.step hR hS hi (hexp _ _ hs' he')
      exact ⟨_, hs'.step trivial he', hk⟩
    · refine ⟨s', hs', ?_⟩
      rwa [hstay]

/-- The events `es` may happen, one after the other, and lead to a state that `P` holds
    of, whatever the inputs. -/
def Leads (M' : Machine σ' κ β) (N' : Machine τ' κ β) (ok : κ → Prop)
    (may' : Network σ' τ' β → Event → Prop) (P : Network σ' τ' β → Prop) :
    Network σ' τ' β → List Event → Prop
  | s, [] => P s
  | s, e :: es => may' s e ∧ ∀ k, ok k → Leads M' N' ok may' P (s.step M' N' k e) es

/-- Further events go on from where the first ones lead. -/
theorem Leads.append {ok : κ → Prop} {P Q : Network σ' τ' β → Prop} {s : Network σ' τ' β}
    {es es' : List Event} (h : Leads M' N' ok may' P s es)
    (hes' : ∀ s', P s' → Leads M' N' ok may' Q s' es') : Leads M' N' ok may' Q s (es ++ es') := by
  induction es generalizing s with
  | nil => exact hes' s h
  | cons e es ih =>
    obtain ⟨hmay, hgo⟩ := h
    exact ⟨hmay, fun k hk => ih (hgo k hk)⟩

/-- Where events lead the network that is simulated, they lead the network that
    simulates it. -/
theorem Reachable.leads (hR : Simulates M M' ok K C expectsM R)
    (hS : Simulates N N' ok K C expectsN S)
    (hmay : ∀ s s' e, Rel C R S s s' → may' s' e → may s e)
    (hexp : ∀ s' e, Reachable M' N' (fun _ => True) may' s₀' s' → may' s' e →
      Expected M' N' expectsM expectsN s' e)
    {i : ι} (hi : ok i) {P : Network σ' τ' β → Prop} (hs : Reachable M N ok may s₀ s)
    (hs' : Reachable M' N' (fun _ => True) may' s₀' s') (hrel : Rel C R S s s') {es : List Event}
    (hes : Leads M' N' (K i) may' P s' es) :
    ∃ s₁', P s₁' ∧ Reachable M' N' (fun _ => True) may' s₀' s₁' ∧
      Reachable M N ok may s₀ (exec M N s (es.map (i, ·))) ∧
      Rel C R S (exec M N s (es.map (i, ·))) s₁' := by
  induction es generalizing s s' with
  | nil => exact ⟨s', hes, hs', hs, hrel⟩
  | cons e es ih =>
    obtain ⟨hmay', hgo⟩ := hes
    obtain ⟨k, hK, hk⟩ := hrel.step hR hS hi (hexp _ _ hs' hmay')
    exact ih (hs.step hi (hmay _ _ _ hrel hmay')) (hs'.step trivial hmay') hk (hgo k hK)

end Network

end Simulation

end Udm
