import Udm.Library.Network

/-!
# Fair runs

Runs of a network that go on for ever, in which both parties take turns again and
again, and no datagram is lost, or any are.

* `Network.run`: the states of a run, given what happens at each moment;
* `Network.Lossless`: every datagram is delivered once, in any order;
* `Network.Lossy`: the same, but that datagrams are lost;
* `Network.IsRun`, `Network.Fair`: runs, with inputs that satisfy a condition for each of
  the parties, and fair runs;
* `IsRun.reachable`: what is known of the reachable states is known along a run;
* `Fair.eventually`: a run gets to where a rank leads it, if every step that changes
  anything lowers the rank, and some party can always take such a step;
* `Fair.rests`: parties that take no more steps of their own wait in vain;
* `Simulates.and`: what more is known of the parties, and of the datagrams they send.

A run is a function of time, and a party whose turn it is may have nothing to do: it then
stays as it is, and the moment passes. So a run never gets stuck by definition, and a
deadlock is a state that no later event changes (`run_eq_of_stays`).

Fairness is weak: each party gets a turn again and again, and nothing is said of how often.
The rank of `Fair.eventually` takes the place of a bound on the time that is left. Between
two of its values any number of moments may pass, in which parties wait or datagrams are
lost, so that no such bound exists.
-/

namespace Udm

variable {σ τ α ι : Type}

/-! ## Channels that lose nothing -/

/-- What was sent was delivered, but for what is under way, in some order. -/
def Channel.Whole (c : Channel α) : Prop := (c.delivered ++ c.flight).Perm c.sent

namespace Channel.Whole

variable {c c' : Channel α}

/-- Nothing is under way. -/
theorem start : Whole ({} : Channel α) := .nil

/-- What is sent is under way. -/
theorem send (h : c.Whole) (ds : List α) : (c.send ds).Whole := by
  simp only [Whole, Channel.send, ← List.append_assoc] at h ⊢
  exact h.append_right ds

/-- What is delivered is not under way any more. -/
theorem deliver (h : c.Whole) {i : ℕ} {d : α} (hd : c.deliver (.flight i) = some (d, c')) :
    c'.Whole := by
  obtain ⟨hsent, -, hdelivered⟩ := deliver_eq hd
  rw [Whole, hsent, hdelivered, List.append_assoc]
  exact ((perm_of_deliver hd).append_left c.delivered).trans h

/-- A step of the party loses nothing. -/
theorem move (h : c.Whole) (M : Machine σ ι α) (i : ι) (k : ℕ) (t : σ) :
    (M.move i (.flight k) t c).2.Whole := by
  rcases M.move_cases i (.flight k) t c with hm | ⟨-, hm⟩ | ⟨d, c', -, hd, hm⟩
  · rwa [hm]
  · rwa [hm]
  · rw [hm]
    exact h.deliver hd

/-- Counted, nothing is missing. -/
theorem length_eq (h : c.Whole) : c.delivered.length + c.flight.length = c.sent.length := by
  rw [← List.length_append]
  exact List.Perm.length_eq h

/-- What was sent was delivered, if nothing is under way. -/
theorem mem_delivered (h : c.Whole) (hc : c.flight = []) {d : α} (hd : d ∈ c.sent) :
    d ∈ c.delivered := by
  have := h.symm.subset hd
  rwa [hc, List.append_nil] at this

end Channel.Whole

/-! ## Channels that repeat nothing -/

/-- What was sent was delivered at most once, in any order. -/
def Channel.Once (c : Channel α) : Prop := (c.delivered ++ c.flight).Subperm c.sent

namespace Channel.Once

variable {c c' : Channel α}

/-- Nothing is under way. -/
theorem start : Once ({} : Channel α) := .refl _

/-- What is sent is under way, once. -/
theorem send (h : c.Once) (ds : List α) : (c.send ds).Once := by
  simp only [Once, Channel.send, ← List.append_assoc] at h ⊢
  exact (List.subperm_append_right ds).2 h

/-- What is lost is not delivered. -/
theorem lose (h : c.Once) (i : ℕ) : (c.lose i).Once :=
  ((List.eraseIdx_sublist c.flight i).append_left c.delivered).subperm.trans h

/-- What is delivered is not under way any more. -/
theorem deliver (h : c.Once) {i : ℕ} {d : α} (hd : c.deliver (.flight i) = some (d, c')) :
    c'.Once := by
  obtain ⟨hsent, -, hdelivered⟩ := deliver_eq hd
  rw [Once, hsent, hdelivered, List.append_assoc]
  exact ((perm_of_deliver hd).append_left c.delivered).subperm.trans h

/-- A step of the party repeats nothing. -/
theorem move (h : c.Once) (M : Machine σ ι α) (i : ι) (k : ℕ) (t : σ) :
    (M.move i (.flight k) t c).2.Once := by
  rcases M.move_cases i (.flight k) t c with hm | ⟨-, hm⟩ | ⟨d, c', -, hd, hm⟩
  · rwa [hm]
  · rwa [hm]
  · rw [hm]
    exact h.deliver hd

/-- Counted, nothing is there twice. -/
theorem length_le (h : c.Once) : c.delivered.length + c.flight.length ≤ c.sent.length := by
  rw [← List.length_append]
  exact List.Subperm.length_le h

end Channel.Once

/-- A party that can take a step takes it: with a datagram, if it awaits one. -/
theorem Machine.move_of_flight {M : Machine σ ι α} {i : ι} {k : ℕ} {t : σ} {c : Channel α}
    (hk : k = 0 ∨ k < c.flight.length) (hc : M.awaits t = true → c.flight ≠ []) :
    (M.awaits t = false ∧ M.move i (.flight k) t c = (M.step i none t, c)) ∨
    ∃ d c', M.awaits t = true ∧ c.deliver (.flight k) = some (d, c') ∧
      M.move i (.flight k) t c = (M.step i (some d) t, c') := by
  rcases M.move_cases i (.flight k) t c with hm | hm | hm
  · cases haw : M.awaits t with
    | false => exact .inl ⟨rfl, by simp [Machine.move, haw]⟩
    | true =>
      have hlt : k < c.flight.length := by
        rcases hk with rfl | hk
        exacts [List.length_pos_of_ne_nil (hc haw), hk]
      have hd := Channel.deliver_flight_eq.2 ⟨List.getElem?_eq_getElem hlt, rfl⟩
      exact .inr ⟨_, _, rfl, hd, by simp [Machine.move, haw, hd]⟩
  exacts [.inl hm, .inr hm]

namespace Network

variable (M : Machine σ ι α) (N : Machine τ ι α)

/-! ## Runs -/

/-- The states of a run from `s₀`, in which the event `(sched n).2` happens at the
    moment `n`, with the input `(sched n).1`. -/
def run (s₀ : Network σ τ α) (sched : ℕ → ι × Event) : ℕ → Network σ τ α
  | 0 => s₀
  | n + 1 => (run s₀ sched n).step M N (sched n).1 (sched n).2

/-- Datagrams are delivered in any order, exactly once: a party that awaits one takes
    the first one under way, or any other. -/
def Lossless (s : Network σ τ α) : Event → Prop
  | .tx dl => ∃ k, dl = .flight k ∧ (k = 0 ∨ k < s.toTx.flight.length)
  | .rx dl => ∃ k, dl = .flight k ∧ (k = 0 ∨ k < s.toRx.flight.length)
  | .loseTx _ | .loseRx _ | .failTx | .failRx => False

/-- Datagrams are delivered in any order, at most once, as long as they are under way, and may be
    lost; calls for them may fail. -/
def Lossy (s : Network σ τ α) : Event → Prop
  | .tx dl => ∃ k, dl = .flight k ∧ (k = 0 ∨ k < s.toTx.flight.length)
  | .rx dl => ∃ k, dl = .flight k ∧ (k = 0 ∨ k < s.toRx.flight.length)
  | .loseTx _ | .loseRx _ | .failTx | .failRx => True

/-- The input is one for the party that takes the step. -/
def Suits (okM okN : ι → Prop) (i : ι) : Event → Prop
  | .tx _ | .failTx => okM i
  | .rx _ | .failRx => okN i
  | .loseTx _ | .loseRx _ => True

/-- A run of events that may happen, with inputs for the two parties. -/
structure IsRun (okM okN : ι → Prop) (may : Network σ τ α → Event → Prop) (s₀ : Network σ τ α)
    (sched : ℕ → ι × Event) : Prop where
  /-- The inputs are those that the parties can get. -/
  suits : ∀ n, Suits okM okN (sched n).1 (sched n).2
  /-- What happens may happen. -/
  may : ∀ n, may (run M N s₀ sched n) (sched n).2

/-- A run in which each party takes turns again and again. -/
structure Fair (okM okN : ι → Prop) (may : Network σ τ α → Event → Prop) (s₀ : Network σ τ α)
    (sched : ℕ → ι × Event) : Prop extends IsRun M N okM okN may s₀ sched where
  /-- The party `tx` takes turns again and again. -/
  tx : ∀ n, ∃ m ≥ n, ∃ dl, (sched m).2 = .tx dl
  /-- So does the party `rx`. -/
  rx : ∀ n, ∃ m ≥ n, ∃ dl, (sched m).2 = .rx dl

variable {M N} {okM okN : ι → Prop} {may : Network σ τ α → Event → Prop} {s₀ s : Network σ τ α}
  {sched : ℕ → ι × Event}

/-- In order, nothing is lost. -/
theorem InOrder.lossless {e : Event} (h : InOrder s e) : Lossless s e := by
  cases e with
  | tx dl | rx dl => exact ⟨0, h, .inl rfl⟩
  | loseTx | loseRx | failTx | failRx => exact h.elim

/-- Without losses, datagrams come in some order. -/
theorem Lossless.unordered {e : Event} (h : Lossless s e) : Unordered s e := by
  cases e with
  | tx dl | rx dl =>
    obtain ⟨k, hk, -⟩ := h
    exact ⟨k, hk⟩
  | loseTx | loseRx | failTx | failRx => exact h.elim

/-- Where no datagram is lost, what was sent was delivered or is under way. -/
theorem Reachable.whole {ok : ι → Prop} (hTx : s₀.toTx.Whole) (hRx : s₀.toRx.Whole)
    (h : Reachable M N ok Lossless s₀ s) : s.toTx.Whole ∧ s.toRx.Whole := by
  refine h.invariant (I := fun s => s.toTx.Whole ∧ s.toRx.Whole) ⟨hTx, hRx⟩ ?_
  rintro s i e - ⟨hTx, hRx⟩ - he
  cases e with
  | tx dl =>
    obtain ⟨k, rfl, -⟩ := he
    exact ⟨hTx.move M i k s.tx, hRx.send _⟩
  | rx dl =>
    obtain ⟨k, rfl, -⟩ := he
    exact ⟨hTx.send _, hRx.move N i k s.rx⟩
  | loseTx | loseRx | failTx | failRx => exact he.elim

/-- Where no datagram is copied, each is delivered at most once. -/
theorem Reachable.once {ok : ι → Prop} (hTx : s₀.toTx.Once) (hRx : s₀.toRx.Once)
    (h : Reachable M N ok Unordered s₀ s) : s.toTx.Once ∧ s.toRx.Once := by
  refine h.invariant (I := fun s => s.toTx.Once ∧ s.toRx.Once) ⟨hTx, hRx⟩ ?_
  rintro s i e - ⟨hTx, hRx⟩ - he
  cases e with
  | tx dl =>
    obtain ⟨k, rfl⟩ := he
    exact ⟨hTx.move M i k s.tx, hRx.send _⟩
  | rx dl =>
    obtain ⟨k, rfl⟩ := he
    exact ⟨hTx.send _, hRx.move N i k s.rx⟩
  | loseTx k => exact ⟨hTx.lose k, hRx⟩
  | loseRx k => exact ⟨hTx, hRx.lose k⟩
  | failTx => exact ⟨hTx, hRx.send _⟩
  | failRx => exact ⟨hTx.send _, hRx⟩

namespace IsRun

/-- The states of a run are reachable. -/
theorem reachable (h : IsRun M N okM okN may s₀ sched) {ok : ι → Prop} (hM : ∀ i, okM i → ok i)
    (hN : ∀ i, okN i → ok i) (hlose : ∀ s i, ¬may s (.loseTx i) ∧ ¬may s (.loseRx i)) (n : ℕ) :
    Reachable M N ok may s₀ (run M N s₀ sched n) := by
  induction n with
  | zero => exact .init
  | succ n ih =>
    refine ih.step ?_ (h.may n)
    have hsuits := h.suits n
    have hmay := h.may n
    cases he : (sched n).2 with
    | tx | failTx => rw [he] at hsuits; exact hM _ hsuits
    | rx | failRx => rw [he] at hsuits; exact hN _ hsuits
    | loseTx i => rw [he] at hmay; exact absurd hmay (hlose _ i).1
    | loseRx i => rw [he] at hmay; exact absurd hmay (hlose _ i).2

end IsRun

/-! ### Progress -/

/-- Where a sequence changes, it changes from one moment to the next. -/
theorem exists_change {β : Type} {ρ : ℕ → β} {n m : ℕ} (hm : n ≤ m) (hne : ρ m ≠ ρ n) :
    ∃ k ≥ n, ρ k = ρ n ∧ ρ (k + 1) ≠ ρ n := by
  induction m, hm using Nat.le_induction with
  | base => exact absurd rfl hne
  | succ m hm ih =>
    by_cases hsame : ρ m = ρ n
    exacts [⟨m, hm, hsame, hne⟩, ih hsame]

/-- What no event changes any more stays. -/
theorem run_eq_of_stays {n : ℕ}
    (h : ∀ k, (run M N s₀ sched n).step M N (sched k).1 (sched k).2 = run M N s₀ sched n) {m : ℕ}
    (hm : n ≤ m) : run M N s₀ sched m = run M N s₀ sched n := by
  induction m, hm using Nat.le_induction with
  | base => rfl
  | succ m _ ih => rw [run, ih, h]

namespace Fair

/-- From a state of rank `r`, the run gets to `P` if every step leaves the state as it is or
    lowers the rank, and, as long as `P` does not hold, every step of one of the parties
    changes something. -/
theorem eventually (h : Fair M N okM okN may s₀ sched) {J : ℕ → Network σ τ α → Prop}
    {P : Network σ τ α → Prop}
    (hstep : ∀ r n, J r (run M N s₀ sched n) → run M N s₀ sched (n + 1) = run M N s₀ sched n ∨
      ∃ r' < r, J r' (run M N s₀ sched (n + 1)))
    (hlive : ∀ r n, J r (run M N s₀ sched n) → P (run M N s₀ sched n) ∨
      (∀ i dl, okM i → may (run M N s₀ sched n) (.tx dl) →
        (run M N s₀ sched n).step M N i (.tx dl) ≠ run M N s₀ sched n) ∨
      (∀ i dl, okN i → may (run M N s₀ sched n) (.rx dl) →
        (run M N s₀ sched n).step M N i (.rx dl) ≠ run M N s₀ sched n))
    {r n : ℕ} (hJ : J r (run M N s₀ sched n)) : ∃ m ≥ n, P (run M N s₀ sched m) := by
  induction r using Nat.strong_induction_on generalizing n with
  | _ r ih =>
    -- A party that can always take a step changes something in its next turn.
    have hturn {m : ℕ} (hm : n ≤ m) (hne : run M N s₀ sched m = run M N s₀ sched n →
        run M N s₀ sched (m + 1) ≠ run M N s₀ sched n) :
        ∃ k ≥ n, run M N s₀ sched k ≠ run M N s₀ sched n := by
      by_cases hsame : run M N s₀ sched m = run M N s₀ sched n
      exacts [⟨m + 1, hm.trans (Nat.le_succ m), hne hsame⟩, ⟨m, hm, hsame⟩]
    -- By fairness, that party has another turn. If the state has not changed before, it does
    -- then.
    have hchange : P (run M N s₀ sched n) ∨
        ∃ k ≥ n, run M N s₀ sched k ≠ run M N s₀ sched n := by
      refine (hlive r n hJ).imp_right ?_
      rintro (htx | hrx)
      · obtain ⟨m, hm, dl, hdl⟩ := h.tx n
        have hsuits := h.suits m
        have hmay := h.may m
        rw [hdl] at hsuits hmay
        refine hturn hm fun hsame => ?_
        rw [run, hdl, hsame]
        exact htx _ dl hsuits (hsame ▸ hmay)
      · obtain ⟨m, hm, dl, hdl⟩ := h.rx n
        have hsuits := h.suits m
        have hmay := h.may m
        rw [hdl] at hsuits hmay
        refine hturn hm fun hsame => ?_
        rw [run, hdl, hsame]
        exact hrx _ dl hsuits (hsame ▸ hmay)
    rcases hchange with hP | ⟨k, hk, hne⟩
    · exact ⟨n, le_rfl, hP⟩
    -- At the moment of the change, the rank is still `r`, and gets lower.
    obtain ⟨k, hk, hsame, hne⟩ := exists_change hk hne
    rw [← hsame] at hJ hne
    obtain ⟨r', hlt, hJ'⟩ := (hstep r k hJ).resolve_left hne
    obtain ⟨m, hm, hP⟩ := ih r' hlt (n := k + 1) hJ'
    exact ⟨m, hk.trans ((Nat.le_succ k).trans hm), hP⟩

end Fair

/-! ### Rest -/

/-- What grows and is bounded does not change any more from some moment on. -/
theorem exists_stable {c : ℕ → ℕ} (hmono : Monotone c) {b : ℕ} (hb : ∀ n, c n ≤ b) :
    ∃ n, ∀ m ≥ n, c m = c n := by
  obtain ⟨n, hn⟩ := WellFoundedGT.monotone_chain_condition (α := Fin (b + 1))
    ⟨fun n => ⟨c n, Nat.lt_succ_of_le (hb n)⟩, fun _ _ h => hmono h⟩
  exact ⟨n, fun m hm => (Fin.ext_iff.1 (hn m hm)).symm⟩

/-- Steps that leave the party as it is send nothing. -/
def Quiet (M : Machine σ ι α) : Prop := ∀ t i d, (M.step i d t).1 = t → (M.step i d t).2 = []

/-- A turn that leaves the party as it is sends nothing. -/
theorem Quiet.move {M : Machine σ ι α} (h : Quiet M) {i : ι} {dl : Delivery} {t : σ}
    {c : Channel α} (hstay : (M.move i dl t c).1.1 = t) : (M.move i dl t c).1.2 = [] := by
  rcases M.move_cases i dl t c with hm | ⟨-, hm⟩ | ⟨d, c', -, -, hm⟩
  · rw [hm]
  all_goals
    rw [hm] at hstay ⊢
    exact h _ _ _ hstay

/-- Nor does a call that fails. -/
theorem Quiet.fail {M : Machine σ ι α} (h : Quiet M) {i : ι} {t : σ} (hstay : (M.fail i t).1 = t) :
    (M.fail i t).2 = [] := by
  rcases M.fail_cases i t with hm | ⟨-, hm⟩
  · rw [hm]
  · rw [hm] at hstay ⊢
    exact h _ _ _ hstay

/-- A turn only takes from what is under way to the party. -/
theorem flight_move (M : Machine σ ι α) (i : ι) (dl : Delivery) (t : σ) (c : Channel α) :
    (M.move i dl t c).2.flight.Sublist c.flight := by
  rcases M.move_cases i dl t c with hm | ⟨-, hm⟩ | ⟨d, c', -, hd, hm⟩
  · rw [hm]
  · rw [hm]
  · rw [hm]
    exact (Channel.deliver_eq hd).2.1

/-- Where a party does not change, nothing new gets under way to the other one. -/
theorem toTx_flight_step (hN : Quiet N) {i : ι} {e : Event} (hrx : (s.step M N i e).rx = s.rx) :
    (s.step M N i e).toTx.flight.Sublist s.toTx.flight := by
  cases e with
  | tx dl => exact flight_move M i dl s.tx s.toTx
  | rx dl =>
    have hout : (N.move i dl s.rx s.toRx).1.2 = [] := hN.move hrx
    simp only [step, hout, Channel.send_nil, List.Sublist.refl]
  | loseTx k => exact List.eraseIdx_sublist _ _
  | loseRx k | failTx => exact .refl _
  | failRx =>
    have hout : (N.fail i s.rx).2 = [] := hN.fail hrx
    simp only [step, hout, Channel.send_nil, List.Sublist.refl]

/-- The same with the parties exchanged. -/
theorem toRx_flight_step (hM : Quiet M) {i : ι} {e : Event} (htx : (s.step M N i e).tx = s.tx) :
    (s.step M N i e).toRx.flight.Sublist s.toRx.flight := by
  cases e with
  | tx dl =>
    have hout : (M.move i dl s.tx s.toTx).1.2 = [] := hM.move htx
    simp only [step, hout, Channel.send_nil, List.Sublist.refl]
  | rx dl => exact flight_move N i dl s.rx s.toRx
  | loseTx k | failRx => exact .refl _
  | failTx =>
    have hout : (M.fail i s.tx).2 = [] := hM.fail htx
    simp only [step, hout, Channel.send_nil, List.Sublist.refl]
  | loseRx k => exact List.eraseIdx_sublist _ _

/-- The party is in `live` only if it waits, and nothing is under way to it. -/
def Rests (M : Machine σ ι α) (live : σ → Prop) (t : σ) (c : Channel α) : Prop :=
  live t → M.awaits t = true ∧ c.flight = []

/-- A party that a turn does not change is at rest, if those in `live` change with every step. -/
theorem rests_of_stays {M : Machine σ ι α} {live : σ → Prop}
    (hlive : ∀ t i d, live t → (M.step i d t).1 ≠ t) {t : σ} {c : Channel α} {i : ι} {k : ℕ}
    (hk : k = 0 ∨ k < c.flight.length) (hstay : (M.move i (.flight k) t c).1.1 = t) :
    Rests M live t c := by
  intro ht
  by_contra hnot
  have hgoes : M.awaits t = true → c.flight ≠ [] := fun haw hnil => hnot ⟨haw, hnil⟩
  rcases Machine.move_of_flight (i := i) hk hgoes with ⟨-, hm⟩ | ⟨d, c', -, -, hm⟩
  · rw [hm] at hstay
    exact hlive _ _ _ ht hstay
  · rw [hm] at hstay
    exact hlive _ _ _ ht hstay

/-- At rest, with less under way. -/
theorem Rests.mono {M : Machine σ ι α} {live : σ → Prop} {t : σ} {c c' : Channel α}
    (h : Rests M live t c) (hc : c'.flight.Sublist c.flight) : Rests M live t c' := by
  intro ht
  obtain ⟨haw, hnil⟩ := h ht
  exact ⟨haw, List.eq_nil_of_sublist_nil (hnil ▸ hc)⟩

/-- If the parties do not change any more, what is under way to them gets less. -/
theorem flight_of_stays (hM : Quiet M) (hN : Quiet N) {n : ℕ}
    (hstay : ∀ m ≥ n, (run M N s₀ sched m).tx = (run M N s₀ sched n).tx ∧
      (run M N s₀ sched m).rx = (run M N s₀ sched n).rx) {k m : ℕ} (hk : n ≤ k) (hm : k ≤ m) :
    (run M N s₀ sched m).toTx.flight.Sublist (run M N s₀ sched k).toTx.flight ∧
      (run M N s₀ sched m).toRx.flight.Sublist (run M N s₀ sched k).toRx.flight := by
  induction m, hm using Nat.le_induction with
  | base => exact ⟨.refl _, .refl _⟩
  | succ m hm ih =>
    obtain ⟨htx, hrx⟩ := hstay m (hk.trans hm)
    obtain ⟨htx', hrx'⟩ := hstay (m + 1) (by omega)
    exact ⟨(toTx_flight_step hN (hrx'.trans hrx.symm)).trans ih.1,
      (toRx_flight_step hM (htx'.trans htx.symm)).trans ih.2⟩

/-- If the parties do not change any more in a fair run, they come to rest. -/
theorem Fair.rests {P : σ → Prop} {Q : τ → Prop} (hM : Quiet M) (hN : Quiet N)
    (hP : ∀ t i d, P t → (M.step i d t).1 ≠ t)
    (hQ : ∀ t i d, Q t → (N.step i d t).1 ≠ t)
    (h : Fair M N okM okN Lossy s₀ sched) {n : ℕ}
    (hstay : ∀ m ≥ n, (run M N s₀ sched m).tx = (run M N s₀ sched n).tx ∧
      (run M N s₀ sched m).rx = (run M N s₀ sched n).rx) :
    ∃ k ≥ n, ∀ m ≥ k,
      Rests M P (run M N s₀ sched m).tx (run M N s₀ sched m).toTx ∧
      Rests N Q (run M N s₀ sched m).rx (run M N s₀ sched m).toRx := by
  obtain ⟨j, hj, dl, hdl⟩ := h.tx n
  obtain ⟨k, hk, dl', hdl'⟩ := h.rx n
  have hmay := h.may j
  have hmay' := h.may k
  rw [hdl] at hmay
  rw [hdl'] at hmay'
  obtain ⟨i, rfl, hi⟩ := hmay
  obtain ⟨i', rfl, hi'⟩ := hmay'
  -- The turns of the two parties.
  have htx : Rests M P (run M N s₀ sched j).tx (run M N s₀ sched j).toTx := by
    refine rests_of_stays (i := (sched j).1) hP hi ?_
    have hnext := (hstay (j + 1) (by omega)).1.trans (hstay j hj).1.symm
    rwa [run, hdl] at hnext
  have hrx : Rests N Q (run M N s₀ sched k).rx (run M N s₀ sched k).toRx := by
    refine rests_of_stays (i := (sched k).1) hQ hi' ?_
    have hnext := (hstay (k + 1) (by omega)).2.trans (hstay k hk).2.symm
    rwa [run, hdl'] at hnext
  refine ⟨max j k, le_max_of_le_left hj, fun m hm => ⟨?_, ?_⟩⟩
  · have hflight := (flight_of_stays hM hN hstay hj (le_of_max_le_left hm)).1
    rw [(hstay m (by omega)).1, ← (hstay j hj).1]
    exact htx.mono hflight
  · have hflight := (flight_of_stays hM hN hstay hk (le_of_max_le_right hm)).2
    rw [(hstay m (by omega)).2, ← (hstay k hk).2]
    exact hrx.mono hflight

end Network

/-! ## Simulation -/

section Simulation

variable {σ' τ' β κ : Type} {M : Machine σ ι α} {N : Machine τ ι α} {M' : Machine σ' κ β}
  {N' : Machine τ' κ β} {okM okN : ι → Prop} {K : ι → κ → Prop} {C D : α → β → Prop}
  {expectsM : σ' → β → Prop} {expectsN : τ' → β → Prop} {R Q : σ → σ' → Prop} {S : τ → τ' → Prop}

/-- Two lists related by `C` and by `D`. -/
theorem forall₂_and {l : List α} {l' : List β} (hC : List.Forall₂ C l l')
    (hD : List.Forall₂ D l l') : List.Forall₂ (fun a b => C a b ∧ D a b) l l' := by
  induction hC with
  | nil => exact .nil
  | cons hab _ ih =>
    obtain ⟨hab', hD⟩ := List.forall₂_cons.1 hD
    exact .cons ⟨hab, hab'⟩ (ih hD)

/-- Two lists of the same length, all of whose elements are related. -/
theorem forall₂_of_forall {l : List α} {l' : List β} (hC : List.Forall₂ C l l')
    (h : ∀ a ∈ l, ∀ b ∈ l', D a b) : List.Forall₂ D l l' := by
  induction hC with
  | nil => exact .nil
  | cons _ _ ih =>
    exact .cons (h _ List.mem_cons_self _ List.mem_cons_self) (ih fun a ha b hb =>
      h a (List.mem_cons_of_mem _ ha) b (List.mem_cons_of_mem _ hb))

/-- A simulation is strengthened by what every step preserves: `Q` of the parties, and `D` of
    the datagrams and the messages they carry. -/
theorem Simulates.and (hR : Simulates M M' okM K C expectsM R)
    (hstep : ∀ {t t' i d m k}, R t t' → Q t t' → okM i →
      Option.Rel (fun a b => C a b ∧ D a b) d m → (d.isSome → M.awaits t) →
      (∀ m' ∈ m, expectsM t' m') → R (M.step i d t).1 (M'.step k m t').1 →
      List.Forall₂ C (M.step i d t).2 (M'.step k m t').2 →
      Q (M.step i d t).1 (M'.step k m t').1 ∧
        List.Forall₂ D (M.step i d t).2 (M'.step k m t').2) :
    Simulates M M' okM K (fun a b => C a b ∧ D a b) expectsM (fun t t' => R t t' ∧ Q t t') where
  input := hR.input
  awaits := fun h => hR.awaits h.1
  step := by
    intro t t' i d m h hi hdm haw hexp
    have hC : Option.Rel C d m := by
      cases hdm with
      | none => exact .none
      | some hd => exact .some hd.1
    obtain ⟨k, hK, hk, hout⟩ := hR.step h.1 hi hC haw hexp
    obtain ⟨hQ, hout'⟩ := hstep h.1 h.2 hi hdm haw hexp hk hout
    exact ⟨k, hK, ⟨hk, hQ⟩, forall₂_and hout hout'⟩

/-- A simulation is strengthened by an invariant of the parties. -/
theorem Simulates.and_invariant (hR : Simulates M M' okM K C expectsM R)
    (hstep : ∀ {t t' i d m}, R t t' → Q t t' → okM i → Option.Rel C d m →
      (∀ m' ∈ m, expectsM t' m') → ∀ t'', Q (M.step i d t).1 t'') :
    Simulates M M' okM K C expectsM (fun t t' => R t t' ∧ Q t t') where
  input := hR.input
  awaits := fun h => hR.awaits h.1
  step := by
    intro t t' i d m h hi hdm haw hexp
    obtain ⟨k, hK, hk, hout⟩ := hR.step h.1 hi hdm haw hexp
    exact ⟨k, hK, ⟨hk, hstep h.1 h.2 hi hdm hexp _⟩, hout⟩

namespace Network.Rel

variable {s : Network σ τ α} {s' : Network σ' τ' β} {i : ι} {dl : Delivery}

/-- A failing call of `tx` has related effects, whatever `rx` is. -/
theorem step_failTx (hR : Simulates M M' okM K C expectsM R) (h : Rel C R S s s') (hi : okM i) :
    ∃ k, K i k ∧ Rel C R S (s.step M N i .failTx) (s'.step M' N' k .failTx) := by
  obtain ⟨k, hK, ht, hout⟩ := hR.fail h.tx hi
  exact ⟨k, hK, ht, h.rx, h.toTx, h.toRx.send hout⟩

/-- A failing call of `rx` has related effects, whatever `tx` is. -/
theorem step_failRx (hS : Simulates N N' okN K C expectsN S) (h : Rel C R S s s') (hi : okN i) :
    ∃ k, K i k ∧ Rel C R S (s.step M N i .failRx) (s'.step M' N' k .failRx) := by
  obtain ⟨k, hK, ht, hout⟩ := hS.fail h.rx hi
  exact ⟨k, hK, h.tx, ht, h.toTx.send hout, h.toRx⟩

/-- A step of `tx` has related effects, whatever `rx` is. -/
theorem step_tx (hR : Simulates M M' okM K C expectsM R) (h : Rel C R S s s') (hi : okM i)
    (he : Expected M' N' expectsM expectsN s' (.tx dl)) :
    ∃ k, K i k ∧ Rel C R S (s.step M N i (.tx dl)) (s'.step M' N' k (.tx dl)) := by
  obtain ⟨k, hK, ht, hout, hc⟩ := hR.move h.tx h.toTx hi (he.tx dl rfl)
  exact ⟨k, hK, ht, h.rx, hc, h.toRx.send hout⟩

/-- A step of `rx` has related effects, whatever `tx` is. -/
theorem step_rx (hS : Simulates N N' okN K C expectsN S) (h : Rel C R S s s')
    (hi : okN i) (he : Expected M' N' expectsM expectsN s' (.rx dl)) :
    ∃ k, K i k ∧ Rel C R S (s.step M N i (.rx dl)) (s'.step M' N' k (.rx dl)) := by
  obtain ⟨k, hK, ht, hout, hc⟩ := hS.move h.rx h.toRx hi (he.rx dl rfl)
  exact ⟨k, hK, h.tx, ht, h.toTx.send hout, hc⟩

end Network.Rel

/-- Every run is related to a run of the network it simulates, in which all the messages are
    expected. -/
theorem Network.IsRun.simulated {may : Network σ τ α → Event → Prop}
    {may' : Network σ' τ' β → Event → Prop} {s₀ : Network σ τ α} {s₀' : Network σ' τ' β}
    {sched : ℕ → ι × Event} {ok : κ → Prop} (hR : Simulates M M' okM K C expectsM R)
    (hS : Simulates N N' okN K C expectsN S) (h₀ : Rel C R S s₀ s₀')
    (hmay : ∀ s s' e, Reachable M' N' ok may' s₀' s' → Rel C R S s s' → may s e → may' s' e)
    (hexp : ∀ s' e, Reachable M' N' ok may' s₀' s' → may' s' e →
      Expected M' N' expectsM expectsN s' e)
    (hok : ∀ i k, okM i ∨ okN i → K i k → ok k) (k₀ : κ) (hk₀ : ok k₀)
    (h : IsRun M N okM okN may s₀ sched) (n : ℕ) :
    ∃ s', Reachable M' N' ok may' s₀' s' ∧ Rel C R S (run M N s₀ sched n) s' := by
  induction n with
  | zero => exact ⟨s₀', .init, h₀⟩
  | succ n ih =>
    obtain ⟨s', hs', hrel⟩ := ih
    have hsuits := h.suits n
    have hmay' := hmay _ _ _ hs' hrel (h.may n)
    rw [run]
    -- The party that takes the step determines the input, which is one of its own. A loss has no
    -- input, and any one will do.
    cases he : (sched n).2 with
    | tx dl =>
      rw [he] at hsuits hmay'
      obtain ⟨k, hK, hk⟩ := hrel.step_tx hR hsuits (hexp _ _ hs' hmay')
      exact ⟨_, hs'.step (hok _ k (.inl hsuits) hK) hmay', hk⟩
    | rx dl =>
      rw [he] at hsuits hmay'
      obtain ⟨k, hK, hk⟩ := hrel.step_rx hS hsuits (hexp _ _ hs' hmay')
      exact ⟨_, hs'.step (hok _ k (.inr hsuits) hK) hmay', hk⟩
    | failTx =>
      rw [he] at hsuits hmay'
      obtain ⟨k, hK, hk⟩ := hrel.step_failTx hR hsuits
      exact ⟨_, hs'.step (hok _ k (.inl hsuits) hK) hmay', hk⟩
    | failRx =>
      rw [he] at hsuits hmay'
      obtain ⟨k, hK, hk⟩ := hrel.step_failRx hS hsuits
      exact ⟨_, hs'.step (hok _ k (.inr hsuits) hK) hmay', hk⟩
    | loseTx j =>
      rw [he] at hmay'
      exact ⟨_, hs'.step hk₀ hmay', hrel.tx, hrel.rx, hrel.toTx.lose j, hrel.toRx⟩
    | loseRx j =>
      rw [he] at hmay'
      exact ⟨_, hs'.step hk₀ hmay', hrel.tx, hrel.rx, hrel.toTx, hrel.toRx.lose j⟩

end Simulation

end Udm
