import Udm.Exchange.Liveness

/-!
# Exchanges come to rest

Nothing is sent again. So, whatever the network loses or reorders, and whichever system calls
fail, the sides take a bounded number of steps (`Counted.past_le`). A fair exchange comes to rest
(`comes_to_rest`): from some moment on the sides stay as they are, and a side that has neither
returned nor failed waits for a datagram, while none is under way.

The bound is that of the protocol: a step of a site is a step of a party, and a step of a party
counts (`Basic.steps_tx`, `Net.steps_rx`), also the one in which it halts because a call for a
datagram failed (`Net.steps_failTx`, `Net.steps_failRx`). How it is carried over:

* a site remembers its steps (`Site.past_move`), so the steps of an exchange can be counted
  (`taken`);
* `Counted` relates an exchange to a network of the protocol that has taken as many steps, and
  is kept by every event (`Counted.step`);
* a number that never falls and is bounded stays at some value in the end (`eventually_stays`),
  and what a fair schedule leaves alone has nothing to do (`Network.Fair.rests`).
-/

namespace Udm

open Session Protocol

variable {bo : ByteOrder} {env : Env} {f : File}

/-- No more chunks are sent than the file needs. -/
theorem File.sent_le_chunks {may : Net → Event → Prop} {s' : Net}
    (hmay : ∀ s e, may s e → Network.Arbitrary CopiesData s e) (h : Net.Reached f.toSource may s') :
    s'.tx.sent ≤ f.chunks := by
  have hpos : 0 < PAYLOAD := by decide
  have hle : f.bytes.length ≤ PAYLOAD * f.chunks := le_smul_ceilDiv hpos
  rcases hle.eq_or_lt with heq | hlt
  · refine h.sent_le (decide_eq_true (.inl ?_))
    rw [heq, Nat.mul_comm]
  · -- The last chunk is not a whole one.
    obtain ⟨k, hk⟩ : ∃ k, f.chunks = k + 1 := by
      refine Nat.exists_eq_succ_of_ne_zero fun hzero => ?_
      simp [hzero] at hlt
    -- Then that chunk is the last one, and nothing is sent after it.
    have hend : f.EndsIn k := by
      refine ⟨not_le.1 fun hge => ?_, by rwa [← hk, Nat.mul_comm]⟩
      have hchunks : f.chunks ≤ k := (ceilDiv_le_iff_le_smul hpos).2 (by rwa [smul_eq_mul, mul_comm])
      omega
    by_contra hnot
    have := (h.basic hmay).last k (by omega) (decide_eq_true hend)
    omega

/-! ## The steps of a site -/

namespace Site

variable {s : Site} {c : Channel (List Byte)} {dl : Delivery}

/-- A site takes one step at a time, or stays as it is. -/
theorem past_step (d : Option (List Byte)) : (s.step bo env d).1 = s ∨
    (s.step bo env d).1.past.length = s.past.length + 1 := by
  by_cases halive : s.conf.Alive Process.returned
  · rw [step_of_alive halive]
    exact .inr (by simp)
  · rw [step_of_not_alive halive]
    exact .inl rfl

/-- A delivery is one step of the site, or none. -/
theorem past_move : ((machine bo).move env dl s c).1.1 = s ∨
    ((machine bo).move env dl s c).1.1.past.length = s.past.length + 1 := by
  rcases (machine bo).move_cases env dl s c with hm | ⟨-, hm⟩ | ⟨d, c', -, -, hm⟩
  · rw [hm]
    exact .inl rfl
  · rw [hm]
    exact past_step none
  · rw [hm]
    exact past_step (some d)

/-- And so is a call that fails. -/
theorem past_fail : ((machine bo).fail env s).1 = s ∨
    ((machine bo).fail env s).1.past.length = s.past.length + 1 := by
  rcases (machine bo).fail_cases env s with hm | ⟨-, hm⟩
  · rw [hm]
    exact .inl rfl
  · rw [hm]
    exact past_step none

/-- A site that does not change sends nothing. -/
theorem quiet : Network.Quiet (machine bo) := by
  intro s env d hstay
  by_cases halive : s.conf.Alive Process.returned
  · exact absurd hstay (step_ne halive d)
  · exact congrArg Prod.snd (step_of_not_alive halive env d)

end Site

namespace Exchange

variable {txStatics rxStatics : Statics} {txList rxList : List IpaddrDummy}
  {sink source : DataSource} {fileSize : ℕ} {s : Exchange} {s' : Net} {sched : ℕ → Env × Event}

/-- The number of steps that the two sites have taken. -/
def taken (s : Exchange) : ℕ := s.tx.past.length + s.rx.past.length

/-- An event that takes no step leaves the sites as they are. -/
theorem taken_step (e : Event) :
    ((s.step (Site.machine bo) (Site.machine bo) env e).tx = s.tx ∧
      (s.step (Site.machine bo) (Site.machine bo) env e).rx = s.rx) ∨
    taken (s.step (Site.machine bo) (Site.machine bo) env e) = taken s + 1 := by
  cases e with
  | tx dl =>
    refine (@Site.past_move bo env s.tx s.toTx dl).imp (fun hstay => ⟨hstay, rfl⟩) fun hstep => ?_
    show ((Site.machine bo).move env dl s.tx s.toTx).1.1.past.length + s.rx.past.length = _
    rw [hstep, taken]
    omega
  | rx dl =>
    refine (@Site.past_move bo env s.rx s.toRx dl).imp (fun hstay => ⟨rfl, hstay⟩) fun hstep => ?_
    show s.tx.past.length + ((Site.machine bo).move env dl s.rx s.toRx).1.1.past.length = _
    rw [hstep, taken]
    omega
  | failTx =>
    refine (@Site.past_fail bo env s.tx).imp (fun hstay => ⟨hstay, rfl⟩) fun hstep => ?_
    show ((Site.machine bo).fail env s.tx).1.past.length + s.rx.past.length = _
    rw [hstep, taken]
    omega
  | failRx =>
    refine (@Site.past_fail bo env s.rx).imp (fun hstay => ⟨rfl, hstay⟩) fun hstep => ?_
    show s.tx.past.length + ((Site.machine bo).fail env s.rx).1.past.length = _
    rw [hstep, taken]
    omega
  | loseTx | loseRx => exact .inl ⟨rfl, rfl⟩

/-! ## The number of steps -/

/-- The exchange `s` of the file does what the network `s'` does, and its sites have taken no more
    steps. -/
structure Counted (bo : ByteOrder) (f : File) (s : Exchange) (s' : Net) : Prop where
  plays : Plays bo (fun _ => True) f s s'
  /-- The network `s'` is one that may lose and reorder messages. -/
  reached : Net.Reached f.toSource Network.Unordered s'
  /-- Each step of a site was a step of a party. -/
  taken_le : taken s ≤ s'.steps

namespace Counted

/-- At the start neither has taken any. -/
theorem start : Counted bo f
    (fileExchange f txStatics rxStatics txList rxList sink source fileSize) .start :=
  ⟨plays_start bo _ f, .init, Nat.zero_le _⟩

variable (h : Counted bo f s s')
include h

/-- So the parties are related as in any network. -/
theorem basic : Basic f.toSource s' := h.reached.basic fun _ _ => Network.Unordered.arbitrary

/-- A step that counts in the network `s'` is no more than one step of a site. -/
theorem taken_le_of_lt {e : Event} {i : Input} (hlt : s'.steps < (s'.next f.toSource i e).steps) :
    taken (s.step (Site.machine bo) (Site.machine bo) env e) ≤ (s'.next f.toSource i e).steps := by
  have hle := h.taken_le
  rcases @taken_step bo env s e with ⟨htx, hrx⟩ | heq
  · rw [taken, htx, hrx]
    exact hle.trans hlt.le
  · exact heq.trans_le (Nat.succ_le_of_lt (hle.trans_lt hlt))

/-- A delivery to the sender is a step of both, or of neither. -/
theorem step_tx {k : ℕ} (hk : k = 0 ∨ k < s.toTx.flight.length) :
    ∃ s'', Counted bo f
      (s.step (Site.machine bo) (Site.machine bo) env (.tx (.flight k))) s'' := by
  by_cases hgo : s.tx.Goes s.toTx
  swap
  · have hstay : s.step (Site.machine bo) (Site.machine bo) env (.tx (.flight k)) = s := by
      simp only [Network.step, Site.move_of_not_goes hgo, Channel.send_nil]
    rw [hstay]
    exact ⟨s', h⟩
  have hlen := h.plays.toTx.flight.length_eq
  -- The site takes a step, so the sender of the protocol can, too.
  have hgo' := (h.plays.tx.goes_iff hlen).1 hgo
  obtain ⟨i, -, hrel⟩ := h.plays.step_tx (sends bo (fun _ => True) f) (trivial : True)
    (h.basic.expected (e := .tx (.flight k)) ⟨k, rfl⟩)
  exact ⟨_, hrel, h.reached.step trivial ⟨k, rfl⟩,
    h.taken_le_of_lt (Basic.steps_tx h.basic (hlen ▸ hk) hgo')⟩

/-- And so is one to the receiver. -/
theorem step_rx {k : ℕ} (hk : k = 0 ∨ k < s.toRx.flight.length) :
    ∃ s'', Counted bo f
      (s.step (Site.machine bo) (Site.machine bo) env (.rx (.flight k))) s'' := by
  by_cases hgo : s.rx.Goes s.toRx
  swap
  · have hstay : s.step (Site.machine bo) (Site.machine bo) env (.rx (.flight k)) = s := by
      simp only [Network.step, Site.move_of_not_goes hgo, Channel.send_nil]
    rw [hstay]
    exact ⟨s', h⟩
  have hlen := h.plays.toRx.flight.length_eq
  have hgo' := (h.plays.rx.goes_iff hlen).1 hgo
  obtain ⟨i, -, hrel⟩ := h.plays.step_rx (receives bo f fun _ _ => id) (trivial : True)
    (h.basic.expected (e := .rx (.flight k)) trivial)
  exact ⟨_, hrel, h.reached.step trivial ⟨k, rfl⟩,
    h.taken_le_of_lt (Net.steps_rx (hlen ▸ hk) hgo')⟩

/-- The sender stops when its call for a datagram fails. -/
theorem step_failTx :
    ∃ s'', Counted bo f (s.step (Site.machine bo) (Site.machine bo) env .failTx) s'' := by
  cases haw : s.tx.awaits with
  | false =>
    have hfail : (Site.machine bo).fail env s.tx = (s.tx, []) :=
      if_neg (Bool.eq_false_iff.1 haw)
    have hstay : s.step (Site.machine bo) (Site.machine bo) env .failTx = s := by
      simp only [Network.step, hfail, Channel.send_nil]
    rw [hstay]
    exact ⟨s', h⟩
  | true =>
    obtain ⟨i, -, hrel⟩ := h.plays.step_failTx (sends bo (fun _ => True) f) (trivial : True)
    exact ⟨_, hrel, h.reached.step trivial trivial,
      h.taken_le_of_lt (Net.steps_failTx (h.plays.tx.awaits_eq.symm.trans haw))⟩

/-- The receiver stops when its call for a datagram fails. -/
theorem step_failRx :
    ∃ s'', Counted bo f (s.step (Site.machine bo) (Site.machine bo) env .failRx) s'' := by
  cases haw : s.rx.awaits with
  | false =>
    have hfail : (Site.machine bo).fail env s.rx = (s.rx, []) :=
      if_neg (Bool.eq_false_iff.1 haw)
    have hstay : s.step (Site.machine bo) (Site.machine bo) env .failRx = s := by
      simp only [Network.step, hfail, Channel.send_nil]
    rw [hstay]
    exact ⟨s', h⟩
  | true =>
    obtain ⟨i, -, hrel⟩ := h.plays.step_failRx (receives bo f fun _ _ => id) (trivial : True)
    exact ⟨_, hrel, h.reached.step trivial trivial,
      h.taken_le_of_lt (Net.steps_failRx (h.plays.rx.awaits_eq.symm.trans haw))⟩

/-- Every event of a network without copies is counted. -/
theorem step {e : Event} (he : Network.Lossy s e) :
    ∃ s'', Counted bo f (s.step (Site.machine bo) (Site.machine bo) env e) s'' := by
  cases e with
  | tx dl =>
    obtain ⟨k, rfl, hk⟩ := he
    exact h.step_tx hk
  | rx dl =>
    obtain ⟨k, rfl, hk⟩ := he
    exact h.step_rx hk
  | loseTx k =>
    obtain ⟨htx, hrx, htoTx, htoRx⟩ := h.plays
    exact ⟨s'.next f.toSource default (.loseTx k), ⟨htx, hrx, htoTx.lose k, htoRx⟩,
      h.reached.step trivial trivial, h.taken_le⟩
  | loseRx k =>
    obtain ⟨htx, hrx, htoTx, htoRx⟩ := h.plays
    exact ⟨s'.next f.toSource default (.loseRx k), ⟨htx, hrx, htoTx, htoRx.lose k⟩,
      h.reached.step trivial trivial, h.taken_le⟩
  | failTx => exact h.step_failTx
  | failRx => exact h.step_failRx

/-- There is a bound on the number of steps. -/
theorem past_le : taken s ≤ 6 * f.chunks + 11 := by
  have hle := h.taken_le
  have hprogress := Net.Reached.progress_le h.reached
    (File.sent_le_chunks (fun _ _ => Network.Unordered.arbitrary) h.reached)
  have htx := s'.tx.halted.toNat_le
  have hrx := s'.rx.halted.toNat_le
  rw [Net.steps] at hle
  omega

end Counted

/-- The steps of a run are counted from its start on. -/
theorem counted_run {s₀ : Exchange} (h₀ : Counted bo f s₀ .start)
    (h : ∀ n, Network.Lossy (trace bo s₀ sched n) (sched n).2) (n : ℕ) :
    ∃ s', Counted bo f (trace bo s₀ sched n) s' := by
  induction n with
  | zero => exact ⟨_, h₀⟩
  | succ n ih =>
    obtain ⟨s', hs'⟩ := ih
    exact hs'.step (h n)

/-! ## Rest -/

/-- After some moment, the sites stay as they are. -/
theorem eventually_stays {s₀ : Exchange} (h₀ : Counted bo f s₀ .start)
    (h : ∀ n, Network.Lossy (trace bo s₀ sched n) (sched n).2) :
    ∃ n, ∀ m ≥ n, (trace bo s₀ sched m).tx = (trace bo s₀ sched n).tx ∧
      (trace bo s₀ sched m).rx = (trace bo s₀ sched n).rx := by
  -- A site never takes back a step.
  have hmono : Monotone fun n => taken (trace bo s₀ sched n) := by
    refine monotone_nat_of_le_succ fun n => ?_
    rcases @taken_step bo (sched n).1 (trace bo s₀ sched n) (sched n).2 with ⟨htx, hrx⟩ | heq
    · rw [taken, taken, ← htx, ← hrx]
      exact le_rfl
    · exact (Nat.le_succ _).trans_eq heq.symm
  obtain ⟨n, hn⟩ := Network.exists_stable hmono fun n => (counted_run h₀ h n).choose_spec.past_le
  refine ⟨n, fun m hm => ?_⟩
  induction m, hm using Nat.le_induction with
  | base => exact ⟨rfl, rfl⟩
  | succ m hm ih =>
    rcases @taken_step bo (sched m).1 (trace bo s₀ sched m) (sched m).2 with ⟨htx, hrx⟩ | heq
    · exact ⟨htx.trans ih.1, hrx.trans ih.2⟩
    · have hsame : taken (trace bo s₀ sched (m + 1)) = taken (trace bo s₀ sched m) :=
        (hn (m + 1) (by omega)).trans (hn m hm).symm
      exact absurd (hsame.symm.trans heq) (by omega)

/-- Whatever is lost or reordered, and whichever calls fail: the two sites take at most
    `6 * f.chunks + 11` steps. If they take turns again and again, they come to rest: from some
    moment on they stay as they are, and a site that has neither returned nor failed waits for a
    datagram, and none is under way to it. -/
theorem comes_to_rest {s₀ : Exchange}
    (h₀ : s₀ = fileExchange f txStatics rxStatics txList rxList sink source fileSize)
    (h : Network.IsRun (Site.machine bo) (Site.machine bo) (fun _ => True) (fun _ => True)
      Network.Lossy s₀ sched) :
    (∀ n, taken (trace bo s₀ sched n) ≤ 6 * f.chunks + 11) ∧
    ((∀ n, ∃ m ≥ n, ∃ dl, (sched m).2 = .tx dl) → (∀ n, ∃ m ≥ n, ∃ dl, (sched m).2 = .rx dl) →
      ∃ n, ∀ m ≥ n, (trace bo s₀ sched m).tx = (trace bo s₀ sched n).tx ∧
        (trace bo s₀ sched m).rx = (trace bo s₀ sched n).rx ∧
        ((trace bo s₀ sched m).tx.conf.Alive Process.returned →
          (trace bo s₀ sched m).tx.awaits = true ∧ (trace bo s₀ sched m).toTx.flight = []) ∧
        ((trace bo s₀ sched m).rx.conf.Alive Process.returned →
          (trace bo s₀ sched m).rx.awaits = true ∧ (trace bo s₀ sched m).toRx.flight = [])) := by
  subst h₀
  have h₀ := @Counted.start bo f txStatics rxStatics txList rxList sink source fileSize
  refine ⟨fun n => (counted_run h₀ h.may n).choose_spec.past_le, fun htx hrx => ?_⟩
  obtain ⟨n, hstay⟩ := eventually_stays h₀ h.may
  have hfair : Network.Fair (Site.machine bo) (Site.machine bo) (fun _ => True) (fun _ => True)
    Network.Lossy _ sched := ⟨h, htx, hrx⟩
  obtain ⟨k, hk, hrests⟩ := hfair.rests Site.quiet Site.quiet
    (P := fun t => t.conf.Alive Process.returned)
    (Q := fun t => t.conf.Alive Process.returned)
    (fun _ _ d halive => Site.step_ne halive d) (fun _ _ d halive => Site.step_ne halive d) hstay
  refine ⟨k, fun m hm => ?_⟩
  obtain ⟨htx, hrx⟩ := hstay m (hk.trans hm)
  obtain ⟨htx', hrx'⟩ := hstay k hk
  exact ⟨htx.trans htx'.symm, hrx.trans hrx'.symm, hrests m hm⟩

/-! ### A network that loses datagrams -/

/-- The sites take turns, and datagrams on their way to the sender are lost. -/
def losing (n : ℕ) : Env × Event :=
  (Env.plain none [1, 1, 1],
    if n % 3 = 0 then .rx (.flight 0) else if n % 3 = 1 then .loseTx 0 else .tx (.flight 0))

/-- Such a network is fair to both sites. -/
theorem fair_losing (s₀ : Exchange) : Network.Fair (Site.machine .little) (Site.machine .little)
    (fun _ => True) (fun _ => True) Network.Lossy s₀ losing where
  suits := fun n => by
    rw [losing]
    split_ifs
    exacts [trivial, trivial, trivial]
  may := fun n => by
    rw [losing]
    split_ifs
    exacts [⟨0, rfl, .inl rfl⟩, trivial, ⟨0, rfl, .inl rfl⟩]
  tx := fun n => ⟨3 * n + 2, by omega, .flight 0, by rw [losing, if_neg (by omega), if_neg (by omega)]⟩
  rx := fun n => ⟨3 * n, by omega, .flight 0, if_pos (by omega)⟩

/-- The exchange of one byte comes to rest, although its hello is lost. -/
theorem rests_oneByte : ∃ n, ∀ m ≥ n,
    ((trace .little (start oneByteSender oneByteReceiver) losing m).tx.conf.Alive
        Process.returned →
      (trace .little (start oneByteSender oneByteReceiver) losing m).tx.awaits = true ∧
        (trace .little (start oneByteSender oneByteReceiver) losing m).toTx.flight = []) ∧
    ((trace .little (start oneByteSender oneByteReceiver) losing m).rx.conf.Alive
        Process.returned →
      (trace .little (start oneByteSender oneByteReceiver) losing m).rx.awaits = true ∧
        (trace .little (start oneByteSender oneByteReceiver) losing m).toRx.flight = []) := by
  have hstart : start oneByteSender oneByteReceiver =
      fileExchange oneByteFile {} {} [SessionProcessor.private10] [SessionProcessor.private10]
        { fmode := .OUT, fs := {} } { fmode := .IN, fs := {} } 0 := rfl
  have hfair := fair_losing (start oneByteSender oneByteReceiver)
  obtain ⟨n, hn⟩ := (comes_to_rest hstart hfair.toIsRun).2 hfair.tx hfair.rx
  exact ⟨n, fun m hm => (hn m hm).2.2⟩

end Exchange

end Udm
