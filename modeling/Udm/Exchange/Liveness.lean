import Udm.Exchange.Addresses
import Udm.Protocol.Liveness
import Udm.Session.Termination

/-!
# Exchanges come to an end

Over a network that loses nothing, in whatever order it delivers, a fair exchange comes to a
state that nothing changes any more (`eventually_over`). Both sides have returned then exactly
if the file ends in one of the capsules that the ids can number (`concludes_iff`); otherwise the
sender has exited, and the receiver waits for ever (`stuck_of_not_endsIn`).

What is needed of the hosts is in `FairRun`: their system calls succeed, and the number of their
interfaces stays the one of their lists (`Env.Serves`); and both lists fit into a capsule and have
an address that is not the loopback address (`Advertisable`).

The argument goes through the protocol:

* a site can take a step exactly if the party it plays can (`Site.PlaysSender.goes_iff`,
  `Site.PlaysReceiver.goes_iff`), and then one of them can, unless all is done
  (`Protocol.Live.goes`);
* `Goes` says that nothing has failed so far but that the sender may have run out of chunks, and
  every step that is taken keeps it and counts (`Goes.step_tx`, `Goes.step_rx`);
* the count is bounded by the number of chunks (`Goes.steps_le`), so a fair run is over at some
  moment, and stays so (`Over.stays`);
* how it is over depends on the file only (`Over.completed`, `Over.stuck`).
-/

namespace Udm

open Session Protocol

variable {bo : ByteOrder} {env : Env} {f : File} {txList rxList : List IpaddrDummy}

/-! ## Sites that can take a step -/

/-- The site can take a step, with the datagrams that are under way. -/
def Site.Goes (s : Site) (c : Channel (List Byte)) : Prop :=
  s.conf.Alive Process.returned ∧ (s.awaits = true → c.flight ≠ [])

namespace Site

variable {s : Site} {c : Channel (List Byte)} {k : ℕ}

/-- A site that cannot take a step stays as it is. -/
theorem move_of_not_goes (h : ¬s.Goes c) :
    (machine bo).move env (.flight k) s c = ((s, []), c) := by
  rcases (machine bo).move_cases env (.flight k) s c with hm | ⟨haw, hm⟩ | ⟨d, c', haw, hd, hm⟩
  · exact hm
  · have hnot : ¬s.conf.Alive Process.returned := fun halive =>
      h ⟨halive, fun haw' => absurd (haw'.symm.trans haw) (by decide)⟩
    rw [hm]
    exact congrArg (·, c) (step_of_not_alive hnot env none)
  · -- A datagram that is delivered was under way, so the site could have taken a step.
    have hne : c.flight ≠ [] := by
      have := (Channel.deliver_flight_eq.1 hd).1
      intro hnil
      simp [hnil] at this
    have hnot : ¬s.conf.Alive Process.returned := fun halive => h ⟨halive, fun _ => hne⟩
    simp [machine, awaits, hnot] at haw

/-- A site remembers its steps. -/
theorem step_ne (h : s.conf.Alive Process.returned) (d : Option (List Byte)) :
    (s.step bo env d).1 ≠ s := by
  rw [step_of_alive h]
  intro heq
  have := congrArg (fun t : Site => t.past.length) heq
  simp at this

/-- A site that can take a step takes one. -/
theorem move_ne (h : s.Goes c) (hk : k = 0 ∨ k < c.flight.length) :
    ((machine bo).move env (.flight k) s c).1.1 ≠ s := by
  rcases Machine.move_of_flight (M := machine bo) (i := env) hk h.2 with
    ⟨-, hm⟩ | ⟨d, c', -, -, hm⟩
  · rw [hm]
    exact step_ne h.1 none
  · rw [hm]
    exact step_ne h.1 (some d)

end Site

/-- A site that plays a sender can take a step if the sender can. -/
theorem Site.PlaysSender.goes_iff {s : Site} {t : Sender} (h : s.PlaysSender bo f t)
    {c : Channel (List Byte)} {c' : Channel Msg} (hc : c.flight.length = c'.flight.length) :
    s.Goes c ↔ t.Goes c' := by
  have hflight : c.flight ≠ [] ↔ c'.flight ≠ [] := by
    rw [← List.length_pos_iff_ne_nil, ← List.length_pos_iff_ne_nil, hc]
  rw [Site.Goes, Sender.Goes, h.awaits_eq, hflight, ← and_assoc]
  refine and_congr_left fun _ => ⟨fun halive => ?_, fun hgoes => ?_⟩
  · obtain ⟨hhalted, hst, -, hat, -⟩ := h.of_alive halive
    refine ⟨hhalted, fun hfin => ?_⟩
    have := (phase_eq_finished hst).1 (hat.phase_eq.symm.trans hfin)
    exact absurd (halive.2.symm.trans this) (by decide)
  · by_contra hdead
    rcases h.of_not_alive hdead with hh | hh
    · exact absurd (hgoes.1.symm.trans hh) (by decide)
    · exact hgoes.2 hh

/-- A site that plays a receiver can take a step if the receiver can. -/
theorem Site.PlaysReceiver.goes_iff {s : Site} {ok : Env → Prop} {r : Receiver}
    (h : s.PlaysReceiver bo ok f r) {c : Channel (List Byte)} {c' : Channel Msg}
    (hc : c.flight.length = c'.flight.length) : s.Goes c ↔ r.Goes c' := by
  have hflight : c.flight ≠ [] ↔ c'.flight ≠ [] := by
    rw [← List.length_pos_iff_ne_nil, ← List.length_pos_iff_ne_nil, hc]
  rw [Site.Goes, Receiver.Goes, h.awaits_eq, hflight, ← and_assoc]
  refine and_congr_left fun _ => ⟨fun halive => ?_, fun hgoes => ?_⟩
  · obtain ⟨hhalted, hst, -, hat, -⟩ := h.of_alive halive
    refine ⟨hhalted, fun hfin => ?_⟩
    have := (phase_eq_finished hst).1 (hat.phase_eq.symm.trans hfin)
    exact absurd (halive.2.symm.trans this) (by decide)
  · by_contra hdead
    rcases h.of_not_alive hdead with hh | hh
    · exact absurd (hgoes.1.symm.trans hh) (by decide)
    · exact hgoes.2 hh

/-- A sender that has finished has returned. -/
theorem Site.PlaysSender.completed {s : Site} {t : Sender} (h : s.PlaysSender bo f t)
    (ht : t.phase = .finished) (hhalted : t.halted = false) : s.Completed := by
  have hc : s.conf.error = none := by
    have := h.halted
    rw [hhalted] at this
    simpa using this.symm
  refine ⟨hc, (phase_eq_finished (h.steady hc).1).1 ?_⟩
  rw [← (h.alive hc).phase_eq]
  exact ht

namespace Exchange

variable {txStatics rxStatics : Statics} {sink source : DataSource} {fileSize : ℕ}
  {s : Exchange} {s' : Net} {sched : ℕ → Env × Event}

/-! ## Exchanges over networks that lose nothing -/

/-- The exchange `s` of the file does what the network `s'` does, and each side has learnt the
    addresses of the other. -/
abbrev Meets (bo : ByteOrder) (f : File) (txList rxList : List IpaddrDummy) :
    Exchange → Net → Prop :=
  Network.Rel (Tells bo f txList rxList)
    (fun s t => s.PlaysSender bo f t ∧ s.Informed txList rxList)
    (fun s r => s.PlaysReceiver bo (Env.Serves rxList) f r ∧ s.Informed rxList txList)

/-- All the steps of the exchange have succeeded, but that the sender may have run out of
    chunks. -/
structure Goes (bo : ByteOrder) (f : File) (txList rxList : List IpaddrDummy) (s : Exchange)
    (s' : Net) : Prop where
  meets : Meets bo f txList rxList s s'
  /-- In the network, nothing was lost and the calls have worked. -/
  working : Net.Working f.toSource s'
  /-- The receiver has not halted. -/
  rx : s'.rx.halted = false
  /-- If the sender has halted, it is in a window, with nothing left to send. -/
  tx : s'.tx.halted = true → s'.tx.phase = .data ∧ s'.tx.win ≠ 0 ∧ f.Exhausted s'.tx.sent
  /-- The process has exited then. -/
  exit : s'.tx.halted = true → s.tx.conf.error = some .exit

/-- The number of steps, or a little more. -/
def steps (s' : Net) : ℕ := s'.progress + s'.tx.halted.toNat

/-- Which datagram is there does not matter for the calls. -/
theorem serves_datagram {list : List IpaddrDummy} (env : Env) (d : Option (List Byte))
    (h : env.Serves list) : Env.Serves list { env with datagram := d } :=
  ⟨⟨h.succeeds.getnameinfo, h.succeeds.sendto, h.succeeds.write⟩, h.infCount⟩

/-- What a step of the sender leads to: its state stays, or it has taken a step. -/
theorem tx_next {src : Protocol.Source} (i : Input) (dl : Delivery) :
    (s'.next src i (.tx dl)).tx = s'.tx ∨
      ∃ m : Option Msg, (s'.tx.awaits → m.isSome) ∧
        (s'.next src i (.tx dl)).tx = (s'.tx.step src i m).1 := by
  rcases (sender src).move_cases i dl s'.tx s'.toTx with hm | ⟨haw, hm⟩ | ⟨d, c', -, -, hm⟩
  · exact .inl (by rw [Net.next, Network.step, hm])
  · have haw : s'.tx.awaits = false := haw
    exact .inr ⟨none, by simp [haw], by rw [Net.next, Network.step, hm]; rfl⟩
  · exact .inr ⟨some d, fun _ => rfl, by rw [Net.next, Network.step, hm]; rfl⟩

/-- The same for the receiver. -/
theorem rx_next {src : Protocol.Source} (i : Input) (dl : Delivery) :
    (s'.next src i (.rx dl)).rx = s'.rx ∨
      ∃ m : Option Msg, (s'.rx.awaits → m.isSome) ∧
        (s'.next src i (.rx dl)).rx = (s'.rx.step src i m).1 := by
  rcases (receiver src).move_cases i dl s'.rx s'.toRx with hm | ⟨haw, hm⟩ | ⟨d, c', -, -, hm⟩
  · exact .inl (by rw [Net.next, Network.step, hm])
  · have haw : s'.rx.awaits = false := haw
    exact .inr ⟨none, by simp [haw], by rw [Net.next, Network.step, hm]; rfl⟩
  · exact .inr ⟨some d, fun _ => rfl, by rw [Net.next, Network.step, hm]; rfl⟩

/-- A process that is in the phase of the data is in the state `closed`. -/
theorem next_of_phase_data {p : Process} (h : phase p = .data) : p.session.next = .closed := by
  cases hnext : p.session.next with
  | closed => rfl
  | connected => cases hc : p.session.complete <;> simp [phase, hnext, hc] at h
  | «open» | setup | done | inq | send | recv => simp [phase, hnext] at h

namespace Goes

variable (h : Goes bo f txList rxList s s')
include h

/-- What the network of the exchange does is what that of the protocol may do. -/
theorem lossless {e : Event} (he : Network.Lossless s e) : Network.Lossless s' e := by
  have hto := h.meets.toTx.flight.length_eq
  have hfrom := h.meets.toRx.flight.length_eq
  cases e with
  | tx dl | rx dl =>
    obtain ⟨k, hdl, hk⟩ := he
    exact ⟨k, hdl, by omega⟩
  | loseTx | loseRx | failTx | failRx => exact he

/-- There is a bound on the number of steps. -/
theorem steps_le : steps s' ≤ 6 * MAX_CHUNKS + 10 := by
  have hle := h.working.progress_le (n := MAX_CHUNKS) (decide_eq_true (.inr rfl))
  have := s'.tx.halted.toNat_le
  rw [steps]
  omega

/-- A sender that has not halted has not stopped. -/
theorem error_tx : s'.tx.halted = false → s.tx.conf.error = none := fun hhalted => by
  have := h.meets.tx.1.halted
  rw [hhalted] at this
  simpa using this.symm

/-- The receiver has not stopped. -/
theorem error_rx : s.rx.conf.error = none := by
  have := h.meets.rx.1.halted
  rw [h.rx] at this
  simpa using this.symm

/-- A sender in the transfer has an address of its peer. -/
theorem not_noAddress_tx (hrx : Advertisable rxList) (hhalted : s'.tx.halted = false)
    (hdata : s'.tx.phase = .data) : ¬s.tx.conf.state.interfaces.NoAddress := by
  obtain ⟨hplays, hinf⟩ := h.meets.tx
  have hc := h.error_tx hhalted
  have hnext := next_of_phase_data ((hplays.alive hc).phase_eq.symm.trans hdata)
  refine (hinf.peer hc ?_).not_noAddress hrx
  rw [Process.informed, (hplays.steady hc).2, hnext]

/-- A sender in the transfer can reach its peer. -/
theorem reaches_tx (hrx : Advertisable rxList) (hhalted : s'.tx.halted = false)
    (hdata : s'.tx.phase = .data) : s'.tx.reaches = true := by
  have hat := h.meets.tx.1.alive (h.error_tx hhalted)
  rw [hat.reaches (.inl (next_of_phase_data (hat.phase_eq.symm.trans hdata)))]
  exact decide_eq_true (h.not_noAddress_tx hrx hhalted hdata)

/-- A receiver that has taken the addresses can reach its peer. -/
theorem reaches_rx (htx : Advertisable txList) (hack : s'.rx.phase = .ack) :
    s'.rx.reaches = true := by
  obtain ⟨hplays, hinf⟩ := h.meets.rx
  have hc := h.error_rx
  have hat := hplays.alive hc
  have hphase := hat.phase_eq.symm.trans hack
  have hnext := next_of_phase_ack hphase
  have hcomplete : s.rx.conf.state.session.complete = false := by
    cases hcomplete : s.rx.conf.state.session.complete with
    | false => rfl
    | true => simp [phase, hnext, hcomplete] at hphase
  have hinformed : s.rx.conf.state.informed := by
    rw [Process.informed, (hplays.steady hc).2, hnext]
  rw [hat.reaches hnext hcomplete]
  exact decide_eq_true ((hinf.peer hc hinformed).not_noAddress htx)

/-- A sender that stops in the transfer exits because it has nothing to send. -/
theorem exits (hrx : Advertisable rxList) (hhalted : s'.tx.halted = false)
    (hdata : s'.tx.phase = .data) (henv : env.Succeeds) {k : ℕ}
    (hstop : ((Site.machine bo).move env (.flight k) s.tx s.toTx).1.1.conf.error ≠ none) :
    ((Site.machine bo).move env (.flight k) s.tx s.toTx).1.1.conf.error = some .exit := by
  -- The halted sender of the protocol has sent all there is; the site finds its queue empty.
  have hplays := h.meets.tx.1
  have hc := h.error_tx hhalted
  have hat := hplays.alive hc
  have hnext := next_of_phase_data (hat.phase_eq.symm.trans hdata)
  obtain ⟨hst, hdir⟩ := hplays.steady hc
  have hawaits : s.tx.conf.state.awaits = false := by rw [Process.awaits, hdir, hnext]
  have halive : s.tx.conf.Alive Process.returned := ⟨hc, by simp [Process.returned, hnext]⟩
  rcases (Site.machine bo).move_cases env (.flight k) s.tx s.toTx with
    hm | ⟨-, hm⟩ | ⟨d, c', haw, -, -⟩
  · rw [hm] at hstop
    exact absurd hc hstop
  · rw [hm] at hstop ⊢
    have hexec : ((Site.machine bo).step env none s.tx).1.conf =
        Conf.exec (Session.step bo) { env with datagram := none } s.tx.conf.state :=
      congrArg (fun t : Site × _ => t.1.conf) (Site.step_of_alive halive env none)
    have hmoves : Moves bo f s'.tx.sent { env with datagram := none } s.tx.conf.state _ :=
      moves_exec hat.sending ⟨rfl, .inl hnext⟩ (h.not_noAddress_tx hrx hhalted hdata) hst hdir
        halive.2 ⟨henv.getnameinfo, henv.sendto, henv.write⟩ (by simp [hawaits])
    rw [← hexec] at hmoves
    exact (hmoves.exits hstop).2.2.2
  · have haw' : s.tx.awaits = true := haw
    rw [Site.awaits_of_alive halive, hawaits] at haw'
    contradiction

/-- A step of the sender changes nothing, or brings the exchange nearer to its end. -/
theorem step_tx (htx : Advertisable txList) (hrx : Advertisable rxList) (henv : env.Serves txList)
    {dl : Delivery} (he : Network.Lossless s (.tx dl)) :
    s.step (Site.machine bo) (Site.machine bo) env (.tx dl) = s ∨
      ∃ s'', Goes bo f txList rxList (s.step (Site.machine bo) (Site.machine bo) env (.tx dl)) s'' ∧
        steps s' < steps s'' := by
  have he' := h.lossless he
  by_cases hgo : s.tx.Goes s.toTx
  swap
  · left
    obtain ⟨k, rfl, -⟩ := he
    simp only [Network.step, Site.move_of_not_goes hgo, Channel.send_nil]
  right
  have hgo' := (h.meets.tx.1.goes_iff h.meets.toTx.flight.length_eq).1 hgo
  obtain ⟨k, hK, hrel⟩ : ∃ k, Works env k ∧ Meets bo f txList rxList
      (s.step (Site.machine bo) (Site.machine bo) env (.tx dl)) (s'.next f.toSource k (.tx dl)) :=
    h.meets.step_tx
      (sends_tells bo f (fun _ (h : Env.Serves txList _) => h.infCount) htx.fits) henv
      (h.working.basic.expected he'.unordered.arbitrary)
  have hworks : k.works = true := hK henv.succeeds.getnameinfo henv.succeeds.sendto
  have hworking : Net.Working f.toSource (s'.next f.toSource k (.tx dl)) :=
    h.working.step hworks he'
  refine ⟨s'.next f.toSource k (.tx dl), ?_⟩
  cases hhalted : (s'.next f.toSource k (.tx dl)).tx.halted with
  | false =>
    have hnot : ¬(s'.next f.toSource k (.tx dl)).tx.halted = true := Bool.eq_false_iff.1 hhalted
    refine ⟨⟨hrel, hworking, h.rx, fun hh => absurd hh hnot, fun hh => absurd hh hnot⟩, ?_⟩
    have := h.working.progress_tx he' hgo' hhalted
    rw [steps, steps, hhalted, hgo'.1]
    exact this
  | true =>
    -- The sender has run out of chunks.
    have hne : (s'.next f.toSource k (.tx dl)).tx ≠ s'.tx := by
      intro heq
      rw [heq, hgo'.1] at hhalted
      contradiction
    obtain ⟨m, haw, hm⟩ := (tx_next k dl).resolve_left hne
    have hstop := hhalted
    rw [hm] at hstop
    obtain ⟨hdata, hwin, hex, hstep⟩ :=
      Sender.halted_step hgo'.1 haw hworks (h.reaches_tx hrx hgo'.1) hstop
    have htx' := hm.trans hstep
    refine ⟨⟨hrel, hworking, h.rx, fun _ => ?_, fun _ => ?_⟩, ?_⟩
    · rw [htx']
      exact ⟨hdata, hwin, of_decide_eq_true hex⟩
    · obtain ⟨j, rfl, -⟩ := he
      refine h.exits hrx hgo'.1 hdata henv.succeeds ?_
      rw [← Option.isSome_iff_ne_none]
      exact hrel.tx.1.halted.symm.trans hhalted
    · have hprogress : (s'.next f.toSource k (.tx dl)).progress = s'.progress := by
        rw [Net.progress, htx']
        rfl
      rw [steps, steps, hprogress, htx', hgo'.1]
      exact Nat.lt_succ_self _

/-- A step of the receiver changes nothing, or brings the exchange nearer to its end. -/
theorem step_rx (htx : Advertisable txList) (hrx : Advertisable rxList) (henv : env.Serves rxList)
    {dl : Delivery} (he : Network.Lossless s (.rx dl)) :
    s.step (Site.machine bo) (Site.machine bo) env (.rx dl) = s ∨
      ∃ s'', Goes bo f txList rxList (s.step (Site.machine bo) (Site.machine bo) env (.rx dl)) s'' ∧
        steps s' < steps s'' := by
  have he' := h.lossless he
  by_cases hgo : s.rx.Goes s.toRx
  swap
  · left
    obtain ⟨k, rfl, -⟩ := he
    simp only [Network.step, Site.move_of_not_goes hgo, Channel.send_nil]
  right
  have hgo' := (h.meets.rx.1.goes_iff h.meets.toRx.flight.length_eq).1 hgo
  obtain ⟨k, hK, hrel⟩ : ∃ k, Works env k ∧ Meets bo f txList rxList
      (s.step (Site.machine bo) (Site.machine bo) env (.rx dl)) (s'.next f.toSource k (.rx dl)) :=
    h.meets.step_rx
      (receives_tells bo f (fun _ (h : Env.Serves rxList _) => h.infCount) serves_datagram hrx.fits)
      henv (h.working.basic.expected he'.unordered.arbitrary)
  have hworks : k.works = true := hK henv.succeeds.getnameinfo henv.succeeds.sendto
  have hworking : Net.Working f.toSource (s'.next f.toSource k (.rx dl)) :=
    h.working.step hworks he'
  have hhalted : (s'.next f.toSource k (.rx dl)).rx.halted = false := by
    rcases rx_next k dl with hm | ⟨m, haw, hm⟩
    · rw [hm, h.rx]
    · rw [hm]
      exact Receiver.not_halted_step h.rx haw (h.reaches_rx htx)
  exact ⟨_, ⟨hrel, hworking, hhalted, h.tx, h.exit⟩,
    Nat.add_lt_add_right (Net.Working.progress_rx he' hgo' hhalted) _⟩

end Goes

/-! ## Fair exchanges -/

/-- The exchange has at most `r` steps left. -/
def Left (bo : ByteOrder) (f : File) (txList rxList : List IpaddrDummy) (r : ℕ) (s : Exchange) :
    Prop :=
  ∃ s', Goes bo f txList rxList s s' ∧ steps s' + r = 6 * MAX_CHUNKS + 10

/-- Nothing is left to do: both sides have returned, or the sender has run out of chunks and the
    receiver waits. -/
def Over (bo : ByteOrder) (f : File) (txList rxList : List IpaddrDummy) (s : Exchange) : Prop :=
  ∃ s', Goes bo f txList rxList s s' ∧ ((s'.tx.phase = .finished ∧ s'.rx.phase = .finished) ∨
    (s'.tx.halted = true ∧ ¬s'.rx.Goes s'.toRx))

/-- A fair run from `s₀` over a network that loses nothing: the sites take turns again and
    again, their system calls succeed, and they find as many interfaces as there are addresses
    in their lists. -/
abbrev FairRun (bo : ByteOrder) (txList rxList : List IpaddrDummy) (s₀ : Exchange)
    (sched : ℕ → Env × Event) : Prop :=
  Network.Fair (Site.machine bo) (Site.machine bo) (Env.Serves txList) (Env.Serves rxList)
    Network.Lossless s₀ sched

/-- At the start nothing has failed. -/
theorem goes_start (bo : ByteOrder) (f : File) (txList rxList : List IpaddrDummy) :
    Goes bo f txList rxList
      (fileExchange f txStatics rxStatics txList rxList sink source fileSize) .start where
  meets := {
    tx := ⟨playsSender_start bo f txStatics txList sink, informed_init _ _ _ _ _ _⟩
    rx := ⟨playsReceiver_start bo _ f rxStatics rxList source fileSize, informed_init _ _ _ _ _ _⟩
    toTx := ⟨.nil, .nil, .nil⟩
    toRx := ⟨.nil, .nil, .nil⟩ }
  working := .init
  rx := rfl
  tx := fun h => by simp [Net.start] at h
  exit := fun h => by simp [Net.start] at h

/-- As long as there is something to do, every step of one of the sites changes something. -/
theorem Goes.changes (h : Goes bo f txList rxList s s') : Over bo f txList rxList s ∨
    (∀ env dl, Network.Lossless s (.tx dl) →
      s.step (Site.machine bo) (Site.machine bo) env (.tx dl) ≠ s) ∨
    (∀ env dl, Network.Lossless s (.rx dl) →
      s.step (Site.machine bo) (Site.machine bo) env (.rx dl) ≠ s) := by
  have hrx (hgo : s'.rx.Goes s'.toRx) (env : Env) (dl : Delivery)
      (he : Network.Lossless s (.rx dl)) :
      s.step (Site.machine bo) (Site.machine bo) env (.rx dl) ≠ s := fun heq => by
    obtain ⟨k, rfl, hk⟩ := he
    exact Site.move_ne ((h.meets.rx.1.goes_iff h.meets.toRx.flight.length_eq).2 hgo) hk
      (congrArg Network.rx heq)
  cases hhalted : s'.tx.halted with
  | true =>
    by_cases hgo : s'.rx.Goes s'.toRx
    exacts [.inr (.inr (hrx hgo)), .inl ⟨s', h, .inr ⟨hhalted, hgo⟩⟩]
  | false =>
    rcases h.working.goes hhalted h.rx with hfin | hgo | hgo
    · exact .inl ⟨s', h, .inl hfin⟩
    · refine .inr (.inl fun env dl he heq => ?_)
      obtain ⟨k, rfl, hk⟩ := he
      exact Site.move_ne ((h.meets.tx.1.goes_iff h.meets.toTx.flight.length_eq).2 hgo) hk
        (congrArg Network.tx heq)
    · exact .inr (.inr (hrx hgo))

/-- What is over stays. -/
theorem Over.stays (h : Over bo f txList rxList s) {t : Exchange} {e : Event}
    (he : Network.Lossless t e) : s.step (Site.machine bo) (Site.machine bo) env e = s := by
  obtain ⟨s', hgoes, hover⟩ := h
  have htx : ¬s.tx.Goes s.toTx := by
    rw [hgoes.meets.tx.1.goes_iff hgoes.meets.toTx.flight.length_eq]
    rcases hover with ⟨hfin, -⟩ | ⟨hhalted, -⟩
    exacts [fun hgo => hgo.2.1 hfin, fun hgo => absurd (hgo.1.symm.trans hhalted) (by decide)]
  have hrx : ¬s.rx.Goes s.toRx := by
    rw [hgoes.meets.rx.1.goes_iff hgoes.meets.toRx.flight.length_eq]
    rcases hover with ⟨-, hfin⟩ | ⟨-, hgo⟩
    exacts [fun hgo => hgo.2.1 hfin, hgo]
  cases e with
  | tx dl =>
    obtain ⟨k, rfl, -⟩ := he
    simp only [Network.step, Site.move_of_not_goes htx, Channel.send_nil]
  | rx dl =>
    obtain ⟨k, rfl, -⟩ := he
    simp only [Network.step, Site.move_of_not_goes hrx, Channel.send_nil]
  | loseTx | loseRx | failTx | failRx => exact he.elim

/-- A step changes nothing, or there are fewer left. -/
theorem Left.step (htx : Advertisable txList) (hrx : Advertisable rxList) {r : ℕ}
    (h : Left bo f txList rxList r s) {e : Event}
    (hsuits : Network.Suits (Env.Serves txList) (Env.Serves rxList) env e)
    (he : Network.Lossless s e) :
    s.step (Site.machine bo) (Site.machine bo) env e = s ∨
      ∃ r' < r, Left bo f txList rxList r' (s.step (Site.machine bo) (Site.machine bo) env e) := by
  obtain ⟨s', hgoes, hr⟩ := h
  have hleft {t : Exchange} (ht : ∃ s'', Goes bo f txList rxList t s'' ∧ steps s' < steps s'') :
      ∃ r' < r, Left bo f txList rxList r' t := by
    obtain ⟨s'', hgoes', hlt⟩ := ht
    have hle := hgoes'.steps_le
    exact ⟨6 * MAX_CHUNKS + 10 - steps s'', by omega, s'', hgoes', by omega⟩
  cases e with
  | tx dl => exact (hgoes.step_tx htx hrx hsuits he).imp_right hleft
  | rx dl => exact (hgoes.step_rx htx hrx hsuits he).imp_right hleft
  | loseTx | loseRx | failTx | failRx => exact he.elim

/-- A fair exchange comes to its end, and then stays as it is. -/
theorem eventually_over {s₀ : Exchange} (h₀ : Goes bo f txList rxList s₀ .start)
    (htx : Advertisable txList) (hrx : Advertisable rxList)
    (h : FairRun bo txList rxList s₀ sched) :
    ∃ n, Over bo f txList rxList (trace bo s₀ sched n) ∧
      ∀ m ≥ n, trace bo s₀ sched m = trace bo s₀ sched n := by
  have hstart : Left bo f txList rxList (6 * MAX_CHUNKS + 10) (trace bo s₀ sched 0) :=
    ⟨.start, h₀, Nat.zero_add _⟩
  obtain ⟨n, -, hover⟩ := h.eventually (P := Over bo f txList rxList)
    (fun r n hleft => hleft.step htx hrx (h.suits n) (h.may n)) (fun r n hleft => by
      obtain ⟨s', hgoes, -⟩ := hleft
      exact hgoes.changes.imp_right
        (Or.imp (fun hne i dl _ => hne i dl) fun hne i dl _ => hne i dl)) hstart
  exact ⟨n, hover, fun m hm => Network.run_eq_of_stays (fun k => hover.stays (h.may k)) hm⟩

/-! ### How it ends -/

/-- The file ends in the chunk `k`, and there is something to send up to it. -/
theorem ends_toSource {k : ℕ} (hend : f.EndsIn k) (hk : k < MAX_CHUNKS) : f.toSource.Ends k where
  last := fun j => by
    rw [File.last_toSource, decide_eq_true_iff]
    exact ⟨fun hj => File.endsIn_unique hj hend, fun hj => hj ▸ hend⟩
  exhausted := fun j hj => by
    refine decide_eq_false ?_
    rintro (heq | rfl)
    · exact absurd ((Nat.mul_le_mul_right _ hj).trans_lt hend.1) (heq ▸ lt_irrefl _)
    · exact absurd hk (not_lt_of_ge hj)

/-- If the file ends, both sides have returned when the exchange is over. -/
theorem Over.completed (h : Over bo f txList rxList s) {k : ℕ} (hend : f.EndsIn k)
    (hk : k < MAX_CHUNKS) : s.tx.Completed ∧ s.rx.Completed := by
  obtain ⟨s', hgoes, hover⟩ := h
  rcases hover with ⟨htx, hrx⟩ | ⟨hhalted, -⟩
  · refine ⟨hgoes.meets.tx.1.completed htx ?_, hgoes.meets.rx.1.completed hrx hgoes.rx⟩
    refine Bool.eq_false_iff.2 fun hhalted => ?_
    exact absurd (htx.symm.trans (hgoes.tx hhalted).1) (by decide)
  · -- There is a chunk left.
    obtain ⟨hdata, hwin, hex⟩ := hgoes.tx hhalted
    have hsome := hgoes.working.not_exhausted (ends_toSource hend hk) hdata hwin
    exact absurd hex (of_decide_eq_false hsome)

/-- The file ends if it was sent. -/
theorem Goes.endsIn (h : Goes bo f txList rxList s s')
    (hcomplete : f.toSource.complete s'.tx.sent) : ∃ k < MAX_CHUNKS, f.EndsIn k := by
  obtain ⟨k, hsent, hend⟩ := File.endsIn_of_complete hcomplete
  have hle := h.working.reached.sent_le (n := MAX_CHUNKS) (decide_eq_true (.inr rfl))
  exact ⟨k, by omega, hend⟩

/-- If the sender has returned, its file ends. -/
theorem Over.endsIn (h : Over bo f txList rxList s) (htx : s.tx.Completed) :
    ∃ k < MAX_CHUNKS, f.EndsIn k := by
  obtain ⟨s', hgoes, -⟩ := h
  exact hgoes.endsIn (hgoes.working.windows.finished (hgoes.meets.tx.1.finished htx)).2

/-- What is sent of a file that does not end: its whole chunks, up to `MAX_CHUNKS`. -/
theorem Goes.sent_eq (h : Goes bo f txList rxList s s') (hhalted : s'.tx.halted = true)
    (hnot : ¬∃ k < MAX_CHUNKS, f.EndsIn k) :
    s'.tx.sent = min (f.bytes.length / PAYLOAD) MAX_CHUNKS := by
  obtain ⟨-, -, hex⟩ := h.tx hhalted
  have hpos : 0 < PAYLOAD := by decide
  have hle := h.working.reached.sent_le (n := MAX_CHUNKS) (decide_eq_true (.inr rfl))
  rcases hex with hlen | hmax
  · rw [← hlen, Nat.mul_div_cancel _ hpos, min_eq_left hle]
  · -- The last of the chunks is whole.
    have hlast : MAX_CHUNKS - 1 < s'.tx.sent := by rw [hmax]; decide
    obtain ⟨d, -, hd⟩ := exists_of_forall₂ h.meets.toRx.sent (h.working.basic.data_mem_sent hlast)
    -- Otherwise the file would end in that chunk.
    have hlen : MAX_CHUNKS * PAYLOAD ≤ f.bytes.length := by
      by_contra hlt
      exact hnot ⟨MAX_CHUNKS - 1, by decide, hd.1.2.1, not_le.1 hlt⟩
    rw [hmax, min_eq_right ((Nat.le_div_iff_mul_le hpos).2 hlen)]

/-- If the file does not end, the sender has exited, and the receiver waits for the rest of a
    window. -/
theorem Over.stuck (h : Over bo f txList rxList s) (hnot : ¬∃ k < MAX_CHUNKS, f.EndsIn k) :
    s.tx.conf.error = some .exit ∧ s.rx.conf.Alive Process.returned ∧ s.rx.awaits = true ∧
      s.toRx.flight = [] ∧ s.rx.conf.state.sink = f.bytes.take
        (WIN_SIZ * (min (f.bytes.length / PAYLOAD) MAX_CHUNKS / WIN_SIZ) * PAYLOAD) := by
  obtain ⟨s', hgoes, hover⟩ := h
  have hw := hgoes.working.windows
  have hhalted : s'.tx.halted = true ∧ ¬s'.rx.Goes s'.toRx :=
    hover.resolve_left fun hfin => hnot (hgoes.endsIn (hw.finished hfin.1).2)
  obtain ⟨hawaits, hflight, hstored⟩ := (hgoes.working.stored_of_stuck (hgoes.tx hhalted.1).1
    hgoes.rx hhalted.2).resolve_left fun hfin =>
      hnot (hgoes.endsIn (hw.complete hgoes.working.basic hfin))
  have hrx := hgoes.meets.rx.1
  have hawaits' : s.rx.awaits = true := hrx.awaits_eq.trans hawaits
  refine ⟨hgoes.exit hhalted.1, ?_, hawaits', ?_, ?_⟩
  · rw [Site.awaits, Bool.and_eq_true] at hawaits'
    exact of_decide_eq_true hawaits'.1
  · have hlen := hgoes.meets.toRx.flight.length_eq
    rw [hflight] at hlen
    exact List.eq_nil_of_length_eq_zero hlen
  · have hsink := hrx.stored.follows.eq (hrx.stored.good fun _ henv => henv.succeeds.write)
    rw [hstored, f.flatMap_chunk, hgoes.sent_eq hhalted.1 hnot] at hsink
    exact hsink

/-- In order, a receiver that has returned has the file. -/
theorem sink_of_inOrder (h : Reachable bo Env.Stores Network.InOrder
      (fileSender f txStatics txList sink) (fileReceiver rxStatics rxList source fileSize) s)
    (hrx : s.rx.Completed) : s.rx.conf.state.sink = f.bytes := by
  obtain ⟨s', hs', hrel⟩ := simulated (fun _ _ h => h) Network.InOrder
    (fun _ _ he => he.unordered.arbitrary) (fun _ _ _ _ _ _ he => .inl he) h
  have hb := hs'.basic (fun _ _ he => he.unordered.arbitrary)
  have hw := Net.Reached.windows (hs'.mono fun _ _ => Network.InOrder.unordered)
  have ho := Net.Reached.ordered (hs'.mono fun _ _ => Network.InOrder.duplicating)
  obtain ⟨hall, hcomplete⟩ := ho.finished hw hb (hrel.rx.finished hrx)
  rw [sink_eq hrel, hall, File.flatMap_of_complete hcomplete]

/-- The same for a fair run in order. -/
theorem FairRun.sink_eq
    (h : FairRun bo txList rxList
      (fileExchange f txStatics rxStatics txList rxList sink source fileSize) sched)
    (hin : ∀ k, Network.InOrder
      (trace bo (fileExchange f txStatics rxStatics txList rxList sink source fileSize) sched k)
      (sched k).2) (n : ℕ)
    (hrx : (trace bo (fileExchange f txStatics rxStatics txList rxList sink source fileSize) sched
      n).rx.Completed) :
    (trace bo (fileExchange f txStatics rxStatics txList rxList sink source fileSize) sched
      n).rx.conf.state.sink = f.bytes := by
  have hrun : Network.IsRun (Site.machine bo) (Site.machine bo) (Env.Serves txList)
    (Env.Serves rxList) Network.InOrder _ sched := ⟨h.suits, hin⟩
  have hreach : Reachable bo Env.Stores Network.InOrder (fileSender f txStatics txList sink)
      (fileReceiver rxStatics rxList source fileSize) _ :=
    hrun.reachable (fun _ henv => henv.succeeds.write) (fun _ henv => henv.succeeds.write)
      (fun _ _ => ⟨id, id⟩) n
  exact sink_of_inOrder hreach hrx

/-- Nothing is lost, and the number of interfaces does not change: then in a fair exchange both
    sides return exactly if the file is neither empty nor a whole number of chunks, and has less
    than `MAX_CHUNKS` chunks. If the datagrams are delivered in order, the sink then holds the
    file. -/
theorem concludes_iff {s₀ : Exchange}
    (h₀ : s₀ = fileExchange f txStatics rxStatics txList rxList sink source fileSize)
    (htx : Advertisable txList) (hrx : Advertisable rxList)
    (h : FairRun bo txList rxList s₀ sched) :
    (∃ n, ∀ m ≥ n, (trace bo s₀ sched m).tx.Completed ∧ (trace bo s₀ sched m).rx.Completed ∧
        ((∀ k, Network.InOrder (trace bo s₀ sched k) (sched k).2) →
          (trace bo s₀ sched m).rx.conf.state.sink = f.bytes)) ↔
      ¬PAYLOAD ∣ f.bytes.length ∧ f.bytes.length < MAX_CHUNKS * PAYLOAD := by
  subst h₀
  obtain ⟨n, hover, hstays⟩ := eventually_over (goes_start bo f txList rxList) htx hrx h
  rw [← File.endsIn_iff]
  constructor
  · rintro ⟨m, hm⟩
    have hcompleted := (hm (max n m) (le_max_right n m)).1
    rw [hstays _ (le_max_left n m)] at hcompleted
    exact hover.endsIn hcompleted
  · rintro ⟨k, hk, hend⟩
    obtain ⟨htx', hrx'⟩ := hover.completed hend hk
    refine ⟨n, fun m hm => ?_⟩
    rw [hstays m hm]
    exact ⟨htx', hrx', fun hin => h.sink_eq hin n hrx'⟩

/-- Otherwise, with as many interfaces as before, the sender has exited in the end, and the
    receiver waits for ever for the rest of a window: its sink holds the whole windows. -/
theorem stuck_of_not_endsIn {s₀ : Exchange}
    (h₀ : s₀ = fileExchange f txStatics rxStatics txList rxList sink source fileSize)
    (htx : Advertisable txList) (hrx : Advertisable rxList)
    (h : FairRun bo txList rxList s₀ sched)
    (hf : PAYLOAD ∣ f.bytes.length ∨ MAX_CHUNKS * PAYLOAD ≤ f.bytes.length) :
    ∃ n, ∀ m ≥ n, (trace bo s₀ sched m).tx.conf.error = some .exit ∧
      (trace bo s₀ sched m).rx.conf.Alive Process.returned ∧
      (trace bo s₀ sched m).rx.awaits = true ∧ (trace bo s₀ sched m).toRx.flight = [] ∧
      (trace bo s₀ sched m).rx.conf.state.sink = f.bytes.take
        (WIN_SIZ * (min (f.bytes.length / PAYLOAD) MAX_CHUNKS / WIN_SIZ) * PAYLOAD) := by
  subst h₀
  obtain ⟨n, hover, hstays⟩ := eventually_over (goes_start bo f txList rxList) htx hrx h
  refine ⟨n, fun m hm => ?_⟩
  rw [hstays m hm]
  refine hover.stuck fun hend => ?_
  obtain ⟨hdvd, hlt⟩ := File.endsIn_iff.1 hend
  exact hf.elim hdvd fun hle => not_lt_of_ge hle hlt

/-! ### Taking turns -/

/-- The plain environment finds one interface. -/
theorem serves_plain : Env.Serves [SessionProcessor.private10] (Env.plain none [1, 1, 1]) :=
  ⟨Env.succeeds_plain _ _, by decide, by simp [Env.plain]⟩

/-- Taking turns is fair. -/
theorem fairRun_turns (s₀ : Exchange) :
    FairRun .little [SessionProcessor.private10] [SessionProcessor.private10] s₀ turns where
  suits := fun n => by
    rw [turns]
    split_ifs
    exacts [serves_plain, serves_plain]
  may := fun n => by
    rw [turns]
    split_ifs
    exacts [⟨0, rfl, .inl rfl⟩, ⟨0, rfl, .inl rfl⟩]
  tx := fun n => ⟨2 * n + 1, by omega, .flight 0, if_neg (by omega)⟩
  rx := fun n => ⟨2 * n, by omega, .flight 0, if_pos (by omega)⟩

/-- One byte gets to the receiver. -/
theorem concludes_oneByte : ∃ n, ∀ m ≥ n,
    (trace .little (start oneByteSender oneByteReceiver) turns m).tx.Completed ∧
      (trace .little (start oneByteSender oneByteReceiver) turns m).rx.Completed ∧
      (trace .little (start oneByteSender oneByteReceiver) turns m).rx.conf.state.sink = [7] := by
  have hstart : start oneByteSender oneByteReceiver =
      fileExchange oneByteFile {} {} [SessionProcessor.private10] [SessionProcessor.private10]
        { fmode := .OUT, fs := {} } { fmode := .IN, fs := {} } 0 := rfl
  obtain ⟨n, hn⟩ := (concludes_iff hstart advertisable_private10 advertisable_private10
    (fairRun_turns (start oneByteSender oneByteReceiver))).2 ⟨by decide, by decide⟩
  exact ⟨n, fun m hm => ⟨(hn m hm).1, (hn m hm).2.1, (hn m hm).2.2 fun k => inOrder_turns _ k⟩⟩

/-- A file of six whole chunks. -/
def wholeChunks : File := ⟨List.replicate (6 * PAYLOAD) 0, by rw [List.length_replicate]; decide⟩

/-- Its length is that of its chunks. -/
theorem length_wholeChunks : wholeChunks.bytes.length = 6 * PAYLOAD := List.length_replicate

/-- The exchange of this file, at its start. -/
def wholeExchange : Exchange :=
  fileExchange wholeChunks {} {} [SessionProcessor.private10] [SessionProcessor.private10]
    { fmode := .OUT, fs := {} } { fmode := .IN, fs := {} } 0

/-- A receiver stores the first window of six whole chunks, and waits for ever for the rest of the
    second one. -/
theorem stuck_wholeChunks : ∃ n, ∀ m ≥ n,
    (trace .little wholeExchange turns m).tx.conf.error = some .exit ∧
      (trace .little wholeExchange turns m).rx.conf.Alive Process.returned ∧
      (trace .little wholeExchange turns m).rx.awaits = true ∧
      (trace .little wholeExchange turns m).toRx.flight = [] ∧
      (trace .little wholeExchange turns m).rx.conf.state.sink =
        List.replicate (5 * PAYLOAD) 0 := by
  obtain ⟨n, hn⟩ := stuck_of_not_endsIn (f := wholeChunks) rfl advertisable_private10
    advertisable_private10 (fairRun_turns wholeExchange)
    (.inl ⟨6, length_wholeChunks.trans (Nat.mul_comm _ _)⟩)
  refine ⟨n, fun m hm => ?_⟩
  obtain ⟨hexit, halive, hawaits, hflight, hsink⟩ := hn m hm
  refine ⟨hexit, halive, hawaits, hflight, hsink.trans ?_⟩
  have hdiv : 6 * PAYLOAD / PAYLOAD = 6 := Nat.mul_div_cancel 6 (by decide)
  have hmin : min 6 MAX_CHUNKS = 6 := by decide
  have hwindows : WIN_SIZ * (6 / WIN_SIZ) * PAYLOAD = 5 * PAYLOAD := rfl
  have hle : min (5 * PAYLOAD) (6 * PAYLOAD) = 5 * PAYLOAD := by decide
  rw [length_wholeChunks, hdiv, hmin, hwindows, wholeChunks, List.take_replicate, hle]

end Exchange

end Udm
