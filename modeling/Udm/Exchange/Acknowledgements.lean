import Udm.Exchange

/-!
# Acknowledgements

What the receiver makes of its windows, and what the sender reads in its acknowledgements:

* `Site.windows`: whether a window contained the end of the file, as `doneState` computes it;
* `Site.decoded`: whether the sender decoded the flag `FIN` from an acknowledgement;
* `length_sent`: apart from the handshake, the receiver sends at most one datagram for each
  window, and none with a flag (`Flagless`);
* `length_decoded`: the sender takes for acknowledgements what it receives after the handshake;
* `windows_eq_false`: a receiver that goes on has processed no window with the end of the file.

Both lists are read off the steps that a site remembers, so they have an entry for each step in
the state `done`. The counts are invariants of a site on its own (`Exchange.Reachable.site_tx`,
`Exchange.Reachable.site_rx`), whatever the other one does: in the handshake each state of a
session has sent or received a certain number of datagrams (`exchanged`), and after it the
receiver sends in the state `done` only.
-/

namespace Udm

open Session

/-- For each window the receiver processed, whether `rxFactory->fin` was set. -/
def Site.windows (t : Site) : List Bool :=
  t.past.filterMap fun s => if s.1.session.next = .done then some s.1.rxFactory.fin else none

/-- A step counts as a window if it was in the state `done`. -/
theorem Site.length_windows (t : Site) (c : Party) (env : Env) :
    (Site.windows { conf := c, past := t.past ++ [(t.conf.state, env)] }).length =
      t.windows.length + if t.conf.state.session.next = .done then 1 else 0 := by
  rw [Site.windows, List.filterMap_append, List.length_append, Site.windows]
  by_cases hdone : t.conf.state.session.next = .done <;> simp [hdone]

/-- For each datagram the sender took for an acknowledgement, whether it decoded the
    flag `FIN` from it. -/
def Site.decoded (bo : ByteOrder) (t : Site) : List Bool :=
  t.past.filterMap fun s => if s.1.session.next = .done
    then s.2.datagram.map fun d => (Gateway.pulled bo s.2 s.1 d).data.header.isFin else none

/-- A step in the state `done` takes an acknowledgement. -/
theorem Site.decoded_append (bo : ByteOrder) (t : Site) (c : Party) (env : Env) :
    Site.decoded bo { conf := c, past := t.past ++ [(t.conf.state, env)] } =
      t.decoded bo ++ (if t.conf.state.session.next = .done then env.datagram.toList.map fun d =>
        (Gateway.pulled bo env t.conf.state d).data.header.isFin else []) := by
  rw [Site.decoded, List.filterMap_append, Site.decoded]
  by_cases hdone : t.conf.state.session.next = .done
  · cases hd : env.datagram <;> simp [hdone, hd]
  · simp [hdone]

namespace Exchange

/-- A datagram whose header has no flags. -/
def Flagless (bo : ByteOrder) (d : List Byte) : Prop :=
  HEADER_SPACE ≤ d.length ∧ (CapsuleHdr.decode bo (d.take HEADER_SPACE)).capFlags = 0

variable {bo : ByteOrder} {env : Env} {p tx rx : Process} {ok : Env → Prop}
  {may : Exchange → Event → Prop} {s : Exchange}

/-- A capsule without flags is sent without flags. -/
theorem flagless_wire {cap : Capsule} (h : cap.header.capFlags = 0) : Flagless bo (cap.wire bo) := by
  refine ⟨by simp, ?_⟩
  rw [Capsule.wire, List.take_left' (cap.header.length_encode bo), CapsuleHdr.decode_encode, h]

/-- No flag is decoded from a datagram without flags. -/
theorem not_isFin_pulled (hp : p.rxFactory.chunkSize = CHUNK) {d : List Byte} (hd : Flagless bo d) :
    (Gateway.pulled bo env p d).data.header.isFin = false := by
  -- The header is in the part of the datagram that is received.
  have htake : (d.take p.rxFactory.chunkSize).take HEADER_SPACE = d.take HEADER_SPACE := by
    rw [List.take_take, hp]
    rfl
  have hlen : HEADER_SPACE ≤ (d.take p.rxFactory.chunkSize).length := by
    rw [List.length_take, hp]
    exact le_min (by decide) hd.1
  have hheader : (Gateway.pulled bo env p d).data.header = .decode bo (d.take HEADER_SPACE) := by
    simp only [Gateway.pulled, Gateway.recvInto, Capsule.stripHeader]
    rw [Block.load_store_of_le _ hlen, htake]
  simp [CapsuleHdr.isFin, hheader, hd.2]

/-- The states in which the receiver sends. -/
def answers : StateCodes → Bool
  | .open | .connected | .done => true
  | _ => false

/-- What a step of the receiver sends: at most one capsule, without flags, in the
    handshake and for a window. -/
theorem out_rx {c : Party} (h : Transition bo env p c) (hio : p.io.sent = [])
    (hdir : p.session.dir = .RX) :
    c.state.out = [] ∨ (c.error = none ∧ answers p.session.next ∧
      ∃ d, c.state.out = [d] ∧ Flagless bo d) := by
  have hsend (q : Process) (hq : q.io.sent = []) (d : List Byte) :
      (q.send env d).out = [] ∨ (q.send env d).out = [d] := by
    cases hs : env.sendto <;> simp [Process.out, hs, hq]
  cases h with
  | receiveHello hdir' | sendHi hdir' | receiveAck hdir' | sendData hdir' | receiveOk hdir' =>
    simp [hdir] at hdir'
  | halt _ _ _ _ hio' => exact .inl (by simp [Process.out, hio', hio])
  | sendHello _ hnext =>
    refine (hsend ((newConnection p).prepare env) hio ((hello env p).wire bo)).imp_right fun hd => ?_
    exact ⟨rfl, by simp [hnext, answers], _, hd, flagless_wire rfl⟩
  | sendAck _ hnext =>
    refine (hsend ((newId p).prepare env) hio ((ack env p).wire bo)).imp_right fun hd => ?_
    exact ⟨rfl, by simp [hnext, answers], _, hd, flagless_wire rfl⟩
  | sendOk _ hnext =>
    have hsent : (written env p).io.sent = [] := by rw [sent_written, hio]
    refine (hsend ((written env p).release.prepare env) hsent
      ((ok env (written env p)).wire bo)).imp_right fun hd => ?_
    exact ⟨rfl, by simp [hnext, answers], _, hd, flagless_wire rfl⟩
  | windowOver => exact .inl (by simp [Process.out, hio])
  | receiveHi | receiveNothing | receiveData | danglingLast =>
    exact .inl (by simp [Process.out, setUp, hio])
  | noAddressOk => exact .inl (by simp [Process.out, hio])
  | danglingWindow _ _ bs =>
    exact .inl (by simp [Process.out, (PresentationProcessor.sameButSink_writes bs).sent, hio])

/-- How many datagrams of the handshake a side has sent, or received, in a state of
    its session. -/
def exchanged : StateCodes → ℕ
  | .open => 0
  | .setup | .connected => 1
  | _ => 2

/-- A session that goes on after a window is back in the state `closed`. -/
theorem next_endWindow {q : Process} {fin : Bool} (h : (q.endWindow fin).returned = false) :
    (q.endWindow fin).session.next = .closed := by
  cases fin with
  | false => rfl
  | true => exact absurd h (by simp [Process.returned])

/-- A step of the receiver that sends in the handshake is a step of the handshake. -/
theorem exchanged_rx {c : Party} (h : Transition bo env p c) (hdir : p.session.dir = .RX)
    (hc : c.Alive Process.returned) :
    exchanged p.session.next + (if answers p.session.next then 1 else 0) ≤
      exchanged c.state.session.next + (if p.session.next = .done then 1 else 0) := by
  cases h with
  | halt | danglingLast | noAddressOk | danglingWindow => simp [Conf.Alive] at hc
  | receiveHello hdir' | sendHi hdir' | receiveAck hdir' | sendData hdir' | receiveOk hdir' =>
    simp [hdir] at hdir'
  | sendHello _ hnext => simp [hnext, answers, exchanged, sentHello]
  | receiveHi _ hnext => simp [hnext, answers, exchanged, setUp]
  | sendAck _ hnext => simp [hnext, answers, exchanged, sentAck]
  | windowOver hnext | receiveNothing _ hnext | receiveData _ hnext =>
    simp [hnext, answers, exchanged]
  | sendOk _ hnext =>
    have hclosed : (sentOk bo env p).session.next = .closed := next_endWindow hc.2
    simp [hnext, answers, exchanged, hclosed]

/-- Apart from the handshake, the receiver sends at most one datagram for each
    window, and none with a flag. -/
theorem length_sent (hrx : Session.Steady rx) (hdir : rx.session.dir = .RX)
    (h : Reachable bo ok may tx rx s) :
    (∀ d ∈ s.toTx.sent, Flagless bo d) ∧ s.toTx.sent.length ≤ s.rx.windows.length + 2 := by
  have key := h.site_rx (P := fun t _ es => (∀ d ∈ es, Flagless bo d) ∧
    es.length ≤ t.windows.length + 2 ∧
    (t.conf.Alive Process.returned →
      es.length ≤ t.windows.length + exchanged t.conf.state.session.next))
    hrx hdir ⟨by simp, by simp, by simp⟩ ?_
  · exact ⟨key.1, key.2.1⟩
  intro env t ds es halive _ hdir ⟨hflag, _, hlen⟩ _ c htr
  have hlen := hlen halive
  have hsent := out_rx htr rfl hdir
  have hgo := exchanged_rx htr hdir
  -- A step in the handshake that sends is not a window, and a window comes after the handshake.
  have hnext : exchanged t.conf.state.session.next + (if answers t.conf.state.session.next then 1 else 0) ≤
      2 + (if t.conf.state.session.next = .done then 1 else 0) := by
    cases t.conf.state.session.next <;> decide
  simp only [Process.clear_session] at hsent hgo
  rw [Site.length_windows]
  rcases hsent with hnil | ⟨-, hans, d, hd, hfl⟩
  · rw [hnil, List.append_nil]
    refine ⟨hflag, by omega, fun hc => ?_⟩
    have := hgo hc
    show _ ≤ _ + exchanged c.state.session.next
    omega
  · rw [if_pos hans] at hnext hgo
    rw [hd, List.length_append, List.length_singleton]
    refine ⟨?_, by omega, fun hc => ?_⟩
    · rw [List.forall_mem_append]
      exact ⟨hflag, by simpa using hfl⟩
    · have := hgo hc
      show _ ≤ _ + exchanged c.state.session.next
      omega

/-- A receiver that goes on after a window has not seen the end of the file. -/
theorem fin_eq_false_of_alive {c : Party} (h : Transition bo env p.clear c)
    (hdir : p.session.dir = .RX) (hnext : p.session.next = .done)
    (hc : c.Alive Process.returned) : p.rxFactory.fin = false := by
  cases h with
  | halt | danglingLast | noAddressOk | danglingWindow => simp [Conf.Alive] at hc
  | receiveHello hdir' | sendHi hdir' | receiveAck hdir' | sendData hdir' | receiveOk hdir' =>
    simp [hdir] at hdir'
  | sendHello _ hnext' | receiveHi _ hnext' | sendAck _ hnext' | windowOver hnext'
  | receiveNothing _ hnext' | receiveData _ hnext' =>
    simp [hnext] at hnext'
  | sendOk =>
    cases hfin : p.rxFactory.fin with
    | false => rfl
    | true =>
      have hreturned : (sentOk bo env p.clear).returned = true := by
        simp [sentOk, Process.returned, hfin]
      exact absurd hc.2 (by simp [hreturned])

/-- A window with the end of the file is the last one: the receiver returns after it. -/
theorem windows_eq_false (hrx : Session.Steady rx) (hdir : rx.session.dir = .RX)
    (h : Reachable bo ok may tx rx s) (halive : s.rx.conf.Alive Process.returned) :
    ∀ fin ∈ s.rx.windows, fin = false := by
  refine h.site_rx
    (P := fun t _ _ => t.conf.Alive Process.returned → ∀ fin ∈ t.windows, fin = false)
    hrx hdir (by simp [Site.windows]) ?_ halive
  intro env t ds es ht _ hdir ih _ c htr hc fin hfin
  rw [Site.windows, List.filterMap_append, List.mem_append] at hfin
  rcases hfin with hfin | hfin
  · exact ih ht fin hfin
  by_cases hdone : t.conf.state.session.next = .done
  · obtain rfl : fin = t.conf.state.rxFactory.fin := by simpa [hdone] using hfin
    exact fin_eq_false_of_alive htr hdir hdone hc
  · simp [hdone] at hfin

/-- A datagram the sender waits for is one of the handshake, or is taken for an
    acknowledgement. -/
theorem exchanged_tx {c : Party} (h : Transition bo env p c) (hdir : p.session.dir = .TX)
    (hc : c.Alive Process.returned) :
    exchanged p.session.next ≤ exchanged c.state.session.next ∧
    exchanged c.state.session.next + (if p.session.next = .done then 1 else 0) ≤
      exchanged p.session.next + env.datagram.toList.length := by
  cases h with
  | halt | danglingLast | noAddressOk | danglingWindow => simp [Conf.Alive] at hc
  | sendHello hdir' | receiveHi hdir' | sendAck hdir' | receiveNothing hdir' | receiveData hdir'
  | sendOk hdir' => simp [hdir] at hdir'
  | receiveHello _ hnext d hd => simp [hnext, hd, exchanged, opened]
  | sendHi _ hnext => simp [hnext, exchanged, sentHi]
  | receiveAck _ hnext d hd => simp [hnext, hd, exchanged, connected]
  | windowOver hnext => simp [hnext, exchanged]
  | sendData _ hnext _ b =>
    have hnext' : (sentData bo env b p).session.next = p.session.next := rfl
    simp [hnext', hnext, exchanged]
  | receiveOk _ hnext d hd =>
    have hclosed := next_endWindow hc.2
    dsimp only
    rw [hclosed, hnext, hd]
    simp [exchanged]

/-- The sender takes for acknowledgements what it receives after the handshake. -/
theorem length_decoded (htx : Session.Steady tx) (hdir : tx.session.dir = .TX)
    (hnext : tx.session.next = .open) (h : Reachable bo ok may tx rx s) :
    s.tx.decoded bo = [] ∨ (s.tx.decoded bo).length + 2 ≤ s.toTx.delivered.length := by
  have key := h.site_tx (P := fun t ds _ =>
    (t.decoded bo = [] ∨ (t.decoded bo).length + 2 ≤ ds.length) ∧
    (t.conf.Alive Process.returned →
      (t.decoded bo).length + exchanged t.conf.state.session.next ≤ ds.length ∧
      (exchanged t.conf.state.session.next < 2 → t.decoded bo = [])))
    htx hdir ⟨.inl rfl, fun _ => ⟨by simp [hnext, exchanged, Site.decoded], fun _ => rfl⟩⟩ ?_
  · exact key.1
  intro env t ds es halive _ hdir ⟨hall, hlen⟩ _ c htr
  obtain ⟨hlen, hnil⟩ := hlen halive
  have hgo := exchanged_tx htr hdir
  simp only [Process.clear_session] at hgo
  rw [Site.decoded_append, List.length_append, List.length_append]
  by_cases hdone : t.conf.state.session.next = .done
  · -- In the state `done` the handshake is over, so its two datagrams were delivered before.
    have htwo : exchanged StateCodes.done = 2 := rfl
    have hone : env.datagram.toList.length ≤ 1 := by cases env.datagram <;> simp
    simp only [hdone, if_true, List.length_map, htwo] at hgo hlen ⊢
    refine ⟨?_, fun hc => ⟨?_, fun hlt => ?_⟩⟩
    · rcases hd : env.datagram with - | d
      · simpa [hd] using hall
      · right
        simp only [Option.toList_some, List.length_singleton]
        omega
    · have := (hgo hc).2
      omega
    · have := (hgo hc).1
      omega
  · simp only [if_neg hdone, List.length_nil, Nat.add_zero, List.append_nil] at hgo ⊢
    refine ⟨hall.imp_right fun hle => hle.trans (Nat.le_add_right _ _), fun hc => ⟨?_, fun hlt => ?_⟩⟩
    · have := (hgo hc).2
      show _ + exchanged c.state.session.next ≤ _
      omega
    · exact hnil (lt_of_le_of_lt (hgo hc).1 hlt)

/-- No flag is decoded from the datagrams of a receiver. -/
theorem decoded_eq_false (htx : Session.Steady tx) (hdir : tx.session.dir = .TX)
    (h : Reachable bo ok may tx rx s) (hds : ∀ d ∈ s.toTx.delivered, Flagless bo d) :
    ∀ b ∈ s.tx.decoded bo, b = false := by
  refine h.site_tx (P := fun t ds _ => (∀ d ∈ ds, Flagless bo d) → ∀ b ∈ t.decoded bo, b = false)
    htx hdir (by simp [Site.decoded]) ?_ hds
  intro env t ds es _ hst _ ih _ c _ hds b hb
  rw [List.forall_mem_append] at hds
  rw [Site.decoded_append, List.mem_append] at hb
  rcases hb with hb | hb
  · exact ih hds.1 b hb
  split at hb
  · obtain ⟨d, hd, rfl⟩ := List.mem_map.1 hb
    exact not_isFin_pulled hst.chunkSize (hds.2 d hd)
  · simp at hb

end Exchange

end Udm
