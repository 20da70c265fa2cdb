import Udm.Session.Reception
import Udm.Session.Storage

/-!
# Buffers and queues

Who owns the buffers of a session. The sending queue is empty between two steps,
except that the receiver leaves the buffer of every acknowledgement in it
(`txQueue_iff`). The receiving queue holds exactly the buffers the window points
to if and only if nothing but new payload capsules arrives after the handshake,
and none of them in it (`owned_iff`): a control capsule and a capsule that is
replaced in the window stay in the queue, and a payload capsule taken out of the
queue in the handshake stays in the window.
-/

namespace Udm

/-- Reading the source pushes at most one buffer. -/
theorem DataFactory.buffer_updateDataSource (fac : DataFactory) (heap : Block Byte) :
    (fac.updateDataSource heap).buffer = fac.buffer ∨
      ∃ b, (fac.updateDataSource heap).buffer = fac.buffer ++ [b] := by
  rw [updateDataSource, inputFromSource]
  split
  · exact .inl rfl
  · split_ifs
    · exact .inl rfl
    · dsimp only
      split_ifs <;> exact .inr ⟨_, rfl⟩

namespace Session

variable {bo : ByteOrder} {env : Env} {p : Process}

/-! ## The sending queue -/

/-- Starting from an empty sending queue, a step leaves it empty, unless it is the
    acknowledgement of a window by the receiver. -/
theorem Transition.buffer_eq_nil_iff {c : Party} (h : Transition bo env p c)
    (hb : p.txFactory.buffer = []) (hc : c.error = none) :
    c.state.txFactory.buffer = [] ↔ ¬(p.session.dir = .RX ∧ p.session.next = .done) := by
  have hpop (q : Process) (d : List Byte) (hq : q.txFactory.buffer = []) :
      (q.sendControl env d).txFactory.buffer = [] := by
    simp [Process.sendControl, hq]
  cases h with
  | halt | danglingLast | noAddressOk | danglingWindow => simp at hc
  | sendHello _ hnext => simp [hnext, show (sentHello bo env p).txFactory.buffer = [] from
      hpop (newConnection p) _ hb]
  | receiveHello hdir _ d =>
    have : (opened bo env d p).txFactory.buffer = p.txFactory.buffer := rfl
    simp [hdir, this, hb]
  | sendHi hdir => simp [hdir, show (sentHi bo env p).txFactory.buffer = [] from hpop p _ hb]
  | receiveHi _ hnext => simp [hnext, setUp, hb]
  | sendAck _ hnext => simp [hnext, show (sentAck bo env p).txFactory.buffer = [] from
      hpop (newId p) _ hb]
  | receiveAck hdir => simp [hdir, connected, hb]
  | windowOver hnext => simp [hnext, hb]
  | sendData hdir hnext _ b =>
    -- The chunk that was read is the one that is sent.
    have : (sentData bo env b p).txFactory.buffer =
      (p.txFactory.updateDataSource env.heap).buffer.tail := rfl
    rcases p.txFactory.buffer_updateDataSource env.heap with h | ⟨b, h⟩ <;>
      simp [hdir, this, h, hb]
  | receiveNothing _ hnext | receiveData _ hnext => simp [hnext, hb]
  | receiveOk hdir => simp [hdir, hb]
  | sendOk hdir hnext =>
    have : (sentOk bo env p).txFactory.buffer = (written env p).txFactory.buffer ++ [_] := rfl
    simp [hdir, hnext, this]

/-- In a run, the sending queue is empty between two steps if and only if no window
    is acknowledged in it. So it always is in a run of the sender. -/
theorem txQueue_iff (dir : StateDirection) (statics : Statics) (addressList : List IpaddrDummy)
    (source sink : DataSource) (env : ℕ → Env) :
    let p := Process.init dir statics addressList source sink
    (∀ n, (run bo p env n).error = none → (run bo p env n).state.txFactory.buffer = []) ↔
    ∀ n, (run bo p env n).Alive Process.returned → (run bo p env (n + 1)).error = none →
      ¬(dir = .RX ∧ (run bo p env n).state.session.next = .done) := by
  intro p
  have hdir n (hn : (run bo p env n).error = none) :=
    (steady_run bo dir statics addressList source sink env n hn).2
  have hstep n (hn : (run bo p env n).Alive Process.returned)
      (hb : (run bo p env n).state.txFactory.buffer = []) (hc : (run bo p env (n + 1)).error = none) :=
    (transition_run bo dir statics addressList source sink env n hn).buffer_eq_nil_iff hb hc
  constructor
  · intro h n hn hc hdone
    refine (hstep n hn (h n hn.1) hc).1 (h (n + 1) hc) ?_
    exact ⟨(hdir n hn.1).trans hdone.1, hdone.2⟩
  · intro h n hn
    refine Conf.runs_induction (I := fun _ (q : Process) => q.txFactory.buffer = []) rfl ?_
      (fun _ _ _ hb => hb) n hn
    intro m hm hb
    refine Conf.wp_iff_exec.2 ⟨fun hc => ?_, fun _ _ => trivial⟩
    have hc' : (run bo p env (m + 1)).error = none := by rw [run_succ bo hm]; exact hc
    have := (hstep m hm hb hc').2 fun hdone => h m hm hc' ⟨(hdir m hm.1).symm.trans hdone.1, hdone.2⟩
    rwa [run_succ bo hm] at this

/-- A sender at `"10.0.0.1"` sends a file of one byte. -/
def oneWindow : ℕ → Env
  | 1 => .plain (some (CapsuleHdr.encode .little { capSize := 15 } ++
      SessionProcessor.private10.data)) []
  | 3 => .plain (some (CapsuleHdr.encode .little
      { capSize := 1, capType := CapsuleType.PAYLD.code, capFlags := Flags.FIN.code } ++ [7])) []
  | _ => .plain none [0, 0]

/-- The receiver has acknowledged its window: the buffer stays in the queue. -/
theorem not_txQueue_oneWindow :
    ¬∀ n, (run .little newReceiver oneWindow n).error = none →
      (run .little newReceiver oneWindow n).state.txFactory.buffer = [] := by
  intro h
  have hlen : (run .little newReceiver oneWindow 6).state.txFactory.buffer.length = 1 := by
    decide +kernel
  rw [h 6 (by decide +kernel)] at hlen
  simp at hlen

/-! ## The receiving queue -/

/-- The window points to buffers in the receiving queue, under their capsule ids,
    and the queue holds no others. -/
structure Owned (p : Process) : Prop where
  /-- Every entry of the window points into the queue, under the id of its buffer. -/
  held : Held p
  /-- Every buffer of the queue is in the window. -/
  kept : ∀ b ∈ p.rxFactory.buffer, ∃ k, (k, b) ∈ p.rxcurrentWindow

/-- The buffers in the receiving queue were allocated at different addresses. -/
structure Numbered (p : Process) : Prop where
  /-- The next address is behind all of theirs. -/
  allocated : ∀ b ∈ p.rxFactory.buffer, b.addr < p.rxFactory.allocated
  /-- No two of them have the same address. -/
  nodup : (p.rxFactory.buffer.map MemBuff.addr).Nodup

/-- Taking buffers out of the queue keeps the addresses apart. -/
theorem Numbered.of_eq {q : Process} (h : Numbered p)
    (hb : q.rxFactory.buffer.Sublist p.rxFactory.buffer)
    (ha : q.rxFactory.allocated = p.rxFactory.allocated) : Numbered q :=
  ⟨fun b hb' => ha ▸ h.allocated b (hb.subset hb'), h.nodup.sublist (hb.map _)⟩

/-- A buffer that was pulled is a new one. -/
theorem Numbered.pulled_notMem (h : Numbered p) (d : List Byte) :
    Gateway.pulled bo env p d ∉ p.rxFactory.buffer :=
  fun hmem => (h.allocated _ hmem).ne rfl

/-- A datagram is put into a buffer of its own. -/
theorem Numbered.received (h : Numbered p) (d : List Byte) : Numbered (received bo env p d) := by
  constructor
  · intro b hb
    rw [rxFactory_received] at hb ⊢
    rcases List.mem_append.1 hb with hb | hb
    · exact (h.allocated b hb).trans (Nat.lt_succ_self _)
    · rw [List.mem_singleton.1 hb]
      exact Nat.lt_succ_self _
  · rw [rxFactory_received]
    show ((p.rxFactory.buffer ++ [_]).map MemBuff.addr).Nodup
    rw [List.map_append, List.nodup_append]
    refine ⟨h.nodup, List.nodup_singleton _, ?_⟩
    simp only [List.mem_map, List.map_cons, List.map_nil, List.mem_singleton]
    rintro _ ⟨b, hb, rfl⟩ _ rfl
    exact (h.allocated b hb).ne

/-- Every step allocates its buffers at new addresses. -/
theorem Transition.numbered {c : Party} (h : Transition bo env p c) (hdir : p.session.dir = .RX)
    (hp : Numbered p) (hc : c.error = none) : Numbered c.state := by
  cases h with
  | halt | danglingLast | noAddressOk | danglingWindow => simp at hc
  | receiveHello hdir' | sendHi hdir' | receiveAck hdir' | sendData hdir' | receiveOk hdir' =>
    simp [hdir] at hdir'
  | sendHello | sendAck | windowOver => exact hp.of_eq (List.Sublist.refl _) rfl
  | receiveHi _ _ d => exact (hp.received d).of_eq (List.tail_sublist _) rfl
  | receiveNothing _ _ _ d | receiveData _ _ _ d =>
    exact (@Numbered.received bo env p hp d).of_eq (List.Sublist.refl _) rfl
  | sendOk =>
    have hbuffer : (sentOk bo env p).rxFactory.buffer =
        (written env p).rxFactory.buffer.drop (written env p).rxcurrentWindow.size := rfl
    have hallocated : (sentOk bo env p).rxFactory.allocated = p.rxFactory.allocated :=
      (sameButSink_written env p).allocated
    refine hp.of_eq ?_ hallocated
    rw [hbuffer, buffer_written]
    exact List.drop_sublist _ _

/-- The queue has as many buffers as the window has entries. -/
theorem Owned.length_buffer (h : Owned p) (hn : Numbered p) :
    p.rxFactory.buffer.length = p.rxcurrentWindow.size := by
  have hnodup : (window p).Nodup := by
    refine List.pairwise_map.2 (p.rxcurrentWindow.ordered.imp_of_mem ?_)
    intro e e' he he' hlt heq
    rw [(h.held e he).2, (h.held e' he').2, heq] at hlt
    exact hlt.false
  have hmem : ∀ b, b ∈ p.rxFactory.buffer ↔ b ∈ window p := by
    intro b
    constructor
    · intro hb
      obtain ⟨k, hk⟩ := h.kept b hb
      exact List.mem_map.2 ⟨(k, b), hk, rfl⟩
    · intro hb
      obtain ⟨e, he, rfl⟩ := List.mem_map.1 hb
      exact (h.held e he).1
  have hperm := (List.perm_ext_iff_of_nodup hn.nodup.of_map hnodup).2 hmem
  rw [hperm.length_eq, window, List.length_map, OrdMap.size]

/-- The datagram the process pulls is not a payload capsule in the handshake, and
    after it is one the window does not have yet. -/
def Fresh (bo : ByteOrder) (p : Process) (env : Env) : Prop :=
  pulls p → ∀ d, env.datagram = some d →
    let header := (Gateway.pulled bo env p d).data.header
    if p.session.next = .setup then header.isPayld = false
    else header.isPayld = true ∧ header.capid ∉ p.rxcurrentWindow.keys

/-- A datagram received in the handshake leaves nothing behind exactly if it is not
    a payload capsule. -/
theorem owned_setUp_iff {d : List Byte} (h : Owned p) (hb : p.rxFactory.buffer = []) :
    Owned (setUp bo env d p) ↔ (Gateway.pulled bo env p d).data.header.isPayld = false := by
  have hwin : (setUp bo env d p).rxcurrentWindow = (received bo env p d).rxcurrentWindow := rfl
  have hqueue : (setUp bo env d p).rxFactory.buffer = [] := by simp [setUp, hb]
  have hempty : p.rxcurrentWindow = ∅ := by
    refine OrdMap.ext_mem fun e => ⟨fun he => ?_, fun he => absurd he (OrdMap.not_mem_empty e)⟩
    have := (h.held e he).1
    simp [hb] at this
  constructor
  · intro hown
    by_contra hpayld
    have hmem : ((Gateway.pulled bo env p d).data.header.capid, Gateway.pulled bo env p d) ∈
        (setUp bo env d p).rxcurrentWindow := by
      rw [hwin, rxcurrentWindow_received, if_pos (by simpa using hpayld)]
      exact OrdMap.mem_insert.2 (.inl rfl)
    have := (hown.held _ hmem).1
    simp [hqueue] at this
  · intro hpayld
    refine ⟨held_empty ?_, by simp [hqueue]⟩
    rw [hwin, rxcurrentWindow_received, if_neg (by simp [hpayld]), hempty]

/-- A datagram received after the handshake is kept and nothing is replaced by it
    exactly if it is a payload capsule with a new id. -/
theorem owned_arrived_iff {d : List Byte} (h : Owned p) (hn : Numbered p) :
    Owned (arrived bo env d p) ↔
      (Gateway.pulled bo env p d).data.header.isPayld = true ∧
      (Gateway.pulled bo env p d).data.header.capid ∉ p.rxcurrentWindow.keys := by
  have hnew := @Numbered.pulled_notMem bo env p hn d
  constructor
  · intro hown
    obtain ⟨k, hk⟩ := hown.kept (Gateway.pulled bo env p d) (by simp)
    rw [rxcurrentWindow_arrived, rxcurrentWindow_received] at hk
    split_ifs at hk with hpayld
    · refine ⟨hpayld, fun hkey => ?_⟩
      obtain ⟨b, hb⟩ := OrdMap.mem_keys.1 hkey
      obtain ⟨hqueue, hcapid⟩ := h.held _ hb
      -- The buffer that was replaced is still in the queue.
      obtain ⟨l, hl⟩ := hown.kept b (by simpa using .inl hqueue)
      rw [rxcurrentWindow_arrived, rxcurrentWindow_received, if_pos hpayld] at hl
      rcases OrdMap.mem_insert.1 hl with heq | ⟨hl, hne⟩
      · have heq : b = Gateway.pulled bo env p d := (Prod.ext_iff.1 heq).2
        exact hnew (heq ▸ hqueue)
      · exact hne ((h.held _ hl).2.trans hcapid.symm)
    · exact absurd (h.held _ hk).1 hnew
  · rintro ⟨hpayld, hkey⟩
    constructor
    · intro e he
      have := @Held.received bo env p d h.held e (by simpa using he)
      simpa using this
    · intro b hb
      rw [buffer_arrived] at hb
      rw [rxcurrentWindow_arrived, rxcurrentWindow_received, if_pos hpayld]
      rcases List.mem_append.1 hb with hb | hb
      · obtain ⟨k, hk⟩ := h.kept b hb
        refine ⟨k, OrdMap.mem_insert.2 (.inr ⟨hk, fun heq => hkey ?_⟩)⟩
        exact OrdMap.mem_keys.2 ⟨b, heq ▸ hk⟩
      · rw [List.mem_singleton.1 hb]
        exact ⟨_, OrdMap.mem_insert.2 (.inl rfl)⟩

/-- In the handshake, a receiver takes any datagram for the one with the addresses. -/
theorem exec_setUp (hp : Steady p) (hdir : p.session.dir = .RX) (hnext : p.session.next = .setup)
    {d : List Byte} (hd : env.datagram = some d) :
    Conf.exec (step bo) env p = { state := setUp bo env d p.clear } := by
  refine Conf.exec_of_wp (C := fun c => c = { state := setUp bo env d p.clear }) ?_
  have hb : p.clear.rxFactory.buffer = [] := hp.queue (by rw [holdsData, hdir, hnext])
  rw [wp_step, hnext, hdir]
  exact (wp_setupState_rx bo env hd hb).2 rfl

/-- A datagram does not stop the receiver, and leaves window and queue in line
    exactly if it is fresh. -/
theorem owned_exec_iff (hp : Steady p) (hdir : p.session.dir = .RX) (h : Owned p)
    (hn : Numbered p) (hpull : pulls p) {d : List Byte} (hd : env.datagram = some d) :
    (Conf.exec (step bo) env p).error = none ∧
      (Owned (Conf.exec (step bo) env p).state ↔ Fresh bo p env) := by
  have hfresh : Fresh bo p env ↔
      if p.session.next = .setup then (Gateway.pulled bo env p d).data.header.isPayld = false
      else (Gateway.pulled bo env p d).data.header.isPayld = true ∧
        (Gateway.pulled bo env p d).data.header.capid ∉ p.rxcurrentWindow.keys := by
    simp [Fresh, hpull, hd]
  have howned : Owned p.clear := ⟨h.held, h.kept⟩
  rw [hfresh]
  cases hnext : p.session.next with
  | setup =>
    rw [exec_setUp hp hdir hnext hd, if_pos rfl]
    exact ⟨rfl, owned_setUp_iff howned (hp.queue (by rw [holdsData, hdir, hnext]))⟩
  | closed =>
    have hwin : p.session.processor.winSize ≠ 0 := by simpa [pulls, hdir, hnext] using hpull
    rw [exec_arrived h.held hdir hnext hwin hd, if_neg (by decide)]
    exact ⟨rfl, owned_arrived_iff howned ⟨hn.allocated, hn.nodup⟩⟩
  | _ => simp [pulls, hdir, hnext] at hpull

/-- Without a datagram, window and queue stay in line, and both are empty after
    the acknowledgement of a window. -/
theorem Transition.owned {c : Party} (h : Transition bo env p c) (hdir : p.session.dir = .RX)
    (hp : Owned p) (hn : Numbered p) (hpull : pulls p → env.datagram = none)
    (hc : c.error = none) :
    Owned c.state ∧ (p.session.next = .done →
      c.state.rxcurrentWindow = ∅ ∧ c.state.rxFactory.buffer = []) := by
  cases h with
  | halt | danglingLast | noAddressOk | danglingWindow => simp at hc
  | receiveHello hdir' | sendHi hdir' | receiveAck hdir' | sendData hdir' | receiveOk hdir' =>
    simp [hdir] at hdir'
  | receiveHi _ hnext d hd => simp [hpull (by simp [pulls, hdir, hnext])] at hd
  | receiveNothing _ hnext hwin d hd | receiveData _ hnext hwin d hd =>
    simp [hpull (pulls_closed hdir hnext hwin)] at hd
  | sendHello _ hnext | sendAck _ hnext => exact ⟨⟨hp.held, hp.kept⟩, by simp [hnext]⟩
  | windowOver hnext => exact ⟨⟨hp.held, hp.kept⟩, by simp [hnext]⟩
  | sendOk =>
    have hwindow : (sentOk bo env p).rxcurrentWindow = ∅ := rfl
    have hbuffer : (sentOk bo env p).rxFactory.buffer = [] := by
      show (written env p).rxFactory.buffer.drop (written env p).rxcurrentWindow.size = []
      rw [buffer_written, rxcurrentWindow_written, ← hp.length_buffer hn, List.drop_length]
    exact ⟨⟨held_empty hwindow, by simp [hbuffer]⟩, fun _ => ⟨hwindow, hbuffer⟩⟩

/-- In a run of the receiver, the window and the receiving queue hold the same
    buffers between two steps, none after a window was acknowledged, if and only if
    every datagram is fresh. -/
theorem owned_iff (statics : Statics) (addressList : List IpaddrDummy) (source sink : DataSource)
    (env : ℕ → Env) :
    let p := Process.init .RX statics addressList source sink
    ((∀ n, (run bo p env n).error = none → Owned (run bo p env n).state) ∧
      ∀ n, (run bo p env n).Alive Process.returned → (run bo p env n).state.session.next = .done →
        (run bo p env (n + 1)).error = none →
        (run bo p env (n + 1)).state.rxcurrentWindow = ∅ ∧
        (run bo p env (n + 1)).state.rxFactory.buffer = []) ↔
    ∀ n, (run bo p env n).Alive Process.returned → Fresh bo (run bo p env n).state (env n) := by
  intro p
  have hsteady := steady_run bo .RX statics addressList source sink env
  have hnumbered : ∀ n, (run bo p env n).error = none → Numbered (run bo p env n).state := by
    refine Conf.runs_induction (I := fun _ => Numbered) ⟨by simp [p, Process.init], by
      simp [p, Process.init]⟩ ?_ (fun _ _ _ h => h)
    intro n hn h
    refine Conf.wp_iff_exec.2 ⟨fun hc => ?_, fun _ _ => trivial⟩
    exact (transition_exec bo (env n) (hsteady n hn.1).1).numbered (hsteady n hn.1).2
      ⟨h.allocated, h.nodup⟩ hc
  constructor
  · rintro ⟨h, -⟩ n hn hpull d hd
    have hstep := @owned_exec_iff bo (env n) _ (hsteady n hn.1).1 (hsteady n hn.1).2 (h n hn.1)
      (hnumbered n hn.1) hpull d hd
    rw [← run_succ bo hn] at hstep
    exact hstep.2.1 (h (n + 1) hstep.1) hpull d hd
  · intro hfresh
    -- Both halves of a step: what is owned after it, and what is left after `done`.
    have hstep : ∀ n, (run bo p env n).Alive Process.returned → Owned (run bo p env n).state →
        (run bo p env (n + 1)).error = none → Owned (run bo p env (n + 1)).state ∧
        ((run bo p env n).state.session.next = .done →
          (run bo p env (n + 1)).state.rxcurrentWindow = ∅ ∧
          (run bo p env (n + 1)).state.rxFactory.buffer = []) := by
      intro n hn h hc
      obtain ⟨hst, hdir⟩ := hsteady n hn.1
      by_cases hpull : pulls (run bo p env n).state → (env n).datagram = none
      · exact (transition_run bo .RX statics addressList source sink env n hn).owned hdir
          ⟨h.held, h.kept⟩ ⟨(hnumbered n hn.1).allocated, (hnumbered n hn.1).nodup⟩ hpull hc
      · obtain ⟨hpull, hd⟩ := Classical.not_imp.1 hpull
        obtain ⟨d, hd⟩ := Option.ne_none_iff_exists'.1 hd
        rw [run_succ bo hn]
        refine ⟨(owned_exec_iff hst hdir h (hnumbered n hn.1) hpull hd).2.2 (hfresh n hn), ?_⟩
        intro hdone
        rw [pulls, show (run bo p env n).state.session.dir = .RX from hdir, hdone] at hpull
        simp at hpull
    have howned : ∀ n, (run bo p env n).error = none → Owned (run bo p env n).state := by
      refine Conf.runs_induction (I := fun _ => Owned) ⟨held_empty rfl, by simp [p, Process.init]⟩
        ?_ (fun _ _ _ h => h)
      intro n hn h
      refine Conf.wp_iff_exec.2 ⟨fun hc => ?_, fun _ _ => trivial⟩
      have := (hstep n hn h (by rw [run_succ bo hn]; exact hc)).1
      rwa [run_succ bo hn] at this
    exact ⟨howned, fun n hn hdone hc => (hstep n hn (howned n hn.1) hc).2 hdone⟩

/-- The answer to the hello is typed as a payload capsule. -/
def payldHi : ℕ → Env
  | 1 => .plain (some (CapsuleHdr.encode .little { capType := CapsuleType.PAYLD.code })) []
  | _ => .plain none []

/-- After the handshake, the window points to a buffer that is not in the queue any
    more. -/
theorem not_owned_payldHi :
    ¬((∀ n, (run .little newReceiver payldHi n).error = none →
        Owned (run .little newReceiver payldHi n).state) ∧
      ∀ n, (run .little newReceiver payldHi n).Alive Process.returned →
        (run .little newReceiver payldHi n).state.session.next = .done →
        (run .little newReceiver payldHi (n + 1)).error = none →
        (run .little newReceiver payldHi (n + 1)).state.rxcurrentWindow = ∅ ∧
        (run .little newReceiver payldHi (n + 1)).state.rxFactory.buffer = []) := by
  rintro ⟨h, -⟩
  have hheld := (h 2 (by decide +kernel)).held
  have hsize : (run .little newReceiver payldHi 2).state.rxcurrentWindow.size = 1 := by
    decide +kernel
  have hqueue : (run .little newReceiver payldHi 2).state.rxFactory.buffer.length = 0 := by
    decide +kernel
  obtain ⟨e, he⟩ := List.exists_mem_of_length_pos (hsize ▸ Nat.one_pos)
  have := (hheld e he).1
  rw [List.eq_nil_of_length_eq_zero hqueue] at this
  simp at this

end Session

end Udm
