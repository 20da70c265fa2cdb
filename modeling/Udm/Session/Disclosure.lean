import Udm.Session.Memory

/-!
# Sessions in other memory

No state function sees what `malloc` returns, so neither does a step (`same_step`), as long
as every datagram has the bytes that its header announces and the number of interfaces does
not change. What it sends is the same, but for the bytes behind the texts of its addresses. So
a session stores what it has been sent, and stops where it stops, in whatever memory it runs,
and in whatever memory its peer does (`memory_unseen`).

The state functions are put together from the lemmas of `Udm.Session.Memory`, call by call: each
is clean since the functions it calls are, and since what it tests (a state, a counter, a header,
the emptiness of a queue) is not in memory. One of them is not clean by itself: in its state
`open`, the sender receives into the last buffer of its queue, cut as it is, and takes the first
one from it, so its step is compared as a whole, from an empty queue (`same_openState_tx`).

The two processes of `memory_unseen` have lists of their own, which only agree in their texts, and
take datagrams of their own, which look alike. So the statement can be used for both sides of an
exchange at once, where each of the two networks has its own memories (`Udm.Exchange.Memory`).
-/

namespace Udm

open Clean

variable {bo : ByteOrder} {env : Env} {p : Process} {list : List IpaddrDummy}
  {heap : Block Byte} {past : IpaddrDummy} {datagram : Option (List Byte)}

/-! ## The state functions -/

namespace Session

/-- The id of a connection comes from a counter. -/
theorem clean_genConnId : Clean bo list Eq genConnId genConnId :=
  .seq (modify (fun _ _ => rfl) fun _ _ h => { h with }) fun _ =>
    read (fun _ _ => rfl) fun _ => .pure rfl

/-- So does the id of the source. -/
theorem clean_genSrcId : Clean bo list Eq genSrcId genSrcId :=
  .seq (modify (fun _ _ => rfl) fun _ _ h => { h with }) fun _ =>
    read (fun _ _ => rfl) fun _ => .pure rfl

/-- The entry of the connection, which is created where there is none. -/
theorem clean_connection : Clean bo list Eq connection connection := by
  refine read (fun _ _ => rfl) fun p => ?_
  cases p.session.connections.get p.session.connection_count with
  | none => exact .seq (modify (fun _ _ => rfl) fun _ _ h => { h with }) fun _ => .pure rfl
  | some c => exact .pure rfl

/-- Changing the entry of the connection. -/
theorem clean_setConnection (f : Connection → Connection) :
    Clean bo list Eq (setConnection f) (setConnection f) :=
  clean_connection.seq fun _ => modify (fun _ _ => rfl) fun _ _ h => { h with }

/-- The parameters have the type that is asked for. -/
theorem clean_params (type : CapsuleType) :
    Clean bo list (fun par par' => par = par' ∧ par.capType = type.code) (params type)
      (params type) :=
  clean_connection.seq fun _ => .pure ⟨rfl, rfl⟩

/-- A control capsule has no payload. -/
theorem isPayld_of_ctrl {par : Params} (h : par.capType = CapsuleType.CTRL.code) :
    par.isPayld = false := by
  rw [CapsuleHdr.isPayld, h]
  decide

/-- The first buffer is taken from the queue for sending. -/
theorem clean_txPop : Clean bo list Eq txPop txPop :=
  Lockstep.modify_put fun _ k h => ⟨{ k with txBuffer := k.txBuffer.tail }, rfl,
    { h with txBuffer := by simpa using List.forall₂_drop 1 h.txBuffer }⟩

/-- Going to another state. -/
theorem clean_setNext (next : StateCodes) :
    Clean bo list Eq (modify (Process.setNext next)) (modify (Process.setNext next)) :=
  modify (fun _ _ => rfl) fun _ _ h => { h with }

/-- Changing what is left of the window. -/
theorem clean_setWinSize (winSize : BitVec 16) :
    Clean bo list Eq (modify (Process.setWinSize winSize)) (modify (Process.setWinSize winSize)) :=
  modify (fun _ _ => rfl) fun _ _ h => { h with }

/-- A capsule is sent in one of two ways, by the state and the side. -/
theorem clean_sendState (code : StateCodes) (dir : StateDirection) {c c' : Capsule}
    (h : c.Alike bo c') : Clean bo list Eq (sendState bo env code dir c)
      (sendState bo (env.allocating heap past datagram) code dir c') :=
  .ite Iff.rfl (Gateway.clean_chunkWrite h)
    (.ite Iff.rfl (Gateway.clean_chunkWrite h) (Gateway.clean_send h))

/-- Receiving a capsule, which is kept if it has a payload. This is for all states but `open`,
    in which the buffer is another one. -/
theorem clean_receiveState (hd : Option.Rel (Lookalike bo) env.datagram datagram)
    {code : StateCodes}
    (hcode : code ≠ .open) (b : Option MemBuff) : Clean bo list Eq (receiveState bo env code b)
      (receiveState bo (env.allocating heap past datagram) code b) := by
  -- The type is in the header, so it is the same for both.
  have hpull : Clean bo list Eq
      (do let res ← Gateway.pull bo env
          if res.data.header.isPayld then modify (Process.keep res))
      (do let res ← Gateway.pull bo (env.allocating heap past datagram)
          if res.data.header.isPayld then modify (Process.keep res)) := by
    refine (Gateway.clean_pull hd).bind fun b b' hb => ?_
    exact .ite (by rw [hb.header]) (SessionProcessor.clean_keep hb) (.pure rfl)
  cases code with
  | «open» => exact absurd rfl hcode
  | setup | connected | closed | done | inq | send | recv => exact hpull

/-- The hello of the receiver. -/
theorem clean_openState_rx (hfit : HEADER_SPACE + list.length * ADDR_LEN ≤ CHUNK)
    (hinf : env.InfCount list.length) : Clean bo list Eq (openState bo env .RX)
      (openState bo (env.allocating heap past datagram) .RX) := by
  refine Compositor.clean_newBuffer_tx.bind fun b b' hb => clean_genSrcId.seq fun src => ?_
  refine .seq (modify (fun _ _ => rfl) fun _ _ h => { h with }) fun _ => ?_
  refine (clean_params .PAYLD).bind ?_
  -- The hello has the type of a payload, and brings no addresses.
  rintro par _ ⟨rfl, -⟩
  refine (SessionProcessor.clean_setCapParams hfit hinf hb (by simp)).bind fun c c' hc => ?_
  exact (clean_sendState .open .RX hc).seq fun _ => clean_txPop.seq fun _ => clean_setNext .setup

/-- The sender advertises its addresses, and the receiver takes them. -/
theorem clean_setupState (hd : Option.Rel (Lookalike bo) env.datagram datagram)
    (hfit : HEADER_SPACE + list.length * ADDR_LEN ≤ CHUNK) (hinf : env.InfCount list.length)
    (dir : StateDirection) : Clean bo list Eq (setupState bo env dir)
      (setupState bo (env.allocating heap past datagram) dir) := by
  cases dir with
  | TX =>
    refine Compositor.clean_newBuffer_tx.bind fun b b' hb => (clean_params .CTRL).bind ?_
    -- The addresses are sent in a control capsule.
    rintro par _ ⟨rfl, htype⟩
    refine (SessionProcessor.clean_setCapParams hfit hinf hb fun _ =>
      isPayld_of_ctrl htype).bind fun c c' hc => ?_
    exact (clean_sendState .setup .TX hc).seq fun _ =>
      clean_txPop.seq fun _ => clean_setNext .connected
  | RX =>
    refine (clean_receiveState hd (by decide) none).seq fun _ => clean_rxPop.bind fun b b' hb => ?_
    refine (SessionProcessor.clean_process hb .setup).seq fun _ => ?_
    rw [← hb.header]
    exact (clean_setConnection _).seq fun _ => clean_setNext .connected

/-- The receiver advertises its addresses, and the sender takes them with the window. -/
theorem clean_connectedState (hd : Option.Rel (Lookalike bo) env.datagram datagram)
    (hfit : HEADER_SPACE + list.length * ADDR_LEN ≤ CHUNK) (hinf : env.InfCount list.length)
    (dir : StateDirection) : Clean bo list Eq (connectedState bo env dir)
      (connectedState bo (env.allocating heap past datagram) dir) := by
  cases dir with
  | TX =>
    refine (clean_receiveState hd (by decide) none).seq fun _ => clean_rxPop.bind fun b b' hb => ?_
    refine (SessionProcessor.clean_process hb .connected).seq fun _ => ?_
    rw [← hb.header]
    exact (clean_setConnection _).seq fun _ => clean_setNext .closed
  | RX =>
    refine clean_genConnId.seq fun id => (clean_setConnection _).seq fun _ => ?_
    refine Compositor.clean_newBuffer_tx.bind fun b b' hb => (clean_params .CTRL).bind ?_
    rintro par _ ⟨rfl, htype⟩
    refine (SessionProcessor.clean_setCapParams hfit hinf hb fun _ =>
      isPayld_of_ctrl htype).bind fun c c' hc => ?_
    exact (clean_sendState .connected .RX hc).seq fun _ =>
      clean_txPop.seq fun _ => clean_setNext .closed

/-- A chunk of the file is sent, or a capsule of the window received. -/
theorem clean_submitTask (hd : Option.Rel (Lookalike bo) env.datagram datagram)
    (hfit : HEADER_SPACE + list.length * ADDR_LEN ≤ CHUNK) (hinf : env.InfCount list.length)
    (dir : StateDirection) : Clean bo list Eq (submitTask bo env dir)
      (submitTask bo (env.allocating heap past datagram) dir) := by
  cases dir with
  | TX =>
    refine clean_updateDataSource.seq fun _ => ?_
    refine Compositor.clean_constructChunk.bind fun b b' hb => Lockstep.read ?_
    rintro p _ ⟨k, rfl, h⟩
    -- The chunk was the last one if the source has ended and the queue is empty, which is so for
    -- both queues or for neither.
    have hlast : (p.txFactory.fin && p.txFactory.buffer.isEmpty) =
        ((p.onMemory k).txFactory.fin && (p.onMemory k).txFactory.buffer.isEmpty) := by
      have hempty : p.txFactory.buffer.isEmpty = k.txBuffer.isEmpty := by
        have hbuffer := h.txBuffer
        generalize p.txFactory.buffer = bs at hbuffer
        generalize k.txBuffer = bs' at hbuffer
        cases hbuffer <;> rfl
      exact congrArg (p.txFactory.fin && ·) hempty
    -- The rest is the same, whether this is the last chunk or not.
    have hsend {c c' : Capsule} (hc : c.Same c') : Clean bo list Eq
        (do let par ← params .PAYLD
            let cap := PresentationProcessor.setCapParams bo c par .closed
            let cap ← SessionProcessor.setCapParams env cap par .closed
            sendState bo env .closed .TX cap)
        (do let par ← params .PAYLD
            let cap := PresentationProcessor.setCapParams bo c' par .closed
            let cap ←
              SessionProcessor.setCapParams (env.allocating heap past datagram) cap par .closed
            sendState bo (env.allocating heap past datagram) .closed .TX cap) := by
      refine (clean_params .PAYLD).bind ?_
      rintro par _ ⟨rfl, -⟩
      refine (SessionProcessor.clean_setCapParams hfit hinf (hc.copyHeader bo) (by simp)).bind ?_
      exact fun c c' hc => clean_sendState .closed .TX hc
    rw [← hlast]
    cases p.txFactory.fin && p.txFactory.buffer.isEmpty with
    | true =>
      exact (clean_setWinSize 0).seq fun _ => hsend (hb.modifyHeader (by rw [hb.header]) rfl)
    | false => exact hsend hb
  | RX =>
    refine (clean_receiveState hd (by decide) none).seq fun _ => Lockstep.read ?_
    rintro p _ ⟨k, rfl, h⟩
    -- The flag is looked for in the newest capsule, the one with the greatest id.
    have hlast := h.window.last
    have hwindow : (p.onMemory k).rxcurrentWindow = k.window := rfl
    rw [hwindow]
    generalize p.rxcurrentWindow.last = o at hlast
    generalize k.window.last = o' at hlast
    cases hlast with
    | none => exact .pure rfl
    | some he =>
      refine (clean_deref he.2).bind fun b b' hb => ?_
      refine (SessionProcessor.clean_process hb .closed).seq fun _ => ?_
      refine read (fun _ _ => rfl) fun p => ?_
      exact .ite Iff.rfl (clean_setWinSize 0) (.pure rfl)

/-- The window goes on until it is used up. -/
theorem clean_closedState (hd : Option.Rel (Lookalike bo) env.datagram datagram)
    (hfit : HEADER_SPACE + list.length * ADDR_LEN ≤ CHUNK) (hinf : env.InfCount list.length)
    (dir : StateDirection) : Clean bo list Eq (closedState bo env dir)
      (closedState bo (env.allocating heap past datagram) dir) := by
  refine read (fun _ _ => rfl) fun p => .ite Iff.rfl ?_ (clean_setNext .done)
  refine (clean_submitTask hd hfit hinf dir).seq fun _ => read (fun _ _ => rfl) fun p => ?_
  exact .ite Iff.rfl (clean_setWinSize _) (.pure rfl)

/-- At the end of a window, as many buffers are freed as it has entries. -/
theorem clean_release : Clean bo list Eq (modify Process.release) (modify Process.release) := by
  refine Lockstep.modify_put fun p k h => ?_
  have hsize : p.rxcurrentWindow.size = k.window.size := List.Forall₂.length_eq h.window
  refine ⟨{ k with rxBuffer := k.rxBuffer.drop k.window.size, window := ∅ }, rfl, ?_⟩
  refine { h with rxBuffer := ?_, window := OrdMap.rel_empty }
  rw [← hsize]
  exact List.forall₂_drop _ h.rxBuffer

/-- The end of a window. -/
theorem clean_endWindow (fin : Bool) : Clean bo list Eq
    (do if fin then modify (Process.setNext .connected)
        else
          modify (Process.setWinSize (BitVec.ofNat 16 WIN_SIZ))
          modify (Process.setNext .closed)
        modify Process.finish)
    (do if fin then modify (Process.setNext .connected)
        else
          modify (Process.setWinSize (BitVec.ofNat 16 WIN_SIZ))
          modify (Process.setNext .closed)
        modify Process.finish) := by
  have hfinish : Clean bo list Eq (modify Process.finish) (modify Process.finish) :=
    modify (fun _ _ => rfl) fun _ _ h => { h with }
  cases fin with
  | true => exact (clean_setNext .connected).seq fun _ => hfinish
  | false => exact (clean_setWinSize _).seq fun _ => (clean_setNext .closed).seq fun _ => hfinish

/-- The sender takes the acknowledgement; the receiver writes the window and sends one. -/
theorem clean_doneState (hd : Option.Rel (Lookalike bo) env.datagram datagram)
    (hfit : HEADER_SPACE + list.length * ADDR_LEN ≤ CHUNK) (hinf : env.InfCount list.length)
    (dir : StateDirection) : Clean bo list Eq (doneState bo env dir)
      (doneState bo (env.allocating heap past datagram) dir) := by
  cases dir with
  | TX =>
    refine (clean_receiveState hd (by decide) none).seq fun _ => clean_rxPop.bind fun b b' hb => ?_
    refine (SessionProcessor.clean_process hb .done).seq fun _ => ?_
    exact read (fun _ _ => rfl) fun p => clean_endWindow _
  | RX =>
    refine read (fun _ _ => rfl) fun p => ?_
    refine (PresentationProcessor.clean_process .done).seq fun _ => ?_
    refine Compositor.clean_newBuffer_tx.bind fun b b' hb => clean_release.seq fun _ => ?_
    refine (clean_params .CTRL).bind ?_
    rintro par _ ⟨rfl, -⟩
    refine (SessionProcessor.clean_setCapParams hfit hinf hb (by simp)).bind fun c c' hc => ?_
    refine (clean_sendState .done .RX hc).seq fun _ => ?_
    exact read (fun _ _ => rfl) fun p => clean_endWindow _

/-! ## Steps -/

/-- The hello, received in other memory: the sender takes the ids of its header only. -/
theorem same_opened {k : Memory} {d d' : List Byte} (h : p.Shows bo list k)
    (hqueue : p.rxFactory.buffer = []) (hd : Lookalike bo d d') :
    Process.Same bo list (opened bo env d p)
      (opened bo (env.allocating heap past datagram) d' (p.onMemory k)) := by
  have hk := h.rxBuffer_nil hqueue
  -- The header is what the header of the datagram decodes to, cut or not.
  have hheader (env : Env) (q : Process) {d : List Byte} (hd : HEADER_SPACE ≤ d.length) :
      (helloBuffer bo env q d).data.header = .decode bo (d.take HEADER_SPACE) := by
    have hroom : HEADER_SPACE ≤ (d.take SIZEOF_CAPSULE.toNat).length := by
      rw [List.length_take]
      exact le_min (by decide) hd
    show CapsuleHdr.decode bo (Block.load _ 0 HEADER_SPACE) = _
    rw [Block.load_store_of_le _ hroom, List.take_take]
    rfl
  have hsame : (helloBuffer bo (env.allocating heap past datagram) (p.onMemory k) d').data.header =
      (helloBuffer bo env p d).data.header := by
    rw [hheader _ _ hd.whole.header_le, hheader _ _ hd.whole_right.header_le, hd.header_eq]
  have hopened : (opened bo env d p).rxFactory.buffer = [] := by
    simp [opened, receivedHello, newConnection, hqueue]
  refine ⟨{ k with rxBuffer := [] }, ?_, { h with rxBuffer := ?_ }⟩
  · obtain ⟨addressList, peers, txBuffer, rxBuffer, window, sent, writes⟩ := k
    obtain rfl : rxBuffer = [] := hk
    simp only [opened, hsame]
    rfl
  · rw [hopened]
    exact .nil

/-- The buffer for the hello, in the memory of each. -/
theorem same_pushRx {k : Memory} (h : p.Shows bo list k) :
    Process.Same bo list ((newConnection p).pushRx env.heap)
      ((newConnection (p.onMemory k)).pushRx heap) :=
  ⟨{ k with rxBuffer := k.rxBuffer ++ [(p.rxFactory.makeChunkforRx heap p.statics.hdrid).1] }, rfl,
    { h with rxBuffer := List.rel_append h.rxBuffer (.cons (.fresh _ rfl _ _) .nil) }⟩

/-- The sender waits for the hello with an empty queue, so that the buffer it takes from it is
    the one of the hello, cut as it is. -/
theorem same_openState_tx (hd : Option.Rel (Lookalike bo) env.datagram datagram) {k : Memory}
    (h : p.Shows bo list k) (hqueue : p.rxFactory.buffer = []) :
    SameEnd (Process.Same bo list) Eq (openState bo env .TX p)
      (openState bo (env.allocating heap past datagram) .TX (p.onMemory k)) := by
  have hqueue' : (p.onMemory k).rxFactory.buffer = [] := h.rxBuffer_nil hqueue
  have hdatagram : (env.allocating heap past datagram).datagram = datagram := rfl
  refine SameEnd.of_wp ?_
  generalize hdat : env.datagram = o at hd
  cases hd with
  | none =>
    -- Without a hello, or without a name for its sender, both exit with the buffer in the queue.
    rw [wp_openState_tx_fail bo env (.inl hdat), wp_openState_tx_fail bo _ (.inl hdatagram)]
    exact ⟨rfl, same_pushRx h⟩
  | @some d d' hd =>
    cases hname : env.getnameinfo with
    | false =>
      rw [wp_openState_tx_fail bo env (.inr hname),
        wp_openState_tx_fail bo (env.allocating heap past (some d')) (.inr hname)]
      exact ⟨rfl, same_pushRx h⟩
    | true =>
      rw [wp_openState_tx bo env hdat hname hqueue,
        wp_openState_tx bo (env.allocating heap past (some d')) hdatagram hname hqueue']
      exact ⟨rfl, same_opened h hqueue hd⟩

/-- A step does the same in other memory, if it takes datagrams that look alike, and finds as many
    interfaces as there are addresses. -/
theorem same_step {p q : Process} (hst : Steady p) (h : p.Same bo list q)
    (hd : Option.Rel (Lookalike bo) env.datagram datagram)
    (hfit : HEADER_SPACE + list.length * ADDR_LEN ≤ CHUNK) (hinf : env.InfCount list.length) :
    SameEnd (Process.Same bo list) Eq (step bo env p)
      (step bo (env.allocating heap past datagram) q) := by
  obtain ⟨k, rfl, hk⟩ := h
  -- The record of the step starts anew.
  have hclear : p.clear.Shows bo list { k with sent := [], writes := [] } :=
    { hk with sent := .nil, writes := rfl }
  have hsame :
      Process.Same bo list p.clear (p.clear.onMemory { k with sent := [], writes := [] }) :=
    ⟨_, rfl, hclear⟩
  show SameEnd _ _ (states bo env p.session.next p.session.dir p.clear)
    (states bo (env.allocating heap past datagram) p.session.next p.session.dir
      (p.clear.onMemory { k with sent := [], writes := [] }))
  have hmem := hst.next
  cases hnext : p.session.next with
  | «open» =>
    cases hdir : p.session.dir with
    | TX => exact same_openState_tx hd hclear (hst.queue_tx hdir)
    | RX => exact clean_openState_rx hfit hinf _ _ hsame
  | setup => exact clean_setupState hd hfit hinf _ _ _ hsame
  | connected => exact clean_connectedState hd hfit hinf _ _ _ hsame
  | closed => exact clean_closedState hd hfit hinf _ _ _ hsame
  | done => exact clean_doneState hd hfit hinf _ _ _ hsame
  | inq | send | recv => simp [hnext, inSession] at hmem

/-! ## Runs -/

section Runs

variable {p q : Process} {env : ℕ → Env} {heap : ℕ → Block Byte} {past : ℕ → IpaddrDummy}
  {datagram : ℕ → Option (List Byte)} {dir : StateDirection} {statics : Statics}
  {list' : List IpaddrDummy} {source sink : DataSource}

/-- Runs in other memory. -/
theorem memory_run (hst : Steady p) (h : p.Same bo list q)
    (hd : ∀ n, Option.Rel (Lookalike bo) (env n).datagram (datagram n))
    (hfit : HEADER_SPACE + list.length * ADDR_LEN ≤ CHUNK)
    (hinf : ∀ n, (env n).InfCount list.length) (n : ℕ) :
    Conf.Same (Process.Same bo list) (run bo p env n)
      (run bo q (fun i => (env i).allocating (heap i) (past i) (datagram i)) n) := by
  refine Conf.same_runs (fun _ _ hsame => hsame.returned_eq) (fun n halive t hsame => ?_) h n
  exact same_step (steady_run_of bo hst env n halive.1).1 hsame (hd n) hfit (hinf n)

/-- What `malloc` returns has no influence on a session but for the bytes behind the texts of its
    addresses. In any two memories, with lists of the same texts, and datagrams that look alike to
    take, the session stops at the same moment if at all, has sent datagrams that look alike to the
    same entries of its peer list, has stored the same, and has a peer list with the same texts; its
    state is another one only in the buffers and the lists that are in this memory. Every datagram
    has the bytes that its header announces, and the number of interfaces does not change. -/
theorem memory_unseen (hp : p = .init dir statics list source sink)
    (hq : q = .init dir statics list' source sink)
    (htexts : list.map IpaddrDummy.text = list'.map IpaddrDummy.text)
    (hd : ∀ n, Option.Rel (Lookalike bo) (env n).datagram (datagram n))
    (hfit : HEADER_SPACE + list.length * ADDR_LEN ≤ CHUNK)
    (hinf : ∀ n, (env n).InfCount list.length) (n : ℕ) :
    let c := run bo p env n
    let c' := run bo q (fun i => (env i).allocating (heap i) (past i) (datagram i)) n
    c'.error = c.error ∧ (∃ k, c'.state = c.state.onMemory k) ∧
      List.Forall₂ (SentAlike bo) c.state.io.sent c'.state.io.sent ∧
      c'.state.interfaces.peers.map IpaddrDummy.text =
        c.state.interfaces.peers.map IpaddrDummy.text := by
  subst hp hq
  have hstart : (Process.init dir statics list source sink).Same bo list
      (.init dir statics list' source sink) := Process.same_init bo dir statics htexts source sink
  obtain ⟨herror, k, hk, hshows⟩ := @memory_run _ _ _ _ env heap past datagram
    (steady_init dir statics list source sink) hstart hd hfit hinf n
  refine ⟨herror.symm, ⟨k, hk⟩, ?_, ?_⟩
  · rw [hk]
    exact hshows.sent
  · rw [hk]
    exact hshows.peers.symm

/-- `"10.0.0.1"`, in memory that was not zero. -/
def dirty10 : IpaddrDummy := ⟨[49, 48, 46, 48, 46, 48, 46, 49, 0] ++ List.replicate 6 255, rfl⟩

/-- The address of a host, in a datagram. -/
def announcement (a : IpaddrDummy) : List Byte :=
  CapsuleHdr.encode .little { capSize := 15 } ++ [a].flatMap IpaddrDummy.data

/-- The two datagrams with this address look alike. -/
theorem lookalike_announcement :
    Lookalike .little (announcement SessionProcessor.private10) (announcement dirty10) :=
  .addresses (by decide) (by decide) (by decide) (by decide)

/-- A session that takes this address, from memory that was not zero either, has its text. -/
theorem unseen_announcement :
    (run .little (.init .RX {} [dirty10] { fmode := .IN, fs := {} } { fmode := .OUT, fs := {} })
      (fun i => (Env.plain (if i = 1 then some (announcement SessionProcessor.private10) else none)
          [1, 1, 1]).allocating (fun _ => 255) SessionProcessor.loopback
            (if i = 1 then some (announcement dirty10) else none))
      3).state.interfaces.peers.map IpaddrDummy.text = [SessionProcessor.private10.text] := by
  have hdatagram (n : ℕ) : Option.Rel (Lookalike .little)
      (Env.plain (if n = 1 then some (announcement SessionProcessor.private10) else none)
        [1, 1, 1]).datagram (if n = 1 then some (announcement dirty10) else none) := by
    by_cases hn : n = 1
    · simpa [Env.plain, hn] using Option.Rel.some lookalike_announcement
    · simp [Env.plain, hn]
  obtain ⟨-, -, -, hpeers⟩ := @memory_unseen .little [SessionProcessor.private10] _ _
    (fun i => Env.plain (if i = 1 then some (announcement SessionProcessor.private10) else none)
      [1, 1, 1])
    (fun _ _ => 255) (fun _ => SessionProcessor.loopback)
    (fun i => if i = 1 then some (announcement dirty10) else none) .RX {} [dirty10]
    { fmode := .IN, fs := {} } { fmode := .OUT, fs := {} } rfl rfl (by decide) hdatagram (by decide)
    (fun _ => ⟨by simp [Env.plain], by simp [Env.plain]⟩) 3
  rw [hpeers]
  decide +kernel

end Runs

end Session

end Udm
