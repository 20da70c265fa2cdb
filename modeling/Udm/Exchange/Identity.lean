import Udm.Exchange

/-!
# The identity of a connection

The ids the capsules of a session carry are those of the entry
`connections[connection_count]`. The entry of a new connection is written there by
`openState`, which then increments `connection_count`: every later access is to the
entry after it. So both connection tables have an entry too many, and the source id
of the entry in use is the one of an unset entry, 0, whatever was generated
(`not_agreed`).

The table of a session is followed through its steps: `openState` leaves two entries
(`Table.of_open`), and every later step assigns to the second of them, or to none
(`Table.of_put`, `Table.of_eq`), without a source id (`Transition.table`). In an exchange
this holds of both sides (`tabled`), so neither of them holds what was generated for it.
-/

namespace Udm

namespace Session

/-- The table after `openState`: the entry in use is the second one, and its source
    id is unset. -/
structure Table (s : Session) : Prop where
  /-- One connection was counted. -/
  count : s.connection_count = 1
  /-- There are two entries, that of the connection and the one in use. -/
  keys : ∀ k, k ∈ s.connections.keys ↔ k = 0 ∨ k = 1
  /-- The source id of the one in use was never set. -/
  src : s.current.src = 0

/-- The table of a session that is opened once. -/
def Tabled (p : Process) : Prop :=
  if p.session.next = .open then p.session.connections = ∅ ∧ p.session.connection_count = 0
  else Table p.session

variable {bo : ByteOrder} {env : Env} {p : Process} {s t : Session}

/-- The keys of a table with two entries. -/
theorem keys_insert_singleton (c d : Connection) (k : ℤ) :
    k ∈ (((∅ : OrdMap ℤ Connection).insert 0 c).insert 1 d).keys ↔ k = 0 ∨ k = 1 := by
  rw [OrdMap.mem_keys_insert, OrdMap.mem_keys_insert]
  have : k ∉ (∅ : OrdMap ℤ Connection).keys := by simp [OrdMap.keys]
  tauto

/-- The table that `openState` leaves. -/
theorem Table.of_open (src : BitVec 8) {c : Connection} (hc : c.src = 0)
    (hcount : t.connection_count = 1)
    (ht : t.connections = ((∅ : OrdMap ℤ Connection).insert 0 { src }).insert 1 c) : Table t := by
  refine ⟨hcount, fun k => by rw [ht, keys_insert_singleton], ?_⟩
  rw [current, hcount, ht, OrdMap.get_insert_self]
  exact hc

/-- An assignment to the entry in use that keeps its source id. -/
theorem Table.of_put (h : Table s) {c : Connection} (hc : c.src = s.current.src)
    (hcount : t.connection_count = s.connection_count)
    (ht : t.connections = s.connections.insert s.connection_count c) : Table t := by
  refine ⟨hcount.trans h.count, fun k => ?_, ?_⟩
  · rw [ht, OrdMap.mem_keys_insert, h.keys, h.count]
    tauto
  · rw [current, hcount, ht, OrdMap.get_insert_self]
    exact hc.trans h.src

/-- A session without other changes than to its progress. -/
theorem Table.of_eq (h : Table s) (hcount : t.connection_count = s.connection_count)
    (ht : t.connections = s.connections) : Table t :=
  ⟨hcount.trans h.count, by rw [ht]; exact h.keys, by rw [current, hcount, ht]; exact h.src⟩

/-- After the first step the table is so. -/
theorem Tabled.table (h : Tabled p) (hnext : p.session.next ≠ .open) : Table p.session := by
  rwa [Tabled, if_neg hnext] at h

/-- A step keeps the table: the ids that are set later are the other ones. -/
theorem Transition.table {c : Party} (h : Transition bo env p c) (hp : Tabled p)
    (hc : c.error = none) : Table c.state.session ∧ c.state.session.next ≠ .open := by
  have hopen (hnext : p.session.next = .open) :
      p.session.connections = ∅ ∧ p.session.connection_count = 0 := by rwa [Tabled, if_pos hnext] at hp
  have hlater {code : StateCodes} (hnext : p.session.next = code) (hne : code ≠ .open) :
      Table p.session := hp.table (hnext ▸ hne)
  -- The entry after a new one is unset.
  have hunset (hnext : p.session.next = .open) : (newConnection p).session.current = {} := by
    obtain ⟨hconn, hcount⟩ := hopen hnext
    have : (1 : ℤ) ≠ 0 := by decide
    simp only [newConnection, Process.addConnection, Process.nextSrcid, current, hconn, hcount,
      zero_add, OrdMap.get_insert_of_ne _ this]
    rfl
  cases h with
  | halt | danglingLast | noAddressOk | danglingWindow => simp at hc
  | sendHello _ hnext =>
    obtain ⟨hconn, hcount⟩ := hopen hnext
    refine ⟨.of_open (p.statics.prevSrcid + 1) (c := (newConnection p).session.current) (by rw [hunset hnext])
      (show p.session.connection_count + 1 = 1 by rw [hcount]; rfl) ?_, by simp [sentHello]⟩
    show ((p.session.connections.insert p.session.connection_count _).insert
      (p.session.connection_count + 1) _) = _
    rw [hconn, hcount]
    rfl
  | receiveHello _ hnext d =>
    obtain ⟨hconn, hcount⟩ := hopen hnext
    have hsrc : ((receivedHello bo env d p).popRx.session.current).src = 0 := by
      have : (receivedHello bo env d p).popRx.session = (newConnection p).session := rfl
      rw [this, hunset hnext]
    refine ⟨.of_open (p.statics.prevSrcid + 1) (c := { (receivedHello bo env d p).popRx.session.current with
      dst := (helloBuffer bo env p d).data.header.srcid }) hsrc
      (show p.session.connection_count + 1 = 1 by rw [hcount]; rfl) ?_, by simp [opened]⟩
    show ((p.session.connections.insert p.session.connection_count _).insert
      (p.session.connection_count + 1) _) = _
    rw [hconn, hcount]
    rfl
  | sendHi _ hnext => exact ⟨(hlater hnext (by decide)).of_put rfl rfl rfl, by simp [sentHi]⟩
  | receiveHi _ hnext d =>
    refine ⟨(hlater hnext (by decide)).of_put (c := { p.session.current with
      dst := (Gateway.pulled bo env p d).data.header.srcid }) rfl ?_ ?_, by simp [setUp]⟩ <;>
      simp [setUp]
  | sendAck _ hnext =>
    have hput : Table (newId p).session := (hlater hnext (by decide)).of_put (c := { p.session.current
      with id := p.statics.prevConnid + 1 }) rfl rfl rfl
    exact ⟨hput.of_put rfl rfl rfl, by simp [sentAck]⟩
  | receiveAck _ hnext d =>
    refine ⟨(hlater hnext (by decide)).of_put (c := { p.session.current with
      id := (Gateway.pulled bo env p d).data.header.connid }) rfl ?_ ?_, by simp [connected]⟩ <;>
      simp [connected, current]
  | windowOver hnext => exact ⟨(hlater hnext (by decide)).of_eq rfl rfl, by simp⟩
  | sendData _ hnext _ b =>
    have hnext' : (sentData bo env b p).session.next = p.session.next := rfl
    exact ⟨(hlater hnext (by decide)).of_put rfl rfl rfl, by rw [hnext', hnext]; decide⟩
  | receiveNothing _ hnext | receiveData _ hnext =>
    exact ⟨(hlater hnext (by decide)).of_eq (by simp) (by simp), by simp [hnext]⟩
  | receiveOk _ hnext =>
    refine ⟨(hlater hnext (by decide)).of_eq (by simp) (by simp), ?_⟩
    cases p.txFactory.fin <;> simp
  | sendOk _ hnext =>
    have hput : Table (written env p).session :=
      (hlater hnext (by decide)).of_eq (by simp) (by simp)
    refine ⟨hput.of_put (c := (written env p).session.current) rfl rfl rfl, ?_⟩
    have : (sentOk bo env p).session.next =
        if (written env p).rxFactory.fin then .connected else .closed := rfl
    rw [this]
    cases (written env p).rxFactory.fin <;> simp

end Session

namespace Exchange

open Session

/-- The handshake of the process is over. -/
def handshakeOver (p : Process) : Bool :=
  match p.session.next with
  | .closed | .done => true
  | .connected => p.session.complete
  | _ => false

/-- The table has an entry for each connection, and the entry in use holds the
    source id `src` and the destination id `dst`. -/
structure Identified (s : Session) (src dst : BitVec 8) : Prop where
  /-- There is an entry for each connection that was counted. -/
  keys : ∀ k, k ∈ s.connections.keys ↔ 0 ≤ k ∧ k < s.connection_count
  /-- The source id is the one that was generated here. -/
  src_eq : s.current.src = src
  /-- It is a generated one. -/
  src_ne : src ≠ 0
  /-- The destination id is the one that was generated by the peer. -/
  dst_eq : s.current.dst = dst

/-- Both sides of the exchange agree on the connection: each holds the ids that
    were generated for it, and both hold its connection id. -/
structure Agreed (tx rx : Process) (s : Exchange) : Prop where
  /-- The sender holds the ids of both sides. -/
  sender : Identified s.tx.conf.state.session (tx.statics.prevSrcid + 1) (rx.statics.prevSrcid + 1)
  /-- So does the receiver, the other way round. -/
  receiver : Identified s.rx.conf.state.session (rx.statics.prevSrcid + 1) (tx.statics.prevSrcid + 1)
  /-- They hold the same id of the connection. -/
  id_eq : s.tx.conf.state.session.current.id = s.rx.conf.state.session.current.id
  /-- It is a generated one. -/
  id_ne : s.tx.conf.state.session.current.id ≠ 0

variable {bo : ByteOrder} {ok : Env → Prop} {may : Exchange → Event → Prop} {tx rx : Process}
  {s : Exchange}

/-- The source id of the entry in use is unset, and the key of this entry is the
    number of connections. -/
theorem not_identified {s : Session} (h : Table s) (src dst : BitVec 8) :
    ¬Identified s src dst ∧ s.current.src = 0 ∧ s.connection_count ∈ s.connections.keys := by
  have hkey : s.connection_count ∈ s.connections.keys := (h.keys _).2 (.inr h.count)
  exact ⟨fun hid => absurd ((hid.keys _).1 hkey).2 (lt_irrefl _), h.src, hkey⟩

/-- A new process has an empty table. -/
theorem tabled_init (dir : StateDirection) (statics : Statics) (addressList : List IpaddrDummy)
    (source sink : DataSource) : Tabled (.init dir statics addressList source sink) :=
  (if_pos rfl).mpr ⟨rfl, rfl⟩

/-- The tables of both sides are as `openState` left them. -/
theorem tabled (htx : Session.Steady tx ∧ tx.session.dir = .TX ∧ Tabled tx)
    (hrx : Session.Steady rx ∧ rx.session.dir = .RX ∧ Tabled rx)
    (h : Reachable bo ok may tx rx s) :
    (s.tx.conf.error = none → Tabled s.tx.conf.state) ∧
      (s.rx.conf.error = none → Tabled s.rx.conf.state) := by
  have hstep : ∀ env (t : Site), t.conf.error = none ∧ Tabled t.conf.state → ∀ c,
      Transition bo env t.conf.state.clear c → c.error = none → Tabled c.state := by
    intro env t ht c htr hc
    obtain ⟨htable, hne⟩ := htr.table (p := t.conf.state.clear) ht.2 hc
    exact (if_neg hne).mpr htable
  constructor
  · exact h.site_tx (P := fun t _ _ => t.conf.error = none → Tabled t.conf.state) htx.1 htx.2.1
      (fun _ => htx.2.2) fun env t _ _ halive _ _ ht _ c htr =>
        hstep env t ⟨halive.1, ht halive.1⟩ c htr
  · exact h.site_rx (P := fun t _ _ => t.conf.error = none → Tabled t.conf.state) hrx.1 hrx.2.1
      (fun _ => hrx.2.2) fun env t _ _ halive _ _ ht _ c htr =>
        hstep env t ⟨halive.1, ht halive.1⟩ c htr

/-- After the handshake the table is the one of `openState`. -/
theorem table_of_handshakeOver {p : Process} (h : Tabled p) (hover : handshakeOver p) :
    Table p.session := by
  refine h.table fun hnext => ?_
  simp [handshakeOver, hnext] at hover

/-- Whatever ids were generated before, the two sides never agree on the connection
    after the handshake. -/
theorem not_agreed (bo : ByteOrder) (txStatics rxStatics : Statics)
    (txList rxList : List IpaddrDummy) (source sink source' sink' : DataSource) :
    let tx := Process.init .TX txStatics txList source sink
    let rx := Process.init .RX rxStatics rxList source' sink'
    ∀ s, Reachable bo (fun _ => True) Network.InOrder tx rx s →
      s.tx.conf.error = none → handshakeOver s.tx.conf.state →
      s.rx.conf.error = none → handshakeOver s.rx.conf.state →
      ¬Agreed tx rx s := by
  intro tx rx s h htx hoverTx _ _ hagreed
  have htable := tabled
    ⟨steady_init .TX txStatics txList source sink, rfl, tabled_init _ _ _ _ _⟩
    ⟨steady_init .RX rxStatics rxList source' sink', rfl, tabled_init _ _ _ _ _⟩ h
  exact (not_identified (table_of_handshakeOver (htable.1 htx) hoverTx) _ _).1 hagreed.sender

/-- After the handshake of the exchange of one byte. -/
theorem not_agreed_oneByte :
    ¬Agreed oneByteSender oneByteReceiver (oneByteRun 6) := not_agreed .little {} {}
  [SessionProcessor.private10] [SessionProcessor.private10] _ _ _ _ _ (reachable_oneByteRun trivial 6)
  (by decide +kernel) (by decide +kernel) (by decide +kernel) (by decide +kernel)

/-- The source id the sender generated is 1; its table holds 0. -/
theorem not_agreed_generated :
    ¬∀ s, Reachable .little (fun _ => True) Network.InOrder oneByteSender oneByteReceiver s →
      s.tx.conf.error = none → handshakeOver s.tx.conf.state →
      s.rx.conf.error = none → handshakeOver s.rx.conf.state →
      Agreed oneByteSender oneByteReceiver s := by
  intro h
  have hagreed := h _ (reachable_oneByteRun trivial 6) (by decide +kernel) (by decide +kernel)
    (by decide +kernel) (by decide +kernel)
  have hsrc : (oneByteRun 6).tx.conf.state.session.current.src = 0 := by decide +kernel
  exact absurd (hsrc.symm.trans hagreed.sender.src_eq) (by decide +kernel)

end Exchange

end Udm
