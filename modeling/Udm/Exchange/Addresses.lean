import Udm.Exchange.Integrity
import Udm.Library.Fairness
import Udm.Session.Accesses

/-!
# The addresses that the sites learn

In the handshake the sender sends the list of its addresses, and the receiver answers with
its own (`Announces`). Each side keeps what the loop that removes the loopback addresses
makes of the list of the other (`Learnt`): so in every exchange, whatever is lost or
reordered, a side that has taken the addresses has those of its peer, if the lists fit into
a capsule (`knows_of_isRun`).

The bytes of a list are no matter of the protocol, so the simulation is extended by what the
datagrams bring, and by what the sites know:

* `Tells`: the datagrams stand for their messages, and those with a list bring it;
* `Site.Informed`: a site has its own list, and has learnt that of its peer once it has taken it;
* `sends_tells`, `receives_tells`: both are kept by the steps of the two sides, as a side only
  takes a list from the message that brings one (`Site.PlaysSender.announced`,
  `Site.PlaysReceiver.announced`).

A copy of the message with a list could be taken for another one, so only data capsules may be
copied.
-/

namespace Udm

open Session SessionProcessor Protocol

variable {bo : ByteOrder} {env : Env} {f : File} {p q : Process} {c : Party} {d : List Byte}
  {list mine theirs txList rxList : List IpaddrDummy}

/-! ## Lists in datagrams -/

/-- The datagram brings the addresses of the list, in whatever buffer it is pulled. -/
def Announces (bo : ByteOrder) (list : List IpaddrDummy) (d : List Byte) : Prop :=
  ∀ (env : Env) (q : Process), q.rxFactory.chunkSize = CHUNK →
    let buf := Gateway.pulled bo env q d
    addresses (buf.data.header.capSize.toNat / ADDR_LEN) buf.data.body = list

/-- The peer list is what the loop makes of the list. -/
def PhyInterfaces.Learnt (inf : PhyInterfaces) (list : List IpaddrDummy) : Prop :=
  ∃ past, inf.peer_addressList = some (shift past false list) ∧
    inf.peer_addressCount = list.length - list.countP IpaddrDummy.isLoopback

/-- The list fits into a capsule, and has another address than the loopback address. -/
structure Advertisable (list : List IpaddrDummy) : Prop where
  /-- The capsule has room for all the addresses. -/
  fits : HEADER_SPACE + list.length * ADDR_LEN ≤ CHUNK
  /-- Something is left when the loopback addresses are removed. -/
  reaches : ∃ a ∈ list, a.isLoopback = false

/-- The system calls of a host with the list succeed. -/
structure Env.Serves (list : List IpaddrDummy) (env : Env) : Prop where
  /-- None of them fails. -/
  succeeds : env.Succeeds
  /-- As many interfaces are counted as the list has addresses. -/
  infCount : env.InfCount list.length

/-- A list that comes in a datagram is learnt. -/
theorem learnt_receiveAddresses (hd : Announces bo list d) (hp : p.rxFactory.chunkSize = CHUNK) :
    (receiveAddresses env (Gateway.pulled bo env p d) q).interfaces.Learnt list := by
  have hlist := hd env p hp
  refine ⟨env.past, ?_, ?_⟩
  · rw [receiveAddresses_interfaces_peer_addressList, peerScan_eq]
    exact congrArg (fun l => some (shift env.past false l)) hlist
  · rw [receiveAddresses_interfaces_peer_addressCount, peerScan_eq]
    exact congrArg (fun l : List IpaddrDummy => (l.length : ℤ) - l.countP IpaddrDummy.isLoopback)
      hlist

namespace PhyInterfaces.Learnt

variable {inf : PhyInterfaces}

/-- An address is left unless all are loopback addresses. -/
theorem not_noAddress (h : inf.Learnt list) (hlist : Advertisable list) : ¬inf.NoAddress := by
  obtain ⟨past, hpeers, hcount⟩ := h
  obtain ⟨a, ha, hloop⟩ := hlist.reaches
  -- One address is not counted.
  have hlt : list.countP IpaddrDummy.isLoopback < list.length := by
    refine lt_of_le_of_ne List.countP_le_length fun heq => ?_
    have := List.countP_eq_length.1 heq a ha
    simp [hloop] at this
  rintro ⟨-, hzero⟩
  omega

end PhyInterfaces.Learnt

/-- The capsule with the list of the host announces it. -/
theorem announces_wire {cap : Capsule} {par : Params} {id : ℤ}
    (hfit : HEADER_SPACE + list.length * ADDR_LEN ≤ CHUNK) (hinf : env.InfCount list.length) :
    Announces bo list ((stamp (advertise env list cap) par id).wire bo) := fun env' _ hq =>
  addresses_pulled bo env hq hfit hinf rfl rfl env'

/-! ## The steps of a site -/

/-- The process has taken the addresses of its peer. -/
def Process.informed (p : Process) : Bool :=
  match p.session.dir, p.session.next with
  | .TX, .closed | .TX, .done | .RX, .connected | .RX, .closed | .RX, .done => true
  | .TX, .connected => p.session.complete
  | _, _ => false

/-- The process sends its addresses in its next step. -/
def Process.sendsAddresses (p : Process) : Bool :=
  match p.session.dir, p.session.next with
  | .TX, .setup | .RX, .connected => true
  | _, _ => false

/-- A site with the addresses `mine` has learnt `theirs`, once it has taken them. -/
structure Site.Informed (mine theirs : List IpaddrDummy) (s : Site) : Prop where
  /-- The list of the host is the one it was started with. -/
  own : s.conf.error = none → s.conf.state.interfaces.addressList = mine
  /-- Once the addresses of the peer were taken, they are learnt. -/
  peer : s.conf.error = none → s.conf.state.informed → s.conf.state.interfaces.Learnt theirs

/-- What a step does to the addresses. -/
theorem Session.Transition.informed (h : Transition bo env p c) (hst : Steady p)
    (hd : p.takesAddresses → ∀ d ∈ env.datagram, Announces bo theirs d)
    (hsetup : p.session.dir = .TX → p.session.next = .setup → p.session.complete = false)
    (hown : p.interfaces.addressList = mine)
    (hpeer : p.informed → p.interfaces.Learnt theirs) (hc : c.error = none) :
    c.state.interfaces.addressList = mine ∧
      (c.state.informed → c.state.interfaces.Learnt theirs) := by
  cases h with
  | halt | danglingLast | noAddressOk | danglingWindow => simp at hc
  | sendHello hdir =>
    have hdir' : (sentHello bo env p).session.dir = .RX := hdir
    have hnext' : (sentHello bo env p).session.next = .setup := rfl
    exact ⟨hown, fun hinf => by simp [Process.informed, hdir', hnext'] at hinf⟩
  | receiveHello hdir _ d =>
    have hdir' : (opened bo env d p).session.dir = .TX := hdir
    have hnext' : (opened bo env d p).session.next = .setup := rfl
    exact ⟨hown, fun hinf => by simp [Process.informed, hdir', hnext'] at hinf⟩
  | sendHi hdir hnext =>
    have hdir' : (sentHi bo env p).session.dir = .TX := hdir
    have hnext' : (sentHi bo env p).session.next = .connected := rfl
    have hcomplete : (sentHi bo env p).session.complete = false := hsetup hdir hnext
    exact ⟨hown, fun hinf => by simp [Process.informed, hdir', hnext', hcomplete] at hinf⟩
  | receiveHi hdir hnext d hd' =>
    have hann := hd (by rw [Process.takesAddresses, hdir, hnext]) d hd'
    exact ⟨(congrArg PhyInterfaces.addressList (interfaces_received bo env d)).trans hown,
      fun _ => learnt_receiveAddresses hann hst.chunkSize⟩
  | receiveAck hdir hnext d hd' =>
    have hann := hd (by rw [Process.takesAddresses, hdir, hnext]) d hd'
    exact ⟨(congrArg PhyInterfaces.addressList (interfaces_received bo env d)).trans hown,
      fun _ => learnt_receiveAddresses hann hst.chunkSize⟩
  | sendAck hdir hnext => exact ⟨hown, fun _ => hpeer (by rw [Process.informed, hdir, hnext])⟩
  | windowOver hnext =>
    refine ⟨hown, fun _ => hpeer ?_⟩
    cases hdir : p.session.dir <;> rw [Process.informed, hdir, hnext]
  | sendData hdir hnext => exact ⟨hown, fun _ => hpeer (by rw [Process.informed, hdir, hnext])⟩
  | receiveNothing hdir hnext _ d | receiveData hdir hnext _ d =>
    have hinter : (received bo env p d).interfaces = p.interfaces := interfaces_received bo env d
    exact hinter ▸ ⟨hown, fun _ => hpeer (by rw [Process.informed, hdir, hnext])⟩
  | receiveOk hdir hnext d =>
    have hinter : ((received bo env p d).popRx.endWindow p.txFactory.fin).interfaces =
        p.interfaces := interfaces_received bo env d
    exact hinter ▸ ⟨hown, fun _ => hpeer (by rw [Process.informed, hdir, hnext])⟩
  | sendOk hdir hnext =>
    have hinter : (sentOk bo env p).interfaces = p.interfaces := interfaces_written env
    exact hinter ▸ ⟨hown, fun _ => hpeer (by rw [Process.informed, hdir, hnext])⟩

/-- The addresses are sent. -/
theorem Session.Transition.announces (h : Transition bo env p c) (hio : p.io.sent = [])
    (hown : p.interfaces.addressList = mine) (hsends : p.sendsAddresses)
    (hfit : HEADER_SPACE + mine.length * ADDR_LEN ≤ CHUNK) (hinf : env.InfCount mine.length) :
    ∀ d ∈ c.state.out, Announces bo mine d := by
  subst hown
  cases h with
  | halt _ _ _ _ hio' => simp [Process.out, hio', hio]
  | sendHi =>
    -- The datagram is the capsule with the list, or is not sent at all.
    have hout : (sentHi bo env p).out ⊆ [(hi env p).wire bo] := by
      cases hs : env.sendto <;> simp [Process.out, sentHi, Process.sendControl, hs, hio]
    intro d hd
    rw [List.mem_singleton.1 (hout hd)]
    exact announces_wire hfit hinf
  | sendAck =>
    have hout : (sentAck bo env p).out ⊆ [(ack env p).wire bo] := by
      cases hs : env.sendto <;> simp [Process.out, sentAck, newId, Process.sendControl, hs, hio]
    intro d hd
    rw [List.mem_singleton.1 (hout hd)]
    exact announces_wire hfit hinf
  | sendHello hdir hnext | receiveHello hdir hnext | receiveHi hdir hnext | receiveAck hdir hnext
  | sendData hdir hnext | receiveNothing hdir hnext | receiveData hdir hnext
  | danglingLast hdir hnext | receiveOk hdir hnext | sendOk hdir hnext | noAddressOk hdir hnext
  | danglingWindow hdir hnext => simp [Process.sendsAddresses, hdir, hnext] at hsends
  | windowOver hnext =>
    cases hdir : p.session.dir <;> simp [Process.sendsAddresses, hdir, hnext] at hsends

/-! ## The exchange -/

/-- The datagrams with the addresses bring those of the side that sends them. -/
def Brings (bo : ByteOrder) (txList rxList : List IpaddrDummy) (d : List Byte) : Msg → Prop
  | .hi => Announces bo txList d
  | .ack _ => Announces bo rxList d
  | .hello | .data _ | .ok => True

/-- What a datagram stands for, and the addresses it brings. -/
abbrev Tells (bo : ByteOrder) (f : File) (txList rxList : List IpaddrDummy) (d : List Byte)
    (m : Msg) : Prop := Means bo f d m ∧ Brings bo txList rxList d m

/-- In the phase `hi` a process is in the state `setup`. -/
theorem next_of_phase_hi (h : phase p = .hi) : p.session.next = .setup := by
  cases hnext : p.session.next with
  | setup => rfl
  | connected => cases hc : p.session.complete <;> simp [phase, hnext, hc] at h
  | «open» | closed | done | inq | send | recv => simp [phase, hnext] at h

/-- In the phase `ack` a process is in the state `connected`. -/
theorem next_of_phase_ack (h : phase p = .ack) : p.session.next = .connected := by
  cases hnext : p.session.next with
  | connected => rfl
  | «open» | setup | closed | done | inq | send | recv => simp [phase, hnext] at h

/-- A sender sends its addresses in the phase `hi`, and chunks later. -/
theorem mem_step_sender {src : Protocol.Source} {i : Input} {m : Option Msg} {t : Sender} {m' : Msg}
    (h : m' ∈ (t.step src i m).2) : m' = .hi ∧ t.phase = .hi ∨ ∃ k, m' = .data k := by
  cases hh : t.halted with
  | true => simp [Sender.step, hh] at h
  | false =>
    cases hp : t.phase with
    | hello | finished => cases m <;> simp [Sender.step, hh, hp] at h
    | hi => cases hworks : i.works <;> simp [Sender.step, hh, hp, hworks] at h; exact .inl ⟨h, rfl⟩
    | ack => rcases m with - | (_ | _ | _ | _ | _) <;> simp [Sender.step, hh, hp] at h
    | ok => cases m <;> cases hfin : src.complete t.sent <;> simp [Sender.step, hh, hp, hfin] at h
    | data =>
      right
      by_cases hwin : t.win = 0
      · simp [Sender.step, hh, hp, hwin] at h
      cases hstop : src.exhausted t.sent || !t.reaches || !i.works with
      | true => simp [Sender.step, hh, hp, hwin, hstop] at h
      | false =>
        simp only [Sender.step, hh, hp, hwin, hstop, Bool.false_eq_true, if_false] at h
        exact ⟨_, List.mem_singleton.1 h⟩

/-- A receiver sends its addresses in the phase `ack`. -/
theorem mem_step_receiver {src : Protocol.Source} {i : Input} {m : Option Msg} {r : Receiver}
    {m' : Msg} (h : m' ∈ (r.step src i m).2) :
    m' = .hello ∨ m' = .ok ∨ m' = .ack 5 ∧ r.phase = .ack := by
  cases hh : r.halted with
  | true => simp [Receiver.step, hh] at h
  | false =>
    cases hp : r.phase with
    | hello => simp [Receiver.step, hh, hp] at h; exact .inl h.2
    | hi | finished => cases m <;> simp [Receiver.step, hh, hp] at h
    | ack =>
      cases hreaches : r.reaches <;> simp [Receiver.step, hh, hp, hreaches] at h
      exact .inr (.inr ⟨h.2, rfl⟩)
    | data =>
      by_cases hwin : r.win = 0 <;> rcases m with - | (_ | _ | _ | _ | _) <;>
        simp [Receiver.step, hh, hp, hwin] at h
    | ok => simp [Receiver.step, hh, hp] at h; exact .inr (.inl h.2)

/-- A step of a site keeps what it knows, and announces its own addresses. -/
theorem Site.Informed.step (bo : ByteOrder) {dir : StateDirection} {s : Site}
    (h : s.Informed mine theirs) (hs : s.Steady dir) (halive : s.conf.Alive Process.returned)
    (hsetup : dir = .TX → s.conf.state.session.next = .setup →
      s.conf.state.session.complete = false)
    {d : Option (List Byte)}
    (hd : s.conf.state.takesAddresses → ∀ d' ∈ d, Announces bo theirs d')
    (hfit : HEADER_SPACE + mine.length * ADDR_LEN ≤ CHUNK) (hinf : env.InfCount mine.length) :
    (s.step bo env d).1.Informed mine theirs ∧
      (s.conf.state.sendsAddresses → ∀ d' ∈ (s.step bo env d).2, Announces bo mine d') := by
  obtain ⟨hst, rfl⟩ := hs halive.1
  have htr := transition_exec bo { env with datagram := d } hst
  have hown : s.conf.state.clear.interfaces.addressList = mine := h.own halive.1
  rw [step_of_alive halive]
  have hafter
      (hc : (Conf.exec (Session.step bo) { env with datagram := d } s.conf.state).error = none) :=
    htr.informed hst.clear hd hsetup hown (h.peer halive.1) hc
  exact ⟨⟨fun hc => (hafter hc).1, fun hc => (hafter hc).2⟩,
    fun hsends => htr.announces rfl hown hsends hfit hinf⟩

/-- The addresses that a sender takes are those of the receiver. -/
theorem Site.PlaysSender.announced {s : Site} {t : Sender} {d : Option (List Byte)} {m : Option Msg}
    (h : s.PlaysSender bo f t) (halive : s.conf.Alive Process.returned)
    (hdm : Option.Rel (Tells bo f txList rxList) d m) (hexp : ∀ m' ∈ m, t.Expects m') :
    s.conf.state.takesAddresses → ∀ d' ∈ d, Announces bo rxList d' := by
  intro htakes d' hd'
  obtain ⟨-, -, hdir, hat, hcomplete⟩ := h.of_alive halive
  have hnext : s.conf.state.session.next = .connected := by
    cases hnext : s.conf.state.session.next <;>
      simp [Process.takesAddresses, hdir, hnext] at htakes
    rfl
  have hack : t.phase = .ack := by simp [hat.phase_eq, phase, hnext, hcomplete hnext]
  cases hdm with
  | none => cases hd'
  | some hrel =>
    obtain ⟨win, rfl⟩ := hexp _ rfl hack
    obtain rfl := Option.some.inj hd'
    exact hrel.2

/-- The addresses that a receiver takes are those of the sender. -/
theorem Site.PlaysReceiver.announced {ok : Env → Prop} {s : Site} {r : Receiver}
    {d : Option (List Byte)} {m : Option Msg} (h : s.PlaysReceiver bo ok f r)
    (halive : s.conf.Alive Process.returned) (hdm : Option.Rel (Tells bo f txList rxList) d m)
    (hexp : ∀ m' ∈ m, r.Expects m') :
    s.conf.state.takesAddresses → ∀ d' ∈ d, Announces bo txList d' := by
  intro htakes d' hd'
  obtain ⟨-, -, hdir, hat, -⟩ := h.of_alive halive
  have hnext : s.conf.state.session.next = .setup := by
    cases hnext : s.conf.state.session.next <;>
      simp [Process.takesAddresses, hdir, hnext] at htakes
    rfl
  have hhi : r.phase = .hi := by rw [hat.phase_eq, phase, hnext]
  cases hdm with
  | none => cases hd'
  | some hrel =>
    obtain rfl := (hexp _ rfl).1 hhi
    obtain rfl := Option.some.inj hd'
    exact hrel.2

/-- The sender plays its part, and sends its addresses and keeps those of its peer. -/
theorem sends_tells (bo : ByteOrder) (f : File) {ok : Env → Prop}
    (hok : ∀ env, ok env → env.InfCount txList.length)
    (hfit : HEADER_SPACE + txList.length * ADDR_LEN ≤ CHUNK) :
    Simulates (Site.machine bo) (sender f.toSource) ok Works (Tells bo f txList rxList)
      Sender.Expects fun s t => s.PlaysSender bo f t ∧ s.Informed txList rxList := by
  refine (sends bo _ f).and (Q := fun s _ => s.Informed txList rxList) ?_
  intro s t env d m k hplays hinf henv hdm haw hexp hplays' hout
  have hphase {m' : Msg} (hm' : m' ∈ (t.step f.toSource k m).2) := mem_step_sender hm'
  by_cases halive : s.conf.Alive Process.returned
  swap
  · have hstep : (Site.machine bo).step env d s = (s, []) := Site.step_of_not_alive halive env d
    rw [hstep] at hout ⊢
    exact ⟨hinf, forall₂_of_forall hout (by simp)⟩
  obtain ⟨-, -, hdir, hat, -⟩ := hplays.of_alive halive
  have hd := hplays.announced halive hdm hexp
  have hsetup : StateDirection.TX = .TX → s.conf.state.session.next = .setup →
      s.conf.state.session.complete = false := fun _ hnext => (hat.sending.opening (.inr hnext)).2
  obtain ⟨hinf', hann⟩ := hinf.step bo hplays.steady halive hsetup hd hfit (hok env henv)
  refine ⟨hinf', forall₂_of_forall hout fun d' hd' m' hm' => ?_⟩
  rcases hphase hm' with ⟨rfl, hp⟩ | ⟨j, rfl⟩
  · have hnext := next_of_phase_hi (hat.phase_eq.symm.trans hp)
    exact hann (by rw [Process.sendsAddresses, hdir, hnext]) d' hd'
  · trivial

/-- The receiver plays its part, and sends its addresses and keeps those of its peer. -/
theorem receives_tells (bo : ByteOrder) (f : File) {ok : Env → Prop}
    (hok : ∀ env, ok env → env.InfCount rxList.length)
    (hdatagram : ∀ env d, ok env → ok { env with datagram := d })
    (hfit : HEADER_SPACE + rxList.length * ADDR_LEN ≤ CHUNK) :
    Simulates (Site.machine bo) (receiver f.toSource) ok Works (Tells bo f txList rxList)
      Receiver.Expects fun s r => s.PlaysReceiver bo ok f r ∧ s.Informed rxList txList := by
  refine (receives bo f hdatagram).and (Q := fun s _ => s.Informed rxList txList) ?_
  intro s r env d m k hplays hinf henv hdm haw hexp hplays' hout
  have hphase {m' : Msg} (hm' : m' ∈ (r.step f.toSource k m).2) := mem_step_receiver hm'
  by_cases halive : s.conf.Alive Process.returned
  swap
  · have hstep : (Site.machine bo).step env d s = (s, []) := Site.step_of_not_alive halive env d
    rw [hstep] at hout ⊢
    exact ⟨hinf, forall₂_of_forall hout (by simp)⟩
  obtain ⟨-, -, hdir, hat, -⟩ := hplays.of_alive halive
  have hd := hplays.announced halive hdm hexp
  have hsetup : StateDirection.RX = .TX → s.conf.state.session.next = .setup →
      s.conf.state.session.complete = false := fun hdir => by cases hdir
  obtain ⟨hinf', hann⟩ := hinf.step bo hplays.steady halive hsetup hd hfit (hok env henv)
  refine ⟨hinf', forall₂_of_forall hout fun d' hd' m' hm' => ?_⟩
  rcases hphase hm' with rfl | rfl | ⟨rfl, hp⟩
  · trivial
  · trivial
  · have hnext := next_of_phase_ack (hat.phase_eq.symm.trans hp)
    exact hann (by rw [Process.sendsAddresses, hdir, hnext]) d' hd'

/-- At the start a side has taken nothing. -/
theorem informed_init (dir : StateDirection) (statics : Statics) (mine theirs : List IpaddrDummy)
    (source sink : DataSource) :
    Site.Informed mine theirs { conf := { state := .init dir statics mine source sink } } where
  own := fun _ => rfl
  peer := fun _ h => by cases dir <;> simp [Process.init, Process.informed] at h

namespace Exchange

variable {txStatics rxStatics : Statics} {sink source : DataSource} {fileSize : ℕ}
  {sched : ℕ → Env × Event}

/-- The exchange at the moment `n`. -/
abbrev trace (bo : ByteOrder) (s₀ : Exchange) (sched : ℕ → Env × Event) (n : ℕ) : Exchange :=
  Network.run (Site.machine bo) (Site.machine bo) s₀ sched n

/-- A sender and a receiver of the file, at the start of their sessions. -/
abbrev fileExchange (f : File) (txStatics rxStatics : Statics) (txList rxList : List IpaddrDummy)
    (sink source : DataSource) (fileSize : ℕ) : Exchange :=
  start (fileSender f txStatics txList sink) (fileReceiver rxStatics rxList source fileSize)

/-- What a site knows of the addresses of its peer, if it has taken them. -/
def Knows (s : Site) (theirs : List IpaddrDummy) : Prop :=
  s.conf.error = none → s.conf.state.informed →
    s.conf.state.interfaces.peer_addressCount =
      theirs.length - theirs.countP IpaddrDummy.isLoopback ∧
    (s.conf.state.interfaces.peers = (theirs.filter fun a => !a.isLoopback) ↔ LoopbacksLast theirs)

/-- What is learnt is what the loop leaves: the right addresses, if the loopback addresses but
    the first one come last. -/
theorem knows_of_informed {s : Site} (h : s.Informed mine theirs) : Knows s theirs :=
  fun hc hinformed => by
    obtain ⟨past, hpeers, hcount⟩ := h.peer hc hinformed
    refine ⟨hcount, ?_⟩
    have hle : theirs.countP IpaddrDummy.isLoopback ≤ theirs.length := List.countP_le_length
    have hnat : s.conf.state.interfaces.peer_addressCount.toNat =
        theirs.length - theirs.countP IpaddrDummy.isLoopback := by omega
    rw [PhyInterfaces.peers, hpeers, hnat]
    exact take_shift_iff theirs

/-- Copies of data capsules are copies of data messages. -/
theorem arbitrary_of_meets {S : Site → Receiver → Prop} {T : Site → Sender → Prop} {s : Exchange}
    {s' : Net} (hb : Basic f.toSource s') (hrel : Network.Rel (Tells bo f txList rxList) T S s s')
    {e : Event} (he : Network.Arbitrary (fun _ => IsCapsule bo) s e) :
    Network.Arbitrary CopiesData s' e := by
  cases e with
  | tx | loseTx | loseRx | failTx | failRx => exact he
  | rx dl =>
    cases dl with
    | flight i => trivial
    | copy j =>
      obtain ⟨d, hd, hcap⟩ := he
      have hget := Channel.rel_getElem? hrel.toRx.sent j
      rw [Option.mem_def.1 hd] at hget
      generalize hm : s'.toRx.sent[j]? = o at hget
      cases hget with
      | some hdm =>
        refine ⟨_, hm, ?_⟩
        rcases hb.data_of_mem_sent (List.mem_of_getElem? hm) with rfl | ⟨k, -, rfl⟩
        exacts [absurd hcap (not_isCapsule_hi hdm.1), ⟨k, rfl⟩]

/-- At the start both sides play their part, and have taken nothing. -/
theorem tells_start {ok : Env → Prop} : Network.Rel (Tells bo f txList rxList)
    (fun s t => s.PlaysSender bo f t ∧ s.Informed txList rxList)
    (fun s r => s.PlaysReceiver bo ok f r ∧ s.Informed rxList txList)
    (fileExchange f txStatics rxStatics txList rxList sink source fileSize) Net.start where
  tx := ⟨playsSender_start bo f txStatics txList sink, informed_init _ _ _ _ _ _⟩
  rx := ⟨playsReceiver_start bo _ f rxStatics rxList source fileSize, informed_init _ _ _ _ _ _⟩
  toTx := ⟨.nil, .nil, .nil⟩
  toRx := ⟨.nil, .nil, .nil⟩

/-- In every run, each side has learnt the addresses of its peer, if it has taken them. -/
theorem informed_of_isRun (htx : HEADER_SPACE + txList.length * ADDR_LEN ≤ CHUNK)
    (hrx : HEADER_SPACE + rxList.length * ADDR_LEN ≤ CHUNK)
    (h : Network.IsRun (Site.machine bo) (Site.machine bo) (Env.InfCount · txList.length)
      (Env.InfCount · rxList.length) (Network.Arbitrary fun _ => IsCapsule bo)
      (fileExchange f txStatics rxStatics txList rxList sink source fileSize) sched) (n : ℕ) :
    (trace bo (fileExchange f txStatics rxStatics txList rxList sink source fileSize) sched
      n).tx.Informed txList rxList ∧
    (trace bo (fileExchange f txStatics rxStatics txList rxList sink source fileSize) sched
      n).rx.Informed rxList txList := by
  have hstart := @tells_start bo f txList rxList txStatics rxStatics sink source fileSize
    (Env.InfCount · rxList.length)
  have hbasic {s' : Net} (hs' : Net.Reached f.toSource (Network.Arbitrary CopiesData) s') :
      Basic f.toSource s' := hs'.basic fun _ _ => id
  obtain ⟨s', -, hrel⟩ := h.simulated (sends_tells bo f (fun _ => id) htx)
    (receives_tells bo f (fun _ => id) (fun _ _ => id) hrx) hstart
    (fun _ _ _ hs' hrel he => arbitrary_of_meets (hbasic hs') hrel he)
    (fun _ _ hs' he => (hbasic hs').expected he) (fun _ _ _ _ => trivial)
    default trivial n
  exact ⟨hrel.tx.2, hrel.rx.2⟩

/-- In every run, whatever is lost or reordered and however often data capsules are copied, each
    side that has taken the addresses has counted those of its peer but the loopback addresses,
    and has got them right exactly if the loopback addresses but the first one come last. -/
theorem knows_of_isRun {s₀ : Exchange}
    (h₀ : s₀ = fileExchange f txStatics rxStatics txList rxList sink source fileSize)
    (htx : HEADER_SPACE + txList.length * ADDR_LEN ≤ CHUNK)
    (hrx : HEADER_SPACE + rxList.length * ADDR_LEN ≤ CHUNK)
    (h : Network.IsRun (Site.machine bo) (Site.machine bo) (Env.InfCount · txList.length)
      (Env.InfCount · rxList.length) (Network.Arbitrary fun _ => IsCapsule bo) s₀ sched) (n : ℕ) :
    Knows (trace bo s₀ sched n).tx rxList ∧ Knows (trace bo s₀ sched n).rx txList := by
  subst h₀
  obtain ⟨hinfTx, hinfRx⟩ := informed_of_isRun htx hrx h n
  exact ⟨knows_of_informed hinfTx, knows_of_informed hinfRx⟩

/-- A host at `"10.0.0.1"` can be reached. -/
theorem advertisable_private10 : Advertisable [SessionProcessor.private10] :=
  ⟨by decide, SessionProcessor.private10, List.mem_singleton_self _, by decide⟩

/-- The sites take turns. -/
def turns (n : ℕ) : Env × Event :=
  (Env.plain none [1, 1, 1], if n % 2 = 0 then .rx (.flight 0) else .tx (.flight 0))

/-- Taking turns delivers the first datagram that is under way. -/
theorem inOrder_turns (s : Exchange) (n : ℕ) : Network.InOrder s (turns n).2 := by
  rw [turns]
  split_ifs
  exacts [rfl, rfl]

/-- Taking turns is a run of a network without losses. -/
theorem isRun_turns (s₀ : Exchange) : Network.IsRun (Site.machine .little) (Site.machine .little)
    (Env.InfCount · 1) (Env.InfCount · 1) (Network.Arbitrary fun _ => IsCapsule .little) s₀
    turns where
  suits := fun n => by
    rw [turns]
    split_ifs
    exacts [⟨by decide, by simp [Env.plain]⟩, ⟨by decide, by simp [Env.plain]⟩]
  may := fun n => (inOrder_turns _ n).unordered.arbitrary

/-- The exchange of one byte between a sender with two loopback addresses and a receiver with
    one. -/
def loopbackExchange : Exchange :=
  fileExchange oneByteFile {} {}
    [SessionProcessor.loopback, SessionProcessor.loopback, SessionProcessor.private10]
    [SessionProcessor.loopback, SessionProcessor.private10] { fmode := .OUT, fs := {} }
    { fmode := .IN, fs := {} } 0

/-- Their sites take turns. -/
def loopbackTurns (n : ℕ) : Env × Event :=
  (Env.plain none (if n % 2 = 0 then [2, 2, 2, 2] else [3, 3, 3, 3, 3]), (turns n).2)

/-- The same for these hosts, with their numbers of interfaces. -/
theorem isRun_loopbackTurns : Network.IsRun (Site.machine .little) (Site.machine .little)
    (Env.InfCount · 3) (Env.InfCount · 2) (Network.Arbitrary fun _ => IsCapsule .little)
    loopbackExchange loopbackTurns where
  suits := fun n => by
    rw [loopbackTurns, turns]
    split_ifs
    exacts [⟨by decide, by simp [Env.plain]⟩, ⟨by decide, by simp [Env.plain]⟩]
  may := fun n => (inOrder_turns _ n).unordered.arbitrary

/-- After their handshake, the sender knows the address of the receiver, whose loopback address is
    removed. The receiver counts one address of the sender, but it is not the right one. -/
theorem knows_loopbacks :
    let s := trace .little loopbackExchange loopbackTurns 12
    s.tx.conf.state.interfaces.peers = [SessionProcessor.private10] ∧
      s.rx.conf.state.interfaces.peer_addressCount = 1 ∧
      s.rx.conf.state.interfaces.peers ≠ [SessionProcessor.private10] := by
  intro s
  have hinformed : (s.tx.conf.error = none ∧ s.tx.conf.state.informed) ∧
      s.rx.conf.error = none ∧ s.rx.conf.state.informed := by decide +kernel
  obtain ⟨htx, hrx⟩ := @knows_of_isRun .little oneByteFile
    [SessionProcessor.loopback, SessionProcessor.loopback, SessionProcessor.private10]
    [SessionProcessor.loopback, SessionProcessor.private10] {} {} { fmode := .OUT, fs := {} }
    { fmode := .IN, fs := {} } 0 loopbackTurns loopbackExchange rfl (by decide) (by decide)
    isRun_loopbackTurns 12
  obtain ⟨-, hright⟩ := htx hinformed.1.1 hinformed.1.2
  obtain ⟨hcount, hwrong⟩ := hrx hinformed.2.1 hinformed.2.2
  refine ⟨hright.2 (by rw [LoopbacksLast]; decide), hcount, fun heq => ?_⟩
  have hlast := hwrong.1 heq
  rw [LoopbacksLast] at hlast
  exact absurd hlast (by decide)

end Exchange

end Udm
