import Udm.Exchange.Receiving
import Udm.Protocol.Ordered

/-!
# What gets into the sink

An exchange of a file does what a network of the protocol does (`simulated`): the
sink holds the chunks that the receiver of the protocol has stored. So what is known
of the protocol is known of the sink.

* `faithful`: if every datagram is delivered in order, the sink holds the windows that
  were acknowledged, and the whole file at the end;
* `intact_iff`: if datagrams are lost or reordered, a receiver that has returned has
  stored the file exactly if every data capsule was delivered;
* `prefix_of_copiesHeld`: if the receiver gets further copies of the data capsules in
  its window, the sink still holds the first bytes of the file.

How each of them goes:

* the network of the protocol is taken from `simulated`, with the relation `Plays`;
* its invariants (`Basic`, `Windows`, `Ordered`) say which chunks are stored;
* `sink_eq` and `flatMap_acked` turn chunks into the bytes of the sink.

The file `twoChunks`, of one byte more than a chunk, shows that the conditions are
needed. An exchange of it is too large to be evaluated, so only its handshake is
(`connected_twoChunks`), and the rest is a run of the protocol, which `exists_of_leads`
takes back to the exchange: `leads_lostFirst` loses the first capsule, `leads_lateCopy`
delivers a copy of it after its window was stored.
-/

namespace Udm

open Session Protocol

/-- The session of the process has returned. -/
def Site.Completed (t : Site) : Prop := t.conf.error = none ∧ t.conf.state.returned = true

-- The witnesses evaluate it.
instance (t : Site) : Decidable t.Completed := inferInstanceAs (Decidable (_ ∧ _))

/-- The writes to the sink succeed. -/
def Env.Stores (env : Env) : Prop := ∀ i, env.write i = .written

variable {bo : ByteOrder} {env : Env} {ok : Env → Prop} {f : File} {p : Process}
  {d d' : List Byte} {j k n : ℕ}

/-! ## The file and its chunks -/

/-- The first chunks are the first bytes. -/
theorem File.flatMap_chunk (f : File) (n : ℕ) :
    (List.range n).flatMap f.chunk = f.bytes.take (n * PAYLOAD) := Udm.flatMap_chunk _ _ n

/-- Chunks that are stored in order from the first one on are a prefix of the file. -/
theorem File.prefix_flatMap_chunk (f : File) (n : ℕ) :
    (List.range n).flatMap f.chunk <+: f.bytes := f.flatMap_chunk n ▸ List.take_prefix _ _

/-- A complete sequence of chunks ends with the last chunk of the file, which is shorter than
    the others and not empty. A file of whole chunks has no complete sequence: the number of its
    chunks is never one more than that of a short chunk. -/
theorem File.endsIn_of_complete (h : f.toSource.complete n) : ∃ k, n = k + 1 ∧ f.EndsIn k := by
  cases n with
  | zero => simp [Source.complete] at h
  | succ k =>
    rw [Source.complete, File.last_toSource] at h
    exact ⟨k, rfl, of_decide_eq_true h⟩

/-- All the chunks are the file. -/
theorem File.flatMap_of_complete (h : f.toSource.complete n) :
    (List.range n).flatMap f.chunk = f.bytes := by
  obtain ⟨k, rfl, hend⟩ := File.endsIn_of_complete h
  rw [f.flatMap_chunk, List.take_of_length_le hend.2.le]

/-- No chunk is empty. -/
theorem File.chunk_ne_nil (f : File) (hk : k * PAYLOAD < f.bytes.length) : f.chunk k ≠ [] := by
  have hpos : 0 < PAYLOAD := by decide
  have hlen := length_chunk PAYLOAD f.bytes k
  refine List.ne_nil_of_length_pos ?_
  show 0 < (Udm.chunk PAYLOAD f.bytes k).length
  omega

/-- The data capsules hold the first chunks. -/
theorem Session.SentChunks.flatMap_payloadOf {ds : List (List Byte)} (h : SentChunks bo f ds) :
    ds.flatMap payloadOf = (List.range ds.length).flatMap f.chunk := by
  have hmap : ds.map payloadOf = (List.range ds.length).map f.chunk := by
    refine List.ext_getElem (by simp) fun i hi _ => ?_
    rw [List.length_map] at hi
    rw [List.getElem_map, List.getElem_map, List.getElem_range, (h i hi).payloadOf_eq]
  rw [List.flatMap_def, hmap, List.flatMap_def]

/-- The first data capsules hold the first chunks, too. -/
theorem Session.SentChunks.of_append {ds es : List (List Byte)} (h : SentChunks bo f (ds ++ es)) :
    SentChunks bo f ds := by
  intro i hi
  have := h i (by rw [List.length_append]; omega)
  rwa [List.getElem_append_left hi] at this

/-- A data capsule holds one chunk. -/
theorem means_data_unique (hj : Means bo f d (.data j)) (hk : Means bo f d (.data k)) : j = k :=
  capsuleOf_inj hj.2.2 hk.2.2 (hj.1.capid_eq_capsuleOf.symm.trans hk.1.capid_eq_capsuleOf)

/-- The addresses are not taken for data. -/
theorem not_isCapsule_hi (h : Means bo f d .hi) : ¬IsCapsule bo d := by
  intro hcap
  have := h.2.symm.trans hcap.2
  contradiction

/-! ## Sites that have returned -/

/-- A sender that has returned has finished in the protocol: a sender that has been stopped by
    an exception has not returned. -/
theorem Site.PlaysSender.finished {s : Site} {t : Sender} (h : s.PlaysSender bo f t)
    (hs : s.Completed) : t.phase = .finished := by
  rw [(h.alive hs.1).phase_eq]
  exact (phase_eq_finished (h.steady hs.1).1).2 hs.2

/-- The same for the receiver. -/
theorem Site.PlaysReceiver.finished {s : Site} {r : Receiver} (h : s.PlaysReceiver bo ok f r)
    (hs : s.Completed) : r.phase = .finished := by
  rw [(h.alive hs.1).phase_eq]
  exact (phase_eq_finished (h.steady hs.1).1).2 hs.2

/-- Conversely, a receiver that has finished in the protocol, and was not stopped, has returned. -/
theorem Site.PlaysReceiver.completed {s : Site} {r : Receiver} (h : s.PlaysReceiver bo ok f r)
    (hr : r.phase = .finished) (hhalted : r.halted = false) : s.Completed := by
  have hc : s.conf.error = none := by
    have := h.halted
    rw [hhalted] at this
    simpa using this.symm
  refine ⟨hc, (phase_eq_finished (h.steady hc).1).1 ?_⟩
  rw [← (h.alive hc).phase_eq]
  exact hr

namespace Exchange

/-! ## The simulation -/

/-- A sender of the file `f`. -/
def fileSender (f : File) (statics : Statics) (addressList : List IpaddrDummy)
    (sink : DataSource) : Process := .init .TX statics addressList f.source sink

/-- A receiver with an empty sink. -/
def fileReceiver (statics : Statics) (addressList : List IpaddrDummy) (source : DataSource)
    (fileSize : ℕ) : Process :=
  .init .RX statics addressList source { fmode := .OUT, fileSize, fs := {} }

/-- The exchange `s` of the file does what the network `s'` does. -/
abbrev Plays (bo : ByteOrder) (ok : Env → Prop) (f : File) : Exchange → Net → Prop :=
  Network.Rel (Means bo f) (Site.PlaysSender bo f) (Site.PlaysReceiver bo ok f)

variable {txStatics rxStatics : Statics} {txList rxList : List IpaddrDummy}
  {sink source : DataSource} {fileSize : ℕ} {s : Exchange} {s' : Net}

/-- At the start neither side has sent anything, so the network has no messages. -/
theorem plays_start (bo : ByteOrder) (ok : Env → Prop) (f : File) :
    Plays bo ok f (start (fileSender f txStatics txList sink)
      (fileReceiver rxStatics rxList source fileSize)) .start where
  tx := playsSender_start bo f txStatics txList sink
  rx := playsReceiver_start bo ok f rxStatics rxList source fileSize
  toTx := ⟨.nil, .nil, .nil⟩
  toRx := ⟨.nil, .nil, .nil⟩

/-- Every exchange of the file does what some network of the protocol does. -/
theorem simulated (hok : ∀ env d, ok env → ok { env with datagram := d })
    {may : Exchange → Event → Prop} (may' : Net → Event → Prop)
    (hdata : ∀ s' e, may' s' e → Network.Arbitrary CopiesData s' e)
    (hmay : ∀ s s' i e, Basic f.toSource s' → Plays bo ok f s s' → may s e →
      may' s' e ∨ s.step (Site.machine bo) (Site.machine bo) i e = s)
    (h : Reachable bo ok may (fileSender f txStatics txList sink)
      (fileReceiver rxStatics rxList source fileSize) s) :
    ∃ s', Net.Reached f.toSource may' s' ∧ Plays bo ok f s s' :=
  Network.Reachable.simulated (sends bo ok f) (receives bo f hok) (plays_start bo ok f)
    (fun s s' i e hs' hrel he => hmay s s' i e (Net.Reached.basic hdata hs') hrel he)
    (fun s' e hs' he => (Net.Reached.basic hdata hs').expected (hdata s' e he)) h

/-- The file of the exchange of one byte. -/
def oneByteFile : File := ⟨[7], by decide⟩

/-- In the plain environment every write succeeds. -/
theorem stores_plain {datagram : Option (List Byte)} {infCount : List ℕ} :
    (Env.plain datagram infCount).Stores := fun _ => rfl

/-! ## Delivery in order -/

/-- What an exchange in order guarantees: the sink holds the first bytes of the file, the
    windows that were acknowledged among them, and nothing else as long as the next one has not
    been started; a receiver that has returned has stored the file; and a sender only returns
    after its receiver. -/
structure Faithful (bo : ByteOrder) (f : File) (s : Exchange) : Prop where
  /-- What is in the sink is in its place of the file. -/
  isPrefix : s.rx.conf.state.sink <+: f.bytes
  /-- A window that the sender takes as stored is stored: the acknowledgement of a window is
      sent after it was written. -/
  acked : (s.tx.sentWindows bo).acked.flatten.flatMap payloadOf <+: s.rx.conf.state.sink
  /-- Between two windows, when the sender has taken the acknowledgement of the last one and
      sent nothing of the next, the two sides agree on what is stored. -/
  acked_eq : (s.tx.sentWindows bo).current = [] →
    s.rx.conf.state.sink = (s.tx.sentWindows bo).acked.flatten.flatMap payloadOf
  /-- A receiver returns only after the capsule with the flag, and the windows are in order. -/
  received : s.rx.Completed → s.rx.conf.state.sink = f.bytes
  /-- The sender returns with the acknowledgement of the last window, so the receiver has
      returned before. The receiver has then answered the hello and the ack, and each window
      once, and the sender has taken each of the answers. -/
  sent : s.tx.Completed → s.rx.Completed ∧ (∃ d ∈ s.toRx.delivered, IsCapsule bo d ∧ isFin bo d) ∧
    s.toTx.sent.length = s.rx.windows.length + 2 ∧ s.toTx.delivered = s.toTx.sent

/-- The chunks in the sink. -/
theorem sink_eq (hrel : Plays bo Env.Stores f s s') :
    s.rx.conf.state.sink = s'.rx.stored.flatMap f.chunk :=
  hrel.rx.stored.follows.eq (hrel.rx.stored.good fun _ h => h)

/-- The payloads of the windows that were acknowledged. -/
theorem flatMap_acked (hrel : Plays bo ok f s s') :
    (s.tx.sentWindows bo).acked.flatten.flatMap payloadOf =
      (List.range s'.tx.base).flatMap f.chunk := by
  rw [hrel.tx.counts.chunks.of_append.flatMap_payloadOf, hrel.tx.counts.base]

/-- The sender takes a datagram for each window it ends. -/
theorem length_acked {may : Exchange → Event → Prop} {tx rx : Process} (htx : Session.Steady tx)
    (hdir : tx.session.dir = .TX) (h : Reachable bo ok may tx rx s) :
    (s.tx.sentWindows bo).acked.length = (s.tx.decoded bo).length := by
  refine h.site_tx (P := fun t _ _ => (t.sentWindows bo).acked.length = (t.decoded bo).length)
    htx hdir rfl ?_
  intro env t ds es _ _ _ ih _ c _
  rw [Site.sentWindows_append, SentWindows.length_acked_step, ih, Site.decoded_append,
    List.length_append]
  congr 1
  split_ifs
  · cases env.datagram <;> rfl
  · rfl

/-- In order, the exchange is faithful. -/
theorem faithful (h : Reachable bo Env.Stores Network.InOrder (fileSender f txStatics txList sink)
    (fileReceiver rxStatics rxList source fileSize) s) : Faithful bo f s := by
  obtain ⟨s', hs', hrel⟩ := simulated (fun _ _ h => h) Network.InOrder
    (fun _ _ he => he.unordered.arbitrary) (fun _ _ _ _ _ _ he => .inl he) h
  have hb := hs'.basic (fun _ _ he => he.unordered.arbitrary)
  have hw := Net.Reached.windows (hs'.mono fun _ _ => Network.InOrder.unordered)
  have ho := Net.Reached.ordered (hs'.mono fun _ _ => Network.InOrder.duplicating)
  have hsink := sink_eq hrel
  have hacked := flatMap_acked hrel
  obtain ⟨hstored, hlen⟩ := ho.stored_eq
  rw [hstored] at hsink
  constructor
  · rw [hsink]
    exact f.prefix_flatMap_chunk _
  · rw [hsink, hacked, f.flatMap_chunk, f.flatMap_chunk]
    exact List.take_prefix_take_left (Nat.mul_le_mul_right _ (ho.base_le hw hb))
  · -- All the chunks that were sent are in windows that were acknowledged.
    intro hcurrent
    have hbase : s'.tx.base = s'.tx.sent := by
      have := hrel.tx.counts.sent
      rwa [SentWindows.all, hcurrent, List.append_nil, hrel.tx.counts.base] at this
    have heq : s'.rx.stored.length = s'.tx.base :=
      le_antisymm (hlen.trans hbase.ge) (ho.base_le hw hb)
    rw [hsink, hacked, heq]
  · intro hrx
    obtain ⟨hall, hcomplete⟩ := ho.finished hw hb (hrel.rx.finished hrx)
    rw [hsink, ← hstored, hall, File.flatMap_of_complete hcomplete]
  · intro htx
    obtain ⟨hrx, hwindows⟩ := ho.of_finished hw hb (hrel.tx.finished htx)
    refine ⟨hrel.rx.completed hrx (hs'.not_halted hrx), ?_, ?_⟩
    · obtain ⟨last, hmem, hlast⟩ := (hw.ending hrx).2
      obtain ⟨d, hd, hm⟩ := exists_of_forall₂ hrel.toRx.delivered ((hw.delivered last).2 (.inl hmem))
      refine ⟨d, hd, hm.1.capsule, ?_⟩
      rw [hm.1.isFin_eq]
      exact hlast
    -- The sender has taken as many datagrams as the receiver can have sent.
    -- Four counts meet here: each window is one datagram of the receiver and one that the sender
    -- has decoded, and each of these was delivered.
    have hfifo : s.toTx.delivered ++ s.toTx.flight = s.toTx.sent :=
      (Network.Reachable.fifo .start .start h).1
    have hsent := (length_sent (steady_init .RX rxStatics rxList source _) rfl h).2
    have hdec := length_decoded (steady_init .TX txStatics txList f.source sink) rfl rfl h
    have hlen := length_acked (steady_init .TX txStatics txList f.source sink) rfl h
    rw [hrel.tx.counts.acked, hwindows, ← hrel.rx.windows] at hlen
    have hall : s.rx.windows.length + 2 ≤ s.toTx.delivered.length := by
      refine hlen ▸ hdec.resolve_left fun hnil => ?_
      have hpos := hw.acked_pos (hrel.tx.finished htx)
      rw [hwindows, ← hrel.rx.windows, hlen, hnil] at hpos
      exact absurd hpos (lt_irrefl 0)
    have hflight := congrArg List.length hfifo
    rw [List.length_append] at hflight
    have hnil : s.toTx.flight = [] := List.eq_nil_of_length_eq_zero (by omega)
    rw [hnil, List.append_nil] at hfifo
    exact ⟨by rw [← hfifo]; omega, hfifo⟩

/-- The exchange of one byte: both sessions have returned. -/
theorem faithful_oneByte :
    (oneByteRun 12).tx.Completed ∧ Faithful .little oneByteFile (oneByteRun 12) :=
  ⟨by decide +kernel, faithful (reachable_oneByteRun stores_plain 12)⟩

/-! ## After the handshake

A run of the protocol that starts after the handshake is one of the exchange of a file,
if no address is missing. It is enough to look at the messages, whatever their bytes.
-/

/-- The events of the handshake. -/
def handshake : List Event :=
  [.rx (.flight 0), .tx (.flight 0), .tx (.flight 0), .rx (.flight 0), .rx (.flight 0),
    .tx (.flight 0)]

/-- The network after the handshake. -/
def handshaken (reaches : Bool) : Net where
  tx := { phase := .data, win := 5, reaches }
  rx := { phase := .data, win := 5 }
  toTx := { sent := [.hello, .ack 5], delivered := [.hello, .ack 5] }
  toRx := { sent := [.hi], delivered := [.hi] }

/-- The handshake fails only if an address is missing. -/
theorem leads_handshake (src : Protocol.Source) {may' : Net → Event → Prop}
    (hmay : ∀ s e, Network.InOrder s e → may' s e) (hname : env.getnameinfo = true)
    (hsend : env.sendto = true) :
    Network.Leads (sender src) (receiver src) (Works env) may'
      (fun s => s.rx.halted = true ∨ ∃ reaches, s = handshaken reaches) Net.start handshake := by
  refine ⟨hmay _ _ rfl, fun ⟨_, w₁⟩ h₁ => ⟨hmay _ _ rfl, fun ⟨_, w₂⟩ h₂ =>
    ⟨hmay _ _ rfl, fun ⟨_, w₃⟩ h₃ => ⟨hmay _ _ rfl, fun ⟨r₄, _⟩ _ =>
    ⟨hmay _ _ rfl, fun ⟨_, w₅⟩ h₅ => ⟨hmay _ _ rfl, fun ⟨r₆, _⟩ _ => ?_⟩⟩⟩⟩⟩⟩
  -- The system calls succeed, so none of the four sends is the one that stops its side; the two
  -- receptions may fail (`r₄`) or find an address missing (`r₆`).
  obtain rfl : w₁ = true := h₁ hname hsend
  obtain rfl : w₂ = true := h₂ hname hsend
  obtain rfl : w₃ = true := h₃ hname hsend
  obtain rfl : w₅ = true := h₅ hname hsend
  cases r₄ with
  | false => exact .inl rfl
  | true => exact .inr ⟨r₆, rfl⟩

/-- A file with one byte more than a chunk. -/
def twoChunks : File := ⟨List.replicate (PAYLOAD + 1) 0, by rw [List.length_replicate]; decide⟩

/-- Its length, in the form in which the sizes of the chunks use it. -/
theorem length_twoChunks : twoChunks.bytes.length = PAYLOAD + 1 := List.length_replicate

/-- A source that ends in the chunk `n`, with one byte of it. -/
def endingIn (n : ℕ) : Protocol.Source where
  last k := decide (k = n)
  exhausted k := decide (k = MAX_CHUNKS)

/-- The source of a file that is one byte longer than `n` chunks ends in the chunk `n`. It is
    exhausted at the limit of the queue only: at no multiple of a chunk the file ends. -/
theorem toSource_endingIn {n : ℕ} (hlen : f.bytes.length = n * PAYLOAD + 1) :
    f.toSource = endingIn n := by
  have hlen : f.bytes.length = n * 49138 + 1 := hlen
  refine congrArg₂ Protocol.Source.mk (funext fun k => ?_) (funext fun k => ?_)
  · refine decide_eq_decide.2 ?_
    show k * 49138 < f.bytes.length ∧ f.bytes.length < (k + 1) * 49138 ↔ k = n
    omega
  · refine decide_eq_decide.2 ?_
    show k * 49138 = f.bytes.length ∨ k = 43704 ↔ k = 43704
    omega

/-- The sender of `twoChunks`. The list of its addresses is that of a host at `"10.0.0.1"`. -/
def twoChunksSender : Process :=
  fileSender twoChunks {} [SessionProcessor.private10] { fmode := .OUT, fs := {} }

/-- Its receiver, at the same address. It knows nothing of the size of the file. -/
def twoChunksReceiver : Process :=
  fileReceiver {} [SessionProcessor.private10] { fmode := .IN, fs := {} } 0

/-- A sender of the file, at `"10.0.0.1"`. -/
def senderOf (f : File) : Process :=
  fileSender f {} [SessionProcessor.private10] { fmode := .OUT, fs := {} }

/-- Neither side has stopped in the handshake, and no address is missing. -/
def Connected (s : Exchange) : Prop :=
  s.tx.conf.error = none ∧ s.rx.conf.error = none ∧ s.tx.conf.state.session.next = .closed ∧
    ¬s.tx.conf.state.interfaces.NoAddress

instance (s : Exchange) : Decidable (Connected s) :=
  inferInstanceAs (Decidable (_ ∧ _ ∧ _ ∧ ¬_))

/-- The exchange of the file after the handshake. -/
def shaken (f : File) : Exchange :=
  Network.exec (Site.machine .little) (Site.machine .little) (start (senderOf f) twoChunksReceiver)
    (handshake.map fun e => (Env.plain none [1, 1, 1], e))

/-- Where the protocol leads after the handshake, an exchange of the file gets to. -/
theorem exists_of_leads {n : ℕ} (hlen : f.bytes.length = n * PAYLOAD + 1)
    (hgoes : Connected (shaken f)) {may : Exchange → Event → Prop} (may' : Net → Event → Prop)
    (hmay : ∀ s s' e, Plays .little Env.Stores f s s' → may' s' e → may s e)
    (hdata : ∀ s' e, may' s' e → Network.Arbitrary CopiesData s' e)
    (horder : ∀ s' e, Network.InOrder s' e → may' s' e) {P : Net → Prop} {es : List Event}
    (hes : Network.Leads (sender (endingIn n)) (receiver (endingIn n))
      (Works (.plain none [1, 1, 1])) may' P (handshaken true) es) :
    ∃ s s', Reachable .little Env.Stores may (senderOf f) twoChunksReceiver s ∧
      Plays .little Env.Stores f s s' ∧ P s' := by
  -- First the handshake, then, from `handshaken` on, the steps `es`.
  have henv : (Env.plain none [1, 1, 1]).Stores := fun _ => rfl
  have htx := sends .little Env.Stores f
  have hrx := receives .little f fun env d (h : env.Stores) => h
  have hexp := fun s' e (hs' : Net.Reached f.toSource may' s') he =>
    (hs'.basic hdata).expected (hdata s' e he)
  have hplays : Plays .little Env.Stores f (start (senderOf f) twoChunksReceiver) .start :=
    plays_start _ _ _
  have hstart : Reachable .little Env.Stores may (senderOf f) twoChunksReceiver _ := .init
  obtain ⟨s', hs', hreached', hreached, hrel⟩ := Network.Reachable.leads htx hrx hmay hexp henv
    hstart .init hplays (leads_handshake f.toSource horder rfl rfl)
  -- No address was missing.
  change Plays .little Env.Stores f (shaken f) s' at hrel
  change Network.Reachable _ _ _ _ _ (shaken f) at hreached
  generalize shaken f = s at hreached hrel hgoes
  obtain ⟨htxe, hrxe, hclosed, haddr⟩ := hgoes
  -- In the evaluated exchange the receiver has not stopped, so the network is past the handshake.
  obtain ⟨reaches, rfl⟩ := hs'.resolve_left fun hhalted => by
    have := hrel.rx.halted
    simp [hhalted, hrxe] at this
  obtain rfl : reaches = true := by
    rw [← decide_eq_true haddr]
    exact (hrel.tx.alive htxe).reaches (.inl hclosed)
  rw [← toSource_endingIn hlen] at hes
  obtain ⟨s'', hP, -, hs, hplays⟩ := Network.Reachable.leads htx hrx hmay hexp henv hreached
    hreached' hrel hes
  exact ⟨_, s'', hs, hplays, hP⟩

/-- The file of two chunks has one byte more than a chunk, and its handshake goes well. -/
theorem ends_twoChunks : twoChunks.bytes.length = 1 * PAYLOAD + 1 :=
  length_twoChunks.trans (congrArg (· + 1) (Nat.one_mul _).symm)

/-- The handshake is evaluated with the file as it is: it is the same for every file, but the
    state of the sender holds the source. -/
theorem connected_twoChunks : Connected (shaken twoChunks) := by decide +kernel

/-! ## Lost and reordered datagrams -/

/-- The data capsules were all delivered if all the chunks were. -/
theorem delivered_iff (hb : Basic f.toSource s') (hrel : Plays bo ok f s s') (hc : s.toRx.Honest)
    (hc' : s'.toRx.Honest) : (∀ d ∈ s.toRx.sent, IsCapsule bo d → d ∈ s.toRx.delivered) ↔
      ∀ k < s'.tx.sent, .data k ∈ s'.toRx.delivered := by
  -- A datagram with data means one message only: the handshake has no data, and the number of a
  -- chunk is in its capsule.
  have hdata {d : List Byte} {m : Msg} (hcap : IsCapsule bo d) (hm : m ∈ s'.toRx.sent)
      (hdm : Means bo f d m) : ∃ k < s'.tx.sent, m = .data k := by
    rcases hb.data_of_mem_sent hm with rfl | hdata
    exacts [absurd hcap (not_isCapsule_hi hdm), hdata]
  have hunique {d : List Byte} {k : ℕ} (hk : Means bo f d (.data k)) :
      ∀ m ∈ s'.toRx.sent, Means bo f d m → m = .data k := by
    intro m hm hdm
    obtain ⟨j, -, rfl⟩ := hdata hk.1.capsule hm hdm
    rw [means_data_unique hdm hk]
  constructor
  · intro hall k hk
    obtain ⟨d, hd, hdk⟩ := exists_of_forall₂ hrel.toRx.sent (hb.data_mem_sent hk)
    obtain ⟨m, hm, hdm⟩ := exists_of_forall₂ hrel.toRx.delivered.flip (hall d hd hdk.1.capsule)
    rwa [hunique hdk m (hc'.delivered hm) hdm] at hm
  · intro hall d hd hcap
    obtain ⟨m, hm, hdm⟩ := exists_of_forall₂ hrel.toRx.sent.flip hd
    obtain ⟨k, hk, rfl⟩ := hdata hcap hm hdm
    -- The message was delivered as a datagram `d'`, which may be another one than `d`. But no two
    -- messages that are sent are the same, so there is one datagram for `data k`.
    obtain ⟨d', hd', hdk'⟩ := exists_of_forall₂ hrel.toRx.delivered (hall k hk)
    have heq : d = d' := Channel.eq_of_forall₂ hrel.toRx.sent hb.nodup_sent hd (hc.delivered hd')
      (hunique hdm) (hunique hdk')
    rwa [heq]

/-- The sink holds the file if all the chunks are stored. -/
theorem sink_eq_bytes_iff (hw : Windows f.toSource s') (hb : Basic f.toSource s')
    (hrel : Plays bo Env.Stores f s s') (hrx : s'.rx.phase = .finished) :
    s.rx.conf.state.sink = f.bytes ↔ s'.rx.stored = List.range s'.tx.sent := by
  have hcomplete := hw.complete hb hrx
  have hall := File.flatMap_of_complete hcomplete
  rw [sink_eq hrel]
  constructor
  · intro heq
    -- The stored chunks are some of the sent ones, in their order. With all the bytes there, none
    -- is missing, as no chunk is empty.
    refine eq_of_length_flatMap_le hw.stored_sublist (fun k hk => ?_) (by rw [hall, heq])
    obtain ⟨last, hsent, hend⟩ := File.endsIn_of_complete hcomplete
    rw [List.mem_range, hsent, Nat.lt_succ_iff] at hk
    exact f.chunk_ne_nil ((Nat.mul_le_mul_right _ hk).trans_lt hend.1)
  · intro heq
    rw [heq, hall]

/-- When datagrams are lost or reordered, a receiver that has returned has stored the
    file exactly if all the data capsules were delivered. -/
theorem intact_iff (h : Reachable bo Env.Stores Network.Unordered
      (fileSender f txStatics txList sink) (fileReceiver rxStatics rxList source fileSize) s)
    (hrx : s.rx.Completed) : s.rx.conf.state.sink = f.bytes ↔
      ∀ d ∈ s.toRx.sent, IsCapsule bo d → d ∈ s.toRx.delivered := by
  obtain ⟨s', hs', hrel⟩ := simulated (fun _ _ h => h) Network.Unordered
    (fun _ _ => Network.Unordered.arbitrary) (fun _ _ _ _ _ _ he => .inl he) h
  have hb := hs'.basic fun _ _ => Network.Unordered.arbitrary
  have hw := Net.Reached.windows hs'
  have hfin := hrel.rx.finished hrx
  rw [sink_eq_bytes_iff hw hb hrel hfin, hw.stored_eq_iff hfin,
    delivered_iff hb hrel (Network.Reachable.honest .start .start h).2
      (Network.Reachable.honest .start .start hs').2]

/-- In the exchange of one byte, the only data capsule is delivered. -/
theorem intact_oneByte : (oneByteRun 11).rx.conf.state.sink = [7] ↔
    ∀ d ∈ (oneByteRun 11).toRx.sent, IsCapsule .little d → d ∈ (oneByteRun 11).toRx.delivered :=
  intact_iff (f := oneByteFile) ((reachable_oneByteRun stores_plain 11).mono
    fun _ _ => Network.InOrder.unordered) (by decide +kernel)

/-- Both capsules of the file are sent, and the first one is lost. -/
theorem leads_lostFirst :
    Network.Leads (sender (endingIn 1)) (receiver (endingIn 1)) (Works (.plain none [1, 1, 1]))
      Network.Unordered
      (fun s => s.rx.phase = .finished ∧ s.rx.halted = false ∧ s.rx.stored = [1]) (handshaken true)
      [.tx (.flight 0), .loseRx 0, .tx (.flight 0), .rx (.flight 0), .rx (.flight 0),
        .rx (.flight 0)] := by
  -- Each step is possible: a datagram is delivered from its place in flight, the loss is allowed.
  refine ⟨⟨0, rfl⟩, fun ⟨_, w₁⟩ h₁ => ⟨trivial, fun _ _ => ⟨⟨0, rfl⟩, fun ⟨_, w₂⟩ h₂ =>
    ⟨⟨0, rfl⟩, fun _ _ => ⟨⟨0, rfl⟩, fun _ _ => ⟨⟨0, rfl⟩, fun _ _ => ?_⟩⟩⟩⟩⟩⟩
  obtain rfl : w₁ = true := h₁ rfl rfl
  obtain rfl : w₂ = true := h₂ rfl rfl
  refine ⟨rfl, rfl, ?_⟩
  show Finset.sort {1} = [1]
  exact Finset.sort_singleton _ 1

/-- Of the two chunks, only the last one gets into the sink. -/
theorem not_intact_twoChunks :
    ¬∀ s, Reachable .little Env.Stores Network.Unordered twoChunksSender twoChunksReceiver s →
      s.rx.Completed → s.rx.conf.state.sink = twoChunks.bytes := by
  intro h
  obtain ⟨s, s', hs, hrel, hphase, hhalted, hstored⟩ :=
    exists_of_leads ends_twoChunks connected_twoChunks Network.Unordered (fun _ _ _ _ he => he)
      (fun _ _ => Network.Unordered.arbitrary) (fun _ _ => Network.InOrder.unordered)
      leads_lostFirst
  have hsink := h s hs (hrel.rx.completed hphase hhalted)
  rw [sink_eq hrel, hstored, List.flatMap_singleton] at hsink
  -- The sink holds one chunk at most, and the file is longer.
  have hle := Reads.length_chunk_le twoChunks 1
  rw [hsink, length_twoChunks] at hle
  exact absurd hle (Nat.not_succ_le_self _)

/-! ## Copies -/

/-- The data capsules that the receiver has in its window. -/
def CopiesHeld (bo : ByteOrder) (s : Exchange) (d : List Byte) : Prop :=
  IsCapsule bo d ∧ capid bo d ∈ s.rx.conf.state.rxcurrentWindow.keys

/-- Nothing happens to a receiver that has stopped. -/
theorem step_rx_of_error (hc : s.rx.conf.error ≠ none) (env : Env) (dl : Delivery) :
    s.step (Site.machine bo) (Site.machine bo) env (.rx dl) = s := by
  -- It awaits nothing, so the delivery changes no channel, and it makes no step.
  have hnot : ¬s.rx.conf.Alive Process.returned := fun halive => hc halive.1
  have hawaits : (Site.machine bo).awaits s.rx = false := by
    simp [Site.machine, Site.awaits, hnot]
  have hmove : (Site.machine bo).move env dl s.rx s.toRx = ((s.rx, []), s.toRx) := by
    rw [Machine.move, hawaits, if_neg Bool.false_ne_true]
    exact congrArg (·, s.toRx) (Site.step_of_not_alive hnot env none)
  simp only [Network.step, hmove, Channel.send_nil]

/-- A copy of a capsule in the window is one of a chunk in the window. -/
theorem copiesWindow (hb : Basic f.toSource s') (hrel : Plays bo ok f s s')
    (hc : s.rx.conf.error = none) {m : Msg} (hm : m ∈ s'.toRx.sent) (hdm : Means bo f d m)
    (hd : CopiesHeld bo s d) : CopiesWindow s' m := by
  obtain ⟨hcap, hkey⟩ := hd
  rcases hb.data_of_mem_sent hm with rfl | ⟨k, -, rfl⟩
  · exact absurd hcap (not_isCapsule_hi hdm)
  -- The key of the window is the capid of some chunk in it. The capids of the chunks of a file do
  -- not wrap, so that chunk is `k`.
  obtain ⟨b, hmem⟩ := OrdMap.mem_keys.1 hkey
  have hcollects := (hrel.rx.alive hc).collects
  obtain ⟨j, hj, hcapid, -⟩ := hcollects.mem _ hmem
  have hcapid : capsuleOf k = capsuleOf j := hdm.1.capid_eq_capsuleOf.symm.trans hcapid
  obtain rfl := capsuleOf_inj hdm.2.2 (hcollects.inside j hj).2 hcapid
  exact ⟨k, hj, rfl⟩

/-- A step that delivers such a copy is one that the protocol allows. If the receiver has
    stopped, its window says nothing about the protocol, but then the step changes nothing. -/
theorem duplicating (hb : Basic f.toSource s') (hrel : Plays bo ok f s s') (env : Env) {e : Event}
    (he : Network.Duplicating (CopiesHeld bo) s e) : Network.Duplicating CopiesWindow s' e ∨
      s.step (Site.machine bo) (Site.machine bo) env e = s := by
  cases e with
  | tx | loseTx | loseRx | failTx | failRx => exact .inl he
  | rx dl =>
    cases dl with
    | flight i => exact .inl he
    | copy j =>
      by_cases hc : s.rx.conf.error = none
      · obtain ⟨d, hd, hheld⟩ := he
        have hget := Channel.rel_getElem? hrel.toRx.sent j
        rw [Option.mem_def.1 hd] at hget
        generalize hm : s'.toRx.sent[j]? = o at hget
        cases hget with
        | some hdm =>
          exact .inl ⟨_, hm, copiesWindow hb hrel hc (List.mem_of_getElem? hm) hdm hheld⟩
      · exact .inr (step_rx_of_error hc env _)

/-- If the receiver gets the data capsules in order, and further copies of those in its
    window only, the sink holds the first bytes of the file. -/
theorem prefix_of_copiesHeld (h : Reachable bo (fun _ => True)
      (Network.Duplicating (CopiesHeld bo)) (fileSender f txStatics txList sink)
      (fileReceiver rxStatics rxList source fileSize) s) :
    s.rx.conf.state.sink <+: f.bytes := by
  obtain ⟨s', hs', hrel⟩ := simulated (fun _ _ h => h) (Network.Duplicating CopiesWindow)
    (fun _ _ => Network.Duplicating.arbitrary CopiesWindow.data)
    (fun _ _ env _ hb hrel he => duplicating hb hrel env he) h
  have hstored := (Net.Reached.ordered hs').stored_eq.1
  have hprefix := hrel.rx.stored.follows.isPrefix
  rw [hstored] at hprefix
  exact hprefix.trans (f.prefix_flatMap_chunk _)

/-- A chunk in the window is in a capsule that the receiver holds. -/
theorem copiesHeld (hrel : Plays bo ok f s s') (hc : s.rx.conf.error = none) {d : List Byte}
    {m : Msg} (hdm : Means bo f d m) (hm : CopiesWindow s' m) : CopiesHeld bo s d := by
  obtain ⟨k, hk, rfl⟩ := hm
  refine ⟨hdm.1.capsule, ?_⟩
  have hcapid : capid bo d = capsuleOf k := hdm.1.capid_eq_capsuleOf
  rw [hcapid]
  exact (hrel.rx.alive hc).collects.keys k hk

/-- The first chunk is in the window, and `n` further copies of it have come. -/
def copied (n : ℕ) : Net where
  tx := { phase := .data, sent := 1, win := 4 }
  rx := { phase := .data, window := {0}, win := 4 - n }
  toTx := { sent := [.hello, .ack 5], delivered := [.hello, .ack 5] }
  toRx := { sent := [.hi, .data 0], delivered := .hi :: .data 0 :: List.replicate n (.data 0) }

/-- The window with the first chunk was stored. -/
def storedFirst : Net where
  tx := { phase := .data, sent := 1, win := 4 }
  rx := { phase := .data, stored := Finset.sort {0}, win := 5, windows := 1 }
  toTx := { sent := [.hello, .ack 5, .ok], flight := [.ok], delivered := [.hello, .ack 5] }
  toRx := { sent := [.hi, .data 0], delivered := .hi :: List.replicate 5 (.data 0) }

/-- The first capsule of the file closes the first window with its copies. -/
theorem leads_copies {may' : Net → Event → Prop} (horder : ∀ s e, Network.InOrder s e → may' s e)
    (hcopy : ∀ n, may' (copied n) (.rx (.copy 1))) :
    Network.Leads (sender (endingIn 1)) (receiver (endingIn 1)) (Works (.plain none [1, 1, 1])) may'
      (fun s => s = storedFirst) (handshaken true)
      [.tx (.flight 0), .rx (.flight 0), .rx (.copy 1), .rx (.copy 1), .rx (.copy 1), .rx (.copy 1),
        .rx (.flight 0), .rx (.flight 0)] := by
  refine ⟨horder _ _ rfl, fun ⟨_, w⟩ h => ⟨horder _ _ rfl, fun _ _ => ?_⟩⟩
  obtain rfl : w = true := h rfl rfl
  -- Each copy takes one capsule off the window, and leaves its chunks as they are.
  show Network.Leads _ _ _ _ _ (copied 0) _
  refine ⟨hcopy 0, fun _ _ => ?_⟩
  show Network.Leads _ _ _ _ _ (copied 1) _
  refine ⟨hcopy 1, fun _ _ => ?_⟩
  show Network.Leads _ _ _ _ _ (copied 2) _
  refine ⟨hcopy 2, fun _ _ => ?_⟩
  show Network.Leads _ _ _ _ _ (copied 3) _
  refine ⟨hcopy 3, fun _ _ => ?_⟩
  show Network.Leads _ _ _ _ _ (copied 4) _
  -- The window is at 0: the next steps of the receiver write it and send its acknowledgement.
  refine ⟨horder _ _ rfl, fun _ _ => ⟨horder _ _ rfl, fun ⟨_, w⟩ h => ?_⟩⟩
  obtain rfl : w = true := h rfl rfl
  rfl

/-- In order, but for copies of the first chunk while it is in the window. -/
def FirstCopied (s : Net) (e : Event) : Prop :=
  Network.InOrder s e ∨ e = .rx (.copy 1) ∧ ∃ n, s = copied n

/-- The copies of the first chunk are copies of data. -/
theorem FirstCopied.arbitrary {s : Net} {e : Event} (h : FirstCopied s e) :
    Network.Arbitrary CopiesData s e := by
  rcases h with h | ⟨rfl, n, rfl⟩
  · exact h.unordered.arbitrary
  · exact ⟨.data 0, rfl, 0, rfl⟩

/-- The receiver has not stopped then, so it holds the capsule that is copied. -/
theorem FirstCopied.duplicating (hrel : Plays bo ok f s s') {e : Event} (h : FirstCopied s' e) :
    Network.Duplicating (CopiesHeld bo) s e := by
  rcases h with h | ⟨rfl, n, rfl⟩
  · have hin : Network.InOrder s e := h
    exact hin.duplicating
  · -- The error and the flag `halted` agree, and `copied n` is not halted.
    have hc : s.rx.conf.error = none := by simpa [copied] using hrel.rx.halted
    have hm : (copied n).toRx.sent[1]? = some (.data 0) := rfl
    have hget := Channel.rel_getElem? hrel.toRx.sent 1
    rw [hm] at hget
    generalize hd : s.toRx.sent[1]? = o at hget
    cases hget with
    | some hdm =>
      exact ⟨_, hd, copiesHeld hrel hc hdm ⟨0, Finset.mem_singleton_self 0, rfl⟩⟩

/-- Four copies of the first capsule come into its window, which is stored: the sink has the first
    chunk, once. -/
theorem prefix_copies : ∃ s, Reachable .little (fun _ => True)
      (Network.Duplicating (CopiesHeld .little)) twoChunksSender twoChunksReceiver s ∧
    s.toRx.delivered.length = s.toRx.sent.length + 4 ∧
    s.rx.conf.state.sink.length = PAYLOAD ∧ s.rx.conf.state.sink <+: twoChunks.bytes := by
  obtain ⟨s, _, hs, hrel, rfl⟩ := exists_of_leads ends_twoChunks connected_twoChunks FirstCopied
    (fun _ _ _ hrel he => he.duplicating hrel) (fun _ _ he => he.arbitrary) (fun _ _ he => .inl he)
    (leads_copies (fun _ _ he => .inl he) fun n => .inr ⟨rfl, n, rfl⟩)
  -- The numbers of messages are those of the datagrams, so they are read off `storedFirst`.
  refine ⟨s, hs.mono_ok fun _ _ => trivial, ?_, ?_,
    prefix_of_copiesHeld (f := twoChunks) (hs.mono_ok fun _ _ => trivial)⟩
  · rw [hrel.toRx.delivered.length_eq, hrel.toRx.sent.length_eq]
    rfl
  · have hfirst : (twoChunks.chunk 0).length = PAYLOAD :=
      length_chunk_of_le (by rw [length_twoChunks]; omega)
    have hstored : storedFirst.rx.stored = [0] := Finset.sort_singleton _ 0
    rw [sink_eq hrel, hstored, List.flatMap_singleton, hfirst]

/-- Both chunks are in the window again. -/
def bothAgain : Net where
  tx := { phase := .data, sent := 2, win := 0 }
  rx := { phase := .data, stored := Finset.sort {0}, window := {1, 0}, win := 0, windows := 1 }
  toTx := { sent := [.hello, .ack 5, .ok], flight := [.ok], delivered := [.hello, .ack 5] }
  toRx := { sent := [.hi, .data 0, .data 1],
            delivered := .hi :: List.replicate 6 (.data 0) ++ [.data 1] }

/-- A further copy of the first capsule gets into the next window. -/
theorem leads_lateCopy :
    Network.Leads (sender (endingIn 1)) (receiver (endingIn 1)) (Works (.plain none [1, 1, 1]))
      (Network.Duplicating CopiesData) (fun s => s.rx.stored = [0, 0, 1]) (handshaken true)
      ([.tx (.flight 0), .rx (.flight 0), .rx (.copy 1), .rx (.copy 1), .rx (.copy 1),
        .rx (.copy 1), .rx (.flight 0), .rx (.flight 0)] ++
        [.tx (.flight 0), .rx (.copy 1), .rx (.flight 0), .rx (.flight 0), .rx (.flight 0)]) := by
  have hcopy : ∃ m ∈ some (Msg.data 0), ∃ k, m = .data k := ⟨_, rfl, 0, rfl⟩
  refine (@leads_copies (Network.Duplicating CopiesData) (fun _ _ => Network.InOrder.duplicating)
    fun _ => hcopy).append ?_
  rintro _ rfl
  refine ⟨⟨0, rfl⟩, fun ⟨_, w⟩ h => ?_⟩
  obtain rfl : w = true := h rfl rfl
  refine ⟨hcopy, fun _ _ => ⟨rfl, fun _ _ => ?_⟩⟩
  show Network.Leads _ _ _ _ _ bothAgain _
  refine ⟨rfl, fun _ _ => ⟨rfl, fun _ _ => ?_⟩⟩
  show Finset.sort {0} ++ Finset.sort {1, 0} = [0, 0, 1]
  -- The second window is `{0, 1}`: the copy is stored again, before the second chunk.
  have hboth : ({1, 0} : Finset ℕ) = Finset.Ico 0 2 := by decide
  have hrange := range_append_sort (Nat.zero_le 2)
  rw [Finset.sort_singleton, hboth]
  exact congrArg ([0] ++ ·) hrange

/-- Copies of chunks are copies of data capsules. -/
theorem duplicating_of_plays (hrel : Plays bo ok f s s') {e : Event}
    (he : Network.Duplicating CopiesData s' e) :
    Network.Duplicating (fun _ => IsCapsule bo) s e := by
  cases e with
  | tx | loseTx | loseRx | failTx | failRx => exact he
  | rx dl =>
    cases dl with
    | flight i => exact he
    | copy j =>
      obtain ⟨m, hm, k, rfl⟩ := he
      have hget := Channel.rel_getElem? hrel.toRx.sent j
      rw [Option.mem_def.1 hm] at hget
      generalize hd : s.toRx.sent[j]? = o at hget
      cases hget with
      | some hdm => exact ⟨_, hd, hdm.1.capsule⟩

/-- The first chunk is stored twice. -/
theorem not_prefix_twoChunks :
    ¬∀ s, Reachable .little Env.Stores (Network.Duplicating fun _ => IsCapsule .little)
        twoChunksSender twoChunksReceiver s → s.rx.conf.state.sink <+: twoChunks.bytes := by
  intro h
  obtain ⟨s, s', hs, hrel, hstored⟩ :=
    exists_of_leads ends_twoChunks connected_twoChunks (Network.Duplicating CopiesData)
      (fun _ _ _ hrel he => duplicating_of_plays hrel he)
      (fun _ _ => Network.Duplicating.arbitrary fun _ => id)
      (fun _ _ => Network.InOrder.duplicating) leads_lateCopy
  have hle := (h s hs).length_le
  have hfirst : (twoChunks.chunk 0).length = PAYLOAD :=
    length_chunk_of_le (by rw [length_twoChunks]; omega)
  rw [sink_eq hrel, hstored, length_twoChunks] at hle
  simp only [List.flatMap_cons, List.length_append, hfirst] at hle
  -- Two first chunks are longer than the file.
  have : 1 < PAYLOAD := by decide
  omega

end Exchange

end Udm
