import Udm.Exchange.Acknowledgements
import Udm.Exchange.Sending
import Udm.Protocol.Windows
import Udm.Session.Receiver

/-!
# The receiver of an exchange

The receiver plays the receiver of the protocol (`receives`). Its window holds a capsule
for each of the chunks of the protocol's window, under the number of the chunk
(`Collects`), so the capsule with the largest id holds the last of these chunks, and
writing the window by increasing id writes the chunks in their order.

The window of the protocol is a set of chunks, and that of the process a map from ids to pointers
into the queue of received buffers. Three facts connect them:

* the ids of the chunks below `MAX_CHUNKS` do not wrap (`capsuleOf_le_iff`), so the map is ordered
  as the chunks are. This is where the bound on the length of a file is used;
* a copy of a chunk has the id of the chunk, and replaces it in the map, so that the set stays as it
  is (`Collects.received`). Its buffer stays in the queue until the window is over;
* the flag is looked for in the capsule with the largest id only, and the chunk with the end of the
  file has the largest id of all. So the window is over when this chunk is there, whichever chunks
  before it are missing (`Collects.endsIn_iff`).

What is in the sink is what was written of all the windows so far (`Stored`). If a write fails, it
is less, so the invariant only speaks of a sink that follows it (`Fstream.Follows`).
-/

namespace Udm

open Session Protocol

variable {bo : ByteOrder} {env : Env} {f : File} {p : Process} {d : List Byte} {j k : ℕ}

/-! ## The numbers of the chunks -/

/-- The id of the data capsule with the chunk `k`. -/
def capsuleOf (k : ℕ) : BitVec 16 := BitVec.ofNat 16 (k + 1)

/-- The first chunk has the number `1`, as the addresses have the number `0`. -/
theorem toNat_capsuleOf (hk : k < MAX_CHUNKS) : (capsuleOf k).toNat = k + 1 := by
  have hmax : MAX_CHUNKS < 2 ^ 16 := by decide
  rw [capsuleOf, BitVec.toNat_ofNat, Nat.mod_eq_of_lt (by omega)]

/-- The ids are in the order of the chunks. -/
theorem capsuleOf_le_iff (hj : j < MAX_CHUNKS) (hk : k < MAX_CHUNKS) :
    capsuleOf j ≤ capsuleOf k ↔ j ≤ k := by
  rw [BitVec.le_def, toNat_capsuleOf hj, toNat_capsuleOf hk]
  omega

/-- No two chunks have the same id. -/
theorem capsuleOf_inj (hj : j < MAX_CHUNKS) (hk : k < MAX_CHUNKS)
    (h : capsuleOf j = capsuleOf k) : j = k := by
  have := congrArg BitVec.toNat h
  rw [toNat_capsuleOf hj, toNat_capsuleOf hk] at this
  omega

/-- A data capsule with a chunk has its id. -/
theorem IsData.capid_eq_capsuleOf (h : IsData bo f k (k + 1) d) : capid bo d = capsuleOf k := by
  rw [h.capid_eq, capsuleOf, ← BitVec.ofInt_natCast]
  push_cast
  rfl

/-- What is written of a data capsule is its chunk. -/
theorem IsData.payloadOf_eq {c : ℤ} (h : IsData bo f k c d) : payloadOf d = f.chunk k := by
  have hle : (f.chunk k).length ≤ CHUNK - HEADER_SPACE := Reads.length_chunk_le f k
  rw [payloadOf, List.drop_take, h.payload, List.take_of_length_le hle]

/-! ## The window -/

/-- The buffer `b` holds the chunk `k`. -/
def HoldsChunk (bo : ByteOrder) (f : File) (k : ℕ) (b : MemBuff) : Prop :=
  ∃ d, IsData bo f k (k + 1) d ∧ b.Carries bo d

/-- The window of the process holds the chunks in `W`. -/
structure Collects (bo : ByteOrder) (f : File) (p : Process) (W : Finset ℕ) : Prop where
  /-- The pointers of the window are to buffers of the queue. -/
  held : Held p
  /-- Every entry holds a chunk, under its id. -/
  mem : ∀ e ∈ p.rxcurrentWindow, ∃ k ∈ W, e.1 = capsuleOf k ∧ HoldsChunk bo f k e.2
  /-- Every chunk has an entry. -/
  keys : ∀ k ∈ W, capsuleOf k ∈ p.rxcurrentWindow.keys
  /-- The chunks are chunks of the file, and their ids do not wrap. -/
  inside : ∀ k ∈ W, k * PAYLOAD < f.bytes.length ∧ k < MAX_CHUNKS

namespace Collects

variable {W : Finset ℕ}

/-- At the start of a window, nothing was collected. -/
theorem empty (h : p.rxcurrentWindow = ∅) : Collects bo f p ∅ where
  held := held_empty h
  mem := fun e he => absurd (h ▸ he) (OrdMap.not_mem_empty e)
  keys := fun k hk => absurd hk (Finset.notMem_empty k)
  inside := fun k hk => absurd hk (Finset.notMem_empty k)

/-- A window without chunks is empty. -/
theorem eq_empty (h : Collects bo f p ∅) : p.rxcurrentWindow = ∅ := by
  refine OrdMap.ext_mem fun e => iff_of_false (fun he => ?_) (OrdMap.not_mem_empty e)
  obtain ⟨k, hk, -⟩ := h.mem e he
  exact Finset.notMem_empty k hk

/-- Only the window and the queue count. -/
theorem congr (h : Collects bo f p W) {p' : Process} (hwindow : p'.rxcurrentWindow = p.rxcurrentWindow)
    (hbuffer : p'.rxFactory.buffer = p.rxFactory.buffer) : Collects bo f p' W := by
  refine ⟨fun e he => ?_, ?_, ?_, h.inside⟩
  · rw [hbuffer]
    exact h.held e (hwindow ▸ he)
  · rw [hwindow]
    exact h.mem
  · rw [hwindow]
    exact h.keys

/-- A data capsule is taken into the window. -/
theorem received (h : Collects bo f p W) (hp : p.rxFactory.chunkSize = CHUNK)
    (hm : Means bo f d (.data k)) : Collects bo f (received bo env p d) (insert k W) := by
  obtain ⟨hd, hinside⟩ := hm
  have hcarries := @Gateway.carries_pulled bo env p d hp hd.capsule.1
  have hpayld : (Gateway.pulled bo env p d).data.header.isPayld = true := by
    rw [hcarries.header]
    exact hd.capsule.2
  have hkey : (Gateway.pulled bo env p d).data.header.capid = capsuleOf k := by
    rw [hcarries.header]
    exact hd.capid_eq_capsuleOf
  have hwindow : (Session.received bo env p d).rxcurrentWindow =
      p.rxcurrentWindow.insert (capsuleOf k) (Gateway.pulled bo env p d) := by
    rw [rxcurrentWindow_received, if_pos hpayld, hkey]
  refine ⟨h.held.received, fun e he => ?_, fun j hj => ?_, fun j hj => ?_⟩
  · rw [hwindow, OrdMap.mem_insert] at he
    -- The new entry, and those with another id: an entry with the same id is replaced.
    rcases he with rfl | ⟨he, -⟩
    · exact ⟨k, Finset.mem_insert_self k W, rfl, d, hd, hcarries⟩
    · obtain ⟨j, hj, hrest⟩ := h.mem e he
      exact ⟨j, Finset.mem_insert_of_mem hj, hrest⟩
  · rw [hwindow, OrdMap.mem_keys_insert]
    rcases Finset.mem_insert.1 hj with rfl | hj
    exacts [.inl rfl, .inr (h.keys j hj)]
  · rcases Finset.mem_insert.1 hj with rfl | hj
    exacts [hinside, h.inside j hj]

/-- The capsule with the largest id tells whether the file ends in the window. -/
theorem endsIn_iff (h : Collects bo f p W) {key : BitVec 16} {b : MemBuff}
    (hlast : p.rxcurrentWindow.last = some (key, b)) :
    f.toSource.endsIn W ↔ b.data.header.isFin = true := by
  obtain ⟨hmem, hmax⟩ := OrdMap.last_eq_some.1 hlast
  obtain ⟨k, hk, hkey, d, hd, hcarries⟩ := h.mem _ hmem
  have hfin : b.data.header.isFin = decide (f.EndsIn k) := by
    rw [hcarries.header, ← hd.isFin_eq, isFin]
  rw [Source.endsIn_iff, hfin, decide_eq_true_iff]
  constructor
  · rintro ⟨j, hj, hend⟩
    have hend : f.EndsIn j := of_decide_eq_true hend
    -- The last chunk of the file is the largest, and so is the last one of the window.
    have hle : k ≤ j := by
      have hlt := (h.inside k hk).1.trans hend.2
      exact Nat.lt_succ_iff.1 (Nat.lt_of_mul_lt_mul_right hlt)
    obtain ⟨b', hb'⟩ := OrdMap.mem_keys.1 (h.keys j hj)
    have hge := hmax _ hb'
    have hkey : key = capsuleOf k := hkey
    rw [hkey, capsuleOf_le_iff (h.inside j hj).2 (h.inside k hk).2] at hge
    rwa [le_antisymm hle hge]
  · exact fun hend => ⟨k, hk, decide_eq_true hend⟩

/-- The buffers of the window have a payload. -/
theorem isPayld (h : Collects bo f p W) : ∀ b ∈ window p, b.data.header.isPayld = true := by
  intro b hb
  obtain ⟨e, he, rfl⟩ := List.mem_map.1 hb
  obtain ⟨k, -, -, d, hd, hcarries⟩ := h.mem e he
  rw [hcarries.header]
  exact hd.capsule.2

/-- Their sizes are not negative, so a write of them is accepted. -/
theorem writeLength_nonneg (h : Collects bo f p W) :
    ∀ b ∈ window p, 0 ≤ DataFactory.writeLength b.size := by
  intro b hb
  obtain ⟨e, he, rfl⟩ := List.mem_map.1 hb
  obtain ⟨k, -, -, d, hd, hcarries⟩ := h.mem e he
  exact hcarries.writeLength_nonneg hd.capsule.1

/-- The chunks of the window, by increasing id. -/
theorem sort_eq (h : Collects bo f p W) :
    W.sort = p.rxcurrentWindow.entries.map fun e => e.1.toNat - 1 := by
  have hnum {e : BitVec 16 × MemBuff} (he : e ∈ p.rxcurrentWindow) :
      ∃ k ∈ W, e.1.toNat - 1 = k ∧ e.1.toNat = k + 1 := by
    obtain ⟨k, hk, hkey, -⟩ := h.mem e he
    rw [hkey, toNat_capsuleOf (h.inside k hk).2]
    exact ⟨k, hk, rfl, rfl⟩
  -- Both lists increase, so it is enough that they have the same elements.
  refine eq_of_increasing (pairwise_sort W) ?_ fun k => ?_
  · refine List.pairwise_map.2 (p.rxcurrentWindow.ordered.imp_of_mem ?_)
    intro e e' he he' hlt
    obtain ⟨k, -, -, hk⟩ := hnum he
    obtain ⟨k', -, -, hk'⟩ := hnum he'
    have := BitVec.lt_def.1 hlt
    show e.1.toNat - 1 < e'.1.toNat - 1
    omega
  · rw [Finset.mem_sort, List.mem_map]
    constructor
    · intro hk
      obtain ⟨b, hb⟩ := OrdMap.mem_keys.1 (h.keys k hk)
      refine ⟨_, hb, ?_⟩
      show (capsuleOf k).toNat - 1 = k
      rw [toNat_capsuleOf (h.inside k hk).2]
      rfl
    · rintro ⟨e, he, rfl⟩
      obtain ⟨k, hk, heq, -⟩ := hnum he
      exact heq ▸ hk

/-- Writing the window writes its chunks in their order. -/
theorem payload_eq (h : Collects bo f p W) :
    (window p).flatMap MemBuff.payload = W.sort.flatMap f.chunk := by
  rw [h.sort_eq, window, List.flatMap_map, List.flatMap_map]
  refine List.flatMap_congr fun e he => ?_
  obtain ⟨k, hk, hkey, d, hd, hcarries⟩ := h.mem e he
  rw [hcarries.payload_eq, hd.payloadOf_eq, hkey, toNat_capsuleOf (h.inside k hk).2]
  rfl

end Collects

/-! ## The receiver and its part -/

/-- The chunks that the receiver `r` has counted are in the sink. The writes fail only if
    `ok` allows it. -/
structure Stored (ok : Env → Prop) (f : File) (p : Process) (r : Receiver) : Prop where
  /-- The sink was opened to be written. -/
  fmode : p.rxFactory.sourceData.fmode = .OUT
  /-- It holds the chunks in the order of their windows, as far as they could be written. -/
  follows : p.rxFactory.sourceData.fs.Follows (r.stored.flatMap f.chunk)
  /-- If no write fails, the stream is good. -/
  good : (∀ env, ok env → ∀ i, env.write i = .written) → p.rxFactory.sourceData.fs.failed = false

/-- A process that goes on plays the receiver `r`. -/
structure ReceiverAt (bo : ByteOrder) (f : File) (p : Process) (r : Receiver) : Prop where
  /-- The states of the session are the phases of the protocol. -/
  phase_eq : r.phase = phase p
  /-- Before the addresses of the peer are known, nothing was collected. -/
  early : p.session.next = .open ∨ p.session.next = .setup →
    ¬p.interfaces.NoAddress ∧ p.session.complete = false ∧ r.window = ∅
  /-- Then an address is left or none, and the acknowledgement may not have one to go to. -/
  reaches : p.session.next = .connected → p.session.complete = false →
    r.reaches = decide ¬p.interfaces.NoAddress
  /-- After it was sent, there is an address. -/
  late : p.session.next = .closed ∨ p.session.next = .done → ¬p.interfaces.NoAddress
  /-- The window holds the chunks of the protocol's window. -/
  collects : Collects bo f p r.window
  /-- The flag is set if the file ends in this window, and stays set when the session is over. -/
  fin : p.returned = false → p.rxFactory.fin = f.toSource.endsIn r.window
  /-- The windows are the same. -/
  win : p.session.next = .closed → r.win = p.session.processor.winSize.toNat

/-- The site `s` plays the receiver `r`. -/
structure Site.PlaysReceiver (bo : ByteOrder) (ok : Env → Prop) (f : File) (s : Site)
    (r : Receiver) : Prop where
  /-- The site is that of a receiver, between two steps. -/
  steady : s.Steady .RX
  /-- The receiver has halted where the process has failed. -/
  halted : r.halted = s.conf.error.isSome
  /-- As many windows were written as the protocol has counted. -/
  windows : s.windows.length = r.windows
  /-- The sink holds what was stored, also after a failure. -/
  stored : Stored ok f s.conf.state r
  /-- A process that goes on is where the receiver is. -/
  alive : s.conf.error = none → ReceiverAt bo f s.conf.state r

/-- What a step from `p` leads to, on both sides. -/
structure ReceiverStep (bo : ByteOrder) (ok : Env → Prop) (f : File) (p : Process) (r : Receiver)
    (c : Party) (x : Receiver × List Msg) : Prop where
  /-- The receiver halts where the process fails. -/
  halted : x.1.halted = c.error.isSome
  /-- A window is counted in the step that writes it. -/
  windows : x.1.windows = r.windows + if p.session.next = .done then 1 else 0
  /-- The sink holds what is stored, also if the step fails. -/
  stored : Stored ok f c.state x.1
  /-- A process that goes on plays the receiver after the step. -/
  alive : c.error = none → ReceiverAt bo f c.state x.1
  /-- The datagrams sent mean the messages sent. -/
  out : List.Forall₂ (Means bo f) c.state.out x.2

variable {ok : Env → Prop} {r : Receiver}

/-- As long as nothing is written, what was stored stays stored. -/
theorem Stored.congr (h : Stored ok f p r) {p' : Process} {r' : Receiver}
    (hsource : p'.rxFactory.sourceData = p.rxFactory.sourceData) (hstored : r'.stored = r.stored) :
    Stored ok f p' r' := by
  obtain ⟨hmode, hfollows, hgood⟩ := h
  refine ⟨?_, ?_, ?_⟩
  · rwa [hsource]
  · rwa [hsource, hstored]
  · rwa [hsource]

/-- A message is sent if the datagram is. -/
theorem forall₂_send {out : List (List Byte)} {m : Msg} (hm : Means bo f d m)
    (hout : out = if env.sendto then [d] else []) :
    List.Forall₂ (Means bo f) out (if env.sendto then [m] else []) := by
  rw [hout]
  split
  exacts [.cons hm .nil, .nil]

namespace ReceiverAt

variable (h : ReceiverAt bo f p r) (hst : Steady p) (hdir : p.session.dir = .RX)
  (hstored : Stored ok f p r) (hhalted : r.halted = false)
include h hdir hstored hhalted

/-- The hello is sent. -/
theorem step_hello (hnext : p.session.next = .open) : ∃ i, Works env i ∧
    ReceiverStep bo ok f p r (Conf.exec (step bo) env p) (r.step f.toSource i none) := by
  have hphase : r.phase = .hello := by rw [h.phase_eq, phase, hnext]
  obtain ⟨haddr, hcomplete, hwindow⟩ := h.early (.inl hnext)
  have hreturned : p.returned = false := by simp [Process.returned, hnext]
  refine ⟨⟨true, env.sendto⟩, fun _ hsend => hsend, ?_⟩
  have hstep : r.step f.toSource ⟨true, env.sendto⟩ none =
      ({ r with phase := .hi }, if env.sendto then [.hello] else []) := by
    simp only [Receiver.step, hhalted, Bool.false_eq_true, if_false, hphase]
  have hout : (sentHello bo env p.clear).out =
      if env.sendto then [(hello env p.clear).wire bo] else [] := by
    cases hsend : env.sendto <;> simp [Process.out, sentHello, Process.sendControl, hsend, newConnection]
  rw [hstep, exec_sendHello hdir hnext haddr]
  refine ⟨hhalted, by simp [hnext], hstored.congr rfl rfl, fun _ => ?_, forall₂_send trivial hout⟩
  exact {
    phase_eq := rfl
    early := fun _ => ⟨haddr, hcomplete, hwindow⟩
    reaches := fun hconn => by simp [sentHello] at hconn
    late := fun hlate => by simp [sentHello] at hlate
    collects := h.collects.congr rfl rfl
    fin := fun _ => h.fin hreturned
    win := fun hclosed => by simp [sentHello] at hclosed }

include hst in
/-- The addresses are received. -/
theorem step_hi (hnext : p.session.next = .setup) (hd : env.datagram = some d)
    (hm : Means bo f d .hi) : ∃ i, Works env i ∧
    ReceiverStep bo ok f p r (Conf.exec (step bo) env p) (r.step f.toSource i (some .hi)) := by
  have hphase : r.phase = .hi := by rw [h.phase_eq, phase, hnext]
  obtain ⟨-, hcomplete, hempty⟩ := h.early (.inr hnext)
  have hreturned : p.returned = false := by simp [Process.returned, hnext]
  set q := setUp bo env d p.clear with hq
  refine ⟨⟨decide ¬q.interfaces.NoAddress, true⟩, fun _ _ => rfl, ?_⟩
  have hstep : r.step f.toSource ⟨decide ¬q.interfaces.NoAddress, true⟩ (some .hi) =
      ({ r with phase := .ack, reaches := decide ¬q.interfaces.NoAddress }, []) := by
    simp only [Receiver.step, hhalted, Bool.false_eq_true, if_false, hphase]
  -- The addresses are no payload, and do not get into the window.
  have hpayld : (Gateway.pulled bo env p.clear d).data.header.isPayld = false := by
    have hchunk : p.clear.rxFactory.chunkSize = CHUNK := hst.chunkSize
    rw [(Gateway.carries_pulled hchunk hm.1).header]
    exact hm.2
  have hwindow : q.rxcurrentWindow = ∅ := by
    have hkept : q.rxcurrentWindow = (received bo env p.clear d).rxcurrentWindow := rfl
    rw [hkept, rxcurrentWindow_received, if_neg (by simp [hpayld])]
    exact (hempty ▸ h.collects).eq_empty
  have hcomplete' : q.session.complete = false := by simpa [hq, setUp] using hcomplete
  have hnext' : q.session.next = .connected := rfl
  rw [hstep, exec_receiveHi hdir hst hnext hd]
  refine ⟨hhalted, by simp [hnext], hstored.congr ?_ rfl, fun _ => ?_, ?_⟩
  · show q.rxFactory.sourceData = _
    simp [hq, setUp]
  · exact {
      phase_eq := by
        show Phase.ack = if q.session.complete then _ else _
        rw [hcomplete']
        rfl
      early := fun hearly => by simp [← hq, hnext'] at hearly
      reaches := fun _ _ => rfl
      late := fun hlate => by simp [← hq, hnext'] at hlate
      collects := by
        show Collects bo f q r.window
        rw [hempty]
        exact .empty hwindow
      fin := fun _ => by
        have hfin : q.rxFactory.fin = p.rxFactory.fin := by simp [hq, setUp]
        exact hfin.trans (h.fin hreturned)
      win := fun hclosed => by simp [← hq, hnext'] at hclosed }
  · have hout : q.out = [] := by simp [hq, setUp, Process.out]
    show List.Forall₂ (Means bo f) q.out []
    rw [hout]
    exact .nil

/-- The handshake is acknowledged, if there is an address to send to. -/
theorem step_ack (hnext : p.session.next = .connected) (hcomplete : p.session.complete = false) :
    ∃ i, Works env i ∧
      ReceiverStep bo ok f p r (Conf.exec (step bo) env p) (r.step f.toSource i none) := by
  have hphase : r.phase = .ack := by simp [h.phase_eq, phase, hnext, hcomplete]
  have hreaches := h.reaches hnext hcomplete
  have hreturned : p.returned = false := by simp [Process.returned, hcomplete]
  refine ⟨⟨true, env.sendto⟩, fun _ hsend => hsend, ?_⟩
  by_cases haddr : p.interfaces.NoAddress
  · have hstep : r.step f.toSource ⟨true, env.sendto⟩ none = ({ r with halted := true }, []) := by
      simp [Receiver.step, hhalted, hphase, hreaches, haddr]
    rw [hstep, exec_noAck hdir hnext haddr]
    exact ⟨rfl, by simp [hnext], hstored.congr rfl rfl, fun hc => by simp at hc, .nil⟩
  · have hstep : r.step f.toSource ⟨true, env.sendto⟩ none =
        ({ r with phase := .data, win := 5 }, if env.sendto then [.ack 5] else []) := by
      simp [Receiver.step, hhalted, hphase, hreaches, haddr]
    have hout : (sentAck bo env p.clear).out =
        if env.sendto then [(ack env p.clear).wire bo] else [] := by
      cases hsend : env.sendto <;> simp [Process.out, sentAck, Process.sendControl, hsend, newId]
    rw [hstep, exec_sendAck hdir hnext haddr]
    refine ⟨hhalted, by simp [hnext], hstored.congr rfl rfl, fun _ => ?_,
      forall₂_send (means_ack f) hout⟩
    exact {
      phase_eq := rfl
      early := fun hearly => by simp [sentAck] at hearly
      reaches := fun hconn => by simp [sentAck] at hconn
      late := fun _ => haddr
      collects := h.collects.congr rfl rfl
      fin := fun _ => h.fin hreturned
      win := fun _ => rfl }

omit hdir in
/-- The window is over. -/
theorem step_over (hnext : p.session.next = .closed) (hwin : p.session.processor.winSize = 0) :
    ∃ i, Works env i ∧
      ReceiverStep bo ok f p r (Conf.exec (step bo) env p) (r.step f.toSource i none) := by
  have hphase : r.phase = .data := by rw [h.phase_eq, phase, hnext]
  have hreturned : p.returned = false := by simp [Process.returned, hnext]
  refine ⟨⟨true, true⟩, fun _ _ => rfl, ?_⟩
  have hstep : r.step f.toSource ⟨true, true⟩ none = ({ r with phase := .ok }, []) := by
    have hzero : r.win = 0 := by simp [h.win hnext, hwin]
    simp only [Receiver.step, hhalted, Bool.false_eq_true, if_false, hphase, hzero, if_true]
  rw [hstep, exec_windowOver hnext hwin]
  refine ⟨hhalted, by simp [hnext], hstored.congr rfl rfl, fun _ => ?_, .nil⟩
  exact {
    phase_eq := rfl
    early := fun hearly => by simp at hearly
    reaches := fun hconn => by simp at hconn
    late := fun _ => h.late (.inl hnext)
    collects := h.collects.congr rfl rfl
    fin := fun _ => h.fin hreturned
    win := fun hclosed => by simp at hclosed }

include hst in
/-- The call for the message that comes next fails. -/
theorem step_none (hnext : p.session.next = .setup ∨
    p.session.next = .closed ∧ p.session.processor.winSize ≠ 0) (hd : env.datagram = none) :
    ∃ i, Works env i ∧
      ReceiverStep bo ok f p r (Conf.exec (step bo) env p) (r.step f.toSource i none) := by
  refine ⟨⟨true, true⟩, fun _ _ => rfl, ?_⟩
  have haw : p.awaits = true ∧ p.session.next ≠ .done := by
    rcases hnext with hnext | ⟨hnext, hwin⟩
    · simp [Process.awaits, hdir, hnext]
    · simpa [Process.awaits, hdir, hnext] using hwin
  have hstep : r.step f.toSource ⟨true, true⟩ none = ({ r with halted := true }, []) := by
    rcases hnext with hnext | ⟨hnext, hwin⟩
    · simp [Receiver.step, hhalted, h.phase_eq, phase, hnext]
    · have hne : r.win ≠ 0 := fun heq =>
        hwin (BitVec.eq_of_toNat_eq ((h.win hnext).symm.trans heq))
      simp [Receiver.step, hhalted, h.phase_eq, phase, hnext, hne]
  obtain ⟨hc, hio, hsink⟩ := (transition_exec bo env hst).stopped_of_none haw.1 hd
  have hout : (Conf.exec (step bo) env p).state.out = [] := by simp [Process.out, hio]
  rw [hstep]
  refine ⟨(Option.isSome_iff_ne_none.2 hc).symm, by simp [haw.2], hstored.congr hsink rfl,
    fun h => absurd h hc, ?_⟩
  rw [hout]
  exact .nil

include hst in
/-- A data capsule is received. -/
theorem step_data (hnext : p.session.next = .closed) (hwin : p.session.processor.winSize ≠ 0)
    (hd : env.datagram = some d) (hm : Means bo f d (.data k)) : ∃ i, Works env i ∧
    ReceiverStep bo ok f p r (Conf.exec (step bo) env p) (r.step f.toSource i (some (.data k))) := by
  have hphase : r.phase = .data := by rw [h.phase_eq, phase, hnext]
  have hreturned : p.returned = false := by simp [Process.returned, hnext]
  refine ⟨⟨true, true⟩, fun _ _ => rfl, ?_⟩
  have hclear : Collects bo f p.clear r.window := h.collects.congr rfl rfl
  have hcollects := @Collects.received bo env f p.clear d k r.window hclear hst.chunkSize hm
  -- The window is not empty, so there is a capsule with the largest id.
  obtain ⟨⟨key, b⟩, hlast⟩ : ∃ e, (received bo env p.clear d).rxcurrentWindow.last = some e := by
    rw [← Option.ne_none_iff_exists', Ne, OrdMap.last_eq_none]
    intro hempty
    obtain ⟨b, hb⟩ := OrdMap.mem_keys.1 (hcollects.keys k (Finset.mem_insert_self k _))
    exact OrdMap.not_mem_empty _ (hempty ▸ hb)
  have harrived := @arrived_eq bo env p.clear d hwin key b hlast
  -- The flag stays set, and is set now if the newest capsule has it: this is so exactly if the
  -- window, with the new chunk, has the last one of the file.
  have hfin : (p.rxFactory.fin || b.data.header.isFin) = f.toSource.endsIn (insert k r.window) := by
    rw [h.fin hreturned, Bool.eq_iff_iff, Bool.or_eq_true, ← hcollects.endsIn_iff hlast]
    refine or_iff_right_of_imp fun hend => ?_
    obtain ⟨j, hj, hlast⟩ := Source.endsIn_iff.1 hend
    exact Source.endsIn_iff.2 ⟨j, Finset.mem_insert_of_mem hj, hlast⟩
  -- The state after the datagram, in terms of the chunks.
  set q := arrived bo env d p.clear with hq
  have hq_eq : q = ((received bo env p.clear d).setRx { (received bo env p.clear d).rxFactory with
      fin := f.toSource.endsIn (insert k r.window) }).setWinSize
        (if f.toSource.endsIn (insert k r.window) then 0 else p.session.processor.winSize - 1) := by
    rw [← hfin]
    exact harrived
  have hstep : r.step f.toSource ⟨true, true⟩ (some (.data k)) =
      ({ r with
          window := insert k r.window
          win := if f.toSource.endsIn (insert k r.window) then 0 else r.win - 1 }, []) := by
    simp only [Receiver.step, hhalted, Bool.false_eq_true, if_false, hphase]
  have hnext' : q.session.next = .closed := by rw [hq_eq]; simpa using hnext
  rw [hstep, exec_arrived h.collects.held hdir hnext hwin hd]
  refine ⟨hhalted, by simp [hnext], hstored.congr ?_ rfl, fun _ => ?_, ?_⟩
  · show q.rxFactory.sourceData = _
    rw [hq_eq]
    simp
  · exact {
      phase_eq := by
        show r.phase = phase q
        rw [hphase, phase, hnext']
      early := fun hearly => by simp [← hq, hnext'] at hearly
      reaches := fun hconn => by simp [← hq, hnext'] at hconn
      late := fun _ => by
        show ¬q.interfaces.NoAddress
        rw [hq_eq]
        simpa using h.late (.inl hnext)
      collects := by
        refine hcollects.congr ?_ ?_
        · show q.rxcurrentWindow = _
          rw [hq_eq]
          rfl
        · show q.rxFactory.buffer = _
          rw [hq_eq]
          rfl
      fin := fun _ => by
        show q.rxFactory.fin = _
        rw [hq_eq]
        rfl
      win := fun _ => by
        show (if _ then 0 else r.win - 1) = q.session.processor.winSize.toNat
        rw [hq_eq, Process.setWinSize_session_processor_winSize]
        split
        · rfl
        · rw [toNat_sub_one hwin, h.win hnext] }
  · have hout : q.out = [] := by rw [hq_eq]; simp [Process.out]
    show List.Forall₂ (Means bo f) q.out []
    rw [hout]
    exact .nil

/-- The window is stored and acknowledged. -/
theorem step_ok (hok : ok env) (hnext : p.session.next = .done) : ∃ i, Works env i ∧
    ReceiverStep bo ok f p r (Conf.exec (step bo) env p) (r.step f.toSource i none) := by
  have hphase : r.phase = .ok := by rw [h.phase_eq, phase, hnext]
  have hreturned : p.returned = false := by simp [Process.returned, hnext]
  have haddr := h.late (.inr hnext)
  have hfin := h.fin hreturned
  refine ⟨⟨true, env.sendto⟩, fun _ hsend => hsend, ?_⟩
  have hstep : r.step f.toSource ⟨true, env.sendto⟩ none =
      ({ r with
          phase := if p.rxFactory.fin then .finished else .data
          stored := r.stored ++ r.window.sort
          window := ∅
          win := if p.rxFactory.fin then r.win else 5
          windows := r.windows + 1 }, if env.sendto then [.ok] else []) := by
    simp only [Receiver.step, hhalted, Bool.false_eq_true, if_false, hphase, hfin]
  have hfin' : (written env p.clear).rxFactory.fin = p.rxFactory.fin := fin_written env
  set q := sentOk bo env p.clear with hq
  have hsession : q.session.next = (if p.rxFactory.fin then .connected else .closed) ∧
      q.session.complete = true := ⟨by rw [← hfin']; rfl, rfl⟩
  -- The acknowledgement is sent whatever has become of the writes, and may be lost by `sendto`.
  have hout : q.out = if env.sendto then [(Session.ok env (written env p.clear)).wire bo] else [] := by
    have hsent : (written env p.clear).io.sent = [] := sent_written env
    cases hsend : env.sendto <;> simp [hq, Process.out, sentOk, hsend]
  have hmode : p.clear.rxFactory.sourceData.fmode = .OUT := hstored.fmode
  have hclear : Collects bo f p.clear r.window := h.collects.congr rfl rfl
  rw [hstep, exec_sentOk h.collects.held hdir hnext haddr]
  refine ⟨hhalted, by simp [hnext], ⟨?_, ?_, fun hwrites => ?_⟩, fun _ => ?_, forall₂_send trivial hout⟩
  · exact (sameButSink_written env p.clear).fmode.trans hmode
  · have hfollows := @follows_sentOk bo env p.clear hmode _ hstored.follows hclear.isPayld
    rw [hclear.payload_eq, ← List.flatMap_append] at hfollows
    exact hfollows
  · exact PresentationProcessor.failed_writes hmode (hstored.good hwrites) (hwrites env hok)
      hclear.writeLength_nonneg
  · exact {
      phase_eq := by
        show (if p.rxFactory.fin then _ else _) = phase q
        rw [phase, hsession.1, hsession.2]
        cases p.rxFactory.fin <;> rfl
      early := fun hearly => by
        rw [← hq, hsession.1] at hearly
        cases hf : p.rxFactory.fin <;> simp [hf] at hearly
      reaches := fun _ hcomplete => by simp [← hq, hsession.2] at hcomplete
      late := fun _ => by
        show ¬(written env p.clear).interfaces.NoAddress
        rw [interfaces_written]
        exact haddr
      collects := .empty rfl
      fin := fun hnot => by
        rw [Process.returned, ← hq, hsession.1, hsession.2] at hnot
        have hf : p.rxFactory.fin = false := by
          cases hf : p.rxFactory.fin with
          | true => simp [hf] at hnot
          | false => rfl
        show (written env p.clear).rxFactory.fin = _
        rw [hfin', hf]
        rfl
      win := fun hclosed => by
        have hf : p.rxFactory.fin = false := by
          rw [← hq, hsession.1] at hclosed
          cases hf : p.rxFactory.fin with
          | true => simp [hf] at hclosed
          | false => rfl
        have hwin : q.session.processor.winSize = BitVec.ofNat 16 WIN_SIZ := by
          show (if (written env p.clear).rxFactory.fin then _ else _) = _
          rw [hfin', hf]
          rfl
        show (if p.rxFactory.fin then r.win else 5) = q.session.processor.winSize.toNat
        rw [hwin, hf]
        rfl }

end ReceiverAt

/-! ## The simulation -/

namespace Site.PlaysReceiver

variable {s : Site}

/-- A receiver that goes on has not halted, nor come to its end. -/
theorem of_alive (h : s.PlaysReceiver bo ok f r) (halive : s.conf.Alive Process.returned) :
    r.halted = false ∧ Session.Steady s.conf.state ∧ s.conf.state.session.dir = .RX ∧
      ReceiverAt bo f s.conf.state r ∧ (s.conf.state.session.next = .connected →
        s.conf.state.session.complete = false) := by
  obtain ⟨hst, hdir⟩ := h.steady halive.1
  refine ⟨by rw [h.halted, halive.1]; rfl, hst, hdir, h.alive halive.1, fun hnext => ?_⟩
  simpa [Process.returned, hnext] using halive.2

/-- A receiver that does not go on has halted, or come to its end. -/
theorem of_not_alive (h : s.PlaysReceiver bo ok f r) (halive : ¬s.conf.Alive Process.returned) :
    r.halted = true ∨ r.phase = .finished := by
  by_cases hc : s.conf.error = none
  · right
    rw [(h.alive hc).phase_eq, phase_eq_finished (h.steady hc).1]
    exact Bool.of_not_eq_false fun hnot => halive ⟨hc, hnot⟩
  · left
    rw [h.halted]
    exact Option.isSome_iff_ne_none.2 hc

/-- A receiver that waits for a message is played by a site that waits for a datagram. -/
theorem awaits_eq (h : s.PlaysReceiver bo ok f r) : s.awaits = r.awaits := by
  by_cases halive : s.conf.Alive Process.returned
  · obtain ⟨hhalted, hst, hdir, hat, hcomplete⟩ := h.of_alive halive
    have hmem := hst.next
    rw [awaits_of_alive halive, Process.awaits, hdir, Receiver.awaits, hhalted, hat.phase_eq, phase]
    cases hnext : s.conf.state.session.next with
    | «open» | setup | done => rfl
    | connected =>
      dsimp only
      rw [hcomplete hnext]
      rfl
    | closed =>
      have hwin : r.win ≠ 0 ↔ s.conf.state.session.processor.winSize ≠ 0 := by
        rw [hat.win hnext]
        exact not_congr ⟨fun hzero => BitVec.eq_of_toNat_eq hzero, fun hzero => by rw [hzero]; rfl⟩
      simp [hwin]
    | inq | send | recv => simp [hnext, inSession] at hmem
  · have hnot : s.awaits = false := by simp [awaits, halive]
    rw [hnot, Receiver.awaits]
    rcases h.of_not_alive halive with hhalted | hphase
    · simp [hhalted]
    · simp [hphase]

/-- A step of a site that goes on. -/
theorem of_step (h : s.PlaysReceiver bo ok f r) (halive : s.conf.Alive Process.returned)
    {d : Option (List Byte)} {x : Receiver × List Msg}
    (hx : ReceiverStep bo ok f s.conf.state r
      (Conf.exec (Session.step bo) { env with datagram := d } s.conf.state) x) :
    (s.step bo env d).1.PlaysReceiver bo ok f x.1 ∧
      List.Forall₂ (Means bo f) (s.step bo env d).2 x.2 := by
  have hsteady := @Steady.step bo _ _ h.steady env d
  rw [step_of_alive halive] at hsteady ⊢
  refine ⟨⟨hsteady, hx.halted, ?_, hx.stored, hx.alive⟩, hx.out⟩
  rw [length_windows, h.windows, hx.windows]

end Site.PlaysReceiver

/-- The receiver of the file plays the receiver of the protocol. -/
theorem receives (bo : ByteOrder) {ok : Env → Prop} (f : File)
    (hok : ∀ env d, ok env → ok { env with datagram := d }) :
    Simulates (Site.machine bo) (receiver f.toSource) ok Works (Means bo f) Receiver.Expects
      (Site.PlaysReceiver bo ok f) := by
  refine simulates_of_alive (fun h => h.awaits_eq) ?_ ?_
  · intro s r h halive
    show r.step f.toSource default none = (r, [])
    rcases h.of_not_alive halive with hhalted | hphase
    · simp [Receiver.step, hhalted]
    · cases hhalted : r.halted <;> simp [Receiver.step, hhalted, hphase]
  · intro s r env d m h halive henv hdm haw hexp
    obtain ⟨hhalted, hst, hdir, hat, hcomplete⟩ := h.of_alive halive
    have hmem := hst.next
    have hstored := h.stored
    rw [Process.awaits, hdir] at haw
    suffices hstep : ∃ i, Works { env with datagram := d } i ∧
        ReceiverStep bo ok f s.conf.state r
          (Conf.exec (Session.step bo) { env with datagram := d } s.conf.state)
          (r.step f.toSource i m) by
      obtain ⟨i, hi, hx⟩ := hstep
      exact ⟨i, hi, h.of_step halive hx⟩
    cases hnext : s.conf.state.session.next with
    | «open» =>
      cases hdm with
      | some _ => simp [hnext] at haw
      | none => exact hat.step_hello hdir hstored hhalted hnext
    | setup =>
      cases hdm with
      | none => exact hat.step_none hst hdir hstored hhalted (.inl hnext) rfl
      | some hd =>
        have hphase : r.phase = .hi := by rw [hat.phase_eq, phase, hnext]
        obtain rfl := (hexp _ rfl).1 hphase
        exact hat.step_hi hst hdir hstored hhalted hnext rfl hd
    | connected =>
      cases hdm with
      | some _ => simp [hnext] at haw
      | none => exact hat.step_ack hdir hstored hhalted hnext (hcomplete hnext)
    | closed =>
      have hphase : r.phase = .data := by rw [hat.phase_eq, phase, hnext]
      cases hdm with
      | none =>
        by_cases hwin : s.conf.state.session.processor.winSize = 0
        · exact hat.step_over hstored hhalted hnext hwin
        · exact hat.step_none hst hdir hstored hhalted (.inr ⟨hnext, hwin⟩) rfl
      | some hd =>
        obtain ⟨k, rfl⟩ := (hexp _ rfl).2 hphase
        rw [hnext] at haw
        exact hat.step_data hst hdir hstored hhalted hnext (by simpa using haw) rfl hd
    | done =>
      cases hdm with
      | some _ => simp [hnext] at haw
      | none => exact hat.step_ok hdir hstored hhalted (hok env none henv) hnext
    | inq | send | recv => simp [hnext, inSession] at hmem

/-- At the start of its session, the process plays a receiver at its start. -/
theorem playsReceiver_start (bo : ByteOrder) (ok : Env → Prop) (f : File) (statics : Statics)
    (addressList : List IpaddrDummy) (source : DataSource) (fileSize : ℕ) :
    Site.PlaysReceiver bo ok f
      { conf := { state := .init .RX statics addressList source { fmode := .OUT, fileSize, fs := {} } } }
      {} where
  steady := fun _ => ⟨steady_init .RX statics addressList source _, rfl⟩
  halted := rfl
  windows := rfl
  stored := ⟨rfl, ⟨List.prefix_rfl, fun _ => rfl⟩, fun _ => rfl⟩
  alive := fun _ => {
    phase_eq := rfl
    early := fun _ => ⟨fun hno => hno.1 rfl, rfl, rfl⟩
    reaches := fun h => by simp [Process.init] at h
    late := fun h => by simp [Process.init] at h
    collects := .empty rfl
    fin := fun _ => by simp [Process.init, Source.endsIn]
    win := fun h => by simp [Process.init] at h }

end Udm
