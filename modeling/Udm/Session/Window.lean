import Udm.Session.Reception

/-!
# A window of capsules

A receiver that starts a window with nothing in its hands receives capsules with
different ids, one after the other (`Filled`): its queue holds them in the order of
arrival and its window by increasing capsule id, and the sink is as it was. The end of
the window is seen when the capsule with the largest id carries `FIN` (`exec_fill`).
Acknowledging the window writes it in the order of the ids, and empties both
(`Filled.acknowledged`).

What is said of the buffers is said in terms of the datagrams they hold
(`MemBuff.Carries`): their header and their payload, not the memory around them, so that
two receivers which took the same datagrams write the same (`core_writes`).

* `exec_fill`, `run_fill`: one capsule more in the window, and a run of them;
* `Filled.ascending`: the window, as a sequence of datagrams, is the sorted one;
* `exec_windowOver`, `exec_sentOk`, `run_over`: the two steps that end a window;
* `Filled.acknowledged`: the sink after them, and what is left.
-/

namespace Udm

/-- What is received of a datagram after its header. -/
def payloadOf (d : List Byte) : List Byte := (d.take CHUNK).drop HEADER_SPACE

/-- The buffer `b` holds what is received of the datagram `d`. -/
structure MemBuff.Carries (bo : ByteOrder) (d : List Byte) (b : MemBuff) : Prop where
  /-- The header that is decoded from the first bytes. -/
  header : b.data.header = .decode bo (d.take HEADER_SPACE)
  /-- As much of the datagram as the buffer has room for. -/
  size : b.size = (min CHUNK d.length : ℕ)
  /-- What is written of the buffer is the rest. -/
  payload_eq : b.payload = payloadOf d

/-- The id of the capsule in a datagram. -/
def capid (bo : ByteOrder) (d : List Byte) : BitVec 16 :=
  (CapsuleHdr.decode bo (d.take HEADER_SPACE)).capid

/-- The capsule in a datagram carries `FIN`. -/
def isFin (bo : ByteOrder) (d : List Byte) : Bool :=
  (CapsuleHdr.decode bo (d.take HEADER_SPACE)).isFin

/-- The datagram has the header of a payload capsule. -/
def IsCapsule (bo : ByteOrder) (d : List Byte) : Prop :=
  HEADER_SPACE ≤ d.length ∧ (CapsuleHdr.decode bo (d.take HEADER_SPACE)).isPayld

instance (bo : ByteOrder) (d : List Byte) : Decidable (IsCapsule bo d) :=
  inferInstanceAs (Decidable (_ ∧ _))

variable {bo : ByteOrder} {env : Env} {p q : Process} {d : List Byte} {ds : List (List Byte)}

/-- What is pulled carries the datagram. -/
theorem Gateway.carries_pulled (hp : p.rxFactory.chunkSize = CHUNK) (hd : HEADER_SPACE ≤ d.length) :
    (pulled bo env p d).Carries bo d := by
  have hlen : HEADER_SPACE ≤ (d.take CHUNK).length := by
    rw [List.length_take]
    exact le_min (by decide) hd
  have hsize : (pulled bo env p d).size = (min CHUNK d.length : ℕ) := by rw [size_pulled, hp]
  have hbody : (pulled bo env p d).data.body = (env.heap.store 0 (d.take CHUNK)).shift HEADER_SPACE := by
    rw [pulled, hp]
    rfl
  refine ⟨?_, hsize, ?_⟩
  · have htake : (d.take CHUNK).take HEADER_SPACE = d.take HEADER_SPACE := by
      rw [List.take_take]
      rfl
    rw [pulled, hp]
    show CapsuleHdr.decode bo ((env.heap.store 0 (d.take CHUNK)).load 0 HEADER_SPACE) = _
    rw [Block.load_store_of_le _ hlen, htake]
  · have hwrite : (DataFactory.writeLength (pulled bo env p d).size).toNat =
        (d.take CHUNK).length - HEADER_SPACE := by
      have hlt : (min CHUNK d.length : ℤ) ≤ CHUNK := min_le_left _ _
      have hle : ((HEADER_SPACE : ℕ) : ℤ) ≤ (min CHUNK d.length : ℕ) := by
        rw [← List.length_take]
        exact_mod_cast hlen
      rw [hsize, DataFactory.writeLength_of_le hle (by push_cast; omega), List.length_take]
      omega
    rw [MemBuff.payload, payloadOf, hbody, Block.load_shift, hwrite]
    -- The payload is the part of the stored datagram behind the header.
    have hsplit : HEADER_SPACE + ((d.take CHUNK).length - HEADER_SPACE) ≤ (d.take CHUNK).length := by
      omega
    have := @Block.load_store_add _ env.heap 0 _ _ _ hsplit
    rw [Nat.zero_add] at this
    rw [Nat.add_zero, this, List.take_of_length_le (by rw [List.length_drop])]

/-- What is written of a received capsule is not negative. -/
theorem MemBuff.Carries.writeLength_nonneg {b : MemBuff} (h : b.Carries bo d)
    (hd : HEADER_SPACE ≤ d.length) : 0 ≤ DataFactory.writeLength b.size := by
  have hle : ((HEADER_SPACE : ℕ) : ℤ) ≤ b.size := by
    rw [h.size]
    exact_mod_cast le_min (by decide) hd
  have hlt : b.size ≤ (CHUNK : ℕ) := by
    rw [h.size]
    exact_mod_cast min_le_left _ _
  have hbound : ((CHUNK : ℕ) : ℤ) < 2147483648 := by decide
  rw [DataFactory.writeLength_of_le hle (hlt.trans_lt hbound)]
  omega

/-- A related element of the first list, for each of the second. -/
theorem exists_of_forall₂ {α β : Type} {R : α → β → Prop} {l : List α} {l' : List β}
    (h : List.Forall₂ R l l') {b : β} (hb : b ∈ l') : ∃ a ∈ l, R a b := by
  induction h with
  | nil => simp at hb
  | cons hab _ ih =>
    rcases List.mem_cons.1 hb with rfl | hb
    · exact ⟨_, List.mem_cons_self, hab⟩
    · obtain ⟨a, ha, hR⟩ := ih hb
      exact ⟨a, List.mem_cons_of_mem _ ha, hR⟩

/-- A factory without its queue and the flag for the end of the file. -/
def DataFactory.core (fac : DataFactory) : DataFactory :=
  { fac with buffer := [], allocated := 0, fin := false }

namespace Session

/-- The process has received the capsules in `ds` since it was `p`, at the start of a
    window: they are in its queue, in this order, and in its window. -/
structure Filled (bo : ByteOrder) (p q : Process) (ds : List (List Byte)) : Prop where
  /-- The process receives. -/
  dir : q.session.dir = .RX
  /-- It has the addresses it had. -/
  interfaces : q.interfaces = p.interfaces
  /-- The counters and the sink are as they were. -/
  core : q.rxFactory.core = p.rxFactory.core
  /-- The queue has a buffer for each capsule, in the order of arrival. -/
  carries : List.Forall₂ (MemBuff.Carries bo) ds q.rxFactory.buffer
  /-- The window has an entry for each capsule, under its id. -/
  window : ∀ e, e ∈ q.rxcurrentWindow ↔ ∃ b ∈ q.rxFactory.buffer, e = (b.data.header.capid, b)

/-- A receiver at the start of a window, with nothing in its hands. -/
structure Ready (p : Process) : Prop where
  /-- The process receives data. -/
  dir : p.session.dir = .RX
  next : p.session.next = .closed
  /-- The window is empty. -/
  window : p.rxcurrentWindow = ∅
  /-- So is the queue. -/
  queue : p.rxFactory.buffer = []
  /-- The end of the file was not seen. -/
  fin : p.rxFactory.fin = false
  /-- A buffer has room for the largest datagram. -/
  chunkSize : p.rxFactory.chunkSize = CHUNK

/-- At the start no capsule has come. -/
theorem Ready.filled (h : Ready p) : Filled bo p p [] where
  dir := h.dir
  interfaces := rfl
  core := rfl
  carries := by
    rw [h.queue]
    exact .nil
  window e := by
    rw [h.queue, h.window]
    simp [OrdMap.not_mem_empty]

namespace Filled

/-- The entries of the window are in the queue. -/
theorem held (h : Filled bo p q ds) : Held q := by
  rintro e he
  obtain ⟨b, hb, rfl⟩ := (h.window e).1 he
  exact ⟨hb, rfl⟩

/-- The buffers have the size they had. -/
theorem chunkSize (h : Filled bo p q ds) : q.rxFactory.chunkSize = p.rxFactory.chunkSize := by
  have := congrArg DataFactory.chunkSize h.core
  exact this

/-- The ids in the window are those of the capsules. -/
theorem mem_keys (h : Filled bo p q ds) {k : BitVec 16} :
    k ∈ q.rxcurrentWindow.keys ↔ k ∈ ds.map (capid bo) := by
  rw [OrdMap.mem_keys, List.mem_map]
  constructor
  · rintro ⟨b, he⟩
    obtain ⟨b', hb, heq⟩ := (h.window _).1 he
    obtain ⟨d, hd, hcarries⟩ := exists_of_forall₂ h.carries hb
    have hk : k = b'.data.header.capid := (Prod.ext_iff.1 heq).1
    exact ⟨d, hd, by rw [hk, hcarries.header, capid]⟩
  · rintro ⟨d, hd, rfl⟩
    obtain ⟨b, hb, hcarries⟩ := exists_of_forall₂ h.carries.flip hd
    exact ⟨b, (h.window _).2 ⟨b, hb, by rw [hcarries.header, capid]⟩⟩

end Filled

/-- What a capsule does in the state `closed`: the end of the file is looked for in the
    capsule `b` with the largest id. -/
theorem arrived_eq (hwin : p.session.processor.winSize ≠ 0) {k : BitVec 16} {b : MemBuff}
    (hlast : (received bo env p d).rxcurrentWindow.last = some (k, b)) :
    let fin := p.rxFactory.fin || b.data.header.isFin
    arrived bo env d p =
      ((received bo env p d).setRx { (received bo env p d).rxFactory with fin }).setWinSize
        (if fin then 0 else p.session.processor.winSize - 1) := by
  intro fin
  have hfin : ((received bo env p d).rxFactory.fin || b.data.header.isFin) = fin := by simp [fin]
  have hcount : (if (if fin then 0 else p.session.processor.winSize) = 0 then (0 : BitVec 16)
      else (if fin then 0 else p.session.processor.winSize) - 1) =
        if fin then 0 else p.session.processor.winSize - 1 := by
    cases fin with
    | true => rfl
    | false => rw [if_neg Bool.false_ne_true, if_neg hwin, if_neg Bool.false_ne_true]
  rw [arrived]
  simp only [hlast, hfin, session_received, Process.countDown, Process.setWinSize_session_processor_winSize,
    hcount]
  rfl

/-- Receiving a capsule with a new id. The end of the window is looked for in the
    capsule with the largest id. -/
theorem exec_fill (h : Filled bo p q ds) (hp : p.rxFactory.chunkSize = CHUNK)
    (hnext : q.session.next = .closed) (hwin : q.session.processor.winSize ≠ 0)
    (hd : env.datagram = some d) (hcap : IsCapsule bo d)
    (hnew : capid bo d ∉ ds.map (capid bo)) :
    ∃ q', Conf.exec (step bo) env q = { state := q' } ∧ Filled bo p q' (ds ++ [d]) ∧
      q'.session.next = .closed ∧ ∃ newest ∈ ds ++ [d], (∀ d' ∈ ds ++ [d], capid bo d' ≤ capid bo newest) ∧
        q'.rxFactory.fin = (q.rxFactory.fin || isFin bo newest) ∧
        q'.session.processor.winSize =
          if q'.rxFactory.fin then 0 else q.session.processor.winSize - 1 := by
  have hq : q.clear.rxFactory.chunkSize = CHUNK := h.chunkSize.trans hp
  set b := Gateway.pulled bo env q.clear d with hb
  have hcarries : b.Carries bo d := Gateway.carries_pulled hq hcap.1
  have hkey : b.data.header.capid = capid bo d := by rw [hcarries.header, capid]
  have hpayld : b.data.header.isPayld = true := by rw [hcarries.header]; exact hcap.2
  have hexec := @exec_arrived bo _ _ _ h.held h.dir hnext hwin hd
  set q' := arrived bo env d q.clear with hq'
  have hbuffer : q'.rxFactory.buffer = q.rxFactory.buffer ++ [b] := buffer_arrived
  have hwindow : q'.rxcurrentWindow = q.rxcurrentWindow.insert (capid bo d) b := by
    rw [hq', rxcurrentWindow_arrived, rxcurrentWindow_received, if_pos hpayld, ← hb, hkey]
    rfl
  have hforall : List.Forall₂ (MemBuff.Carries bo) (ds ++ [d]) q'.rxFactory.buffer := by
    rw [hbuffer]
    exact List.rel_append h.carries (.cons hcarries .nil)
  have hmem : ∀ e, e ∈ q'.rxcurrentWindow ↔
      ∃ b ∈ q'.rxFactory.buffer, e = (b.data.header.capid, b) := by
    intro e
    rw [hwindow, hbuffer, OrdMap.mem_insert]
    constructor
    · rintro (rfl | ⟨he, -⟩)
      · exact ⟨b, List.mem_append_right _ (List.mem_singleton_self b), by rw [hkey]⟩
      · obtain ⟨b', hb', rfl⟩ := (h.window e).1 he
        exact ⟨b', List.mem_append_left _ hb', rfl⟩
    · rintro ⟨b', hb', rfl⟩
      rcases List.mem_append.1 hb' with hb' | hb'
      · have he := (h.window (b'.data.header.capid, b')).2 ⟨b', hb', rfl⟩
        exact .inr ⟨he, fun hk => hnew (hk ▸ h.mem_keys.1 (OrdMap.mem_keys.2 ⟨b', he⟩))⟩
      · obtain rfl := List.mem_singleton.1 hb'
        exact .inl (by rw [hkey])
  -- The entry with the largest key.
  obtain ⟨⟨k, newest⟩, hlast⟩ : ∃ e, q'.rxcurrentWindow.last = some e := by
    rw [← Option.ne_none_iff_exists', Ne, OrdMap.last_eq_none]
    intro hempty
    have he : (capid bo d, b) ∈ q'.rxcurrentWindow := by
      rw [hwindow]
      exact OrdMap.mem_insert.2 (.inl rfl)
    exact OrdMap.not_mem_empty _ (hempty ▸ he)
  obtain ⟨hmax, hle⟩ := OrdMap.last_eq_some.1 hlast
  obtain ⟨b', hb', heq⟩ := (hmem _).1 hmax
  obtain ⟨rfl, rfl⟩ : k = b'.data.header.capid ∧ newest = b' := Prod.ext_iff.1 heq
  obtain ⟨d', hd', hcarries'⟩ := exists_of_forall₂ hforall hb'
  have hq'_eq := arrived_eq (p := q.clear) hwin
    (rxcurrentWindow_arrived (p := q.clear) ▸ hlast : (received bo env q.clear d).rxcurrentWindow.last = _)
  rw [← hq'] at hq'_eq
  have hfin : q'.rxFactory.fin = (q.rxFactory.fin || newest.data.header.isFin) := by
    rw [hq'_eq]
    simp
  have hsession : q'.session.dir = q.session.dir ∧ q'.session.next = q.session.next := by
    rw [hq'_eq]
    simp
  refine ⟨q', hexec, ⟨hsession.1.trans h.dir, ?_, ?_, hforall, hmem⟩, hsession.2.trans hnext,
    d', hd', ?_, ?_, ?_⟩
  · rw [hq'_eq]
    simpa using h.interfaces
  · rw [← h.core, hq'_eq]
    simp [DataFactory.core]
  · intro d'' hd''
    obtain ⟨b'', hb'', hcarries''⟩ := exists_of_forall₂ hforall.flip hd''
    have := hle _ ((hmem _).2 ⟨b'', hb'', rfl⟩)
    rwa [capid, capid, ← hcarries''.header, ← hcarries'.header]
  · rw [hfin, hcarries'.header, isFin]
  · rw [hfin, hq'_eq]
    rfl

/-- The state of the session after capsules without `FIN`. -/
structure Filling (p q : Process) (n : ℕ) : Prop where
  /-- The window is not over. -/
  next : q.session.next = .closed
  /-- No capsule had the flag. -/
  fin : q.rxFactory.fin = false
  /-- Each of them was counted. -/
  winSize : q.session.processor.winSize.toNat + n = p.session.processor.winSize.toNat

/-- Receiving capsules with different ids, none of which carries `FIN`. -/
theorem run_fill {input : ℕ → Env} (hp : Ready p) (hcaps : ∀ d ∈ ds, IsCapsule bo d)
    (hfin : ∀ d ∈ ds, isFin bo d = false) (hids : (ds.map (capid bo)).Nodup)
    (hlen : ds.length ≤ p.session.processor.winSize.toNat)
    (hd : ∀ i < ds.length, (input i).datagram = ds[i]?) :
    ∃ q, run bo p input ds.length = { state := q } ∧ Filled bo p q ds ∧ Filling p q ds.length := by
  -- The capsules come one after the other, so the induction is on the last one.
  induction ds using List.reverseRecOn with
  | nil => exact ⟨p, rfl, hp.filled, hp.next, hp.fin, rfl⟩
  | append_singleton ds d ih =>
    rw [List.forall_mem_append] at hcaps hfin
    rw [List.map_append, List.nodup_append] at hids
    rw [List.length_append, List.length_singleton] at hlen hd ⊢
    obtain ⟨q, hrun, hfilled, hfilling⟩ := ih hcaps.1 hfin.1 hids.1 (by omega) fun i hi => by
      rw [hd i (by omega), List.getElem?_append_left hi]
    have hwin : q.session.processor.winSize ≠ 0 := by
      intro hzero
      have := hfilling.winSize
      rw [hzero] at this
      simp at this
      omega
    have hlast : (input ds.length).datagram = some d := by
      rw [hd ds.length (by omega)]
      simp
    have hnew : capid bo d ∉ ds.map (capid bo) := fun hmem =>
      hids.2.2 _ hmem _ (List.mem_singleton_self _) rfl
    obtain ⟨q', hexec, hfilled', hnext, newest, hmem, -, hfin', hwin'⟩ :=
      exec_fill hfilled hp.chunkSize hfilling.next hwin hlast (hcaps.2 d (by simp)) hnew
    have halive : (run bo p input ds.length).Alive Process.returned := by
      rw [hrun]
      exact ⟨rfl, by simp [Process.returned, hfilling.next]⟩
    -- None of the capsules carries the flag, whichever of them has the largest id.
    have hnofin : q'.rxFactory.fin = false := by
      have : isFin bo newest = false := (List.forall_mem_append.2 hfin) newest hmem
      rw [hfin', hfilling.fin, this]
      rfl
    refine ⟨q', by rw [run_succ bo halive, hrun, hexec], hfilled', hnext, hnofin, ?_⟩
    have hpos := toNat_pos hwin
    have := hfilling.winSize
    rw [hwin', hnofin, if_neg (by simp), toNat_sub_one hwin]
    omega

/-! ## Acknowledging the window -/

/-- A window that is over leads to the state `done`. -/
theorem exec_windowOver (hnext : q.session.next = .closed)
    (hwin : q.session.processor.winSize = 0) :
    Conf.exec (step bo) env q = { state := q.clear.setNext .done } := by
  refine Conf.exec_of_wp (C := fun c => c = { state := q.clear.setNext .done }) ?_
  have hwin' : q.clear.session.processor.winSize = 0 := hwin
  rw [wp_step, hnext]
  show wp (closedState bo env q.session.dir) _ _ _
  rw [wp_closedState, if_pos hwin']

/-- The capsules `s` are those in `ds`, by increasing id. -/
structure Ascending (bo : ByteOrder) (ds s : List (List Byte)) : Prop where
  /-- No capsule is left out, or taken twice. -/
  perm : s.Perm ds
  /-- The ids increase. -/
  ordered : s.Pairwise fun d e => capid bo d < capid bo e

/-- There is one order by increasing id, whatever the order of arrival. -/
theorem Ascending.unique {ds' s s' : List (List Byte)} (h : Ascending bo ds s)
    (h' : Ascending bo ds' s') (hperm : ds.Perm ds') : s = s' :=
  List.Perm.eq_of_pairwise (fun _ _ _ _ hlt hgt => absurd hgt hlt.asymm) h.ordered h'.ordered
    (h.perm.trans (hperm.trans h'.perm.symm))

/-- The ids of the buffers are those of the datagrams. -/
theorem map_capid {bs : List MemBuff} (h : List.Forall₂ (MemBuff.Carries bo) ds bs) :
    bs.map (fun b => b.data.header.capid) = ds.map (capid bo) := by
  induction h with
  | nil => rfl
  | cons hcarries _ ih => rw [List.map_cons, List.map_cons, ih, hcarries.header, capid]

/-- The window holds the capsules by increasing id. -/
theorem Filled.ascending (h : Filled bo p q ds) (hids : (ds.map (capid bo)).Nodup) :
    ∃ s, Ascending bo ds s ∧ List.Forall₂ (MemBuff.Carries bo) s (Session.window q) := by
  -- Different ids make different buffers, so window and queue are the same up to order.
  have hqueue : q.rxFactory.buffer.Nodup := (map_capid h.carries ▸ hids).of_map
  have hordered : (Session.window q).Pairwise fun b c =>
      b.data.header.capid < c.data.header.capid := by
    refine List.pairwise_map.2 (q.rxcurrentWindow.ordered.imp_of_mem ?_)
    intro e e' he he' hlt
    rwa [(h.held e he).2, (h.held e' he').2] at hlt
  have hwindow : (Session.window q).Nodup := hordered.imp fun hlt heq => (heq ▸ hlt).false
  have hmem : ∀ b, b ∈ Session.window q ↔ b ∈ q.rxFactory.buffer := by
    intro b
    constructor
    · intro hb
      obtain ⟨e, he, rfl⟩ := List.mem_map.1 hb
      exact (h.held e he).1
    · intro hb
      exact List.mem_map.2 ⟨_, (h.window _).2 ⟨b, hb, rfl⟩, rfl⟩
  have hperm := (List.perm_ext_iff_of_nodup hwindow hqueue).2 hmem
  obtain ⟨s, hrel, hs⟩ := List.perm_comp_forall₂ hperm h.carries.flip
  refine ⟨s, ⟨hs, ?_⟩, hrel.flip⟩
  rw [← List.pairwise_map (f := capid bo) (R := (· < ·)), ← map_capid hrel.flip, List.pairwise_map]
  exact hordered

/-- The queue has as many buffers as the window. -/
theorem Filled.size_eq (h : Filled bo p q ds) (hids : (ds.map (capid bo)).Nodup) :
    q.rxcurrentWindow.size = q.rxFactory.buffer.length := by
  obtain ⟨s, hs, hrel⟩ := h.ascending hids
  rw [← h.carries.length_eq, ← hs.perm.length_eq, hrel.length_eq, Session.window, List.length_map,
    OrdMap.size]

/-- The acknowledgement of a window whose buffers are in the queue. -/
theorem exec_sentOk (hheld : Held q) (hdir : q.session.dir = .RX) (hnext : q.session.next = .done)
    (haddr : ¬q.interfaces.NoAddress) :
    Conf.exec (step bo) env q = { state := sentOk bo env q.clear } := by
  refine Conf.exec_of_wp (C := fun c => c = { state := sentOk bo env q.clear }) ?_
  have hall : (window q.clear).all q.clear.rxFactory.holds := by
    rw [List.all_eq_true]
    intro b hb
    obtain ⟨e, he, rfl⟩ := List.mem_map.1 hb
    exact DataFactory.holds_of_mem (hheld e he).1
  have haddr' : ¬(written env q.clear).interfaces.NoAddress := by
    rw [interfaces_written]
    exact haddr
  rw [wp_step, hnext, hdir]
  show wp (doneState bo env .RX) _ _ _
  rw [wp_doneState_rx, if_pos hall, if_neg haddr']

/-! ## The writes of a window -/

open PresentationProcessor

/-- What a write does to the sink and the counters does not depend on the queue or the flag. -/
theorem core_write2Souce {fac fac' : DataFactory} (h : fac.core = fac'.core) (o : WriteOutcome)
    (b : MemBuff) : (write2Souce fac o b).core = (write2Souce fac' o b).core := by
  rcases fac with ⟨_, _, _, allocSize, curSize, curPos, curWritePos, chunkSize, sourceData⟩
  rcases fac' with ⟨_, _, _, _, _, _, _, _, _⟩
  simp only [DataFactory.core, DataFactory.mk.injEq, true_and] at h
  obtain ⟨rfl, rfl, rfl, rfl, rfl, rfl⟩ := h
  simp only [write2Souce, DataFactory.write2Source]
  rcases sourceData with ⟨_ | _, _, _⟩ <;> rfl

/-- What a successful write does depends on the payload of the buffer only. -/
theorem write2Souce_congr (fac : DataFactory) {b b' : MemBuff} (hsize : b.size = b'.size)
    (hpayload : b.payload = b'.payload) :
    write2Souce fac .written b = write2Souce fac .written b' := by
  have hwrite (fs : Fstream) : fs.write .written b.data.body (DataFactory.writeLength b.size) =
      fs.write .written b'.data.body (DataFactory.writeLength b'.size) := by
    rw [MemBuff.payload, MemBuff.payload] at hpayload
    rw [Fstream.write, Fstream.write, hpayload, hsize]
    rfl
  have hstream (data : DataSource) :
      DataFactory.writeStream .written data b.data.body (DataFactory.writeLength b.size) =
        DataFactory.writeStream .written data b'.data.body (DataFactory.writeLength b'.size) := by
    rw [DataFactory.writeStream, DataFactory.writeStream, hwrite]
  have hsource : fac.write2Source .written b b.size = fac.write2Source .written b' b'.size := by
    simp only [DataFactory.write2Source, hstream]
  rw [write2Souce, write2Souce, hsource, hsize]

/-- The writes of the same capsules have the same effect on the sink and the
    counters. -/
theorem core_writes {env env' : Env} (hw : ∀ i, env.write i = .written)
    (hw' : ∀ i, env'.write i = .written) {s : List (List Byte)} {bs bs' : List MemBuff}
    {p p' : Process} (h : p.rxFactory.core = p'.rxFactory.core)
    (hbs : List.Forall₂ (MemBuff.Carries bo) s bs) (hbs' : List.Forall₂ (MemBuff.Carries bo) s bs') :
    (writes env bs p).rxFactory.core = (writes env' bs' p').rxFactory.core := by
  induction hbs generalizing bs' p p' with
  | nil =>
    rcases hbs' with - | -
    exact h
  | @cons d b s bs hb _ ih =>
    rcases hbs' with - | ⟨hb', hbs'⟩
    rename_i b' bs'
    rw [writes, writes, hb.header, hb'.header]
    split
    · refine ih ?_ hbs'
      show (write2Souce p.rxFactory (env.write _) b).core =
        (write2Souce p'.rxFactory (env'.write _) b').core
      rw [hw, hw', core_write2Souce h, write2Souce_congr _ (hb.size.trans hb'.size.symm)
        (hb.payload_eq.trans hb'.payload_eq.symm)]
    · exact ih h hbs'

/-- The buffers that are written are those with a payload, in their order. -/
theorem map_buf_writes (bs : List MemBuff) :
    (writes env bs p).io.writes.map SinkWrite.buf =
      p.io.writes.map SinkWrite.buf ++ bs.filter fun b => b.data.header.isPayld := by
  induction bs generalizing p with
  | nil => simp [writes]
  | cons b bs ih =>
    rw [writes]
    cases hb : b.data.header.isPayld with
    | false => simp [ih, hb]
    | true =>
      rw [if_pos rfl, ih, writes_write, List.map_append]
      simp [hb, record]

/-- The payloads of the buffers are those of the datagrams. -/
theorem flatMap_payload {s : List (List Byte)} {bs : List MemBuff}
    (h : List.Forall₂ (MemBuff.Carries bo) s bs) :
    bs.flatMap MemBuff.payload = s.flatMap payloadOf := by
  induction h with
  | nil => rfl
  | cons hcarries _ ih => rw [List.flatMap_cons, List.flatMap_cons, ih, hcarries.payload_eq]

/-- A window that `p` has started is acknowledged: the capsules `s` are written in this
    order, and nothing is left. The flag for the end of the file says what comes next. -/
structure Acknowledged (bo : ByteOrder) (p : Process) (fin : Bool) (s : List (List Byte))
    (c : Party) : Prop where
  /-- Nothing has stopped the process. -/
  error : c.error = none
  /-- The capsules were written in this order, each once. -/
  writes : List.Forall₂ (MemBuff.Carries bo) s (c.state.io.writes.map SinkWrite.buf)
  /-- Their payloads are at the end of the sink. -/
  sink : c.state.sink = p.sink ++ s.flatMap payloadOf
  /-- The window is empty again. -/
  window : c.state.rxcurrentWindow = ∅
  /-- So is the queue. -/
  queue : c.state.rxFactory.buffer = []
  /-- The flag is the one that was seen. -/
  fin_eq : c.state.rxFactory.fin = fin
  /-- After the last window the session is over. -/
  next : c.state.session.next = if fin then .connected else .closed
  /-- The next window is of the usual size. -/
  winSize : fin = false → c.state.session.processor.winSize = BitVec.ofNat 16 WIN_SIZ

/-- Where every write succeeds, the acknowledgement of a window of capsules writes them by
    increasing id, and empties the window and the queue. -/
theorem Filled.acknowledged {s : List (List Byte)} (h : Filled bo p q ds)
    (hcaps : ∀ d ∈ ds, IsCapsule bo d) (hids : (ds.map (capid bo)).Nodup)
    (hnext : q.session.next = .done) (haddr : ¬p.interfaces.NoAddress) (hs : Ascending bo ds s)
    (hw : ∀ i, env.write i = .written) (hmode : p.rxFactory.sourceData.fmode = .OUT)
    (hfs : p.rxFactory.sourceData.fs.failed = false) :
    Acknowledged bo p q.rxFactory.fin s (Conf.exec (step bo) env q) := by
  have hsource : q.rxFactory.sourceData = p.rxFactory.sourceData := by
    have := congrArg DataFactory.sourceData h.core
    exact this
  rw [exec_sentOk h.held h.dir hnext (h.interfaces ▸ haddr)]
  obtain ⟨s', hs', hwindow⟩ := h.ascending hids
  obtain rfl := hs.unique hs' (.refl ds)
  have hwrite : (writes env (Session.window q) q.clear).rxFactory = (written env q.clear).rxFactory := rfl
  have hpayld : ∀ b ∈ Session.window q, b.data.header.isPayld = true := by
    intro b hb
    obtain ⟨d, hd, hcarries⟩ := exists_of_forall₂ hwindow hb
    rw [hcarries.header]
    exact (hcaps d (hs.perm.subset hd)).2
  have hfilter : (Session.window q).filter (fun b => b.data.header.isPayld) = Session.window q :=
    List.filter_eq_self.2 hpayld
  -- Every write is accepted: the sink is open for output, and no length is negative.
  have hacc : ∀ w ∈ (writes env (Session.window q) q.clear).io.writes, w.Accepted := by
    refine accepted_writes (by rw [← hmode, ← hsource]; rfl) (by rw [← hfs, ← hsource]; rfl) hw ?_ ?_
    · intro b hb
      obtain ⟨d, hd, hcarries⟩ := exists_of_forall₂ hwindow hb
      exact hcarries.writeLength_nonneg (hcaps d (hs.perm.subset hd)).1
    · intro w hw'
      simp at hw'
  have hfs' := @fs_writes env q.clear (by rw [← hmode, ← hsource]; rfl) _ hacc
  have hfin : (written env q.clear).rxFactory.fin = q.rxFactory.fin := fin_written env
  have hbuffer : (sentOk bo env q.clear).rxFactory.buffer =
      (written env q.clear).rxFactory.buffer.drop (written env q.clear).rxcurrentWindow.size := rfl
  constructor
  · rfl
  · have : (sentOk bo env q.clear).io.writes = (writes env (Session.window q) q.clear).io.writes := rfl
    rw [this, map_buf_writes, hfilter]
    simpa using hwindow
  · have hsink : (sentOk bo env q.clear).sink =
        (writes env (Session.window q) q.clear).rxFactory.sourceData.fs.content := rfl
    rw [hsink, hfs', hfilter, flatMap_payload hwindow]
    show q.rxFactory.sourceData.fs.content ++ _ = _
    rw [hsource]
    rfl
  · rfl
  · rw [hbuffer, buffer_written, rxcurrentWindow_written]
    exact List.drop_of_length_le (h.size_eq hids).ge
  · exact hfin
  · show (if (written env q.clear).rxFactory.fin then _ else _) = _
    rw [hfin]
  · intro hq
    show (if (written env q.clear).rxFactory.fin then _ else _) = _
    rw [hfin, hq]
    rfl

/-- The state `done` is entered with the window as it is. -/
theorem Filled.over (h : Filled bo p q ds) : Filled bo p (q.clear.setNext .done) ds :=
  ⟨h.dir, h.interfaces, h.core, h.carries, h.window⟩

/-- The two steps at the end of a window: the test of its loop, and the
    acknowledgement. -/
theorem run_over {input : ℕ → Env} {n : ℕ} (hrun : run bo p input n = { state := q })
    (hnext : q.session.next = .closed) (hwin : q.session.processor.winSize = 0) :
    run bo p input (n + 2) = Conf.exec (step bo) (input (n + 1)) (q.clear.setNext .done) := by
  have halive : (run bo p input n).Alive Process.returned := by
    rw [hrun]
    exact ⟨rfl, by simp [Process.returned, hnext]⟩
  have hover : run bo p input (n + 1) = { state := q.clear.setNext .done } := by
    rw [run_succ bo halive, hrun, exec_windowOver hnext hwin]
  have halive' : (run bo p input (n + 1)).Alive Process.returned := by
    rw [hover]
    exact ⟨rfl, by simp [Process.returned]⟩
  rw [run_succ bo halive', hover]

/-- What the acknowledgement leaves in the factory, up to its queue: what the writes
    leave. -/
theorem Filled.core_acknowledged (h : Filled bo p q ds) (hnext : q.session.next = .done)
    (haddr : ¬p.interfaces.NoAddress) :
    (Conf.exec (step bo) env q).state.rxFactory.core =
      (writes env (Session.window q) q.clear).rxFactory.core := by
  rw [exec_sentOk h.held h.dir hnext (h.interfaces ▸ haddr)]
  rfl

end Session

end Udm
