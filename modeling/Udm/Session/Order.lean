import Udm.Session.Storage
import Udm.Session.Window

/-!
# The order of a window

The receiver writes a window by increasing capsule id. So it does not matter in
which order the capsules of a full window arrive:

* `arrivalOrder`: two orders of arrival lead to the same bytes in the sink and to the
  same counters.

And they are written in the order in which they were sent as long as this is the order
of their ids, which are the counter of the sender modulo `2 ^ 16`:

* `inSequence_iff`: a window is written in the order of sending, and its end is seen,
  exactly if the ids do not start again from zero within it.
-/

namespace Udm

variable {bo : ByteOrder} {p q : Process} {ds s : List (List Byte)}

/-- What the process sends goes to some address, and its sink takes what is written. -/
structure Process.Working (p : Process) : Prop where
  /-- The peer has an address. -/
  address : ¬p.interfaces.NoAddress
  /-- The file is open for writing. -/
  fmode : p.rxFactory.sourceData.fmode = .OUT
  /-- It has not failed. -/
  stream : p.rxFactory.sourceData.fs.failed = false

namespace Session

open PresentationProcessor

/-! ## Any order of arrival -/

/-- The window that `p` has started is over, with the capsules `s` written, and the
    next one starts. -/
structure NextWindow (p : Process) (s : List (List Byte)) (c : Party) : Prop where
  /-- Nothing has stopped the process. -/
  error : c.error = none
  /-- The payloads are at the end of the sink, in the order of the writes. -/
  sink : c.state.sink = p.sink ++ s.flatMap payloadOf
  /-- The window is empty. -/
  window : c.state.rxcurrentWindow = ∅
  /-- So is the queue. -/
  queue : c.state.rxFactory.buffer = []
  /-- The end of the file was not seen. -/
  fin : c.state.rxFactory.fin = false
  /-- The next window is of the usual size. -/
  winSize : c.state.session.processor.winSize = BitVec.ofNat 16 WIN_SIZ
  /-- It is received in the same state. -/
  next : c.state.session.next = .closed

/-- A full window without `FIN`, in some order of arrival. -/
theorem fullWindow (hp : Ready p) (hw : p.Working) (hcaps : ∀ d ∈ ds, IsCapsule bo d)
    (hfin : ∀ d ∈ ds, isFin bo d = false) (hids : (ds.map (capid bo)).Nodup)
    (hlen : ds.length = p.session.processor.winSize.toNat) {input : ℕ → Env}
    (hs : ∀ i, (input i).Succeeds) (hd : ∀ i < ds.length, (input i).datagram = ds[i]?) :
    ∃ s, Ascending bo ds s ∧ NextWindow p s (run bo p input (ds.length + 2)) ∧
      ∃ env q bs, (∀ i, env.write i = .written) ∧ q.rxFactory.core = p.rxFactory.core ∧
        List.Forall₂ (MemBuff.Carries bo) s bs ∧
        (run bo p input (ds.length + 2)).state.rxFactory.core =
          (writes env bs q).rxFactory.core := by
  obtain ⟨q, hrun, hfilled, hfilling⟩ := run_fill hp hcaps hfin hids hlen.le hd
  have hwin : q.session.processor.winSize = 0 := by
    have := hfilling.winSize
    exact BitVec.eq_of_toNat_eq (show q.session.processor.winSize.toNat = 0 by omega)
  have hover := hfilled.over
  obtain ⟨s, hasc, hcarries⟩ := hover.ascending hids
  rw [run_over hrun hfilling.next hwin]
  have hack := hover.acknowledged hcaps hids rfl hw.address hasc (hs (ds.length + 1)).write
    hw.fmode hw.stream
  have hnofin : (q.clear.setNext .done).rxFactory.fin = false := hfilling.fin
  rw [hnofin] at hack
  refine ⟨s, hasc, ⟨hack.error, hack.sink, hack.window, hack.queue, hack.fin_eq,
    hack.winSize rfl, hack.next⟩, _, _, _, (hs (ds.length + 1)).write, ?_, hcarries,
    hover.core_acknowledged rfl hw.address⟩
  exact hfilled.core

/-- Whatever the order in which the capsules of a full window arrive, the same bytes
    are appended to the sink, by increasing capsule id and each capsule once, and the
    window ends in the same state: the factory is the same up to the numbering of its
    buffers, of which none is left. -/
theorem arrivalOrder (hp : Ready p) (hw : p.Working) {ds' : List (List Byte)}
    (hperm : ds.Perm ds') (hcaps : ∀ d ∈ ds, IsCapsule bo d)
    (hfin : ∀ d ∈ ds, isFin bo d = false) (hids : (ds.map (capid bo)).Nodup)
    (hlen : ds.length = p.session.processor.winSize.toNat) {input input' : ℕ → Env}
    (hs : ∀ i, (input i).Succeeds) (hs' : ∀ i, (input' i).Succeeds)
    (hd : ∀ i < ds.length, (input i).datagram = ds[i]?)
    (hd' : ∀ i < ds.length, (input' i).datagram = ds'[i]?) :
    ∃ s, Ascending bo ds s ∧
      NextWindow p s (run bo p input (ds.length + 2)) ∧
      NextWindow p s (run bo p input' (ds.length + 2)) ∧
      (run bo p input (ds.length + 2)).state.rxFactory.core =
        (run bo p input' (ds.length + 2)).state.rxFactory.core := by
  obtain ⟨s, hasc, hnext, env, q, bs, henv, hq, hbs, hcore⟩ := fullWindow hp hw hcaps hfin hids hlen hs hd
  have hlen' := hperm.length_eq
  have hmem : ∀ d ∈ ds', d ∈ ds := fun _ => hperm.mem_iff.2
  obtain ⟨s', hasc', hnext', env', q', bs', henv', hq', hbs', hcore'⟩ :=
    fullWindow hp hw (fun d h => hcaps d (hmem d h)) (fun d h => hfin d (hmem d h))
      ((hperm.map _).nodup_iff.1 hids) (hlen' ▸ hlen) hs' (hlen' ▸ hd')
  -- There is only one increasing order, and the writes depend on nothing else.
  obtain rfl := hasc.unique hasc' hperm
  rw [← hlen'] at hnext' hcore'
  refine ⟨s, hasc, hnext, hnext', ?_⟩
  rw [hcore, hcore', core_writes henv henv' (hq.trans hq'.symm) hbs hbs']

/-- A receiver at the start of a window of two capsules. -/
def listening : Process :=
  { newReceiver with session := { dir := .RX, next := .closed, processor := { winSize := 2 } } }

theorem ready_listening : Ready listening := ⟨rfl, rfl, rfl, rfl, rfl, rfl⟩

theorem working_listening : listening.Working := ⟨by decide, rfl, rfl⟩

/-- A payload capsule. -/
def payldCapsule (capid : BitVec 16) (payload : List Byte) : List Byte :=
  CapsuleHdr.encode .little { capid, capType := CapsuleType.PAYLD.code } ++ payload

/-- The datagrams `ds` are received one after the other. -/
def receiving (ds : List (List Byte)) (i : ℕ) : Env := .plain ds[i]? []

/-- Two capsules with increasing ids. -/
def twoCapsules : List (List Byte) := [payldCapsule 1 [7], payldCapsule 2 [8]]

theorem arrivalOrder_twoCapsules :
    ∃ s, Ascending .little twoCapsules s ∧
      NextWindow listening s (run .little listening (receiving twoCapsules) 4) ∧
      NextWindow listening s (run .little listening (receiving twoCapsules.reverse) 4) ∧
      (run .little listening (receiving twoCapsules) 4).state.rxFactory.core =
        (run .little listening (receiving twoCapsules.reverse) 4).state.rxFactory.core :=
  arrivalOrder ready_listening working_listening (List.reverse_perm twoCapsules).symm
    (by decide +kernel) (by decide +kernel) (by decide +kernel) (by decide)
    (fun _ => Env.succeeds_plain _ _) (fun _ => Env.succeeds_plain _ _) (fun _ _ => rfl)
    (fun _ _ => rfl)

/-! ## The order of sending -/

/-- The capsules in `ds` are numbered with `capsuleId++`, from the value `capsuleId`
    of the counter. -/
def NumberedFrom (bo : ByteOrder) : ℤ → List (List Byte) → Prop
  | _, [] => True
  | capsuleId, d :: ds =>
    capid bo d = BitVec.ofInt 16 capsuleId ∧ NumberedFrom bo (int32 (capsuleId + 1)) ds

/-- The ids are the values of the counter modulo `2 ^ 16`. -/
theorem NumberedFrom.toNat_capid {c : ℤ} (h : NumberedFrom bo c ds) {i : ℕ} (hi : i < ds.length) :
    ((capid bo ds[i]).toNat : ℤ) = (c + i) % 2 ^ 16 := by
  induction ds generalizing c i with
  | nil => simp at hi
  | cons d ds ih =>
    obtain ⟨hd, hds⟩ := h
    cases i with
    | zero =>
      rw [List.getElem_cons_zero, hd, BitVec.toNat_ofInt]
      omega
    | succ i =>
      rw [List.getElem_cons_succ, ih hds (Nat.lt_of_succ_lt_succ hi), int32]
      push_cast
      omega

/-- Up to `2 ^ 16` capsules have different ids. -/
theorem NumberedFrom.nodup {c : ℤ} (h : NumberedFrom bo c ds) (hlen : ds.length ≤ 2 ^ 16) :
    (ds.map (capid bo)).Nodup := by
  refine List.pairwise_map.2 (List.pairwise_iff_getElem.2 fun i j hi hj hij heq => ?_)
  have hi' := h.toNat_capid hi
  have hj' := h.toNat_capid hj
  rw [heq] at hi'
  omega

/-- The order of sending is that of the ids as long as they do not start again from
    zero. -/
theorem NumberedFrom.ordered_iff {c : ℤ} (h : NumberedFrom bo c ds) (hne : ds ≠ []) :
    (ds.Pairwise fun d e => capid bo d < capid bo e) ↔ c % 2 ^ 16 + ds.length ≤ 2 ^ 16 := by
  rw [List.pairwise_iff_getElem]
  have hpos := List.length_pos_of_ne_nil hne
  constructor
  · intro hlt
    by_contra hwrap
    -- The last capsule before the wrap, and the next one.
    have hj : (2 ^ 16 - c % 2 ^ 16).toNat < ds.length := by omega
    have hi : (2 ^ 16 - c % 2 ^ 16).toNat - 1 < ds.length := by omega
    have := hlt _ _ hi hj (by omega)
    rw [BitVec.lt_def] at this
    have hi' := h.toNat_capid hi
    have hj' := h.toNat_capid hj
    omega
  · intro hle i j hi hj hij
    rw [BitVec.lt_def]
    have hi' := h.toNat_capid hi
    have hj' := h.toNat_capid hj
    omega

/-- The window of the capsules `ds`, whose last one may carry `FIN`, when all have
    been received. The largest id tells whether the window is over. -/
theorem windowReceived (hp : Ready p) (hcaps : ∀ d ∈ ds, IsCapsule bo d)
    (hfin : ∀ d ∈ ds.dropLast, isFin bo d = false) (hids : (ds.map (capid bo)).Nodup)
    (hlen : ds.length ≤ p.session.processor.winSize.toNat) {input : ℕ → Env}
    (hd : ∀ i < ds.length, (input i).datagram = ds[i]?) :
    ∃ q, run bo p input ds.length = { state := q } ∧ Filled bo p q ds ∧
      q.session.next = .closed ∧
      (q.rxFactory.fin = true ∨ ds.length = p.session.processor.winSize.toNat →
        q.session.processor.winSize = 0) ∧
      ((ds.Pairwise fun d e => capid bo d < capid bo e) →
        ∀ d ∈ ds.getLast?, q.rxFactory.fin = isFin bo d) := by
  rcases ds.eq_nil_or_concat with rfl | ⟨pre, d, rfl⟩
  · refine ⟨p, rfl, hp.filled, hp.next, ?_, by simp⟩
    rintro (hf | hzero)
    · rw [hp.fin] at hf
      contradiction
    · exact BitVec.eq_of_toNat_eq hzero.symm
  rw [List.concat_eq_append] at *
  rw [List.forall_mem_append] at hcaps
  rw [List.dropLast_concat] at hfin
  have hids' := hids
  rw [List.map_append, List.nodup_append] at hids'
  rw [List.length_append, List.length_singleton] at hlen hd ⊢
  -- All but the last are received without the end of the window being seen.
  obtain ⟨q, hrun, hfilled, hfilling⟩ := run_fill hp hcaps.1 hfin hids'.1 (by omega)
    fun i hi => by rw [hd i (by omega), List.getElem?_append_left hi]
  have hcount := hfilling.winSize
  have hwin : q.session.processor.winSize ≠ 0 := by
    intro hzero
    rw [hzero] at hcount
    simp at hcount
    omega
  have hlast : (input pre.length).datagram = some d := by
    rw [hd pre.length (by omega)]
    simp
  have hnew : capid bo d ∉ pre.map (capid bo) := fun hmem =>
    hids'.2.2 _ hmem _ (List.mem_singleton_self _) rfl
  obtain ⟨q', hexec, hfilled', hnext, newest, hmem, hmax, hfin', hwin'⟩ :=
    exec_fill hfilled hp.chunkSize hfilling.next hwin hlast (hcaps.2 d (by simp)) hnew
  have halive : (run bo p input pre.length).Alive Process.returned := by
    rw [hrun]
    exact ⟨rfl, by simp [Process.returned, hfilling.next]⟩
  rw [hfilling.fin, Bool.false_or] at hfin'
  refine ⟨q', by rw [run_succ bo halive, hrun, hexec], hfilled', hnext, ?_, ?_⟩
  · intro hend
    rw [hwin']
    split
    · rfl
    · rename_i hf
      have hone : q.session.processor.winSize = 1 := by
        refine BitVec.eq_of_toNat_eq ?_
        show q.session.processor.winSize.toNat = 1
        rcases hend with hend | hend
        exacts [absurd hend hf, by omega]
      rw [hone]
      rfl
  · intro hordered d' hd'
    obtain rfl : d = d' := by simpa using hd'
    rw [hfin']
    rcases List.mem_append.1 hmem with hpre | hd
    · -- The ids before the last are smaller.
      have hlt := (List.pairwise_append.1 hordered).2.2 newest hpre d (List.mem_singleton_self d)
      exact absurd (hmax d (by simp)) (not_le.2 hlt)
    · rw [List.mem_singleton.1 hd]

/-- The capsules `ds` of a window get through as they are sent: the flag of the last
    one is seen when it arrives, and they are written in their order. -/
structure InSequence (bo : ByteOrder) (p : Process) (input : ℕ → Env) (ds : List (List Byte)) :
    Prop where
  /-- The flag of the last capsule is seen with its arrival. -/
  fin : ∀ d ∈ ds.getLast?, isFin bo d = true →
    (run bo p input ds.length).state.rxFactory.fin = true
  /-- The window is written and acknowledged without a fault. -/
  error : (run bo p input (ds.length + 2)).error = none
  /-- Each capsule was written once, in the order in which they were sent. -/
  writes : List.Forall₂ (MemBuff.Carries bo) ds
    ((run bo p input (ds.length + 2)).state.io.writes.map SinkWrite.buf)
  /-- The payloads are in the file in this order. -/
  sink : (run bo p input (ds.length + 2)).state.sink = p.sink ++ ds.flatMap payloadOf

/-- A window of capsules, numbered with `capsuleId++` and delivered in order, gets
    through as it is sent exactly if its ids do not start again from zero. Its end is
    the number of capsules the receiver waits for, or `FIN`. -/
theorem inSequence_iff (hp : Ready p) (hw : p.Working) (hne : ds ≠ []) {c : ℤ}
    (hnum : NumberedFrom bo c ds) (hcaps : ∀ d ∈ ds, IsCapsule bo d)
    (hfin : ∀ d ∈ ds.dropLast, isFin bo d = false)
    (hlen : ds.length ≤ p.session.processor.winSize.toNat)
    (hend : ds.length = p.session.processor.winSize.toNat ∨ isFin bo (ds.getLast hne) = true)
    {input : ℕ → Env} (hs : ∀ i, (input i).Succeeds)
    (hd : ∀ i < ds.length, (input i).datagram = ds[i]?) :
    InSequence bo p input ds ↔ c % 2 ^ 16 + ds.length ≤ 2 ^ 16 := by
  have hids := hnum.nodup (hlen.trans (BitVec.isLt _).le)
  have hlast : ds.getLast hne ∈ ds.getLast? := by simp [List.getLast?_eq_some_getLast hne]
  obtain ⟨q, hrun, hfilled, hnext, hover, hseen⟩ := windowReceived hp hcaps hfin hids hlen hd
  rw [← hnum.ordered_iff hne]
  -- The acknowledgement, once the window is over: by increasing ids.
  have hack : q.session.processor.winSize = 0 → ∀ {s}, Ascending bo ds s →
      Acknowledged bo p q.rxFactory.fin s (run bo p input (ds.length + 2)) := by
    intro hwin s hasc
    rw [run_over hrun hnext hwin]
    exact hfilled.over.acknowledged hcaps hids rfl hw.address hasc (hs _).write hw.fmode hw.stream
  constructor
  · intro h
    have hwin : q.session.processor.winSize = 0 := by
      refine hover ?_
      rcases hend with hend | hend
      · exact .inr hend
      · have := h.fin _ hlast hend
        rw [hrun] at this
        exact .inl this
    obtain ⟨s, hasc, -⟩ := hfilled.ascending hids
    -- What is written has the ids of `ds`, and is in the order of the ids.
    have hs' := map_capid (hack hwin hasc).writes
    rw [map_capid h.writes] at hs'
    have hsorted := List.pairwise_map.2 hasc.ordered
    rw [← hs'] at hsorted
    exact List.pairwise_map.1 hsorted
  · intro hordered
    have hfin' := hseen hordered
    have hwin : q.session.processor.winSize = 0 := by
      refine hover ?_
      rcases hend with hend | hend
      exacts [.inr hend, .inl ((hfin' _ hlast).trans hend)]
    have hdone := hack hwin ⟨.refl ds, hordered⟩
    refine ⟨?_, hdone.error, hdone.writes, hdone.sink⟩
    intro d hd hf
    rw [hrun]
    exact (hfin' d hd).trans hf

/-- A window whose ids start again from zero. -/
def wrapped : List (List Byte) := [payldCapsule 65535 [7], payldCapsule 0 [8]]

/-- The payload sent second is written first. -/
theorem not_inSequence_wrapped :
    NumberedFrom .little 65535 wrapped ∧ ¬InSequence .little listening (receiving wrapped) wrapped := by
  refine ⟨⟨by decide +kernel, by decide +kernel, trivial⟩, fun h => ?_⟩
  have hsink : (run .little listening (receiving wrapped) 4).state.sink = [8, 7] := by
    decide +kernel
  have hsent : listening.sink ++ wrapped.flatMap payloadOf = [7, 8] := by decide +kernel
  have := h.sink.symm.trans hsink
  rw [hsent] at this
  simp at this

theorem numberedFrom_twoCapsules : NumberedFrom .little 1 twoCapsules :=
  ⟨by decide +kernel, by decide +kernel, trivial⟩

theorem inSequence_twoCapsules :
    InSequence .little listening (receiving twoCapsules) twoCapsules ↔ (1 : ℤ) % 2 ^ 16 + 2 ≤ 2 ^ 16 :=
  inSequence_iff ready_listening working_listening (by decide) numberedFrom_twoCapsules
    (by decide +kernel) (by decide +kernel) (by decide) (.inl (by decide))
    (fun _ => Env.succeeds_plain _ _) (fun _ _ => rfl)

end Session

end Udm
