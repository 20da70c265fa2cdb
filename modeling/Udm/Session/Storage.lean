import Udm.Session.Addresses
import Udm.Session.Transition

/-!
# Writing to the sink

What the receiver stores before it acknowledges a window. The writes of a window
are not checked: when the stream does not accept one, its buffer is counted all
the same, and the window is acknowledged. So what is acknowledged is stored in
the runs in which the stream accepts every write, and, as long as no datagram is
empty, in no other (`stored_iff`).

The two directions go through different lemmas. That accepted writes are stored is
a fact about the steps that write (`Transition.stored`). For the converse, a write that
was not accepted appends less than its buffer (`Fstream.length_write_lt`), while `curSize`
grows by all of it (`not_counts_record`), or wraps and gets smaller; an empty datagram
would add nothing, and is why the converse needs the condition on the datagrams.
-/

namespace Udm

/-- The number of bytes a write appended. -/
def SinkWrite.appended (w : SinkWrite) : ℤ :=
  w.after.sourceData.fs.content.length - w.before.sourceData.fs.content.length

/-- A counter of the factory counts no more than what the write appended, and
    does not decrease. -/
def SinkWrite.Counts (w : SinkWrite) (counter : DataFactory → ℤ) : Prop :=
  counter w.before ≤ counter w.after ∧ counter w.after ≤ counter w.before + w.appended

/-- A write that is not accepted appends fewer bytes than the buffer has. -/
theorem Fstream.length_write_lt {fs : Fstream} {o : WriteOutcome} {buff : Block Byte} {size : ℤ}
    (hsize : 0 < size) (hle : size ≤ CHUNK)
    (h : ¬fs.accepts o (DataFactory.writeLength size)) :
    ((fs.write o buff (DataFactory.writeLength size)).content.length : ℤ) <
      fs.content.length + size := by
  have hheader : ((HEADER_SPACE : ℕ) : ℤ) = 14 := rfl
  have hchunk : ((CHUNK : ℕ) : ℤ) = 49152 := rfl
  have hlen : DataFactory.writeLength size = size - HEADER_SPACE :=
    int32_of_mem (by omega) (by omega)
  rw [hlen] at h ⊢
  simp only [Fstream.write, if_neg h, List.length_append, Block.length_load]
  cases o with
  | written => simpa using hsize
  | failed k =>
    have hmin := min_le_right k ((size - HEADER_SPACE).toNat - 1)
    dsimp only
    split_ifs <;> omega

namespace PresentationProcessor

variable {env : Env} {p : Process}

/-- What a write adds to `curSize`, accepted or not. -/
theorem curSize_record (b : MemBuff) :
    (record env p b).after.curSize = int32 (p.rxFactory.curSize + b.size) := by
  simp [record, write2Souce, DataFactory.curSize_write2Source]

/-- The size of a buffer is counted, whether it was written or not. -/
theorem not_counts_record (hmode : p.rxFactory.sourceData.fmode = .OUT)
    (hcur : -2 ^ 31 ≤ p.rxFactory.curSize ∧ p.rxFactory.curSize < 2 ^ 31) {b : MemBuff}
    (hsize : 0 < b.size) (hle : b.size ≤ CHUNK) (h : ¬(record env p b).Accepted) :
    ¬(record env p b).Counts DataFactory.curSize := by
  rintro ⟨hge, hle'⟩
  have hchunk : ((CHUNK : ℕ) : ℤ) = 49152 := rfl
  have happ : (record env p b).appended < b.size := by
    have hlt := @Fstream.length_write_lt _ _ b.data.body _ hsize hle h
    have hfs : (record env p b).after.sourceData.fs = p.rxFactory.sourceData.fs.write
        (env.write p.io.writes.length) b.data.body (DataFactory.writeLength b.size) :=
      fs_write env b hmode
    rw [SinkWrite.appended, hfs]
    exact sub_left_lt_of_lt_add hlt
  have hbefore : (record env p b).before.curSize = p.rxFactory.curSize := rfl
  obtain ⟨hlo, hhi⟩ := hcur
  rw [curSize_record, hbefore] at hge hle'
  -- The sum wraps to a smaller number, or is too large.
  rw [int32] at hge hle'
  omega

/-- The invariant of the factory the writes of a window keep. -/
def IsSink (fac : DataFactory) : Prop :=
  fac.sourceData.fmode = .OUT ∧ -2 ^ 31 ≤ fac.curSize ∧ fac.curSize < 2 ^ 31

/-- A factory over a file opened for writing. -/
theorem isSink_new (fs : Fstream) : IsSink { sourceData := { fmode := .OUT, fs } } := by
  refine ⟨rfl, ?_, ?_⟩ <;> norm_num

/-- A write adds to an `int`. -/
theorem isSink_write (h : IsSink p.rxFactory) (b : MemBuff) : IsSink (write env b p).rxFactory := by
  have hcur : (write env b p).rxFactory.curSize = int32 (p.rxFactory.curSize + b.size) :=
    curSize_record b
  refine ⟨by simpa using h.1, ?_⟩
  rw [hcur]
  exact ⟨le_int32 _, int32_lt _⟩

/-- So do all of them. -/
theorem isSink_writes (h : IsSink p.rxFactory) (bs : List MemBuff) :
    IsSink (writes env bs p).rxFactory := by
  induction bs generalizing p with
  | nil => exact h
  | cons b bs ih =>
    rw [writes]
    split
    exacts [ih (isSink_write h b), ih h]

/-- Counting every buffer is right exactly if every write is accepted. -/
theorem accepted_of_counts (hsink : IsSink p.rxFactory) {bs : List MemBuff}
    (hbs : ∀ b ∈ bs, 0 < b.size ∧ b.size ≤ CHUNK) (hio : ∀ w ∈ p.io.writes, w.Accepted)
    (h : ∀ w ∈ (writes env bs p).io.writes, ¬w.Accepted → w.Counts DataFactory.curSize) :
    ∀ w ∈ (writes env bs p).io.writes, w.Accepted := by
  induction bs generalizing p with
  | nil => exact hio
  | cons b bs ih =>
    have hrest : ∀ b ∈ bs, 0 < b.size ∧ b.size ≤ CHUNK :=
      fun c hc => hbs c (List.mem_cons_of_mem _ hc)
    rw [writes] at h ⊢
    split at h
    · rename_i hb
      rw [if_pos hb]
      refine ih (isSink_write hsink b) hrest ?_ h
      have hacc : (record env p b).Accepted := by
        by_contra hnot
        obtain ⟨hpos, hle⟩ := hbs b List.mem_cons_self
        refine not_counts_record hsink.1 hsink.2 hpos hle hnot (h _ (mem_writes ?_ bs) hnot)
        rw [writes_write]
        simp
      rw [writes_write, List.forall_mem_append]
      exact ⟨hio, by simpa using hacc⟩
    · rename_i hb
      rw [if_neg hb]
      exact ih hsink hrest hio h

end PresentationProcessor

namespace Session

open PresentationProcessor

variable {bo : ByteOrder} {env : Env} {p : Process} {c : Party}

/-- The step from `p` to `c` acknowledges a window only if every payload byte of
    every capsule in it was appended to the sink, and a write that was not
    accepted counts no more than what it appended. -/
def Stored (p : Process) (c : Party) : Prop :=
  (p.session.next = .done → c.state.io.sent ≠ [] →
    c.state.sink =
      p.sink ++ ((window p).filter fun b => b.data.header.isPayld).flatMap MemBuff.payload) ∧
  ∀ w ∈ c.state.io.writes, ¬w.Accepted →
    w.Counts DataFactory.curSize ∧ w.Counts DataFactory.curWritePos

/-- Only the writes of the window, or of a part of it, are recorded. -/
theorem Transition.writes_eq (h : Transition bo env p c) (hio : p.io.writes = []) :
    c.state.io.writes = [] ∨ ∃ bs, bs <+: window p ∧
      c.state.io.writes = (writes env bs p).io.writes := by
  cases h with
  | halt _ _ _ _ hio' => exact .inl (hio' ▸ hio)
  | sendOk | noAddressOk => exact .inr ⟨window p, List.prefix_rfl, rfl⟩
  | danglingWindow _ _ bs hbs => exact .inr ⟨bs, hbs, rfl⟩
  | sendHello | receiveHello | sendHi | sendAck | sendData | windowOver => exact .inl hio
  | receiveHi | receiveAck => exact .inl (by simp [setUp, connected, hio])
  | receiveNothing | receiveData | danglingLast | receiveOk => exact .inl (by simp [hio])

/-- If all its writes are accepted, an acknowledged window is stored. -/
theorem Transition.stored (h : Transition bo env p c) (hio : p.io = {})
    (hdir : p.session.dir = .RX) (hsink : IsSink p.rxFactory)
    (hacc : ∀ w ∈ c.state.io.writes, w.Accepted) : Stored p c := by
  refine ⟨fun hnext hsent => ?_, fun w hw hnot => absurd (hacc w hw) hnot⟩
  have hnone : p.io.sent = [] := by rw [hio]
  cases h with
  | sendOk =>
    have hfs := fs_writes hsink.1 hacc
    exact congrArg Fstream.content hfs
  | halt _ _ _ _ hio' => exact absurd (hio' ▸ hnone) hsent
  | noAddressOk => exact absurd ((sent_written env).trans hnone) hsent
  | danglingWindow _ _ bs => exact absurd ((sameButSink_writes bs).sent.trans hnone) hsent
  | receiveOk hdir' => simp [hdir] at hdir'
  | _ => simp_all

/-- If a step only counts what was written, then all writes were accepted. -/
theorem Transition.accepted (h : Transition bo env p c) (hio : p.io = {})
    (hsink : IsSink p.rxFactory) (hwin : WindowSized 1 p) (hst : Stored p c) :
    ∀ w ∈ c.state.io.writes, w.Accepted := by
  have hnone : p.io.writes = [] := by rw [hio]
  rcases h.writes_eq hnone with hw | ⟨bs, hbs, hw⟩
  · simp [hw]
  · rw [hw]
    refine accepted_of_counts hsink (fun b hb => ?_) (by simp [hnone]) fun w hw' hnot => ?_
    · obtain ⟨e, he, rfl⟩ := List.mem_map.1 (hbs.subset hb)
      exact ⟨by have := (hwin e he).1; omega, (hwin e he).2⟩
    · exact (hst.2 w (hw ▸ hw') hnot).1

/-- A step of the session writes at most, and so keeps the invariant of the factory. -/
theorem Transition.isSink (h : Transition bo env p c) (hsink : IsSink p.rxFactory)
    (hc : c.error = none) : IsSink c.state.rxFactory := by
  cases h with
  | halt | danglingLast | noAddressOk | danglingWindow => simp at hc
  | sendOk => exact isSink_writes hsink (window p)
  | sendHello | receiveHello | sendHi | sendAck | sendData | windowOver => exact hsink
  | receiveHi | receiveAck => simpa [IsSink, setUp, connected] using hsink
  | receiveNothing | receiveData | receiveOk => simpa [IsSink] using hsink

/-- In a run of the receiver, an acknowledged window is stored and only what was
    written is counted if every write is accepted; and only then, as long as no
    datagram is empty. -/
theorem stored_iff (statics : Statics) (addressList : List IpaddrDummy) (source : DataSource)
    (fs : Fstream) (env : ℕ → Env) :
    let p := Process.init .RX statics addressList source { fmode := .OUT, fs }
    ((∀ n, (run bo p env n).Alive Process.returned →
        ∀ w ∈ (run bo p env (n + 1)).state.io.writes, w.Accepted) →
      ∀ n, (run bo p env n).Alive Process.returned →
        Stored (run bo p env n).state (run bo p env (n + 1))) ∧
    ((∀ n, (run bo p env n).Alive Process.returned →
        Stored (run bo p env n).state (run bo p env (n + 1))) →
      (∀ n d, (env n).datagram = some d → d ≠ []) →
      ∀ n, (run bo p env n).Alive Process.returned →
        ∀ w ∈ (run bo p env (n + 1)).state.io.writes, w.Accepted) := by
  intro p
  have hsteady := steady_run bo .RX statics addressList source { fmode := .OUT, fs } env
  have hstep := transition_run bo .RX statics addressList source { fmode := .OUT, fs } env
  have hsink : ∀ n, (run bo p env n).error = none → IsSink (run bo p env n).state.rxFactory := by
    refine Conf.runs_induction (I := fun _ (q : Process) => IsSink q.rxFactory) (isSink_new fs) ?_
      (fun _ _ _ h => h)
    intro n hn h
    exact Conf.wp_iff_exec.2 ⟨fun hc => (transition_exec bo (env n) (hsteady n hn.1).1).isSink h hc,
      fun _ _ => trivial⟩
  -- Only the converse needs to know that the buffers of the window are not empty.
  refine ⟨fun h n hn => ?_, fun h hne n hn => ?_⟩
  · exact (hstep n hn).stored rfl (hsteady n hn.1).2 (hsink n hn.1) (h n hn)
  · have hwin : WindowSized 1 (run bo p env n).state := by
      refine Conf.runs_induction (I := fun _ => WindowSized 1)
        (fun e he => absurd he (OrdMap.not_mem_empty e)) ?_ (fun _ _ _ hw => hw) n hn.1
      intro m hm hwin
      refine Conf.wp_iff_exec.2 ⟨fun hc => ?_, fun _ _ => trivial⟩
      refine (transition_exec bo (env m) (hsteady m hm.1).1).windowSized (hsteady m hm.1).1.clear
        (by decide) hwin (fun _ d hd => ?_) hc
      exact List.length_pos_of_ne_nil (hne m d hd)
    exact (hstep n hn).accepted rfl (hsink n hn.1) hwin (h n hn)

/-! ## A failed write that is acknowledged -/

/-- A receiver with a new sink. -/
def newReceiver : Process := .init .RX {} [] { fmode := .IN, fs := {} } { fmode := .OUT, fs := {} }

/-- A sender at `"10.0.0.1"` sends a file of one byte, and the disk is full. -/
def fullDisk : ℕ → Env
  | 1 => .plain (some (CapsuleHdr.encode .little { capSize := 15 } ++
      SessionProcessor.private10.data)) []
  | 3 => .plain (some (CapsuleHdr.encode .little
      { capSize := 1, capType := CapsuleType.PAYLD.code, capFlags := Flags.FIN.code } ++ [7])) []
  | 5 => { Env.plain none [] with write := fun _ => .failed 0 }
  | _ => .plain none [0, 0]

/-- The receiver acknowledges the window, of which nothing was written. -/
theorem not_stored_fullDisk :
    ¬∀ n, (run .little newReceiver fullDisk n).Alive Process.returned →
      Stored (run .little newReceiver fullDisk n).state (run .little newReceiver fullDisk (n + 1)) := by
  intro h
  have halive : (run .little newReceiver fullDisk 5).Alive Process.returned := by decide +kernel
  have hnext : (run .little newReceiver fullDisk 5).state.session.next = .done := by
    decide +kernel
  have hsent : (run .little newReceiver fullDisk 6).state.io.sent ≠ [] := by decide +kernel
  have hsink : (run .little newReceiver fullDisk 6).state.sink = [] := by decide +kernel
  have hwindow : ((window (run .little newReceiver fullDisk 5).state).filter
      fun b => b.data.header.isPayld).flatMap MemBuff.payload = [7] := by decide +kernel
  have := (h 5 halive).1 hnext hsent
  rw [hsink, hwindow] at this
  simp at this

end Session

end Udm
