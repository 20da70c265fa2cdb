import Udm.Session.Flow

/-!
# Successive transfers

An `io_context` (`userclass.h`) owns the factories of the transfers started on it, one
after the other: `udm_txstart` makes a new gateway and a new session over them. The
factories are not reset: after a transfer, the sending factory still has its flag for
the end of the file set, its progress counter where it was, and chunks of the size of
the last one. So the next transfer sends one short capsule at most, and is the same as
on a new context only if neither sends any (`independent_iff`).

The development compares two senders of one file, under the same replies:

- `Reusing` is the sender whose factory was used before. Each of its data capsules is
  shorter than the first chunk of the file (`Reusing.run`).
- On a new context, the first capsule holds the whole first chunk (`first_new`).
- `Alike` holds the two sessions in step until one of them sends (`Alike.step`), so that
  the one on the new context sends if the other one does (`Alike.run`).

What the transfers before leave behind is `Sent.invariant`: a factory in the state
`DataFactory.Used`, whatever was sent and whatever was answered.
-/

namespace Udm

open Session

/-- `io_context`, together with what else outlives a session: the global
    `rxcurrentWindow` and the function statics. -/
structure IoContext where
  /-- Whether the context was made to send or to receive. -/
  dir : StateDirection
  /-- The factory all sessions of the context send from. -/
  txFac : DataFactory := {}
  /-- The factory all sessions of the context receive into. -/
  rxFac : DataFactory := {}
  rxcurrentWindow : OrdMap (BitVec 16) MemBuff := ∅
  statics : Statics := {}

namespace IoContext

/-- `set_source`. -/
def set_source (s : DataSource) (c : IoContext) : IoContext := { c with txFac.sourceData := s }

/-- `run`: a new gateway, which finds the addresses `addressList`, and a new session,
    over the factories of the context. -/
def run (addressList : List IpaddrDummy) (c : IoContext) : Process where
  session := { dir := c.dir }
  interfaces := { addressList }
  txFactory := c.txFac
  rxFactory := c.rxFac
  rxcurrentWindow := c.rxcurrentWindow
  statics := c.statics

/-- The context a session leaves. -/
def left (p : Process) : IoContext where
  dir := p.session.dir
  txFac := p.txFactory
  rxFac := p.rxFactory
  rxcurrentWindow := p.rxcurrentWindow
  statics := p.statics

/-- The process in which the session of `udm_txstart` starts to send the file `f`. -/
def udm_txstart (f : File) (addressList : List IpaddrDummy) (c : IoContext) : Process :=
  (c.set_source f.source).run addressList

/-- A new context of a sender. -/
def new : IoContext := { dir := .TX }

variable (bo : ByteOrder)

/-- The contexts on which files were sent one after the other: each session returned. -/
inductive Sent : List File → IoContext → Prop
  | new : Sent [] new
  | udm_txstart {files : List File} {c : IoContext} (h : Sent files c) (f : File)
      (addressList : List IpaddrDummy) (env : ℕ → Env) (n : ℕ)
      (herror : (Session.run bo (c.udm_txstart f addressList) env n).error = none)
      (hreturned : (Session.run bo (c.udm_txstart f addressList) env n).state.returned) :
      Sent (files ++ [f]) (left (Session.run bo (c.udm_txstart f addressList) env n).state)

/-- What counts of the data capsules sent when a file is sent on a context: their
    payloads, and which of them carries `FIN`. -/
def capsules (c : IoContext) (f : File) (addressList : List IpaddrDummy) (env : ℕ → Env) (n : ℕ) :
    List (List Byte × Bool) :=
  (dataSent bo (c.udm_txstart f addressList) env n).map fun d => (d.drop HEADER_SPACE, isFin bo d)

/-- Two growing sequences grow to the same one. -/
def Same {α : Type} (a b : ℕ → List α) : Prop :=
  (∀ n, ∃ m, a n <+: b m) ∧ ∀ n, ∃ m, b n <+: a m

variable {bo} {files : List File} {c : IoContext} {f : File} {addressList : List IpaddrDummy}
  {env : ℕ → Env} {env₁ : Env}

/-! ## A transfer on a new context -/

/-- A session that starts over an empty receiving queue with chunks of the full size is steady. -/
theorem steady_udm_txstart (hqueue : c.rxFac.buffer = []) (hchunk : c.rxFac.chunkSize = CHUNK) :
    Steady (c.udm_txstart f addressList) := ⟨rfl, fun _ => hqueue, hchunk⟩

/-- On a new context, nothing of the file was sent yet. -/
theorem sending_new : Sending f 0 (new.udm_txstart f addressList) where
  reads := reads_source f
  opening := fun _ => ⟨rfl, rfl⟩
  numbered := fun h => absurd rfl h
  early := fun _ _ _ => rfl
  spent := fun h => by simp [udm_txstart, run] at h
  completed := fun h => by simp [udm_txstart, run] at h

/-- On a new context, the first capsule holds the first chunk. -/
theorem first_new {n : ℕ} {x : List Byte × Bool} {xs : List (List Byte × Bool)}
    (h : capsules bo new f addressList env n = x :: xs) :
    x.1.length = min PAYLOAD f.bytes.length := by
  -- The capsule is the chunk numbered zero, cut off at the start of the file.
  have hchunks := (@sending_run bo _ f (steady_udm_txstart (c := new) rfl rfl) rfl
    (@sending_new f addressList) env n).1
  obtain ⟨d, ds, hds, rfl, -⟩ := List.map_eq_cons_iff.1 h
  have hd := (hchunks 0 (by rw [hds]; simp)).payload
  simp only [hds, List.getElem_cons_zero] at hd
  show (d.drop HEADER_SPACE).length = _
  rw [hd, File.chunk, length_chunk, Nat.zero_mul, Nat.sub_zero]

/-! ## A transfer on a context used before -/

/-- A sender of the file `f` whose factory was used before. -/
structure Reusing (f : File) (p : Process) : Prop where
  /-- What an earlier transfer left in the factory. -/
  used : p.txFactory.Used
  /-- The file was opened for reading. -/
  fmode : p.txFactory.sourceData.fmode = .IN
  /-- Its size is the one that the factory was told. -/
  fileSize : p.txFactory.sourceData.fileSize = f.bytes.length

variable {p : Process}

/-- A data capsule of a used factory is shorter than the first chunk. -/
theorem Reusing.sendData (h : Reusing f p) (hio : p.io.sent = []) (hsend : env₁.sendto = true)
    {b : MemBuff} (hb : (loaded env₁ p).txFactory.buffer.head? = some b) :
    Reusing f (sentData bo env₁ b p) ∧
      ∃ d, (sentData bo env₁ b p).out = [d] ∧
        (d.drop HEADER_SPACE).length < min PAYLOAD f.bytes.length := by
  have hlt : p.txFactory.sourceData.fileSize < 2 ^ 63 := by
    rw [h.fileSize]
    exact f.length_lt
  have hb : (p.txFactory.updateDataSource env₁.heap).buffer.head? = some b := hb
  -- Either nothing is read, or one chunk that the last one of the earlier transfer bounds.
  rcases h.used.updateDataSource h.fmode hlt env₁.heap with hempty |
    ⟨b', payload, hbuffer, hheader, hbody, hshort, hsize, hused, hfmode, hfileSize⟩
  · rw [hempty] at hb
    simp at hb
  obtain rfl : b' = b := by
    rw [hbuffer] at hb
    exact Option.some.inj hb
  have hcap : b'.data.header.capSize.toNat = payload.length := by
    rw [hheader, BitVec.toNat_ofNat, Nat.mod_eq_of_lt (lt_trans hshort (by decide))]
  refine ⟨⟨hused, hfmode, hfileSize.trans h.fileSize⟩, _, out_sentData hio hsend b', ?_⟩
  rw [wire_dataCapsule hcap hbody, List.drop_left' (CapsuleHdr.length_encode bo _)]
  exact lt_min hshort (h.fileSize ▸ hsize)

/-- What a step of such a sender does. -/
theorem Reusing.step (h : Reusing f p) (hdir : p.session.dir = .TX) {c : Party}
    (htr : Transition bo env₁ p.clear c) (hc : c.error = none) :
    Reusing f c.state ∧ (p.session.next = .closed →
      ∀ d ∈ c.state.out, (d.drop HEADER_SPACE).length < min PAYLOAD f.bytes.length) := by
  have hclear : Reusing f p.clear := ⟨h.used, h.fmode, h.fileSize⟩
  cases htr with
  | sendData _ hnext hwin b hb _ hsend =>
    obtain ⟨h', d, hout, hd⟩ := @Reusing.sendData bo _ _ _ hclear rfl hsend b hb
    refine ⟨h', fun _ d' hd' => ?_⟩
    rw [hout, List.mem_singleton] at hd'
    rwa [hd']
  | receiveHello _ hnext d =>
    have hnext : p.session.next = .open := hnext
    exact ⟨⟨h.used, h.fmode, h.fileSize⟩, by simp [hnext]⟩
  | sendHi _ hnext =>
    have hnext : p.session.next = .setup := hnext
    exact ⟨⟨h.used.control _ _, h.fmode, h.fileSize⟩, by simp [hnext]⟩
  | windowOver => exact ⟨⟨h.used, h.fmode, h.fileSize⟩, fun _ d hd => by simp [Process.out] at hd⟩
  | receiveAck _ hnext d =>
    have hnext : p.session.next = .connected := hnext
    have htx : (connected bo env₁ d p.clear).txFactory = p.txFactory := txFactory_received bo env₁ d
    exact ⟨⟨htx ▸ h.used, htx ▸ h.fmode, htx ▸ h.fileSize⟩, by simp [hnext]⟩
  | receiveOk _ hnext d =>
    have hnext : p.session.next = .done := hnext
    have htx : ((received bo env₁ p.clear d).popRx.endWindow p.clear.txFactory.fin).txFactory =
        p.txFactory := txFactory_received bo env₁ d
    exact ⟨⟨htx ▸ h.used, htx ▸ h.fmode, htx ▸ h.fileSize⟩, by simp [hnext]⟩
  | halt | danglingLast | noAddressOk | danglingWindow => simp at hc
  | sendHello hrx | receiveHi hrx | sendAck hrx | receiveNothing hrx | receiveData hrx | sendOk hrx =>
    have hrx : p.session.dir = .RX := hrx
    rw [hdir] at hrx
    contradiction

/-- In every run of such a sender, no data capsule is as long as the first chunk. -/
theorem Reusing.run (hst : Steady p) (hdir : p.session.dir = .TX) (h : Reusing f p) (n : ℕ) :
    (∀ d ∈ dataSent bo p env n, (d.drop HEADER_SPACE).length < min PAYLOAD f.bytes.length) ∧
      ((Session.run bo p env n).error = none → Reusing f (Session.run bo p env n).state) := by
  induction n with
  | zero => exact ⟨fun d hd => by simp [dataSent] at hd, fun _ => h⟩
  | succ n ih =>
    by_cases halive : (Session.run bo p env n).Alive Process.returned
    swap
    · have hstop : Session.run bo p env (n + 1) = Session.run bo p env n := if_neg halive
      rwa [dataSent_of_not_alive halive, hstop]
    obtain ⟨hst', hdir'⟩ := steady_run_of bo hst env n halive.1
    have hdir' := hdir'.trans hdir
    have htr := transition_exec bo (env n) hst'
    rw [← run_succ bo halive] at htr
    by_cases hc : (Session.run bo p env (n + 1)).error = none
    swap
    · simp only [dataSent, out_of_error hdir' htr hc, ite_self, List.append_nil]
      exact ⟨ih.1, fun h => absurd h hc⟩
    obtain ⟨hreusing, hout⟩ := (ih.2 halive.1).step hdir' htr hc
    refine ⟨fun d hd => ?_, fun _ => hreusing⟩
    rw [dataSent] at hd
    rcases List.mem_append.1 hd with hd | hd
    · exact ih.1 d hd
    · split at hd
      · rename_i hclosed
        exact hout hclosed.2 d hd
      · cases hd

/-! ## The two transfers in step -/

/-- The sessions of the processes are equally far. -/
structure Alike (p q : Process) : Prop where
  /-- They are in the same state. -/
  next : q.session.next = p.session.next
  /-- The window has the same number of capsules to go. -/
  winSize : q.session.processor.winSize = p.session.processor.winSize
  /-- A window was acknowledged in both, or in none. -/
  complete : q.session.complete = p.session.complete
  /-- They have the same addresses, so that they send to the same peer. -/
  interfaces : q.interfaces = p.interfaces

variable {q : Process}

/-- Processes that are alike return at the same time. -/
theorem Alike.returned (h : Alike p q) : q.returned = p.returned := by
  rw [Process.returned, Process.returned, h.next, h.complete]

/-- As long as the sender with the used factory does not send, the other one does what
    it does; and it sends when the first one does. -/
theorem Alike.step (h : Alike p q) (hp : Reusing f p) (hq : Sending f 0 q) (hstp : Steady p)
    (hdirp : p.session.dir = .TX) (hstq : Steady q) (hdirq : q.session.dir = .TX)
    (hc : (Conf.exec (Session.step bo) env₁ p).error = none) :
    (p.session.next = .closed ∧ (Conf.exec (Session.step bo) env₁ q).state.out ≠ []) ∨
    ((p.session.next = .closed → (Conf.exec (Session.step bo) env₁ p).state.out = []) ∧
      ((Conf.exec (Session.step bo) env₁ p).state.returned = true ∨
        (Conf.exec (Session.step bo) env₁ q).error = none ∧
        Alike (Conf.exec (Session.step bo) env₁ p).state
          (Conf.exec (Session.step bo) env₁ q).state)) := by
  have htr := transition_exec bo env₁ hstp
  have hname := fun hnext => @getnameinfo_of_exec bo env₁ p hdirp hnext hc
  have hsends := fun hnext => @sends_of_exec bo env₁ p hdirp hnext hc
  generalize Conf.exec (Session.step bo) env₁ p = c at *
  cases htr with
  | halt | danglingLast | noAddressOk | danglingWindow => simp at hc
  | sendHello hrx | receiveHi hrx | sendAck hrx | receiveNothing hrx | receiveData hrx | sendOk hrx =>
    have hrx : p.session.dir = .RX := hrx
    rw [hdirp] at hrx
    contradiction
  | receiveHello _ hnext d hd =>
    have hnext : p.session.next = .open := hnext
    rw [exec_receiveHello hstq hdirq (h.next.trans hnext) hd (hname hnext)]
    exact .inr ⟨by simp [hnext], .inr ⟨rfl, rfl, h.winSize, h.complete, h.interfaces⟩⟩
  | sendHi _ hnext =>
    have hnext : p.session.next = .setup := hnext
    obtain ⟨haddr, hsend⟩ := hsends hnext
    rw [exec_sendHi hdirq (h.next.trans hnext) (h.interfaces ▸ haddr) hsend]
    exact .inr ⟨by simp [hnext], .inr ⟨rfl, rfl, h.winSize, h.complete, h.interfaces⟩⟩
  | receiveAck _ hnext d hd =>
    have hnext : p.session.next = .connected := hnext
    rw [exec_receiveAck hstq hdirq (h.next.trans hnext) hd]
    -- The acknowledgement is decoded alike.
    have hchunk : q.clear.rxFactory.chunkSize = p.clear.rxFactory.chunkSize :=
      hstq.chunkSize.trans hstp.chunkSize.symm
    have hdata := Gateway.data_pulled_congr bo env₁ hchunk d
    have hscan := @peerScan_congr bo env₁ _ _ hchunk d
    refine .inr ⟨by simp [hnext], .inr ⟨rfl, rfl, ?_, ?_, ?_⟩⟩
    · simp [connected, hdata]
    · simpa [connected] using h.complete
    · simp [interfaces_connected, hscan, h.interfaces]
  | windowOver hnext hwin =>
    have hnext : p.session.next = .closed := hnext
    rw [exec_windowOver (h.next.trans hnext) (h.winSize.trans hwin)]
    exact .inr ⟨fun _ => rfl, .inr ⟨rfl, rfl, h.winSize, h.complete, h.interfaces⟩⟩
  | sendData _ hnext hwin b hb haddr hsend =>
    have hnext : p.session.next = .closed := hnext
    refine .inl ⟨hnext, ?_⟩
    -- Something was read of the file, so it is not empty.
    obtain ⟨-, d, -, hd⟩ := @Reusing.sendData bo f env₁ p.clear ⟨hp.used, hp.fmode, hp.fileSize⟩ rfl
      hsend b hb
    have hne : ¬f.Exhausted 0 := by
      rintro (hzero | hzero)
      · rw [← hzero] at hd
        simp at hd
      · simp at hzero
    obtain ⟨b', hbuffer, -⟩ := hq.reads.updateDataSource hq.fin_of_zero hne env₁.heap
    have hb' : (loaded env₁ q.clear).txFactory.buffer.head? = some b' := by
      have hbuffer' : (loaded env₁ q.clear).txFactory.buffer = [b'] := hbuffer
      rw [hbuffer']
      rfl
    rw [exec_sendData hdirq (h.next.trans hnext) (h.winSize ▸ hwin) hb' (h.interfaces ▸ haddr) hsend]
    show (sentData bo env₁ b' q.clear).out ≠ []
    rw [out_sentData rfl hsend]
    simp
  | receiveOk _ hnext d hd =>
    -- The flag is still set, so the first session returns.
    have hnext : p.session.next = .done := hnext
    have hfin : p.txFactory.fin = true := hp.used.fin
    exact .inr ⟨by simp [hnext], .inl (by simp [Process.returned, hfin])⟩

/-- If the sender with the used factory sends a data capsule, so does the other one. -/
theorem Alike.run (h : Alike p q) (hp : Reusing f p) (hq : Sending f 0 q) (hstp : Steady p)
    (hdirp : p.session.dir = .TX) (hstq : Steady q) (hdirq : q.session.dir = .TX) (n : ℕ) :
    ((Session.run bo p env n).Alive Process.returned →
      dataSent bo q env n ≠ [] ∨ ((Session.run bo q env n).Alive Process.returned ∧
        Alike (Session.run bo p env n).state (Session.run bo q env n).state)) ∧
    (dataSent bo p env n ≠ [] → dataSent bo q env n ≠ []) := by
  induction n with
  | zero => exact ⟨fun halive => .inr ⟨⟨rfl, h.returned.trans halive.2⟩, h⟩, fun hne => absurd rfl hne⟩
  | succ n ih =>
    -- What was sent stays sent.
    have hkeep : dataSent bo q env n ≠ [] → dataSent bo q env (n + 1) ≠ [] := fun hne => by
      rw [dataSent]
      simp [hne]
    by_cases halive : (Session.run bo p env n).Alive Process.returned
    swap
    · have hstop : Session.run bo p env (n + 1) = Session.run bo p env n := if_neg halive
      rw [dataSent_of_not_alive halive, hstop]
      exact ⟨fun h => absurd h halive, fun hne => hkeep (ih.2 hne)⟩
    by_cases hsent : dataSent bo q env n = []
    swap
    · exact ⟨fun _ => .inl (hkeep hsent), fun _ => hkeep hsent⟩
    obtain ⟨halive', halike⟩ := (ih.1 halive).resolve_left fun hne => hne hsent
    have hnone : dataSent bo p env n = [] := by
      by_contra hne
      exact ih.2 hne hsent
    obtain ⟨hst, hdir⟩ := steady_run_of bo hstp env n halive.1
    obtain ⟨hst', hdir'⟩ := steady_run_of bo hstq env n halive'.1
    have hdir := hdir.trans hdirp
    have hreusing := (@Reusing.run bo f env p hstp hdirp hp n).2 halive.1
    have hsending := (@sending_run bo q f hstq hdirq hq env n).2 halive'.1
    rw [hsent, List.length_nil] at hsending
    have htr := transition_exec bo (env n) hst
    simp only [dataSent, hsent, hnone, List.nil_append, run_succ bo halive, run_succ bo halive']
    by_cases hc : (Conf.exec (Session.step bo) (env n) (Session.run bo p env n).state).error = none
    swap
    · rw [out_of_error hdir htr hc]
      exact ⟨fun h => absurd h.1 hc, by simp⟩
    rcases halike.step hreusing hsending hst hdir hst' (hdir'.trans hdirq) hc with
      ⟨hnext, hout⟩ | ⟨hout, hnext⟩
    · rw [if_pos ⟨halive', halike.next.trans hnext⟩]
      exact ⟨fun _ => .inl hout, fun _ => hout⟩
    · constructor
      · intro halive''
        refine .inr ?_
        rcases hnext with hreturned | ⟨hc', halike'⟩
        · rw [halive''.2] at hreturned
          contradiction
        · exact ⟨⟨hc', halike'.returned.trans halive''.2⟩, halike'⟩
      · split
        · rename_i hclosed
          rw [hout hclosed.2]
          exact fun hne => absurd rfl hne
        · exact fun hne => absurd rfl hne

/-! ## Sequences of transfers -/

/-- What the transfers before leave: a factory used before, unless there was none. -/
theorem Sent.invariant (h : Sent bo files c) :
    c.dir = .TX ∧ c.rxFac.buffer = [] ∧ c.rxFac.chunkSize = CHUNK ∧ (files = [] → c = IoContext.new) ∧
      (files ≠ [] → c.txFac.Used) := by
  induction h with
  | new => exact ⟨rfl, rfl, rfl, fun _ => rfl, fun h => absurd rfl h⟩
  | @udm_txstart files c h f addressList env n herror hreturned ih =>
    obtain ⟨hdir, hqueue, hchunk, hnew, hused⟩ := ih
    have hst : Steady (c.udm_txstart f addressList) := steady_udm_txstart hqueue hchunk
    obtain ⟨hst', hdir'⟩ := steady_run_of bo hst env n herror
    have hdir' := hdir'.trans hdir
    refine ⟨hdir', hst'.queue_tx hdir', hst'.chunkSize, by simp, fun _ => ?_⟩
    show (Session.run bo (c.udm_txstart f addressList) env n).state.txFactory.Used
    by_cases hfiles : files = []
    · -- The first file was read to its end.
      obtain rfl := hnew hfiles
      have hsending := (@sending_run bo _ f hst hdir sending_new env n).2 herror
      rw [Process.returned, Bool.and_eq_true, decide_eq_true_eq] at hreturned
      exact hsending.reads.used (hsending.completed hreturned.1 hreturned.2)
    · have hreusing : Reusing f (c.udm_txstart f addressList) :=
        ⟨⟨(hused hfiles).buffer, (hused hfiles).fin, (hused hfiles).short, (hused hfiles).counted,
          (hused hfiles).int⟩, rfl, rfl⟩
      exact ((@Reusing.run bo f env _ hst hdir hreusing n).2 herror).used

/-- The data capsules of a transfer are the same as on a new context, against the same
    replies, exactly for the first transfer on the context, or if none are sent on a
    new one. -/
theorem independent_iff (h : Sent bo files c) (f : File) (addressList : List IpaddrDummy)
    (env : ℕ → Env) :
    Same (capsules bo c f addressList env) (capsules bo new f addressList env) ↔
      files = [] ∨ ∀ n, capsules bo new f addressList env n = [] := by
  obtain ⟨hdir, hqueue, hchunk, hnew, hused⟩ := h.invariant
  rcases Classical.em (files = []) with hfiles | hfiles
  · obtain rfl := hnew hfiles
    exact iff_of_true ⟨fun n => ⟨n, List.prefix_rfl⟩, fun n => ⟨n, List.prefix_rfl⟩⟩ (.inl hfiles)
  rw [or_iff_right hfiles]
  have hst : Steady (c.udm_txstart f addressList) := steady_udm_txstart hqueue hchunk
  have hreusing : Reusing f (c.udm_txstart f addressList) :=
    ⟨⟨(hused hfiles).buffer, (hused hfiles).fin, (hused hfiles).short, (hused hfiles).counted,
      (hused hfiles).int⟩, rfl, rfl⟩
  constructor
  · rintro ⟨-, hsame⟩ n
    -- The first capsule on a new context is longer than any on the one used before.
    rcases hx : capsules bo new f addressList env n with - | ⟨x, xs⟩
    · rfl
    obtain ⟨m, hpre⟩ := hsame n
    have hmem : x ∈ capsules bo c f addressList env m :=
      hpre.subset (by rw [hx]; exact List.mem_cons_self)
    obtain ⟨d, hd, rfl⟩ := List.mem_map.1 hmem
    have hlt := (@Reusing.run bo f env _ hst hdir hreusing m).1 d hd
    have hfirst := first_new hx
    exact absurd hfirst hlt.ne
  · intro hnone
    have hempty (n : ℕ) : capsules bo c f addressList env n = [] := by
      have halike : Alike (c.udm_txstart f addressList) (new.udm_txstart f addressList) :=
        ⟨rfl, rfl, rfl, rfl⟩
      have := (@Alike.run bo f env _ _ halike hreusing sending_new hst hdir
        (steady_udm_txstart rfl rfl) rfl n).2
      by_contra hne
      exact this (fun hd => hne (by rw [capsules, hd]; rfl)) (List.map_eq_nil_iff.1 (hnone n))
    exact ⟨fun n => ⟨n, by rw [hempty]; exact List.nil_prefix⟩,
      fun n => ⟨n, by rw [hnone]; exact List.nil_prefix⟩⟩

/-! ## The second transfer of a byte -/

/-- The context after the file of one byte was sent. -/
def afterOneByte : IoContext :=
  left (Session.run .little (new.udm_txstart oneByte []) (fun _ => announcing 5) 6).state

theorem sent_oneByte : Sent .little [oneByte] afterOneByte :=
  Sent.new.udm_txstart oneByte [] (fun _ => announcing 5) 6 (by decide +kernel) (by decide +kernel)

/-- Sending the file again sends nothing of it. -/
theorem not_independent_oneByte :
    Sent .little [oneByte] afterOneByte ∧
      ¬Same (capsules .little afterOneByte oneByte [] fun _ => announcing 5)
        (capsules .little new oneByte [] fun _ => announcing 5) := by
  refine ⟨sent_oneByte, ?_⟩
  rintro ⟨-, hsame⟩
  have hfirst : capsules .little new oneByte [] (fun _ => announcing 5) 4 = [([0], true)] := by
    decide +kernel
  obtain ⟨m, hpre⟩ := hsame 4
  rw [hfirst] at hpre
  obtain ⟨d, hd, hbyte⟩ := List.mem_map.1 (hpre.subset (List.mem_singleton_self _))
  have hused := sent_oneByte.invariant.2.2.2.2 (by simp)
  have hreusing : Reusing oneByte (afterOneByte.udm_txstart oneByte []) :=
    ⟨⟨hused.buffer, hused.fin, hused.short, hused.counted, hused.int⟩, rfl, rfl⟩
  have hlt := (hreusing.run (steady_udm_txstart sent_oneByte.invariant.2.1
    sent_oneByte.invariant.2.2.1) sent_oneByte.invariant.1 m).1 d hd
  -- No capsule is as long as the byte.
  have hdrop : d.drop HEADER_SPACE = [0] := (Prod.ext_iff.1 hbyte).1
  have hlen : (d.drop HEADER_SPACE).length = 1 := by
    rw [hdrop]
    rfl
  have hone : min PAYLOAD oneByte.bytes.length = 1 := by decide
  omega

theorem independent_iff_oneByte :
    Same (capsules .little afterOneByte oneByte [] fun _ => announcing 5)
      (capsules .little new oneByte [] fun _ => announcing 5) ↔
      [oneByte] = [] ∨ ∀ n, capsules .little new oneByte [] (fun _ => announcing 5) n = [] :=
  independent_iff sent_oneByte oneByte [] fun _ => announcing 5

end IoContext

end Udm
