import Udm.Session.Pointers

/-!
# The receiver as a reassembly

What a receiver makes of the datagrams it gets, told without queues and pointers
(`Reassembly`): a window keeps the last data capsule with each id, and ends after `WIN_SIZ`
datagrams, or as soon as the capsule with the largest id carries `FIN`; then its payloads are
stored by increasing id.

`reassembles` says that a receiver stores just that, whatever datagrams it gets, if they have a
header, and the one with the addresses is not taken for data.

Two relations lead there:

- `Assembles` relates the receiver to a state of its reassembly: the buffers its window points to
  carry the datagrams, and the counter, the flag and the sink are the same.
- `Reassembling` says which state that is, by the state of the session: before the transfer the
  initial one, in a window what was made of the datagrams so far, and where the window is over
  either that or what is left after it was stored, since the receiver writes one step after the
  datagram that ended the window.

`Reassembling.step` is the step lemma, with a case for each move of the receiver (`RxMoves`), and
`reassembling_run` carries it along a run.
-/

namespace Udm

/-- A receiver without its buffers: the data capsules in the window, the datagrams that it still
    takes, whether it has seen the end of the file, and what it has stored. -/
structure Reassembly where
  /-- The data capsules of the window by their ids, the last one received with each. -/
  window : OrdMap (BitVec 16) (List Byte) := ∅
  /-- How many datagrams the window still takes. -/
  left : ℕ := WIN_SIZ
  /-- Whether the capsule with the largest id carried `FIN`, in this window or before. -/
  fin : Bool := false
  /-- The payloads of the windows that are over. -/
  stored : List Byte := []

namespace Reassembly

variable (bo : ByteOrder)

/-- The end of a window. -/
def flush (s : Reassembly) : Reassembly where
  left := WIN_SIZ
  fin := s.fin
  stored := s.stored ++ s.window.entries.flatMap fun e => payloadOf e.2

/-- A datagram is taken into the window. -/
def put (s : Reassembly) (d : List Byte) : Reassembly :=
  let window := if IsCapsule bo d then s.window.insert (capid bo d) d else s.window
  match window.last with
  | none => { s with window, left := s.left - 1 }
  | some (_, newest) =>
    let fin := s.fin || isFin bo newest
    { s with window, fin, left := if fin then 0 else s.left - 1 }

/-- The window is stored if it is over. -/
def settled (s : Reassembly) : Reassembly := if s.left = 0 then s.flush else s

/-- What becomes of the datagrams `ds`. -/
def take (s : Reassembly) (ds : List (List Byte)) : Reassembly :=
  ds.foldl (fun s d => s.settled.put bo d) s

variable {bo}

/-- The datagrams are taken one after the other, the last one on top of those before. -/
theorem take_append (s : Reassembly) (ds : List (List Byte)) (d : List Byte) :
    s.take bo (ds ++ [d]) = (s.take bo ds).settled.put bo d := List.foldl_append

end Reassembly

namespace Session

open PresentationProcessor

variable {bo : ByteOrder} {env : Env} {p q : Process} {c : Party} {s : Reassembly}
  {d : List Byte}

/-! ## The receiver and its reassembly -/

/-- The receiver is at `s`: its pointers point to the datagrams in the window, in its queue, and
    what is stored is in the sink. -/
structure Assembles (bo : ByteOrder) (p : Process) (s : Reassembly) : Prop where
  /-- The window points to buffers of the queue. -/
  held : Held p
  /-- The buffers of the window carry the data capsules of the reassembly. -/
  window : p.rxcurrentWindow.Rel (fun b d => b.Carries bo d ∧ IsCapsule bo d) s.window
  /-- The window takes as many datagrams as its counter says. -/
  left : p.session.processor.winSize.toNat = s.left
  /-- The end of the file was seen if the factory has the flag. -/
  fin : p.rxFactory.fin = s.fin
  /-- What was stored is what was written to the file. -/
  sink : p.sink = s.stored
  /-- The file was opened for writing. -/
  fmode : p.rxFactory.sourceData.fmode = .OUT
  /-- The stream has not failed. -/
  failed : p.rxFactory.sourceData.fs.failed = false

namespace Assembles

/-- What a process has sent and written in the step before does not count. -/
theorem clear (h : Assembles bo p s) : Assembles bo p.clear s :=
  ⟨h.held, h.window, h.left, h.fin, h.sink, h.fmode, h.failed⟩

/-- The window after a datagram. -/
theorem rel_received (h : Assembles bo p s) (hchunk : p.rxFactory.chunkSize = CHUNK)
    (hd : HEADER_SPACE ≤ d.length) :
    (received bo env p d).rxcurrentWindow.Rel (fun b d => b.Carries bo d ∧ IsCapsule bo d)
      (if IsCapsule bo d then s.window.insert (capid bo d) d else s.window) := by
  have hcarries : (Gateway.pulled bo env p d).Carries bo d := Gateway.carries_pulled hchunk hd
  have hpayld : (Gateway.pulled bo env p d).data.header.isPayld ↔ IsCapsule bo d := by
    rw [hcarries.header]
    exact (and_iff_right hd).symm
  rw [rxcurrentWindow_received, if_congr hpayld rfl rfl]
  split_ifs with hcap
  · rw [hcarries.header]
    exact h.window.insert _ ⟨hcarries, hcap⟩
  · exact h.window

/-- The receiver takes a datagram. -/
theorem arrived (h : Assembles bo p s) (hchunk : p.rxFactory.chunkSize = CHUNK)
    (hwin : p.session.processor.winSize ≠ 0) (hd : HEADER_SPACE ≤ d.length) :
    Assembles bo (arrived bo env d p) (s.put bo d) := by
  have hrel := @rel_received bo env p s d h hchunk hd
  have hheld := @held_arrived bo env p d h.held
  have hleft : (p.session.processor.winSize - 1).toNat = s.left - 1 := by
    rw [toNat_sub_one hwin, h.left]
  have hlast := hrel.last
  rw [Reassembly.put]
  generalize (if IsCapsule bo d then s.window.insert (capid bo d) d else s.window) = window at *
  -- The newest capsule decides: it is in the window of the receiver where it is in that of the
  -- reassembly.
  rcases hp : (received bo env p d).rxcurrentWindow.last with - | ⟨k, b⟩
  · rw [hp] at hlast
    generalize hw : window.last = o at hlast
    cases hlast
    have harrived : Session.arrived bo env d p = (received bo env p d).countDown := by
      simp only [Session.arrived, hp]
    rw [harrived] at hheld ⊢
    refine ⟨hheld, hrel, ?_, ?_, ?_, ?_, ?_⟩
    · have hcount : (received bo env p d).countDown.session.processor.winSize =
          p.session.processor.winSize - 1 := by
        rw [Process.countDown, session_received, if_neg hwin]
        rfl
      rw [hcount, hleft]
    · simpa using h.fin
    · simpa [Process.sink] using h.sink
    · simpa using h.fmode
    · simpa using h.failed
  · rw [hp] at hlast
    generalize hw : window.last = o at hlast
    cases hlast with
    | @some _ e he =>
      obtain ⟨k', newest⟩ := e
      have harrived := @arrived_eq bo env p d hwin k b hp
      have hfin : (p.rxFactory.fin || b.data.header.isFin) = (s.fin || isFin bo newest) := by
        rw [h.fin, he.2.1.header, isFin]
      dsimp only at harrived
      rw [hfin] at harrived
      rw [harrived] at hheld ⊢
      refine ⟨hheld, hrel, ?_, rfl, ?_, ?_, ?_⟩
      · show (if (s.fin || isFin bo newest) = true then (0 : BitVec 16)
          else p.session.processor.winSize - 1).toNat =
            if (s.fin || isFin bo newest) = true then 0 else s.left - 1
        split_ifs
        exacts [rfl, hleft]
      · simpa [Process.sink] using h.sink
      · simpa using h.fmode
      · simpa using h.failed

/-- The buffers in the window carry the datagrams. -/
theorem carries_window (h : Assembles bo p s) :
    List.Forall₂ (fun b d => b.Carries bo d ∧ IsCapsule bo d) (Session.window p)
      (s.window.entries.map Prod.snd) := by
  rw [Session.window, List.forall₂_map_left_iff, List.forall₂_map_right_iff]
  exact h.window.imp fun _ _ he => he.2

/-- The receiver stores its window. -/
theorem fs_sentOk (h : Assembles bo p s) (hio : p.io.writes = [])
    (hw : ∀ i, env.write i = .written) :
    (sentOk bo env p).rxFactory.sourceData.fs =
      { p.rxFactory.sourceData.fs with content := s.flush.stored } := by
  have hcarries := h.carries_window
  have hall : ∀ b ∈ Session.window p, ∃ d, b.Carries bo d ∧ IsCapsule bo d := fun b hb => by
    obtain ⟨d, -, hd⟩ := exists_of_forall₂ hcarries.flip hb
    exact ⟨d, hd⟩
  -- Only data capsules are in the window, so all of them are written.
  have hfilter : (Session.window p).filter (fun b => b.data.header.isPayld) = Session.window p :=
    List.filter_eq_self.2 fun b hb => by
      obtain ⟨d, hd, hcap⟩ := hall b hb
      rw [hd.header]
      exact hcap.2
  have hlength : ∀ b ∈ Session.window p, 0 ≤ DataFactory.writeLength b.size := fun b hb => by
    obtain ⟨d, hd, hcap⟩ := hall b hb
    exact hd.writeLength_nonneg hcap.1
  have hacc := accepted_writes h.fmode h.failed hw hlength (by simp [hio])
  have hpayload : (Session.window p).flatMap MemBuff.payload =
      s.window.entries.flatMap fun e => payloadOf e.2 := by
    have := flatMap_payload ((hcarries.imp fun _ _ hd => hd.1).flip)
    rw [this, List.flatMap_map]
  have hfs := fs_writes h.fmode hacc
  rw [hfilter, hpayload, h.sink] at hfs
  exact hfs

/-- The receiver stores its window, and goes on with the next one. -/
theorem sentOk (h : Assembles bo p s) (hio : p.io.writes = []) (hw : ∀ i, env.write i = .written)
    (hfin : s.fin = false) : Assembles bo (sentOk bo env p) s.flush := by
  have hfs := @fs_sentOk bo env p s h hio hw
  have hfin' : (written env p).rxFactory.fin = false := by rw [fin_written, h.fin, hfin]
  refine ⟨held_empty rfl, OrdMap.rel_empty, ?_, ?_, ?_, ?_, ?_⟩
  · show (if (written env p).rxFactory.fin = true then _ else BitVec.ofNat 16 WIN_SIZ).toNat =
      WIN_SIZ
    rw [hfin']
    rfl
  · exact hfin'.trans hfin.symm
  · rw [Process.sink, hfs]
  · exact (sameButSink_written env p).fmode.trans h.fmode
  · rw [hfs]
    exact h.failed

end Assembles

/-! ## Runs -/

variable (bo) in
/-- The datagrams that the receiver has taken since the handshake. -/
def taken (p : Process) (input : ℕ → Env) : ℕ → List (List Byte)
  | 0 => []
  | n + 1 => taken p input n ++
      if (run bo p input n).Alive Process.returned ∧
        (run bo p input n).state.session.next = .closed ∧
        (run bo p input n).state.session.processor.winSize ≠ 0
      then (input n).datagram.toList else []

/-- The process is before the transfer. -/
def Early (p : Process) : Prop :=
  p.session.next = .open ∨ p.session.next = .setup ∨
    p.session.next = .connected ∧ p.session.complete = false

/-- The receiver is where its reassembly is, started in the state `s₀`, after the datagrams `ds`;
    it stores a window one step after the other. -/
structure Reassembling (bo : ByteOrder) (s₀ : Reassembly) (p : Process) (ds : List (List Byte)) :
    Prop where
  /-- In the handshake nothing was taken, and the counter may be anything. -/
  early : Early p → ds = [] ∧ p.session.complete = false ∧
    Assembles bo p { s₀ with left := p.session.processor.winSize.toNat }
  /-- In a window, or where one was just stored. -/
  closed : p.session.next = .closed → Assembles bo p (s₀.take bo ds) ∨
    (s₀.take bo ds).left = 0 ∧ (s₀.take bo ds).fin = false ∧ Assembles bo p (s₀.take bo ds).flush
  /-- Where a window is over, and not stored yet. -/
  done : p.session.next = .done → (s₀.take bo ds).left = 0 ∧ Assembles bo p (s₀.take bo ds)
  /-- Where the last window was stored. -/
  ended : p.returned = true → (s₀.take bo ds).left = 0 ∧ (s₀.take bo ds).fin = true ∧
    p.sink = (s₀.take bo ds).flush.stored

namespace Reassembling

variable {s₀ : Reassembly} {ds : List (List Byte)}

/-- Where the receiver waits for a datagram, or has returned, its sink holds the windows that are
    over. -/
theorem sink_eq (h : Reassembling bo s₀ p ds) (hs₀ : s₀.left ≠ 0) (hst : Steady p)
    (hdir : p.session.dir = .RX)
    (hp : p.awaits = true ∨ p.returned = true) : p.sink = (s₀.take bo ds).settled.stored := by
  -- Where the receiver waits, its window is open, so nothing is left to store.
  by_cases hover : p.returned = true
  · obtain ⟨hleft, -, hsink⟩ := h.ended hover
    rw [Reassembly.settled, if_pos hleft, hsink]
  have hawaits := hp.resolve_right hover
  cases hnext : p.session.next with
  | setup =>
    obtain ⟨rfl, -, hat⟩ := h.early (.inr (.inl hnext))
    have htake : s₀.take bo [] = s₀ := rfl
    rw [htake, Reassembly.settled, if_neg hs₀, hat.sink]
  | closed =>
    have hwin : p.session.processor.winSize ≠ 0 := by
      simpa [Process.awaits, hdir, hnext] using hawaits
    rcases h.closed hnext with hat | ⟨hleft, -, hat⟩
    · have hleft : (s₀.take bo ds).left ≠ 0 := by
        rw [← hat.left]
        exact fun hzero => hwin (BitVec.eq_of_toNat_eq hzero)
      rw [Reassembly.settled, if_neg hleft, hat.sink]
    · rw [Reassembly.settled, if_pos hleft, hat.sink]
  | «open» | connected | done | inq | send => simp [Process.awaits, hdir, hnext] at hawaits
  | recv =>
    have := hst.next
    simp [hnext, inSession] at this

/-- Where the receiver waits for data, it still takes as many datagrams as its reassembly. -/
theorem left_eq (h : Reassembling bo s₀ p ds) (hdir : p.session.dir = .RX)
    (hawaits : p.awaits = true) (hnext : p.session.next = .closed) :
    p.session.processor.winSize.toNat = (s₀.take bo ds).settled.left := by
  have hwin : p.session.processor.winSize ≠ 0 := by
    simpa [Process.awaits, hdir, hnext] using hawaits
  rcases h.closed hnext with hat | ⟨hleft, -, hat⟩
  · have hleft : (s₀.take bo ds).left ≠ 0 := by
      rw [← hat.left]
      exact fun hzero => hwin (BitVec.eq_of_toNat_eq hzero)
    rw [Reassembly.settled, if_neg hleft, hat.left]
  · rw [Reassembly.settled, if_pos hleft, hat.left]

/-- Before the transfer, nothing is in the window. -/
theorem window_eq (h : Reassembling bo s₀ p ds) (hs₀ : s₀.window = ∅) (hp : Early p) :
    p.rxcurrentWindow = ∅ := by
  have hrel := (h.early hp).2.2.window
  rw [OrdMap.Rel, hs₀] at hrel
  exact OrdMap.ext (List.forall₂_nil_right_iff.1 hrel)

/-- A step before the transfer changes neither the sink nor the flag for the end of the file. -/
theorem assembles_of_early (h : Reassembling bo s₀ p ds) (hs₀ : s₀.window = ∅) (hp : Early p)
    (hwindow : q.rxcurrentWindow = ∅) (hfin : q.rxFactory.fin = p.rxFactory.fin)
    (hsource : q.rxFactory.sourceData = p.rxFactory.sourceData) :
    Assembles bo q { s₀ with left := q.session.processor.winSize.toNat } := by
  obtain ⟨-, -, hat⟩ := h.early hp
  refine ⟨held_empty hwindow, ?_, rfl, hfin.trans hat.fin, ?_, ?_, ?_⟩
  · show q.rxcurrentWindow.Rel _ s₀.window
    rw [hwindow, hs₀]
    exact OrdMap.rel_empty
  · rw [Process.sink, hsource]
    exact hat.sink
  · rw [hsource]
    exact hat.fmode
  · rw [hsource]
    exact hat.failed

/-- The receiver takes a datagram. -/
theorem arrive (h : Reassembling bo s₀ p ds) (hst : Steady p) (hnext : p.session.next = .closed)
    (hwin : p.session.processor.winSize ≠ 0) (hd : HEADER_SPACE ≤ d.length) :
    Reassembling bo s₀ (arrived bo env d p.clear) (ds ++ [d]) := by
  have hnext' : (arrived bo env d p.clear).session.next = .closed := next_arrived.trans hnext
  refine ⟨fun hearly => by simp [Early, hnext'] at hearly, fun _ => .inl ?_, by simp [hnext'],
    by simp [Process.returned, hnext']⟩
  rw [Reassembly.take_append]
  rcases h.closed hnext with hat | ⟨hleft, -, hat⟩
  · have hleft : (s₀.take bo ds).left ≠ 0 := by
      rw [← hat.left]
      exact fun hzero => hwin (BitVec.eq_of_toNat_eq hzero)
    rw [Reassembly.settled, if_neg hleft]
    exact hat.clear.arrived hst.chunkSize hwin hd
  · rw [Reassembly.settled, if_pos hleft]
    exact hat.clear.arrived hst.chunkSize hwin hd

/-- A step of the receiver. -/
theorem step (h : Reassembling bo s₀ p ds) (hm : RxMoves bo env p c) (hst : Steady p)
    (hreturned : p.returned = false) (hs₀ : s₀.window = ∅)
    (hleft : s₀.left = WIN_SIZ) (haddr : Addressed bo env p)
    (hw : ∀ i, env.write i = .written) (hlen : ∀ d ∈ env.datagram, HEADER_SPACE ≤ d.length)
    (hc : c.error = none) :
    Reassembling bo s₀ c.state (ds ++ if p.session.next = .closed ∧ p.session.processor.winSize ≠ 0
      then env.datagram.toList else []) := by
  cases hm with
  | noDatagram | noAddress => simp at hc
  | sendHello hnext =>
    have hp : Early p := .inl hnext
    obtain ⟨hds, hcomplete, -⟩ := h.early hp
    have hnext' : (sentHello bo env p.clear).session.next = .setup := rfl
    rw [if_neg (by simp [hnext]), List.append_nil]
    exact ⟨fun _ => ⟨hds, hcomplete, h.assembles_of_early hs₀ hp (h.window_eq hs₀ hp) rfl rfl⟩,
      by simp [hnext'], by simp [hnext'], by simp [Process.returned, hnext']⟩
  | receiveHi hnext d hd =>
    have hp : Early p := .inr (.inl hnext)
    obtain ⟨hds, hcomplete, -⟩ := h.early hp
    have hnext' : (setUp bo env d p.clear).session.next = .connected := rfl
    have hcomplete' : (setUp bo env d p.clear).session.complete = false := by
      simpa [setUp] using hcomplete
    have hctrl : (Gateway.pulled bo env p.clear d).data.header.isPayld = false := haddr hnext d hd
    have hwindow : (setUp bo env d p.clear).rxcurrentWindow = ∅ := by
      show (received bo env p.clear d).rxcurrentWindow = ∅
      rw [rxcurrentWindow_received, hctrl, if_neg Bool.false_ne_true]
      exact h.window_eq hs₀ hp
    rw [if_neg (by simp [hnext]), List.append_nil]
    refine ⟨fun _ => ⟨hds, hcomplete', h.assembles_of_early hs₀ hp hwindow ?_ ?_⟩,
      by simp [hnext'], by simp [hnext'], by simp [Process.returned, hcomplete']⟩
    · simp [setUp]
    · simp [setUp]
  | sendAck hnext =>
    have hp : Early p := .inr (.inr ⟨hnext, by simpa [Process.returned, hnext] using hreturned⟩)
    obtain ⟨hds, hcomplete, -⟩ := h.early hp
    have hnext' : (sentAck bo env p.clear).session.next = .closed := rfl
    have hat := h.assembles_of_early (q := sentAck bo env p.clear) hs₀ hp (h.window_eq hs₀ hp)
      rfl rfl
    rw [if_neg (by simp [hnext]), List.append_nil]
    refine ⟨fun hearly => by simp [Early, hnext'] at hearly, fun _ => .inl ?_, by simp [hnext'],
      by simp [Process.returned, hnext']⟩
    subst hds
    have hwin : (sentAck bo env p.clear).session.processor.winSize.toNat = s₀.left :=
      Eq.trans rfl hleft.symm
    rw [hwin] at hat
    exact hat
  | windowOver hnext hwin =>
    have hnext' : (p.clear.setNext .done).session.next = .done := rfl
    rw [if_neg fun hopen => hopen.2 hwin, List.append_nil]
    refine ⟨fun hearly => by simp [Early] at hearly, by simp, fun _ => ?_,
      by simp [Process.returned]⟩
    have hzero : p.session.processor.winSize.toNat = 0 := by rw [hwin]; rfl
    rcases h.closed hnext with hat | ⟨-, -, hat⟩
    · exact ⟨hat.left.symm.trans hzero, hat.clear.held, hat.window, hat.left, hat.fin, hat.sink,
        hat.fmode, hat.failed⟩
    · have : WIN_SIZ = 0 := hat.left.symm.trans hzero
      exact absurd this (by decide)
  | arrive hnext hwin d hd =>
    rw [if_pos ⟨hnext, hwin⟩, hd, Option.toList_some]
    exact h.arrive hst hnext hwin (hlen d hd)
  | sendOk hnext =>
    obtain ⟨hzero, hat⟩ := h.done hnext
    rw [if_neg (by simp [hnext]), List.append_nil]
    have hfin : (written env p.clear).rxFactory.fin = (s₀.take bo ds).fin := by
      rw [fin_written]
      exact hat.fin
    have hnext' : (sentOk bo env p.clear).session.next =
        if (s₀.take bo ds).fin then .connected else .closed := by
      rw [← hfin]
      rfl
    have hcomplete : (sentOk bo env p.clear).session.complete = true := rfl
    cases hf : (s₀.take bo ds).fin with
    | false =>
      rw [hf, if_neg Bool.false_ne_true] at hnext'
      exact ⟨fun hearly => by simp [Early, hnext'] at hearly,
        fun _ => .inr ⟨hzero, hf, hat.clear.sentOk rfl hw hf⟩, by simp [hnext'],
        by simp [Process.returned, hnext']⟩
    | true =>
      rw [hf, if_pos rfl] at hnext'
      refine ⟨fun hearly => by simp [Early, hnext', hcomplete] at hearly, by simp [hnext'],
        by simp [hnext'], fun _ => ⟨hzero, hf, ?_⟩⟩
      rw [Process.sink, hat.clear.fs_sentOk rfl hw]

end Reassembling

section Run

variable {input : ℕ → Env} {s₀ : Reassembly} (hst : Steady p) (hdir : p.session.dir = .RX)
  (hs₀ : s₀.window = ∅) (hleft : s₀.left = WIN_SIZ)
  (haddr : ∀ n, (run bo p input n).Alive Process.returned →
    Addressed bo (input n) (run bo p input n).state)
  (hw : ∀ n i, (input n).write i = .written)
  (hlen : ∀ n, ∀ d ∈ (input n).datagram, HEADER_SPACE ≤ d.length)
include hst hdir hs₀ hleft haddr hw hlen

theorem reassembling_run (h : Points p) (hstart : Reassembling bo s₀ p []) (n : ℕ)
    (hn : (run bo p input n).error = none) :
    Reassembling bo s₀ (run bo p input n).state (taken bo p input n) := by
  induction n with
  | zero => exact hstart
  | succ n ih =>
    by_cases halive : (run bo p input n).Alive Process.returned
    · obtain ⟨hst', hdir'⟩ := steady_run_of bo hst input n halive.1
      have hm := rxMoves_run hst hdir h haddr n halive
      have := (ih halive.1).step hm hst' halive.2 hs₀ hleft (haddr n halive)
        (hw n) (hlen n) hn
      simpa [taken, halive] using this
    · have hstop : run bo p input (n + 1) = run bo p input n := if_neg halive
      rw [hstop] at hn ⊢
      simpa [taken, halive] using ih hn

end Run

/-- Whatever datagrams a receiver gets, of any content and in any order, if they have a header and
    the one with the addresses is not kept as a capsule, and every write succeeds: where it waits or
    has returned, its sink holds what a `Reassembly` of the datagrams has stored. While it takes
    data, it still takes as many datagrams as the reassembly; and it returns only after the end of
    the file. -/
theorem reassembles (bo : ByteOrder) (statics : Statics) (addressList : List IpaddrDummy)
    (source : DataSource) (input : ℕ → Env)
    (haddr : ∀ n, (run bo (.init .RX statics addressList source { fmode := .OUT, fs := {} })
      input n).Alive Process.returned → Addressed bo (input n)
        (run bo (.init .RX statics addressList source { fmode := .OUT, fs := {} }) input n).state)
    (hw : ∀ n i, (input n).write i = .written)
    (hlen : ∀ n, ∀ d ∈ (input n).datagram, HEADER_SPACE ≤ d.length) (n : ℕ)
    (hn : (run bo (.init .RX statics addressList source { fmode := .OUT, fs := {} })
      input n).error = none) :
    let p := Process.init .RX statics addressList source { fmode := .OUT, fs := {} }
    let q := (run bo p input n).state
    let s := ({} : Reassembly).take bo (taken bo p input n)
    (q.awaits = true ∨ q.returned = true → q.sink = s.settled.stored) ∧
    (q.awaits = true → q.session.next = .closed →
      q.session.processor.winSize.toNat = s.settled.left) ∧
    (q.returned = true → s.left = 0 ∧ s.fin = true) := by
  intro p q s
  have hst := steady_init .RX statics addressList source { fmode := .OUT, fs := {} }
  have hstart : Reassembling bo {} p [] :=
    ⟨fun _ => ⟨rfl, rfl, held_empty rfl, OrdMap.rel_empty, rfl, rfl, rfl, rfl, rfl⟩,
      by simp [p, Process.init], by simp [p, Process.init],
      by simp [p, Process.init, Process.returned]⟩
  have h := reassembling_run hst rfl rfl rfl haddr hw hlen ⟨held_empty rfl, fun _ => rfl⟩ hstart n
    hn
  obtain ⟨hst', hdir⟩ := steady_run_of bo hst input n hn
  exact ⟨h.sink_eq (by decide) hst' hdir, h.left_eq hdir, fun hover =>
    ⟨(h.ended hover).1, (h.ended hover).2.1⟩⟩

/-- A data capsule with one byte. -/
def oneByteCapsule (capid : BitVec 16) (capFlags : BitVec 8) (b : Byte) : Option (List Byte) :=
  some (CapsuleHdr.encode .little
    { capid, capSize := 1, capType := CapsuleType.PAYLD.code, capFlags } ++ [b])

/-- The address of the sender, a first window of capsules out of order, two of them repeated and one
    of these with another byte, and a second window, which the capsule with `FIN` closes. -/
def arrivals : List (Option (List Byte)) :=
  [none, some (CapsuleHdr.encode .little { capSize := 15 } ++ SessionProcessor.private10.data),
    none,
    oneByteCapsule 2 0 9, oneByteCapsule 1 0 1, oneByteCapsule 2 0 2, oneByteCapsule 1 0 1,
    oneByteCapsule 3 0 3, none, none, oneByteCapsule 5 0 5, oneByteCapsule 4 0 4,
    oneByteCapsule 6 Flags.FIN.code 6]

/-- They arrive one after the other. -/
def twoWindows (n : ℕ) : Env := .plain arrivals[n]?.join [0, 0]

theorem mem_arrivals {n : ℕ} (hd : d ∈ (twoWindows n).datagram) :
    n < 13 ∧ some d ∈ arrivals := by
  have hget : arrivals[n]? = some (some d) := Option.join_eq_some_iff.1 (Option.mem_def.1 hd)
  exact ⟨(List.getElem?_eq_some_iff.1 hget).1, List.mem_of_getElem? hget⟩

/-- Only the address comes when the receiver waits for it. -/
theorem addressed_twoWindows (n : ℕ) :
    Addressed .little (twoWindows n) (run .little newReceiver twoWindows n).state := by
  intro hnext d hd
  have hlt := (mem_arrivals hd).1
  obtain rfl | hne := eq_or_ne n 1
  · obtain rfl := Option.some.inj hd
    decide +kernel
  · interval_cases n
    case «0» => simp [twoWindows, arrivals, Env.plain] at hd
    case «1» => contradiction
    all_goals exact absurd hnext (by decide +kernel)

/-- The receiver has stored each id once, in order, with the byte that came last. -/
theorem sink_twoWindows : (run .little newReceiver twoWindows 15).state.sink =
    (({} : Reassembly).take .little (taken .little newReceiver twoWindows 15)).settled.stored ∧
    (run .little newReceiver twoWindows 15).state.sink = [1, 2, 3, 4, 5, 6] := by
  have hheader : ∀ o ∈ arrivals, ∀ d ∈ o, HEADER_SPACE ≤ d.length := by decide
  exact ⟨(reassembles .little {} [] { fmode := .IN, fs := {} } twoWindows
    (fun n _ => addressed_twoWindows n) (fun _ _ => rfl)
    (fun n d hd => hheader _ (mem_arrivals hd).2 d rfl) 15 (by decide +kernel)).1
      (.inr (by decide +kernel)), by decide +kernel⟩

end Session

end Udm
