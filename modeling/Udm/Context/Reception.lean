import Udm.Context
import Udm.Session.Reassembly

/-!
# Successive receptions

A context that has received a file can receive another one: `udm_rxstart` makes a new gateway and
a new session over the same factories. As for a sender, the flag for the end of the file stays set
in the factory. So the first data capsule of the next reception ends its only window: it stores
the payload of one capsule at most (`stored_of_received`), where the datagrams have a header.

The reception itself is `Reassembling`, started with the flag set. What such a reassembly does is a
fact about lists of datagrams (`Reassembly.take_of_fin`): it counts down until a data capsule
arrives, takes that one, and is at the end. `left_ne_zero` says that the receiver takes no datagram
after it: the state it is in then is `done`, and the acknowledgement makes it return.

- `Session.Concludes` is what a reception leaves: the flag, and no window.
- `Received.invariant` carries it from one reception to the next.
- `sink_twoCapsules` is a second reception that drops the second of two capsules.
-/

namespace Udm

namespace Reassembly

variable {bo : ByteOrder} {s : Reassembly} {ds : List (List Byte)}

/-- From the end of the file on, a window without a data capsule only counts down, and the first
    data capsule is the last datagram taken. -/
theorem take_of_fin (hfin : s.fin = true) (hwindow : s.window = ∅)
    (hopen : ∀ pre d, pre ++ [d] <+: ds → (s.take bo pre).left ≠ 0) :
    ds.length ≤ s.left ∧
      ((∀ d ∈ ds, ¬IsCapsule bo d) ∧ s.take bo ds = { s with left := s.left - ds.length } ∨
      ∃ pre d, ds = pre ++ [d] ∧ (∀ e ∈ pre, ¬IsCapsule bo e) ∧ IsCapsule bo d ∧
        s.take bo ds = { s with left := 0, window := s.window.insert (capid bo d) d }) := by
  induction ds using List.reverseRecOn with
  | nil => exact ⟨Nat.zero_le _, .inl ⟨by simp, rfl⟩⟩
  | append_singleton ds d ih =>
    obtain ⟨hlen, hds⟩ := ih fun pre e hpre => hopen pre e (hpre.trans (List.prefix_append ds [d]))
    have hleft := hopen ds d List.prefix_rfl
    -- After a data capsule no datagram is taken, so there was none before `d`.
    rcases hds with ⟨hnone, htake⟩ | ⟨pre, e, -, -, -, htake⟩
    swap
    · rw [htake] at hleft
      exact absurd rfl hleft
    have hlt : ds.length < s.left := by
      rw [htake] at hleft
      exact Nat.lt_of_sub_ne_zero hleft
    refine ⟨by simpa using hlt, ?_⟩
    rw [take_append, settled, if_neg hleft, htake, put]
    by_cases hd : IsCapsule bo d
    · refine .inr ⟨ds, d, rfl, hnone, hd, ?_⟩
      have hlast : (s.window.insert (capid bo d) d).last = some (capid bo d, d) := by
        rw [hwindow]
        rfl
      simp [hd, hlast, hfin]
    · refine .inl ⟨?_, ?_⟩
      · simpa [or_imp, forall_and] using ⟨hnone, hd⟩
      · have hlast : s.window.last = none := by rw [hwindow]; rfl
        simp [hd, hlast, Nat.sub_sub]

/-- No datagram clears the flag. -/
theorem fin_take (hfin : s.fin = true) : (s.take bo ds).fin = true := by
  induction ds using List.reverseRecOn with
  | nil => exact hfin
  | append_singleton ds d ih =>
    have hsettled : (s.take bo ds).settled.fin = true := by
      rw [settled]
      split_ifs
      exacts [ih, ih]
    rw [take_append, put]
    dsimp only
    split
    · exact hsettled
    · simp [hsettled]

/-- What is stored, then. -/
theorem stored_of_fin (hfin : s.fin = true) (hwindow : s.window = ∅)
    (hopen : ∀ pre d, pre ++ [d] <+: ds → (s.take bo pre).left ≠ 0) :
    (s.take bo ds).settled.stored =
      s.stored ++ ((ds.find? fun d => IsCapsule bo d).elim [] payloadOf) := by
  rcases (take_of_fin hfin hwindow hopen).2 with ⟨hnone, htake⟩ | ⟨pre, d, rfl, hnone, hd, htake⟩
  · have hfind : (ds.find? fun d => IsCapsule bo d) = none := by simpa using hnone
    rw [hfind, htake, settled]
    split_ifs <;> simp [flush, hwindow]
  · have hpre : (pre.find? fun d => IsCapsule bo d) = none := by simpa using hnone
    have hfind : ((pre ++ [d]).find? fun d => IsCapsule bo d) = some d := by
      rw [List.find?_append, hpre]
      simp [hd]
    rw [hfind, htake, settled, if_pos rfl, hwindow]
    simp [flush, OrdMap.insert, OrdMap.insertEntry]

end Reassembly

open Session

/-! ## The end of a session -/

/-- The receiver has returned only with its flag set, and without a window. -/
structure Session.Concludes (p : Process) : Prop where
  /-- Before the first window was acknowledged, the session does not count as complete. -/
  early : Early p → p.session.complete = false
  /-- A session that has returned leaves the flag, and no window. -/
  ended : p.returned = true → p.rxFactory.fin = true ∧ p.rxcurrentWindow = ∅

/-- A step of the receiver returns only from the acknowledgement of the last window. -/
theorem Session.RxMoves.concludes {bo : ByteOrder} {env : Env} {p : Process} {c : Party}
    (hm : RxMoves bo env p c) (h : Concludes p) (hc : c.error = none) : Concludes c.state := by
  cases hm with
  | noDatagram | noAddress => simp at hc
  | sendHello hnext =>
    have hnext' : (sentHello bo env p.clear).session.next = .setup := rfl
    exact ⟨fun _ => h.early (.inl hnext), by simp [Process.returned, hnext']⟩
  | receiveHi hnext d =>
    have hcomplete : (setUp bo env d p.clear).session.complete = false := by
      simpa [setUp] using h.early (.inr (.inl hnext))
    exact ⟨fun _ => hcomplete, by simp [Process.returned, hcomplete]⟩
  | sendAck =>
    have hnext' : (sentAck bo env p.clear).session.next = .closed := rfl
    exact ⟨by simp [Early, hnext'], by simp [Process.returned, hnext']⟩
  | windowOver => exact ⟨by simp [Early], by simp [Process.returned]⟩
  | arrive hnext _ d =>
    have hnext' : (arrived bo env d p.clear).session.next = .closed := next_arrived.trans hnext
    exact ⟨by simp [Early, hnext'], by simp [Process.returned, hnext']⟩
  | sendOk hnext =>
    have hcomplete : (sentOk bo env p.clear).session.complete = true := rfl
    have hnext' : (sentOk bo env p.clear).session.next =
        if p.rxFactory.fin then .connected else .closed := by
      rw [← show (written env p.clear).rxFactory.fin = p.rxFactory.fin from fin_written ..]
      rfl
    have hfin : (sentOk bo env p.clear).rxFactory.fin = p.rxFactory.fin := fin_written ..
    -- Only with the flag set does the acknowledgement lead to a state that returns.
    cases hf : p.rxFactory.fin with
    | false => exact ⟨by simp [Early, hnext', hf], by simp [Process.returned, hnext', hf]⟩
    | true =>
      exact ⟨by simp [Early, hnext', hf, hcomplete], fun _ => ⟨hfin.trans hf, rfl⟩⟩

/-- In every run, the receiver has returned only with its flag set. -/
theorem Session.concludes_run {bo : ByteOrder} {p : Process} {input : ℕ → Env} (hst : Steady p)
    (hdir : p.session.dir = .RX) (h : Points p)
    (haddr : ∀ n, (run bo p input n).Alive Process.returned →
      Addressed bo (input n) (run bo p input n).state)
    (hp : Concludes p) (n : ℕ) (hn : (run bo p input n).error = none) :
    Concludes (run bo p input n).state := by
  refine Conf.runs_induction (I := fun _ => Concludes) hp (fun n halive hconcludes => ?_)
    (fun _ _ _ h => h) n hn
  have hm := rxMoves_run hst hdir h haddr n halive
  rw [run_succ bo halive] at hm
  exact Conf.wp_iff_exec.2 ⟨fun hc => hm.concludes hconcludes hc, fun _ _ => trivial⟩

namespace IoContext

/-- `set_sink`. -/
def set_sink (s : DataSource) (c : IoContext) : IoContext := { c with rxFac.sourceData := s }

/-- The process in which the session of `udm_rxstart` starts to receive into `s`. -/
def udm_rxstart (s : DataSource) (addressList : List IpaddrDummy) (c : IoContext) : Process :=
  (c.set_sink s).run addressList

/-- A new context of a receiver. -/
def newRx : IoContext := { dir := .RX }

variable (bo : ByteOrder)

/-- The contexts on which `k` receptions were made one after the other: each session returned,
    the addresses were not kept as a capsule, and nothing was left in the queue before it. -/
inductive Received : ℕ → IoContext → Prop
  | newRx : Received 0 newRx
  | udm_rxstart {k : ℕ} {c : IoContext} (h : Received k c) (hqueue : c.rxFac.buffer = [])
      (s : DataSource) (addressList : List IpaddrDummy) (env : ℕ → Env)
      (haddr : ∀ n, (Session.run bo (c.udm_rxstart s addressList) env n).Alive Process.returned →
        Addressed bo (env n) (Session.run bo (c.udm_rxstart s addressList) env n).state)
      (n : ℕ) (herror : (Session.run bo (c.udm_rxstart s addressList) env n).error = none)
      (hreturned : (Session.run bo (c.udm_rxstart s addressList) env n).state.returned) :
      Received (k + 1) (left (Session.run bo (c.udm_rxstart s addressList) env n).state)

variable {bo} {k : ℕ} {c : IoContext} {s : DataSource} {addressList : List IpaddrDummy}
  {input : ℕ → Env}

/-- What the receptions before leave: the flag, set by the first one. -/
theorem Received.invariant (h : Received bo k c) :
    c.dir = .RX ∧ c.rxFac.chunkSize = CHUNK ∧ c.rxcurrentWindow = ∅ ∧
      (k ≠ 0 → c.rxFac.fin = true) := by
  induction h with
  | newRx => exact ⟨rfl, rfl, rfl, fun h => absurd rfl h⟩
  | @udm_rxstart k c h hqueue s addressList env haddr n herror hreturned ih =>
    obtain ⟨hdir, hchunk, hwindow, -⟩ := ih
    have hst : Steady (c.udm_rxstart s addressList) := ⟨rfl, fun _ => hqueue, hchunk⟩
    have hpoints : Points (c.udm_rxstart s addressList) := ⟨held_empty hwindow, fun _ => hwindow⟩
    have hconcludes : Concludes (c.udm_rxstart s addressList) :=
      ⟨fun _ => rfl, by simp [Process.returned, IoContext.udm_rxstart, run]⟩
    obtain ⟨hst', hdir'⟩ := steady_run_of bo hst env n herror
    obtain ⟨hfin, hwindow'⟩ :=
      (concludes_run hst hdir hpoints haddr hconcludes n herror).ended hreturned
    exact ⟨hdir'.trans hdir, hst'.chunkSize, hwindow', fun _ => hfin⟩

/-- Where the window of a later reception is open, it was open before. -/
theorem left_ne_zero {p : Process} {s₀ : Reassembly} (hst : Steady p) (hdir : p.session.dir = .RX)
    (hs₀ : s₀.window = ∅) (hleft : s₀.left = WIN_SIZ) (hfin : s₀.fin = true)
    (haddr : ∀ n, (Session.run bo p input n).Alive Process.returned →
      Addressed bo (input n) (Session.run bo p input n).state)
    (hw : ∀ n i, (input n).write i = .written)
    (hlen : ∀ n, ∀ d ∈ (input n).datagram, HEADER_SPACE ≤ d.length) (h : Points p)
    (hstart : Reassembling bo s₀ p []) (n : ℕ) (pre : List (List Byte)) (d : List Byte)
    (hpre : pre ++ [d] <+: taken bo p input n) : (s₀.take bo pre).left ≠ 0 := by
  induction n with
  | zero => simp [taken] at hpre
  | succ n ih =>
    rw [taken] at hpre
    split_ifs at hpre with hopen
    swap
    · exact ih (by simpa using hpre)
    obtain ⟨halive, hnext, hwin⟩ := hopen
    rcases hd : (input n).datagram with - | d'
    · exact ih (by simpa [hd] using hpre)
    rw [hd, Option.toList_some] at hpre
    rcases List.prefix_concat_iff.1 hpre with heq | hpre
    swap
    · exact ih hpre
    obtain ⟨rfl, -⟩ := List.append_inj' heq rfl
    -- The window was open when the last datagram was taken.
    have hat := reassembling_run hst hdir hs₀ hleft haddr hw hlen h hstart n halive.1
    rcases hat.closed hnext with hat | ⟨-, hnot, -⟩
    · rw [← hat.left]
      exact fun hzero => hwin (BitVec.eq_of_toNat_eq hzero)
    · rw [Reassembly.fin_take hfin] at hnot
      contradiction

/-- After its handshake, a reception on a context used before takes at most `WIN_SIZ` datagrams,
    if they have a header. Where it waits or has returned, it has stored the payload of the
    first data capsule that it has taken, and nothing else. -/
theorem stored_of_received (h : Received bo k c) (hk : k ≠ 0) (hqueue : c.rxFac.buffer = [])
    (hmode : s.fmode = .OUT) (hfs : s.fs.failed = false) (addressList : List IpaddrDummy)
    (haddr : ∀ n, (Session.run bo (c.udm_rxstart s addressList) input n).Alive Process.returned →
      Addressed bo (input n) (Session.run bo (c.udm_rxstart s addressList) input n).state)
    (hw : ∀ n i, (input n).write i = .written)
    (hlen : ∀ n, ∀ d ∈ (input n).datagram, HEADER_SPACE ≤ d.length) (n : ℕ)
    (hn : (Session.run bo (c.udm_rxstart s addressList) input n).error = none) :
    let q := (Session.run bo (c.udm_rxstart s addressList) input n).state
    let ds := taken bo (c.udm_rxstart s addressList) input n
    ds.length ≤ WIN_SIZ ∧ (q.awaits = true ∨ q.returned = true →
      q.sink = s.fs.content ++ (ds.find? fun d => IsCapsule bo d).elim [] payloadOf) := by
  obtain ⟨hdir, hchunk, hwindow, hfin⟩ := h.invariant
  have hst : Steady (c.udm_rxstart s addressList) := ⟨rfl, fun _ => hqueue, hchunk⟩
  have hpoints : Points (c.udm_rxstart s addressList) := ⟨held_empty hwindow, fun _ => hwindow⟩
  -- The reassembly starts with the flag that the first reception has set.
  let s₀ : Reassembly := { fin := true, stored := s.fs.content }
  have hrel : (c.udm_rxstart s addressList).rxcurrentWindow.Rel
      (fun b d => b.Carries bo d ∧ IsCapsule bo d) s₀.window := by
    show c.rxcurrentWindow.Rel _ _
    rw [hwindow]
    exact OrdMap.rel_empty
  have hstart : Reassembling bo s₀ (c.udm_rxstart s addressList) [] :=
    ⟨fun _ => ⟨rfl, rfl, hpoints.held, hrel, rfl, hfin hk, rfl, hmode, hfs⟩,
      by simp [udm_rxstart, run], by simp [udm_rxstart, run],
      by simp [udm_rxstart, run, Process.returned]⟩
  have hopen := left_ne_zero hst hdir rfl rfl rfl haddr hw hlen hpoints hstart n
  obtain ⟨hst', hdir'⟩ := steady_run_of bo hst input n hn
  have hat := reassembling_run hst hdir rfl rfl haddr hw hlen hpoints hstart n hn
  refine ⟨(Reassembly.take_of_fin rfl rfl hopen).1, fun hp => ?_⟩
  rw [hat.sink_eq (show WIN_SIZ ≠ 0 by decide) hst' (hdir'.trans hdir) hp]
  exact Reassembly.stored_of_fin rfl rfl hopen

/-! ## The second reception -/

/-- A file to receive into. -/
def newSink : DataSource := { fmode := .OUT, fs := {} }

/-- The context after one byte was received. -/
def afterOneWindow : IoContext :=
  left (Session.run .little (newRx.udm_rxstart newSink []) oneWindow 6).state

/-- The first reception: a file of one window, sent from `"10.0.0.1"`. -/
theorem received_oneWindow : Received .little 1 afterOneWindow := by
  refine Received.newRx.udm_rxstart rfl newSink [] oneWindow (fun n _ hnext d hd => ?_) 6
    (by decide +kernel) (by decide +kernel)
  rcases n with - | - | - | - | n
  · simp [oneWindow, Env.plain] at hd
  · obtain rfl := Option.some.inj hd
    decide +kernel
  · simp [oneWindow, Env.plain] at hd
  · exact absurd hnext (by decide +kernel)
  · simp [oneWindow, Env.plain] at hd

/-- A sender at `"10.0.0.1"` sends a file in two capsules. -/
def twoCapsules : ℕ → Env
  | 1 => .plain (some (CapsuleHdr.encode .little { capSize := 15 } ++
      SessionProcessor.private10.data)) []
  | 3 => .plain (some (CapsuleHdr.encode .little
      { capSize := 1, capType := CapsuleType.PAYLD.code } ++ [8])) []
  | 4 => .plain (some (CapsuleHdr.encode .little
      { capid := 1, capSize := 1, capType := CapsuleType.PAYLD.code, capFlags := Flags.FIN.code } ++
        [9])) []
  | _ => .plain none [0, 0]

/-- The second reception returns after the first of the two capsules. -/
theorem sink_twoCapsules :
    (Session.run .little (afterOneWindow.udm_rxstart newSink []) twoCapsules 6).state.returned ∧
      (Session.run .little (afterOneWindow.udm_rxstart newSink []) twoCapsules 6).state.sink =
        [8] := by
  have hover : (Session.run .little (afterOneWindow.udm_rxstart newSink [])
      twoCapsules 6).state.returned := by decide +kernel
  refine ⟨hover, ?_⟩
  rw [(stored_of_received received_oneWindow one_ne_zero (by decide +kernel) rfl rfl []
    (fun n halive hnext d hd => ?_) (fun n i => ?_) (fun n d hd => ?_) 6
    (by decide +kernel)).2 (.inr hover)]
  · decide +kernel
  · rcases n with - | - | - | - | - | n
    · simp [twoCapsules, Env.plain] at hd
    · obtain rfl := Option.some.inj hd
      decide +kernel
    · simp [twoCapsules, Env.plain] at hd
    · exact absurd hnext (by decide +kernel)
    · exact absurd hnext (by decide +kernel)
    · simp [twoCapsules, Env.plain] at hd
  · rcases n with - | - | - | - | - | n <;> rfl
  · rcases n with - | - | - | - | - | n
    · simp [twoCapsules, Env.plain] at hd
    · obtain rfl := Option.some.inj hd
      decide
    · simp [twoCapsules, Env.plain] at hd
    · obtain rfl := Option.some.inj hd
      decide
    · obtain rfl := Option.some.inj hd
      decide
    · simp [twoCapsules, Env.plain] at hd

end IoContext

end Udm
