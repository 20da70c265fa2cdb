import Udm.Library.Fairness
import Udm.Protocol.Ordered

/-!
# Liveness of the protocol

What holds when the network loses nothing (`Live`), whatever the order in which it
delivers: as long as not both parties have finished, one of them can take a step
(`Live.goes`). The system calls of the receiver work, so that all its messages are sent
(`Net.Working.length_sent`). Every step is one of a bounded number, whatever is lost
(`Basic.steps_tx`, `Net.steps_rx`, `Net.Reached.progress_le`).

The two halves are independent of each other:

* each step counts: the phases of a window are numbered (`Phase.index`), and a chunk, an
  acknowledgement and a window add to the number (`Sender.progress`, `Receiver.progress`).
  The last one only halts a party, which counts once (`Net.steps`). With the number of
  chunks bounded, so is the number of steps;
* while both parties wait, the messages are counted: what the receiver has sent, the
  sender has taken (`Live.taken`), and nothing is under way. In each phase of the sender
  one of the parties has something to do then.

A sender that runs out of chunks before the last one halts, and the receiver waits in its
window: `Net.Working.stored_of_stuck` says what is stored then.
-/

namespace Udm.Protocol

/-! ## Steps that count -/

/-- How far a party is in its window, or in the handshake. -/
def Phase.index : Phase → ℕ
  | hello => 0
  | hi => 1
  | ack => 2
  | data => 3
  | ok => 4
  | finished => 3

/-- How many messages of the handshake the sender has taken, or the receiver has sent. -/
def Phase.opened : Phase → ℕ
  | hello => 0
  | hi | ack => 1
  | data | ok | finished => 2

/-- The number of steps of a sender. -/
def Sender.progress (t : Sender) : ℕ := t.phase.index + t.sent + 2 * t.acked

/-- The number of steps of a receiver, but for those that take a chunk. -/
def Receiver.progress (r : Receiver) : ℕ := r.phase.index + 2 * r.windows

/-- The number of steps of both parties, or a little more. -/
def Net.progress (s : Net) : ℕ := s.tx.progress + s.rx.progress + s.toRx.delivered.length

/-- The same, with the steps in which they halt. -/
def Net.steps (s : Net) : ℕ := s.progress + s.tx.halted.toNat + s.rx.halted.toNat

/-- The sender can take a step, with the messages that are under way. -/
def Sender.Goes (t : Sender) (c : Channel Msg) : Prop :=
  t.halted = false ∧ t.phase ≠ .finished ∧ (t.awaits = true → c.flight ≠ [])

/-- The receiver can take a step, with the messages that are under way. -/
def Receiver.Goes (r : Receiver) (c : Channel Msg) : Prop :=
  r.halted = false ∧ r.phase ≠ .finished ∧ (r.awaits = true → c.flight ≠ [])

/-- The last chunk is the chunk `n`, and there is something to send up to it. -/
structure Source.Ends (src : Source) (n : ℕ) : Prop where
  /-- Only that chunk is the last one. -/
  last : ∀ k, src.last k ↔ k = n
  /-- The source goes on until then. -/
  exhausted : ∀ k ≤ n, src.exhausted k = false

section Steps

variable {src : Source} {i : Input}

/-- Every step of a sender counts, unless it halts. -/
theorem Sender.progress_step {t : Sender} {m : Option Msg} (hhalted : t.halted = false)
    (hphase : t.phase ≠ .finished) (haw : m.isSome → t.awaits) (hexp : ∀ m' ∈ m, t.Expects m')
    (hstep : (t.step src i m).1.halted = false) :
    (t.step src i m).1.progress = t.progress + 1 := by
  cases m with
  | none =>
    cases hp : t.phase with
    | finished => exact absurd hp hphase
    | hello | ack | ok => simp [Sender.step, hhalted, hp] at hstep
    | hi =>
      cases hworks : i.works <;> simp [Sender.step, hhalted, hp, hworks] at hstep ⊢
      simp [Sender.progress, hp, Phase.index]
      omega
    | data =>
      by_cases hwin : t.win = 0
      · simp [Sender.step, hhalted, hp, hwin, Sender.progress, Phase.index]
        omega
      · cases hstop : src.exhausted t.sent || !t.reaches || !i.works with
        | true => simp [Sender.step, hhalted, hp, hwin, hstop] at hstep
        | false =>
          simp only [Sender.step, hhalted, hp, hwin, hstop, Bool.false_eq_true, if_false]
          simp [Sender.progress, hp, Phase.index]
          omega
  | some m =>
    cases hp : t.phase with
    | finished => exact absurd hp hphase
    | hi | data => simp [Sender.awaits, hhalted, hp] at haw
    | hello =>
      cases hworks : i.works <;> simp [Sender.step, hhalted, hp, hworks] at hstep ⊢
      simp [Sender.progress, hp, Phase.index]
      omega
    | ack =>
      obtain ⟨win, rfl⟩ := hexp m rfl hp
      simp [Sender.step, hhalted, hp, Sender.progress, Phase.index]
      omega
    | ok =>
      cases hfin : src.complete t.sent <;>
        simp [Sender.step, hhalted, hp, hfin, Sender.progress, Phase.index] <;> omega

/-- Every step of a receiver counts, or takes a message, unless it halts. -/
theorem Receiver.progress_step {r : Receiver} {m : Option Msg} (hhalted : r.halted = false)
    (hphase : r.phase ≠ .finished) (haw : m.isSome → r.awaits)
    (hstep : (r.step src i m).1.halted = false) :
    r.progress < (r.step src i m).1.progress + m.toList.length := by
  cases m with
  | none =>
    cases hp : r.phase with
    | finished => exact absurd hp hphase
    | hi => simp [Receiver.step, hhalted, hp] at hstep
    | hello => simp [Receiver.step, hhalted, hp, Receiver.progress, Phase.index]
    | data =>
      by_cases hwin : r.win = 0
      · simp [Receiver.step, hhalted, hp, hwin, Receiver.progress, Phase.index]
      · simp [Receiver.step, hhalted, hp, hwin] at hstep
    | ack =>
      cases hreaches : r.reaches <;> simp [Receiver.step, hhalted, hp, hreaches] at hstep ⊢
      simp [Receiver.progress, hp, Phase.index]
    | ok =>
      cases hend : src.endsIn r.window <;>
        simp [Receiver.step, hhalted, hp, hend, Receiver.progress, Phase.index] <;> omega
  | some m =>
    cases hp : r.phase with
    | finished => exact absurd hp hphase
    | hello | ack | ok => simp [Receiver.awaits, hhalted, hp] at haw
    | hi => simp [Receiver.step, hhalted, hp, Receiver.progress, Phase.index]
    | data => cases m <;> simp [Receiver.step, hhalted, hp, Receiver.progress, Phase.index]

/-- A sender that halts does nothing else in this step. -/
theorem Sender.progress_of_halts {t : Sender} {m : Option Msg} (hhalted : t.halted = false)
    (hstep : (t.step src i m).1.halted = true) : (t.step src i m).1.progress = t.progress := by
  cases hp : t.phase with
  | hello | hi | finished =>
    cases m <;> cases hworks : i.works <;>
      simp_all [Sender.step, Sender.progress, Phase.index]
  | ack =>
    rcases m with - | (_ | _ | _ | _ | _) <;>
      simp_all [Sender.step, Sender.progress, Phase.index]
  | ok =>
    cases m <;> cases hfin : src.complete t.sent <;>
      simp_all [Sender.step, Sender.progress, Phase.index]
  | data =>
    by_cases hwin : t.win = 0
    · simp [Sender.step, hhalted, hp, hwin] at hstep
    cases hstop : src.exhausted t.sent || !t.reaches || !i.works with
    | true =>
      simp only [Sender.step, hhalted, hp, hwin, hstop, Bool.false_eq_true, if_false, if_true]
      rw [Sender.progress, Sender.progress, hp]
    | false => simp [Sender.step, hhalted, hp, hwin, hstop] at hstep

/-- A receiver that halts does nothing else in this step. -/
theorem Receiver.progress_of_halts {r : Receiver} {m : Option Msg} (hhalted : r.halted = false)
    (hstep : (r.step src i m).1.halted = true) : (r.step src i m).1.progress = r.progress := by
  cases hp : r.phase with
  | hello | hi | ok | finished =>
    cases m <;> simp_all [Receiver.step, Receiver.progress, Phase.index]
  | ack =>
    cases hreaches : r.reaches <;> simp [Receiver.step, hhalted, hp, hreaches] at hstep ⊢
    rw [Receiver.progress, Receiver.progress, hp]
  | data =>
    by_cases hwin : r.win = 0 <;> rcases m with - | (_ | _ | _ | _ | _) <;>
      simp_all [Receiver.step, Receiver.progress, Phase.index]

/-- A step of a sender counts, or halts it. -/
theorem Sender.steps_step {t : Sender} {m : Option Msg} (hhalted : t.halted = false)
    (hphase : t.phase ≠ .finished) (haw : m.isSome → t.awaits) (hexp : ∀ m' ∈ m, t.Expects m') :
    t.progress < (t.step src i m).1.progress + (t.step src i m).1.halted.toNat := by
  cases hstep : (t.step src i m).1.halted with
  | false =>
    rw [Sender.progress_step hhalted hphase haw hexp hstep]
    exact Nat.lt_succ_self _
  | true =>
    rw [Sender.progress_of_halts hhalted hstep]
    exact Nat.lt_succ_self _

/-- A step of a receiver counts, takes a message, or halts it. -/
theorem Receiver.steps_step {r : Receiver} {m : Option Msg} (hhalted : r.halted = false)
    (hphase : r.phase ≠ .finished) (haw : m.isSome → r.awaits) :
    r.progress < (r.step src i m).1.progress + m.toList.length +
      (r.step src i m).1.halted.toNat := by
  cases hstep : (r.step src i m).1.halted with
  | false => exact Receiver.progress_step hhalted hphase haw hstep
  | true =>
    rw [Receiver.progress_of_halts hhalted hstep, Bool.toNat_true]
    omega

/-- A sender that awaits a message goes on. -/
theorem Sender.goes_of_awaits {t : Sender} (h : t.awaits = true) :
    t.halted = false ∧ t.phase ≠ .finished := by
  rw [Sender.awaits, Bool.and_eq_true, Bool.not_eq_true'] at h
  refine ⟨h.1, fun hp => ?_⟩
  simp [hp] at h

/-- A receiver that awaits a message goes on. -/
theorem Receiver.goes_of_awaits {r : Receiver} (h : r.awaits = true) :
    r.halted = false ∧ r.phase ≠ .finished := by
  rw [Receiver.awaits, Bool.and_eq_true, Bool.not_eq_true'] at h
  refine ⟨h.1, fun hp => ?_⟩
  simp [hp] at h

/-- A sender that can reach its peer, that gets the messages it awaits, and whose system calls
    work, only halts when it has run out of chunks. -/
theorem Sender.halted_step {t : Sender} {m : Option Msg} (hhalted : t.halted = false)
    (haw : t.awaits → m.isSome) (hworks : i.works = true)
    (hreaches : t.phase = .data → t.reaches = true) (hstep : (t.step src i m).1.halted = true) :
    t.phase = .data ∧ t.win ≠ 0 ∧ src.exhausted t.sent = true ∧
      (t.step src i m).1 = { t with halted := true } := by
  cases hp : t.phase with
  | hi | finished => cases m <;> simp [Sender.step, hhalted, hp, hworks] at hstep
  | hello | ack | ok =>
    obtain ⟨m, rfl⟩ := Option.isSome_iff_exists.1 (haw (by simp [Sender.awaits, hhalted, hp]))
    cases m <;> cases hfin : src.complete t.sent <;>
      simp [Sender.step, hhalted, hp, hworks, hfin] at hstep
  | data =>
    by_cases hwin : t.win = 0
    · simp [Sender.step, hhalted, hp, hwin] at hstep
    cases hex : src.exhausted t.sent with
    | true => exact ⟨rfl, hwin, rfl, by simp [Sender.step, hhalted, hp, hwin, hex]⟩
    | false => simp [Sender.step, hhalted, hp, hwin, hex, hreaches hp, hworks] at hstep

/-- A receiver that gets the messages it awaits only halts at the end of the handshake. -/
theorem Receiver.not_halted_step {r : Receiver} {m : Option Msg} (hhalted : r.halted = false)
    (haw : r.awaits → m.isSome) (hack : r.phase = .ack → r.reaches = true) :
    (r.step src i m).1.halted = false := by
  cases hp : r.phase with
  | hello | ok | finished => cases m <;> simp [Receiver.step, hhalted, hp]
  | ack => simp [Receiver.step, hhalted, hp, hack hp]
  | hi =>
    obtain ⟨m, rfl⟩ := Option.isSome_iff_exists.1 (haw (by simp [Receiver.awaits, hhalted, hp]))
    simp [Receiver.step, hhalted, hp]
  | data =>
    by_cases hwin : r.win = 0
    · rcases m with - | (_ | _ | _ | _ | _) <;> simp [Receiver.step, hhalted, hp, hwin]
    · have hsome := haw (by simp [Receiver.awaits, hhalted, hp, hwin])
      obtain ⟨m, rfl⟩ := Option.isSome_iff_exists.1 hsome
      cases m <;> simp [Receiver.step, hhalted, hp]

end Steps

/-! ## The invariant -/

/-- What holds in a transfer in which no message is lost: what the sender has taken, how far
    it is in its window, and that the receiver ends a window with the last chunk. -/
structure Live (src : Source) (s : Net) : Prop where
  /-- The sender has taken the messages of the handshake, and one for each window that it ended. -/
  taken : s.tx.halted = false → s.toTx.delivered.length = s.tx.phase.opened + s.tx.acked
  /-- Until its addresses come, nothing has come to the receiver. -/
  received : s.rx.phase = .hello ∨ s.rx.phase = .hi → s.toRx.delivered = []
  /-- In the transfer, only whole windows were acknowledged, without the last chunk. -/
  base : s.tx.phase = .data ∨ s.tx.phase = .ok →
    s.tx.base = 5 * s.tx.acked ∧ src.complete s.tx.base = false
  /-- The window of the sender is of five chunks, sent or still to send, or closed with the last
      one. -/
  window : s.tx.phase = .data ∨ s.tx.phase = .ok →
    s.tx.sent + s.tx.win = s.tx.base + 5 ∨ src.complete s.tx.sent ∧ s.tx.win = 0
  /-- It waits for the acknowledgement when its window is closed. -/
  closed : s.tx.phase = .ok → s.tx.win = 0
  /-- The last chunk closes the window of the receiver. -/
  ending : s.rx.phase = .data → src.endsIn s.rx.window → s.rx.win = 0
  /-- What is stored is of a window that was counted. -/
  stored : ∀ k ∈ s.rx.stored, k < 5 * s.rx.windows

namespace Live

variable {src : Source} {s s' : Net}

/-- At the start nothing was taken. -/
theorem start : Live src .start := by
  constructor <;> simp [Net.start, Phase.opened]

/-- The sender takes a message. -/
theorem length_delivered {c c' : Channel Msg} {dl : Delivery} {m : Msg}
    (hc : c.deliver dl = some (m, c')) : c'.delivered.length = c.delivered.length + 1 := by
  rw [(Channel.deliver_eq hc).2.2, List.length_append, List.length_singleton]

/-- The chunks of a window are those of a window of the sender. -/
theorem lt_of_mem_window (hb : Basic src s) (hw : Windows src s) (hrx : s.rx.phase = .ok) {k : ℕ}
    (hk : k ∈ s.rx.window) : k < 5 * (s.rx.windows + 1) := by
  obtain ⟨htx, -⟩ := hb.transfer_of_rx (by rw [hrx]; rfl) (by simp [hrx])
  obtain ⟨hsent, hacked⟩ := hw.sender htx
  have := (hw.window k hk).2
  omega

/-- A window is stored. -/
theorem stored_append (h : Live src s) (hb : Basic src s) (hw : Windows src s)
    (hrx : s.rx.phase = .ok) :
    ∀ k ∈ s.rx.stored ++ s.rx.window.sort, k < 5 * (s.rx.windows + 1) := by
  refine List.forall_mem_append.2 ⟨fun k hk => (h.stored k hk).trans (by omega), fun k hk => ?_⟩
  exact lt_of_mem_window hb hw hrx ((Finset.mem_sort _).1 hk)

/-- Every transition of a network that loses nothing keeps this. -/
theorem trans (h : Live src s) (hb : Basic src s) (hw : Windows src s)
    (ht : Trans src Network.Lossless s s') : Live src s' := by
  cases ht with
  | idle => exact h
  | haltTx => exact { h with taken := by simp }
  | haltRx => exact { h with }
  | missHello => exact { h with taken := by simp }
  | loseTx i hmay | loseRx i hmay => exact hmay.elim
  | sendHello hrx =>
    exact { h with received := fun _ => h.received (.inl hrx), ending := by simp }
  | receiveHello htx dl hmay m c hc =>
    refine { h with
      taken := fun hhalted => ?_
      base := by simp
      window := by simp
      closed := by simp }
    have := h.taken hhalted
    rw [htx] at this
    simp only [length_delivered hc, this, Phase.opened]
    omega
  | sendHi htx =>
    refine { h with
      taken := fun hhalted => ?_
      base := by simp
      window := by simp
      closed := by simp }
    have := h.taken hhalted
    rwa [htx] at this
  | receiveHi => exact { h with received := by simp, ending := by simp }
  | sendAck hrx =>
    have hwindow : s.rx.window = ∅ := by
      refine (hb.early ?_).2.2
      by_contra hlate
      have := (hb.stage.of_tx (Bool.of_not_eq_true hlate)).1
      simp [hrx, Phase.early] at this
    refine { h with received := by simp, ending := fun _ hend => ?_ }
    simp [hwindow, Source.endsIn] at hend
  | receiveAck htx dl hmay win c hc reaches =>
    obtain ⟨i, rfl, -⟩ := hmay
    have hearly : s.tx.phase.early := by rw [htx]; rfl
    obtain ⟨hacked, hbase⟩ := hw.early hearly
    have hsent := (hb.early hearly).1
    obtain rfl : win = 5 := by simpa using (hb.ack_of_deliver htx hc).1
    refine { h with
      taken := fun hhalted => ?_
      base := fun _ => ?_
      window := fun _ => .inl (by simp [hsent, hbase])
      closed := by simp }
    · have := h.taken hhalted
      rw [htx] at this
      simp only [length_delivered hc, this, Phase.opened]
      omega
    · simp [hacked, hbase, Source.complete]
  | strayTx htx dl hmay m c hc hm =>
    obtain ⟨i, rfl, -⟩ := hmay
    exact absurd (hb.ack_of_deliver htx hc).1 (hm 5)
  | closeTx htx hwin =>
    refine { h with
      taken := fun hhalted => ?_
      base := fun _ => h.base (.inl htx)
      window := fun _ => h.window (.inl htx)
      closed := fun _ => hwin }
    have := h.taken hhalted
    rwa [htx] at this
  | sendData htx hwin =>
    refine { h with window := fun _ => ?_, closed := by simp [htx] }
    have hwindow := (h.window (.inl htx)).resolve_right fun hend => hwin hend.2
    cases hlast : src.last s.tx.sent with
    | true => exact .inr ⟨hlast, rfl⟩
    | false =>
      left
      show s.tx.sent + 1 + (s.tx.win - 1) = s.tx.base + 5
      omega
  | receiveOk htx dl hmay m c hc hfin =>
    obtain ⟨hbase, -⟩ := h.base (.inr htx)
    have hwindow := (h.window (.inr htx)).resolve_right fun hend => by simp [hfin] at hend
    have hwin := h.closed htx
    refine { h with
      taken := fun hhalted => ?_
      base := fun _ => ⟨?_, hfin⟩
      window := fun _ => .inl rfl
      closed := by simp }
    · have := h.taken hhalted
      rw [htx] at this
      simp only [length_delivered hc, this, Phase.opened]
      omega
    · show s.tx.sent = 5 * (s.tx.acked + 1)
      omega
  | receiveLastOk htx dl hmay m c hc hfin =>
    refine { h with
      taken := fun hhalted => ?_
      base := by simp
      window := by simp
      closed := by simp }
    have := h.taken hhalted
    rw [htx] at this
    simp only [length_delivered hc, this, Phase.opened]
    omega
  | closeRx => exact { h with received := by simp, ending := by simp }
  | receiveData hrx =>
    exact { h with received := by simp [hrx], ending := fun _ hend => if_pos hend }
  | strayRx hrx => exact { h with received := by simp [hrx] }
  | store hrx =>
    refine { h with
      received := by simp
      ending := fun _ hend => ?_
      stored := h.stored_append hb hw hrx }
    simp [Source.endsIn] at hend
  | storeLast hrx =>
    exact { h with received := by simp, ending := by simp, stored := h.stored_append hb hw hrx }

/-- When the sender has finished, so has the receiver. -/
theorem finished_rx (hw : Windows src s) (htx : s.tx.phase = .finished) :
    s.rx.phase = .finished := by
  obtain ⟨hbase, hcomplete⟩ := hw.finished htx
  have hacked := hw.acked_le
  have hle := hw.base.1
  by_contra hrx
  obtain ⟨hstored, hnone⟩ := hw.stored hrx
  cases hsent : s.tx.sent with
  | zero => simp [hsent, Source.complete] at hcomplete
  | succ k =>
    have hlast : src.last k = true := by rwa [hsent] at hcomplete
    have := hnone k (by rw [hstored, List.mem_range]; omega)
    simp [hlast] at this

/-- The last chunk is not in the windows that were acknowledged, as long as the transfer goes
    on. -/
theorem base_le_of_last (h : Live src s) (hb : Basic src s) (hw : Windows src s)
    (htx : s.tx.phase = .data ∨ s.tx.phase = .ok) {k : ℕ} (hk : k < s.tx.sent)
    (hlast : src.last k) : s.tx.base ≤ k := by
  by_contra hlt
  have hsent := hb.last k hk hlast
  have hle := hw.base.2
  have hbase : s.tx.base = k + 1 := by omega
  have := (h.base htx).2
  rw [hbase] at this
  simp [Source.complete, hlast] at this

/-- A receiver that waits in the transfer while nothing is under way has not got all that the
    sender has sent in this window. -/
theorem false_of_waits (h : Live src s) (hb : Basic src s) (hw : Windows src s)
    (hRx : s.toRx.Whole) (htx : s.tx.phase = .ok) (hrx : s.rx.phase = .data)
    (hacked : s.rx.windows = s.tx.acked) (hwin : s.rx.win ≠ 0) (hflight : s.toRx.flight = []) :
    False := by
  obtain ⟨hbase, -⟩ := h.base (.inr htx)
  have hend : src.endsIn s.rx.window = false :=
    Bool.eq_false_iff.2 fun hend => hwin (h.ending hrx hend)
  -- What was sent after the windows that were acknowledged is in the window.
  have hmem {k : ℕ} (hk : k < s.tx.sent) (hge : s.tx.base ≤ k) : k ∈ s.rx.window := by
    refine ((hw.delivered k).1 (hRx.mem_delivered hflight (hb.data_mem_sent hk))).resolve_left ?_
    intro hstored
    have := h.stored k hstored
    omega
  rcases h.window (.inr htx) with hfull | ⟨hcomplete, -⟩
  · have hsub : Finset.Ico s.tx.base (s.tx.base + 5) ⊆ s.rx.window := fun k hk => by
      rw [Finset.mem_Ico] at hk
      exact hmem (by have := h.closed htx; omega) hk.1
    have hcard := Finset.card_le_card hsub
    rw [Nat.card_Ico] at hcard
    have := hw.card (.inl hrx) hend
    omega
  · cases hsent : s.tx.sent with
    | zero => simp [hsent, Source.complete] at hcomplete
    | succ k =>
      have hlast : src.last k = true := by rwa [hsent] at hcomplete
      have hk : k < s.tx.sent := by omega
      have := Source.endsIn_eq_false.1 hend k
        (hmem hk (h.base_le_of_last hb hw (.inr htx) hk hlast))
      simp [hlast] at this

/-- As long as not both parties have finished, one of them can take a step, if all messages
    of the receiver were sent. -/
theorem goes (h : Live src s) (hb : Basic src s) (hw : Windows src s) (hTx : s.toTx.Whole)
    (hRx : s.toRx.Whole) (hsent : s.toTx.sent.length = s.rx.phase.opened + s.rx.windows)
    (htx : s.tx.halted = false) (hrx : s.rx.halted = false) :
    (s.tx.phase = .finished ∧ s.rx.phase = .finished) ∨ s.tx.Goes s.toTx ∨ s.rx.Goes s.toRx := by
  have htaken := h.taken htx
  have hlen := hTx.length_eq
  by_contra hnot
  simp only [Sender.Goes, Receiver.Goes, not_or, not_and, htx, hrx, forall_const] at hnot
  obtain ⟨hboth, hnoTx, hnoRx⟩ := hnot
  -- Otherwise both parties wait, and nothing is under way to either.
  have hwaits : s.rx.phase ≠ .finished → s.rx.awaits = true ∧ s.toRx.flight = [] := fun hne => by
    simpa using hnoRx hne
  have htxne : s.tx.phase ≠ .finished := fun hfin => hboth hfin (finished_rx hw hfin)
  obtain ⟨haw, hflight⟩ : s.tx.awaits = true ∧ s.toTx.flight = [] := by simpa using hnoTx htxne
  rw [hflight, List.length_nil] at hlen
  cases hp : s.tx.phase with
  | hi | data | finished => simp [Sender.awaits, hp] at haw
  | hello =>
    -- The receiver has not sent its hello.
    have hacked := (hw.early (by rw [hp]; rfl)).1
    have hrxp : s.rx.phase = .hello := by
      rw [htaken, hp, hacked] at hlen
      cases hr : s.rx.phase with
      | hello => rfl
      | hi | ack | data | ok | finished => simp [hr, Phase.opened] at hsent hlen; omega
    have := (hwaits (by simp [hrxp])).1
    simp [Receiver.awaits, hrxp] at this
  | ack =>
    have hearly : s.tx.phase.early := by rw [hp]; rfl
    have hacked := (hw.early hearly).1
    rw [htaken, hp, hacked] at hlen
    cases hr : s.rx.phase with
    | hello | ack | ok => have := (hwaits (by simp [hr])).1; simp [Receiver.awaits, hr] at this
    | data | finished => simp [hr, Phase.opened] at hsent hlen; omega
    | hi =>
      -- The hi of the sender is under way.
      have hmem : Msg.hi ∈ s.toRx.sent := by
        rw [hb.sent, Sender.output, hp]
        exact List.mem_cons_self
      have := hRx.mem_delivered (hwaits (by simp [hr])).2 hmem
      simp [h.received (.inr hr)] at this
  | ok =>
    obtain ⟨hlate, -⟩ := hb.stage.of_tx (by rw [hp]; rfl)
    have hacked : s.rx.windows = s.tx.acked := by
      rw [htaken, hp] at hlen
      cases hr : s.rx.phase <;> simp [hr, Phase.opened, Phase.early] at hsent hlen hlate <;> omega
    cases hr : s.rx.phase with
    | hello | hi | ack => simp [hr, Phase.early] at hlate
    | ok => have := (hwaits (by simp [hr])).1; simp [Receiver.awaits, hr] at this
    | data =>
      obtain ⟨hawr, hempty⟩ := hwaits (by simp [hr])
      have hwin : s.rx.win ≠ 0 := by simpa [Receiver.awaits, hrx, hr] using hawr
      exact h.false_of_waits hb hw hRx hp hr hacked hwin hempty
    | finished =>
      -- The window with the last chunk was stored, and not acknowledged.
      obtain ⟨-, k, hk, hlast⟩ := hw.ending hr
      have hle := h.base_le_of_last hb hw (.inr hp) (hw.bound k hk) hlast
      have hlt := h.stored k hk
      have := (h.base (.inr hp)).1
      omega

end Live

/-! ## Runs -/

section Reached

variable {src : Source} {may : Net → Event → Prop} {s : Net} {i : Input}

/-- No more chunks are sent than there are. -/
theorem Net.Reached.sent_le (h : Net.Reached src may s) {n : ℕ} (hn : src.exhausted n) :
    s.tx.sent ≤ n := by
  refine h.local_tx (P := fun t _ _ => t.sent ≤ n) (Nat.zero_le n) ?_
  intro i m t _ _ _ hle _
  show (t.step src i m).1.sent ≤ n
  cases hh : t.halted with
  | true => simpa [Sender.step, hh] using hle
  | false =>
    cases hp : t.phase with
    | hello | finished => cases m <;> simpa [Sender.step, hh, hp] using hle
    | hi => cases hworks : i.works <;> simpa [Sender.step, hh, hp, hworks] using hle
    | ack => rcases m with - | (_ | _ | _ | _ | _) <;> simpa [Sender.step, hh, hp] using hle
    | ok =>
      cases m <;> cases hfin : src.complete t.sent <;>
        simpa [Sender.step, hh, hp, hfin] using hle
    | data =>
      by_cases hwin : t.win = 0
      · simpa [Sender.step, hh, hp, hwin] using hle
      cases hstop : src.exhausted t.sent || !t.reaches || !i.works with
      | true => simpa [Sender.step, hh, hp, hwin, hstop] using hle
      | false =>
        -- It is not the last one that there is.
        have hne : t.sent ≠ n := by
          rintro rfl
          simp [hn] at hstop
        have hstep : (t.step src i m).1.sent = t.sent + 1 := by
          simp only [Sender.step, hh, hp, hwin, hstop, Bool.false_eq_true, if_false]
        omega

/-- Whatever is lost, there are no more steps than the chunks need. -/
theorem Net.Reached.progress_le (h : Net.Reached src Network.Unordered s) {n : ℕ}
    (hn : s.tx.sent ≤ n) : s.progress ≤ 6 * n + 9 := by
  have hw := h.windows
  have hb := h.basic fun _ _ => Network.Unordered.arbitrary
  have hwindows : s.rx.windows ≤ s.tx.sent := by
    have := hw.begun
    omega
  have hacked := hw.acked_le
  have hdelivered : s.toRx.delivered.length ≤ s.tx.sent + 1 := by
    -- Each chunk is delivered once at most.
    have honce := (h.once .start .start).2.length_le
    rw [hb.sent] at honce
    have houtput : s.tx.output.length ≤ s.tx.sent + 1 := by
      rw [Sender.output]
      split <;> simp
    omega
  have hindex (phase : Phase) : phase.index ≤ 4 := by cases phase <;> simp [Phase.index]
  have htx := hindex s.tx.phase
  have hrx := hindex s.rx.phase
  simp only [Net.progress, Sender.progress, Receiver.progress]
  omega

/-- Every step of the sender counts. -/
theorem Basic.steps_tx (hb : Basic src s) {k : ℕ} (hk : k = 0 ∨ k < s.toTx.flight.length)
    (hgoes : s.tx.Goes s.toTx) : s.steps < (s.next src i (.tx (.flight k))).steps := by
  obtain ⟨hnot, hphase, hflight⟩ := hgoes
  have hmay : Network.Arbitrary CopiesData s (.tx (.flight k)) := ⟨k, rfl⟩
  have hexp := (hb.expected hmay).tx (.flight k) rfl
  simp only [Net.next, Network.step]
  rcases Machine.move_of_flight (M := sender src) (i := i) hk hflight with
    ⟨-, hm⟩ | ⟨m, c, haw, hc, hm⟩
  · have := @Sender.steps_step src i s.tx none hnot hphase (by simp) (by simp)
    rw [hm]
    simp only [Net.steps, Net.progress, sender, hnot, Channel.send_delivered, Bool.toNat_false]
      at this ⊢
    omega
  · have := @Sender.steps_step src i s.tx (some m) hnot hphase (fun _ => haw)
      (by simpa using hexp haw m c hc)
    rw [hm]
    simp only [Net.steps, Net.progress, sender, hnot, Channel.send_delivered, Bool.toNat_false]
      at this ⊢
    omega

/-- Every step of the receiver counts. -/
theorem Net.steps_rx {k : ℕ} (hk : k = 0 ∨ k < s.toRx.flight.length)
    (hgoes : s.rx.Goes s.toRx) : s.steps < (s.next src i (.rx (.flight k))).steps := by
  obtain ⟨hnot, hphase, hflight⟩ := hgoes
  simp only [Net.next, Network.step]
  rcases Machine.move_of_flight (M := receiver src) (i := i) hk hflight with
    ⟨-, hm⟩ | ⟨m, c, haw, hc, hm⟩
  · have := @Receiver.steps_step src i s.rx none hnot hphase (by simp)
    rw [hm]
    simp only [Net.steps, Net.progress, receiver, hnot, Option.toList_none, List.length_nil,
      Bool.toNat_false] at this ⊢
    omega
  · have := @Receiver.steps_step src i s.rx (some m) hnot hphase fun _ => haw
    have hlen := Live.length_delivered hc
    rw [hm]
    simp only [Net.steps, Net.progress, receiver, hnot, Option.toList_some, List.length_singleton,
      Bool.toNat_false] at this ⊢
    omega

/-- A failing call of the sender counts: it halts. -/
theorem Net.steps_failTx (haw : s.tx.awaits = true) : s.steps < (s.next src i .failTx).steps := by
  obtain ⟨hnot, hphase⟩ := Sender.goes_of_awaits haw
  have hm : (sender src).fail i s.tx = s.tx.step src i none := if_pos haw
  have := @Sender.steps_step src i s.tx none hnot hphase (by simp) (by simp)
  simp only [Net.next, Network.step, hm, Net.steps, Net.progress, hnot, Channel.send_delivered,
    Bool.toNat_false] at this ⊢
  omega

/-- A failing call of the receiver counts: it halts. -/
theorem Net.steps_failRx (haw : s.rx.awaits = true) : s.steps < (s.next src i .failRx).steps := by
  obtain ⟨hnot, hphase⟩ := Receiver.goes_of_awaits haw
  have hm : (receiver src).fail i s.rx = s.rx.step src i none := if_pos haw
  have := @Receiver.steps_step src i s.rx none hnot hphase (by simp)
  simp only [Net.next, Network.step, hm, Net.steps, Net.progress, hnot, Option.toList_none,
    List.length_nil, Bool.toNat_false] at this ⊢
  omega

end Reached

/-- The networks reached from the start if nothing is lost and the system calls work. -/
abbrev Net.Working (src : Source) : Net → Prop :=
  Network.Reachable (sender src) (receiver src) (fun i => i.works = true) Network.Lossless Net.start

namespace Net.Working

variable {src : Source} {s : Net} {i : Input} {e : Event}

/-- Such a network is one that loses nothing. -/
theorem reached (h : Net.Working src s) : Net.Reached src Network.Lossless s :=
  h.mono_ok fun _ _ => trivial

/-- So the parties are related as in any network, -/
theorem basic (h : Net.Working src s) : Basic src s :=
  h.reached.basic fun _ _ he => he.unordered.arbitrary

/-- the windows are those of an unordered transfer, -/
theorem windows (h : Net.Working src s) : Windows src s :=
  Net.Reached.windows (h.reached.mono fun _ _ => Network.Lossless.unordered)

/-- and what is sent is taken. -/
theorem live (h : Net.Working src s) : Live src s :=
  h.reached.invariant .start fun _ _ _ hs hl _ hmay =>
    hl.trans (Net.Reached.basic (fun _ _ he => he.unordered.arbitrary) hs)
      (Net.Reached.windows (hs.mono fun _ _ => Network.Lossless.unordered)) (trans_next _ hmay)

/-- The receiver has sent all its messages. -/
theorem length_sent (h : Net.Working src s) :
    s.toTx.sent.length = s.rx.phase.opened + s.rx.windows := by
  refine h.local_rx (P := fun r _ es => es.length = r.phase.opened + r.windows) rfl ?_
  intro i m r ds es hworks hr _
  show (es ++ (r.step src i m).2).length = _
  rw [List.length_append, hr]
  show _ = (r.step src i m).1.phase.opened + (r.step src i m).1.windows
  cases hh : r.halted with
  | true => simp [Receiver.step, hh]
  | false =>
    cases hp : r.phase with
    | hello => simp [Receiver.step, hh, hp, hworks, Phase.opened]; omega
    | hi => cases m <;> simp [Receiver.step, hh, hp, Phase.opened]
    | ack =>
      cases hreaches : r.reaches <;> simp [Receiver.step, hh, hp, hreaches, hworks, Phase.opened]
      omega
    | data =>
      by_cases hwin : r.win = 0 <;> rcases m with - | (_ | _ | _ | _ | _) <;>
        simp [Receiver.step, hh, hp, hwin, Phase.opened]
    | ok =>
      cases hend : src.endsIn r.window <;>
        simp [Receiver.step, hh, hp, hend, hworks, Phase.opened] <;> omega
    | finished => simp [Receiver.step, hh, hp, Phase.opened]

/-- As long as not both parties have finished, one of them can take a step. -/
theorem goes (h : Net.Working src s) (htx : s.tx.halted = false) (hrx : s.rx.halted = false) :
    (s.tx.phase = .finished ∧ s.rx.phase = .finished) ∨ s.tx.Goes s.toTx ∨ s.rx.Goes s.toRx := by
  obtain ⟨hTx, hRx⟩ := h.whole .start .start
  exact h.live.goes h.basic h.windows hTx hRx h.length_sent htx hrx

/-- There are no more steps than the chunks need. -/
theorem progress_le (h : Net.Working src s) {n : ℕ} (hn : src.exhausted n) :
    s.progress ≤ 6 * n + 9 :=
  Net.Reached.progress_le (h.reached.mono fun _ _ => Network.Lossless.unordered)
    (h.reached.sent_le hn)

/-- The sender does not run out of chunks before it has sent the last one. -/
theorem not_exhausted (h : Net.Working src s) {n : ℕ} (hn : src.Ends n)
    (htx : s.tx.phase = .data) (hwin : s.tx.win ≠ 0) : src.exhausted s.tx.sent = false := by
  refine hn.exhausted _ ?_
  by_contra hlt
  have hlast := (hn.last n).2 rfl
  have hsent := h.basic.last n (by omega) hlast
  exact hwin (h.basic.closed (by rw [hsent]; exact hlast) htx)

/-- When the sender has run out of chunks, the receiver waits for the rest of a window, and
    has stored the windows before. -/
theorem stored_of_stuck (h : Net.Working src s) (htx : s.tx.phase = .data)
    (hrx : s.rx.halted = false) (hgoes : ¬s.rx.Goes s.toRx) :
    s.rx.phase = .finished ∨ s.rx.awaits = true ∧ s.toRx.flight = [] ∧
      s.rx.stored = List.range (5 * (s.tx.sent / 5)) := by
  have hw := h.windows
  have hb := h.basic
  have hl := h.live
  have hRx := (h.whole .start .start).2
  by_cases hfin : s.rx.phase = .finished
  · exact .inl hfin
  right
  obtain ⟨haw, hflight⟩ : s.rx.awaits = true ∧ s.toRx.flight = [] := by
    by_contra hnot
    exact hgoes ⟨hrx, hfin, fun haw hflight => hnot ⟨haw, hflight⟩⟩
  obtain ⟨hlate, -⟩ := hb.stage.of_tx (by rw [htx]; rfl)
  have hdata : s.rx.phase = .data := by
    cases hr : s.rx.phase with
    | data => rfl
    | hello | hi | ack => simp [hr, Phase.early] at hlate
    | ok | finished => simp [Receiver.awaits, hr] at haw
  have hwin : s.rx.win ≠ 0 := by simpa [Receiver.awaits, hrx, hdata] using haw
  have hend : src.endsIn s.rx.window = false :=
    Bool.eq_false_iff.2 fun hend => hwin (hl.ending hdata hend)
  -- The rest of the window that the receiver waits for will not be sent.
  have hcard := hw.card (.inl hdata) hend
  obtain ⟨hstored, -⟩ := hw.stored hfin
  -- The window holds what was sent after the windows before.
  have hwindow : s.rx.window = Finset.Ico (5 * s.rx.windows) s.tx.sent := by
    ext k
    rw [Finset.mem_Ico]
    refine ⟨hw.window k, fun hmem => ?_⟩
    obtain ⟨hge, hlt⟩ := hmem
    refine ((hw.delivered k).1 (hRx.mem_delivered hflight (hb.data_mem_sent hlt))).resolve_left ?_
    intro hmem
    rw [hstored, List.mem_range] at hmem
    omega
  have hle := hw.windows_le hfin
  rw [hwindow, Nat.card_Ico] at hcard
  have hwindows : s.rx.windows = s.tx.sent / 5 := by omega
  rw [hstored, hwindows]
  exact ⟨haw, hflight, rfl⟩

/-- A step of the sender counts, unless it halts. -/
theorem progress_tx (h : Net.Working src s) {dl : Delivery} (he : Network.Lossless s (.tx dl))
    (hgoes : s.tx.Goes s.toTx) (hhalted : (s.next src i (.tx dl)).tx.halted = false) :
    s.progress < (s.next src i (.tx dl)).progress := by
  obtain ⟨k, rfl, hk⟩ := he
  have hlt := @Basic.steps_tx src s i h.basic k hk hgoes
  have hrx : (s.next src i (.tx (.flight k))).rx = s.rx := rfl
  rw [Net.steps, Net.steps, hgoes.1, hhalted, hrx] at hlt
  omega

/-- A step of the receiver counts, unless it halts. -/
theorem progress_rx {dl : Delivery} (he : Network.Lossless s (.rx dl))
    (hgoes : s.rx.Goes s.toRx) (hhalted : (s.next src i (.rx dl)).rx.halted = false) :
    s.progress < (s.next src i (.rx dl)).progress := by
  obtain ⟨k, rfl, hk⟩ := he
  have hlt := @Net.steps_rx src s i k hk hgoes
  have htx : (s.next src i (.rx (.flight k))).tx = s.tx := rfl
  rw [Net.steps, Net.steps, hgoes.1, hhalted, htx] at hlt
  omega

end Net.Working

end Udm.Protocol
