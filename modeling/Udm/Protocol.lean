import Udm.Library.Network

/-!
# The protocol

What a sender and a receiver are for, without their bytes: a sender announces
itself and sends the chunks of its source in windows, a receiver collects the
chunks of a window, stores them and acknowledges the window. The messages are
what the datagrams stand for, and a party only remembers which chunks it sent,
holds or has stored.

The messages, in the order in which an exchange without losses has them:

* the receiver sends `hello`, the sender answers with its addresses, `hi`, and the
  receiver acknowledges them with `ack` and the size of its window;
* the sender sends the chunks of a window as `data`, and closes the window early after
  the last chunk of its source;
* the receiver stores the window and answers `ok`; the next window is always of five.

The parties and what is said of them here:

* `Sender.step`, `Receiver.step`: the two machines, each with the message that comes
  next, if there is one;
* `Trans`: what an event does to a network of a sender and a receiver, in one
  relation;
* `Basic`: how far the parties are of each other, what is under way, and that the
  messages are those the parties expect (`Basic.expected`), whatever the network
  does.

Neither machine checks what it takes for an acknowledgement of a window, and the
receiver stores the last window when its last chunk is there, whatever is missing of the
others: what follows from this for the sink is said where the exchange is related to the
protocol.
-/

namespace Udm.Protocol

/-! ## Messages and parties -/

/-- What a datagram stands for. -/
inductive Msg
  | hello
  | hi
  | ack (win : ℕ)
  | data (k : ℕ)
  | ok
  deriving DecidableEq

/-- How far a party is: by the kind of message that comes next. -/
inductive Phase
  | hello
  | hi
  | ack
  | data
  | ok
  | finished
  deriving DecidableEq

/-- The handshake is not over. -/
def Phase.early : Phase → Bool
  | hello | hi | ack => true
  | data | ok | finished => false

/-- What a sender sends: which chunk is the last one, and after how many chunks
    there is nothing left to send. -/
structure Source where
  /-- Whether the chunk is the last one, as its flag says. -/
  last : ℕ → Bool
  /-- Whether there is nothing left to send after so many chunks. A source may be exhausted
      without having had a last chunk. -/
  exhausted : ℕ → Bool

namespace Source

variable (src : Source)

/-- The last chunk is among the first `n`, at their end. -/
def complete : ℕ → Bool
  | 0 => false
  | k + 1 => src.last k

/-- The last chunk is among those of the window. -/
def endsIn (window : Finset ℕ) : Bool := decide (∃ k ∈ window, src.last k)

end Source

/-- What the surroundings of a party decide in a step: whether the addresses of the
    peer, if it receives them, are of use, and whether the system calls succeed. -/
structure Input where
  reaches : Bool := true
  works : Bool := true
  deriving Inhabited

/-- A sender: the number of chunks it has sent, how many it may still send in this
    window, the number of windows that were acknowledged and of the chunks in them,
    and whether it can reach its peer. It halts when it cannot, or when there is
    nothing left to send. -/
structure Sender where
  phase : Phase := .hello
  sent : ℕ := 0
  win : ℕ := 0
  acked : ℕ := 0
  base : ℕ := 0
  reaches : Bool := true
  halted : Bool := false

namespace Sender

/-- Whether the next step of the sender takes a message: in the other phases it sends. -/
def awaits (t : Sender) : Bool :=
  !t.halted && match t.phase with
    | .hello | .ack | .ok => true
    | .hi | .data | .finished => false

/-- A step of a sender. Whether it can reach its peer is decided when it is
    acknowledged. Without the message that comes next, it halts. -/
def step (src : Source) (i : Input) (m : Option Msg) (t : Sender) : Sender × List Msg :=
  if t.halted then (t, [])
  else match t.phase, m with
    | .hello, some _ => ({ t with phase := if i.works then .hi else .hello, halted := !i.works }, [])
    | .hi, _ => if i.works then ({ t with phase := .ack }, [.hi]) else ({ t with halted := true }, [])
    | .ack, some (.ack win) => ({ t with phase := .data, win, reaches := i.reaches }, [])
    | .data, _ =>
      if t.win = 0 then ({ t with phase := .ok }, [])
      else if src.exhausted t.sent || !t.reaches || !i.works then ({ t with halted := true }, [])
      else ({ t with sent := t.sent + 1, win := if src.last t.sent then 0 else t.win - 1 },
        [.data t.sent])
    | .ok, some _ =>
      -- Any message is taken as the acknowledgement of the window.
      let t := { t with acked := t.acked + 1, base := t.sent }
      if src.complete t.sent then ({ t with phase := .finished }, [])
      else ({ t with phase := .data, win := 5 }, [])
    | .hello, none | .ack, none | .ok, none => ({ t with halted := true }, [])
    -- Any other message is dropped in the handshake, and the sender waits again.
    | .ack, some _ | .finished, _ => (t, [])

/-- All the messages sent so far. -/
def output (t : Sender) : List Msg :=
  match t.phase with
  | .hello | .hi => []
  | _ => .hi :: (List.range t.sent).map .data

/-- An acknowledgement of the handshake tells a window size. -/
def Expects (t : Sender) (m : Msg) : Prop := t.phase = .ack → ∃ win, m = .ack win

end Sender

/-- A receiver: the chunks it has stored, in order, and those of this window, how
    many messages it still takes in this window, the number of windows it has
    stored, and whether it can reach its peer. It halts when it cannot. -/
structure Receiver where
  phase : Phase := .hello
  stored : List ℕ := []
  window : Finset ℕ := ∅
  win : ℕ := 0
  windows : ℕ := 0
  reaches : Bool := true
  halted : Bool := false

namespace Receiver

/-- Whether the next step of the receiver takes a message: it does until its window is full. -/
def awaits (r : Receiver) : Bool :=
  !r.halted && match r.phase with
    | .hi => true
    | .data => decide (r.win ≠ 0)
    | .hello | .ack | .ok | .finished => false

/-- A step of a receiver. Whether it can reach its peer is decided when it is
    answered. A message that cannot be sent is lost. Without the message that comes
    next, it halts. -/
def step (src : Source) (i : Input) (m : Option Msg) (r : Receiver) : Receiver × List Msg :=
  let send (m : Msg) := if i.works then [m] else []
  if r.halted then (r, [])
  else match r.phase, m with
    | .hello, _ => ({ r with phase := .hi }, send .hello)
    | .hi, some _ => ({ r with phase := .ack, reaches := i.reaches }, [])
    | .hi, none => ({ r with halted := true }, [])
    | .ack, _ =>
      if r.reaches then ({ r with phase := .data, win := 5 }, send (.ack 5))
      else ({ r with halted := true }, [])
    | .data, none =>
      if r.win = 0 then ({ r with phase := .ok }, []) else ({ r with halted := true }, [])
    | .data, some (.data k) =>
      -- The window closes early with the last chunk, also if others are missing.
      let window := insert k r.window
      ({ r with window, win := if src.endsIn window then 0 else r.win - 1 }, [])
    | .ok, _ =>
      let final := src.endsIn r.window
      ({ r with
          phase := if final then .finished else .data
          stored := r.stored ++ r.window.sort
          window := ∅
          win := if final then r.win else 5
          windows := r.windows + 1 }, send .ok)
    -- The window only counts chunks.
    | .data, some _ | .finished, _ => (r, [])

/-- The answer to the hello is a hi, and what comes after the handshake is data. -/
def Expects (r : Receiver) (m : Msg) : Prop :=
  (r.phase = .hi → m = .hi) ∧ (r.phase = .data → ∃ k, m = .data k)

end Receiver

/-- Senders, as parties of a network. -/
def sender (src : Source) : Machine Sender Input Msg := ⟨Sender.awaits, Sender.step src⟩

/-- Receivers, as parties of a network. -/
def receiver (src : Source) : Machine Receiver Input Msg := ⟨Receiver.awaits, Receiver.step src⟩

/-- A network of a sender and a receiver. -/
abbrev Net := Network Sender Receiver Msg

namespace Net

/-- The network at the start. -/
def start : Net := { tx := {}, rx := {} }

/-- The network after an event. -/
abbrev next (src : Source) (i : Input) (e : Event) (s : Net) : Net :=
  s.step (sender src) (receiver src) i e

end Net

/-! ## Transitions -/

section Trans

variable (src : Source) (may : Net → Event → Prop)

/-- What an event that may happen does. -/
inductive Trans (s : Net) : Net → Prop
  /-- A party that has finished or halted does nothing. -/
  | idle : Trans s s
  /-- The sender stops: it waits in vain, a call fails, or there is nothing left to send. -/
  | haltTx : Trans s { s with tx.halted := true }
  | haltRx : Trans s { s with rx.halted := true }
  | loseTx (i : ℕ) (hmay : may s (.loseTx i)) : Trans s { s with toTx := s.toTx.lose i }
  | loseRx (i : ℕ) (hmay : may s (.loseRx i)) : Trans s { s with toRx := s.toRx.lose i }
  | sendHello (hrx : s.rx.phase = .hello) (ms : List Msg) (hms : ms.Sublist [.hello]) :
      Trans s { s with rx.phase := .hi, toTx := s.toTx.send ms }
  /-- The hello comes, and a system call of the sender fails. -/
  | missHello (dl : Delivery) (hmay : may s (.tx dl)) (m : Msg) (c : Channel Msg)
      (hc : s.toTx.deliver dl = some (m, c)) : Trans s { s with tx.halted := true, toTx := c }
  | receiveHello (htx : s.tx.phase = .hello) (dl : Delivery) (hmay : may s (.tx dl)) (m : Msg)
      (c : Channel Msg) (hc : s.toTx.deliver dl = some (m, c)) :
      Trans s { s with tx.phase := .hi, toTx := c }
  | sendHi (htx : s.tx.phase = .hi) : Trans s { s with tx.phase := .ack, toRx := s.toRx.send [.hi] }
  | receiveHi (hrx : s.rx.phase = .hi) (dl : Delivery) (hmay : may s (.rx dl)) (m : Msg)
      (c : Channel Msg) (hc : s.toRx.deliver dl = some (m, c)) (reaches : Bool) :
      Trans s { s with rx.phase := .ack, rx.reaches := reaches, toRx := c }
  | sendAck (hrx : s.rx.phase = .ack) (ms : List Msg) (hms : ms.Sublist [.ack 5]) :
      Trans s { s with rx.phase := .data, rx.win := 5, toTx := s.toTx.send ms }
  | receiveAck (htx : s.tx.phase = .ack) (dl : Delivery) (hmay : may s (.tx dl)) (win : ℕ)
      (c : Channel Msg) (hc : s.toTx.deliver dl = some (.ack win, c)) (reaches : Bool) :
      Trans s { s with tx.phase := .data, tx.win := win, tx.reaches := reaches, toTx := c }
  /-- Something else than the acknowledgement comes in the handshake. -/
  | strayTx (htx : s.tx.phase = .ack) (dl : Delivery) (hmay : may s (.tx dl)) (m : Msg)
      (c : Channel Msg) (hc : s.toTx.deliver dl = some (m, c)) (hm : ∀ win, m ≠ .ack win) :
      Trans s { s with toTx := c }
  /-- The window of the sender is sent, and it waits for the acknowledgement. -/
  | closeTx (htx : s.tx.phase = .data) (hwin : s.tx.win = 0) : Trans s { s with tx.phase := .ok }
  /-- The next chunk is sent; after the last one the window is closed. -/
  | sendData (htx : s.tx.phase = .data) (hwin : s.tx.win ≠ 0) :
      Trans s { s with
        tx.sent := s.tx.sent + 1
        tx.win := if src.last s.tx.sent then 0 else s.tx.win - 1
        toRx := s.toRx.send [.data s.tx.sent] }
  /-- The window is taken as acknowledged, and the next one begins. -/
  | receiveOk (htx : s.tx.phase = .ok) (dl : Delivery) (hmay : may s (.tx dl)) (m : Msg)
      (c : Channel Msg) (hc : s.toTx.deliver dl = some (m, c)) (hfin : src.complete s.tx.sent = false) :
      Trans s { s with
        tx.phase := .data
        tx.win := 5
        tx.acked := s.tx.acked + 1
        tx.base := s.tx.sent
        toTx := c }
  /-- The last window is. -/
  | receiveLastOk (htx : s.tx.phase = .ok) (dl : Delivery) (hmay : may s (.tx dl)) (m : Msg)
      (c : Channel Msg) (hc : s.toTx.deliver dl = some (m, c)) (hfin : src.complete s.tx.sent) :
      Trans s { s with
        tx.phase := .finished
        tx.acked := s.tx.acked + 1
        tx.base := s.tx.sent
        toTx := c }
  /-- The window of the receiver is full, or has the last chunk. -/
  | closeRx (hrx : s.rx.phase = .data) (hwin : s.rx.win = 0) : Trans s { s with rx.phase := .ok }
  /-- A chunk comes, which may be in the window already. -/
  | receiveData (hrx : s.rx.phase = .data) (hwin : s.rx.win ≠ 0) (dl : Delivery)
      (hmay : may s (.rx dl)) (k : ℕ) (c : Channel Msg)
      (hc : s.toRx.deliver dl = some (.data k, c)) :
      Trans s { s with
        rx.window := insert k s.rx.window
        rx.win := if src.endsIn (insert k s.rx.window) then 0 else s.rx.win - 1
        toRx := c }
  | strayRx (hrx : s.rx.phase = .data) (hwin : s.rx.win ≠ 0) (dl : Delivery)
      (hmay : may s (.rx dl)) (m : Msg) (c : Channel Msg) (hc : s.toRx.deliver dl = some (m, c))
      (hm : ∀ k, m ≠ .data k) : Trans s { s with toRx := c }
  /-- The window is stored and acknowledged, if the call succeeds, and the next one begins. -/
  | store (hrx : s.rx.phase = .ok) (hend : src.endsIn s.rx.window = false) (ms : List Msg)
      (hms : ms.Sublist [.ok]) :
      Trans s { s with
        rx.phase := .data
        rx.stored := s.rx.stored ++ s.rx.window.sort
        rx.window := ∅
        rx.win := 5
        rx.windows := s.rx.windows + 1
        toTx := s.toTx.send ms }
  /-- The window with the last chunk is. -/
  | storeLast (hrx : s.rx.phase = .ok) (hend : src.endsIn s.rx.window) (ms : List Msg)
      (hms : ms.Sublist [.ok]) :
      Trans s { s with
        rx.phase := .finished
        rx.stored := s.rx.stored ++ s.rx.window.sort
        rx.window := ∅
        rx.windows := s.rx.windows + 1
        toTx := s.toTx.send ms }

variable {src may} {s : Net}

/-- What a step of a sender that takes no message does. -/
theorem trans_tx_none (i : Input) :
    Trans src may s
      { s with tx := (s.tx.step src i none).1, toRx := s.toRx.send (s.tx.step src i none).2 } := by
  -- Each case of the step is one transition; sending nothing leaves the channel.
  have hstay : Trans src may s { s with tx := s.tx, toRx := s.toRx.send [] } := by
    rw [Channel.send_nil]
    exact .idle
  have hhalt : Trans src may s { s with tx.halted := true, toRx := s.toRx.send [] } := by
    rw [Channel.send_nil]
    exact .haltTx
  cases hh : s.tx.halted with
  | true => simpa only [Sender.step, hh, if_true] using hstay
  | false =>
    cases hp : s.tx.phase with
    | hello | ack | ok =>
      simpa only [Sender.step, hh, hp, Bool.false_eq_true, if_false] using hhalt
    | finished => simpa only [Sender.step, hh, hp, Bool.false_eq_true, if_false] using hstay
    | hi =>
      cases hworks : i.works with
      | true =>
        simpa only [Sender.step, hh, hp, hworks, Bool.false_eq_true, if_false, if_true] using
          Trans.sendHi hp
      | false =>
        simpa only [Sender.step, hh, hp, hworks, Bool.false_eq_true, if_false] using hhalt
    | data =>
      by_cases hwin : s.tx.win = 0
      · simpa only [Sender.step, hh, hp, Bool.false_eq_true, if_false, hwin, if_true,
          Channel.send_nil] using Trans.closeTx hp hwin
      cases hstop : src.exhausted s.tx.sent || !s.tx.reaches || !i.works with
      | true =>
        simpa only [Sender.step, hh, hp, Bool.false_eq_true, if_false, hwin, hstop, if_true] using
          hhalt
      | false =>
        simpa only [Sender.step, hh, hp, Bool.false_eq_true, if_false, hwin, hstop] using
          Trans.sendData hp hwin

/-- What a step of a sender that takes the message `m` does. -/
theorem trans_tx_some (i : Input) (haw : s.tx.awaits = true) {dl : Delivery}
    (hmay : may s (.tx dl)) {m : Msg} {c : Channel Msg} (hc : s.toTx.deliver dl = some (m, c)) :
    Trans src may s
      { s with
        tx := (s.tx.step src i (some m)).1, toTx := c
        toRx := s.toRx.send (s.tx.step src i (some m)).2 } := by
  cases hh : s.tx.halted with
  | true => simp [Sender.awaits, hh] at haw
  | false =>
    cases hp : s.tx.phase with
    | hi | data | finished => simp [Sender.awaits, hh, hp] at haw
    | hello =>
      cases hworks : i.works with
      | true =>
        simpa only [Sender.step, hh, hp, hworks, Bool.false_eq_true, if_false, if_true,
          Bool.not_true, Channel.send_nil] using Trans.receiveHello hp dl hmay m c hc
      | false =>
        simpa only [Sender.step, hh, hp, hworks, Bool.false_eq_true, if_false, Bool.not_false,
          Channel.send_nil] using Trans.missHello dl hmay m c hc
    | ack =>
      cases m with
      | ack win =>
        simpa only [Sender.step, hh, hp, Bool.false_eq_true, if_false, Channel.send_nil] using
          Trans.receiveAck hp dl hmay win c hc i.reaches
      | hello | hi | data | ok =>
        simpa only [Sender.step, hh, hp, Bool.false_eq_true, if_false, Channel.send_nil] using
          Trans.strayTx hp dl hmay _ c hc (by simp)
    | ok =>
      cases hfin : src.complete s.tx.sent with
      | true =>
        simpa only [Sender.step, hh, hp, hfin, Bool.false_eq_true, if_false, if_true,
          Channel.send_nil] using Trans.receiveLastOk hp dl hmay m c hc hfin
      | false =>
        simpa only [Sender.step, hh, hp, hfin, Bool.false_eq_true, if_false, if_true,
          Channel.send_nil] using Trans.receiveOk hp dl hmay m c hc hfin

/-- What a step of a receiver that takes no message does. -/
theorem trans_rx_none (i : Input) :
    Trans src may s
      { s with rx := (s.rx.step src i none).1, toTx := s.toTx.send (s.rx.step src i none).2 } := by
  have hstay : Trans src may s { s with rx := s.rx, toTx := s.toTx.send [] } := by
    rw [Channel.send_nil]
    exact .idle
  have hhalt : Trans src may s { s with rx.halted := true, toTx := s.toTx.send [] } := by
    rw [Channel.send_nil]
    exact .haltRx
  -- A receiver does not notice that its message was not sent.
  have hsend (m : Msg) : (if i.works then [m] else []).Sublist [m] := by
    cases i.works <;> simp
  cases hh : s.rx.halted with
  | true => simpa only [Receiver.step, hh, if_true] using hstay
  | false =>
    cases hp : s.rx.phase with
    | hi => simpa only [Receiver.step, hh, hp, Bool.false_eq_true, if_false] using hhalt
    | hello =>
      simpa only [Receiver.step, hh, hp, Bool.false_eq_true, if_false] using
        Trans.sendHello hp _ (hsend .hello)
    | finished => simpa only [Receiver.step, hh, hp, Bool.false_eq_true, if_false] using hstay
    | ack =>
      cases hr : s.rx.reaches with
      | true =>
        simpa only [Receiver.step, hh, hp, hr, Bool.false_eq_true, if_false, if_true] using
          Trans.sendAck hp _ (hsend (.ack 5))
      | false =>
        simpa only [Receiver.step, hh, hp, hr, Bool.false_eq_true, if_false] using hhalt
    | data =>
      by_cases hwin : s.rx.win = 0
      · simpa only [Receiver.step, hh, hp, hwin, Bool.false_eq_true, if_false, if_true,
          Channel.send_nil] using Trans.closeRx hp hwin
      · simpa only [Receiver.step, hh, hp, hwin, Bool.false_eq_true, if_false] using hhalt
    | ok =>
      cases hend : src.endsIn s.rx.window with
      | true =>
        simpa only [Receiver.step, hh, hp, hend, Bool.false_eq_true, if_false, if_true] using
          Trans.storeLast hp hend _ (hsend .ok)
      | false =>
        simpa only [Receiver.step, hh, hp, hend, Bool.false_eq_true, if_false, if_true] using
          Trans.store hp hend _ (hsend .ok)

/-- What a step of a receiver that takes the message `m` does. -/
theorem trans_rx_some (i : Input) (haw : s.rx.awaits = true) {dl : Delivery}
    (hmay : may s (.rx dl)) {m : Msg} {c : Channel Msg} (hc : s.toRx.deliver dl = some (m, c)) :
    Trans src may s
      { s with
        rx := (s.rx.step src i (some m)).1, toRx := c
        toTx := s.toTx.send (s.rx.step src i (some m)).2 } := by
  cases hh : s.rx.halted with
  | true => simp [Receiver.awaits, hh] at haw
  | false =>
    cases hp : s.rx.phase with
    | hello | ack | ok | finished => simp [Receiver.awaits, hh, hp] at haw
    | hi =>
      simpa only [Receiver.step, hh, hp, Bool.false_eq_true, if_false, Channel.send_nil] using
        Trans.receiveHi hp dl hmay m c hc i.reaches
    | data =>
      have hwin : s.rx.win ≠ 0 := by simpa [Receiver.awaits, hh, hp] using haw
      cases m with
      | data k =>
        simpa only [Receiver.step, hh, hp, Bool.false_eq_true, if_false, Channel.send_nil] using
          Trans.receiveData hp hwin dl hmay k c hc
      | hello | hi | ack | ok =>
        simpa only [Receiver.step, hh, hp, Bool.false_eq_true, if_false, Channel.send_nil] using
          Trans.strayRx hp hwin dl hmay _ c hc (by simp)

/-- Every event that may happen is a transition. -/
theorem trans_next (i : Input) {e : Event} (hmay : may s e) :
    Trans src may s (s.next src i e) := by
  cases e with
  | loseTx k => exact .loseTx k hmay
  | loseRx k => exact .loseRx k hmay
  | tx dl =>
    simp only [Net.next, Network.step]
    rcases (sender src).move_cases i dl s.tx s.toTx with h | ⟨-, h⟩ | ⟨m, c, haw, hc, h⟩
    · rw [h, Channel.send_nil]
      exact .idle
    · rw [h]
      exact trans_tx_none i
    · rw [h]
      exact trans_tx_some i haw hmay hc
  | rx dl =>
    simp only [Net.next, Network.step]
    rcases (receiver src).move_cases i dl s.rx s.toRx with h | ⟨-, h⟩ | ⟨m, c, haw, hc, h⟩
    · rw [h, Channel.send_nil]
      exact .idle
    · rw [h]
      exact trans_rx_none i
    · rw [h]
      exact trans_rx_some i haw hmay hc
  | failTx =>
    simp only [Net.next, Network.step]
    rcases (sender src).fail_cases i s.tx with h | ⟨-, h⟩
    · rw [h, Channel.send_nil]
      exact .idle
    · rw [h]
      exact trans_tx_none i
  | failRx =>
    simp only [Net.next, Network.step]
    rcases (receiver src).fail_cases i s.rx with h | ⟨-, h⟩
    · rw [h, Channel.send_nil]
      exact .idle
    · rw [h]
      exact trans_rx_none i

/-- What holds at the start and is preserved by every transition holds in every
    reachable state. -/
theorem invariant {I : Net → Prop} (init : I Net.start)
    (step : ∀ s s', I s → Trans src may s s' → I s')
    (h : Network.Reachable (sender src) (receiver src) (fun _ => True) may Net.start s) : I s :=
  h.invariant init fun _ _ _ _ hI _ hmay => step _ _ hI (trans_next _ hmay)

end Trans

/-! ## How far the parties are of each other -/

/-- How far the parties are, and what is under way in between: during the
    handshake at most one message is. -/
inductive Stage (s : Net) : Prop
  /-- Nothing has happened. -/
  | hello (htx : s.tx.phase = .hello) (hrx : s.rx.phase = .hello) (hto : s.toTx.flight = [])
  /-- The hello is under way, or lost. -/
  | helloSent (htx : s.tx.phase = .hello) (hrx : s.rx.phase = .hi)
      (hto : s.toTx.flight.Sublist [.hello])
  /-- The sender has taken the hello, and has sent its addresses or is about to. -/
  | hiSent (htx : s.tx.phase = .hi ∨ s.tx.phase = .ack) (hrx : s.rx.phase = .hi)
      (hto : s.toTx.flight = [])
  /-- The receiver has taken the addresses. -/
  | hiReceived (htx : s.tx.phase = .ack) (hrx : s.rx.phase = .ack) (hto : s.toTx.flight = [])
      (hfrom : s.toRx.flight = [])
  /-- The acknowledgement is under way, or lost. Nothing is on its way to the receiver. -/
  | ackSent (htx : s.tx.phase = .ack) (hrx : s.rx.phase = .data) (hwin : s.rx.win = 5)
      (hto : s.toTx.flight.Sublist [.ack 5]) (hfrom : s.toRx.flight = [])
  /-- The handshake is over for both. -/
  | transfer (htx : s.tx.phase.early = false) (hrx : s.rx.phase.early = false)
      (hfrom : .hi ∉ s.toRx.flight)

namespace Stage

variable {s s' : Net}

/-- Losing messages does not change how far the parties are. -/
theorem congr (h : Stage s) (htx : s'.tx.phase = s.tx.phase) (hrx : s'.rx.phase = s.rx.phase)
    (hwin : s'.rx.win = s.rx.win) (hto : s'.toTx.flight.Sublist s.toTx.flight)
    (hfrom : s'.toRx.flight.Sublist s.toRx.flight) : Stage s' := by
  have hnil {l l' : List Msg} (hl : l.Sublist l') (h' : l' = []) : l = [] :=
    List.eq_nil_of_sublist_nil (h' ▸ hl)
  cases h with
  | hello h₁ h₂ h₃ => exact .hello (htx.trans h₁) (hrx.trans h₂) (hnil hto h₃)
  | helloSent h₁ h₂ h₃ => exact .helloSent (htx.trans h₁) (hrx.trans h₂) (hto.trans h₃)
  | hiSent h₁ h₂ h₃ => exact .hiSent (by rwa [htx]) (hrx.trans h₂) (hnil hto h₃)
  | hiReceived h₁ h₂ h₃ h₄ =>
    exact .hiReceived (htx.trans h₁) (hrx.trans h₂) (hnil hto h₃) (hnil hfrom h₄)
  | ackSent h₁ h₂ h₃ h₄ h₅ =>
    exact .ackSent (htx.trans h₁) (hrx.trans h₂) (hwin.trans h₃) (hto.trans h₄) (hnil hfrom h₅)
  | transfer h₁ h₂ h₃ =>
    exact .transfer (by rwa [htx]) (by rwa [hrx]) fun hm => h₃ (hfrom.subset hm)

/-- Once the handshake is over for the sender, it is over for the receiver. -/
theorem of_tx (h : Stage s) (htx : s.tx.phase.early = false) :
    s.rx.phase.early = false ∧ .hi ∉ s.toRx.flight := by
  cases h with
  | hello h₁ | helloSent h₁ | hiReceived h₁ | ackSent h₁ => simp [h₁, Phase.early] at htx
  | hiSent h₁ => rcases h₁ with h₁ | h₁ <;> simp [h₁, Phase.early] at htx
  | transfer _ h₂ h₃ => exact ⟨h₂, h₃⟩

/-- Once the handshake is over for the receiver, the sender waits for the last
    message of the handshake at most. -/
theorem of_rx (h : Stage s) (hrx : s.rx.phase.early = false) :
    (s.tx.phase.early = false ∧ .hi ∉ s.toRx.flight) ∨
    (s.tx.phase = .ack ∧ s.rx.phase = .data ∧ s.rx.win = 5 ∧ s.toRx.flight = []) := by
  cases h with
  | hello _ h₂ | helloSent _ h₂ | hiSent _ h₂ | hiReceived _ h₂ => simp [h₂, Phase.early] at hrx
  | ackSent h₁ h₂ h₃ _ h₅ => exact .inr ⟨h₁, h₂, h₃, h₅⟩
  | transfer h₁ _ h₃ => exact .inl ⟨h₁, h₃⟩

end Stage

/-- The copies of data messages. -/
def CopiesData (_ : Net) (m : Msg) : Prop := ∃ k, m = .data k

/-- What holds whatever the network does, if it copies data messages only. -/
structure Basic (src : Source) (s : Net) : Prop where
  /-- What was sent to the receiver are the addresses and the first chunks, each once. -/
  sent : s.toRx.sent = s.tx.output
  /-- No message is under way that was not sent. -/
  flight : s.toRx.flight.Sublist s.toRx.sent
  /-- In the handshake there are no chunks. -/
  early : s.tx.phase.early → s.tx.sent = 0 ∧ s.rx.stored = [] ∧ s.rx.window = ∅
  /-- No chunk is sent after the last one. -/
  last : ∀ k < s.tx.sent, src.last k → s.tx.sent = k + 1
  /-- With the last chunk the window was closed. -/
  closed : src.complete s.tx.sent → s.tx.phase = .data → s.tx.win = 0
  /-- How far the parties are of each other. -/
  stage : Stage s

namespace Basic

variable {src : Source} {s s' : Net}

/-- At the start there is nothing to say. -/
theorem start : Basic src .start where
  sent := rfl
  flight := .refl _
  early _ := ⟨rfl, rfl, rfl⟩
  last k hk := absurd hk (Nat.not_lt_zero k)
  closed h := by simp [Net.start, Source.complete] at h
  stage := .hello rfl rfl rfl

/-- During the transfer, only data messages are on their way to the receiver, of
    chunks that were sent. -/
theorem data_of_mem_sent {m : Msg} (h : Basic src s) (hm : m ∈ s.toRx.sent) :
    m = .hi ∨ ∃ k < s.tx.sent, m = .data k := by
  rw [h.sent, Sender.output] at hm
  split at hm
  · cases hm
  · cases hm
  · simpa [eq_comm] using hm

/-- All the chunks counted were sent, once. -/
theorem data_mem_sent (h : Basic src s) {k : ℕ} (hk : k < s.tx.sent) : .data k ∈ s.toRx.sent := by
  rw [h.sent, Sender.output]
  cases hp : s.tx.phase with
  | hello | hi =>
    have := (h.early (by rw [hp]; rfl)).1
    omega
  | ack | data | ok | finished => simpa using hk

/-- No message is sent to the receiver twice: the hi once, and each chunk under its own number. -/
theorem nodup_sent (h : Basic src s) : s.toRx.sent.Nodup := by
  have hdata : ((List.range s.tx.sent).map Msg.data).Nodup :=
    List.nodup_range.map fun _ _ heq => Msg.data.inj heq
  rw [h.sent, Sender.output]
  split
  · exact List.nodup_nil
  · exact List.nodup_nil
  · exact List.nodup_cons.2 ⟨by simp, hdata⟩

/-- Nothing was sent to the receiver before the hi. -/
theorem not_copied (h : Basic src s) (hearly : s.tx.phase.early) {dl : Delivery}
    (hmay : Network.Arbitrary CopiesData s (.rx dl)) {m : Msg} {c : Channel Msg}
    (hc : s.toRx.deliver dl = some (m, c)) : m = .hi ∧ ∃ i, dl = .flight i := by
  have hm := h.data_of_mem_sent (Channel.mem_of_deliver h.flight hc)
  rw [(h.early hearly).1] at hm
  simp only [Nat.not_lt_zero, false_and, exists_false, or_false] at hm
  cases dl with
  | flight i => exact ⟨hm, i, rfl⟩
  | copy j =>
    obtain ⟨d, hd, k, rfl⟩ := hmay
    have := (Channel.deliver_copy_eq.1 hc).1.symm.trans hd
    simp [hm] at this

/-- The sender waits for the answer of a receiver that waits for its addresses. -/
theorem early_of_hi (h : Basic src s) (hrx : s.rx.phase = .hi) : s.tx.phase.early := by
  cases h.stage with
  | helloSent h₁ => rw [h₁]; rfl
  | hiSent h₁ => rcases h₁ with h₁ | h₁ <;> rw [h₁] <;> rfl
  | hello _ h₂ | hiReceived _ h₂ | ackSent _ h₂ => simp [hrx] at h₂
  | transfer _ h₂ => simp [hrx, Phase.early] at h₂

/-- The handshake ends with the acknowledgement of the receiver, and nothing else is
    under way then. -/
theorem ack_of_deliver (h : Basic src s) (htx : s.tx.phase = .ack) {i : ℕ} {m : Msg}
    {c : Channel Msg} (hc : s.toTx.deliver (.flight i) = some (m, c)) :
    m = .ack 5 ∧ c.flight = [] ∧ s.rx.phase = .data ∧ s.toRx.flight = [] := by
  cases h.stage with
  | hello h₁ | helloSent h₁ => simp [htx] at h₁
  | hiSent _ _ h₃ | hiReceived _ _ h₃ => simp [Channel.deliver, h₃] at hc
  | ackSent _ h₂ _ h₄ h₅ =>
    obtain ⟨hm, hflight⟩ := Channel.deliver_singleton h₄ hc
    exact ⟨hm, hflight, h₂, h₅⟩
  | transfer h₁ => simp [htx, Phase.early] at h₁

/-- In the transfer, the receiver is as far as the sender. -/
theorem transfer_of_rx (h : Basic src s) (hrx : s.rx.phase.early = false)
    (hne : ¬(s.tx.phase = .ack ∧ s.rx.phase = .data ∧ s.rx.win = 5 ∧ s.toRx.flight = [])) :
    s.tx.phase.early = false ∧ .hi ∉ s.toRx.flight := (h.stage.of_rx hrx).resolve_right hne

/-- A transition that only loses messages. -/
theorem congr (h : Basic src s) (htx : s'.tx.phase = s.tx.phase) (hsent : s'.tx.sent = s.tx.sent)
    (hwin : s'.tx.win = s.tx.win) (hrx : s'.rx.phase = s.rx.phase) (hrwin : s'.rx.win = s.rx.win)
    (hstored : s'.rx.stored = s.rx.stored) (hwindow : s'.rx.window = s.rx.window)
    (hto : s'.toTx.flight.Sublist s.toTx.flight)
    (hfrom : s'.toRx.flight.Sublist s.toRx.flight) (hall : s'.toRx.sent = s.toRx.sent) :
    Basic src s' where
  sent := by rw [hall, h.sent, Sender.output, Sender.output, htx, hsent]
  flight := hall ▸ hfrom.trans h.flight
  early := by rw [htx, hsent, hstored, hwindow]; exact h.early
  last := by rw [hsent]; exact h.last
  closed := by rw [htx, hsent, hwin]; exact h.closed
  stage := h.stage.congr htx hrx hrwin hto hfrom

/-- Every transition keeps this, whatever is lost or comes in another order, as long as only
    data is copied: a copy of the hi would come when the receiver is past the handshake. -/
theorem trans (h : Basic src s) (ht : Trans src (Network.Arbitrary CopiesData) s s') :
    Basic src s' := by
  -- In the handshake a transition goes with one stage: the others have another phase.
  obtain ⟨hsent, hflight, hearly, hlast, hclosed, hstage⟩ := id h
  cases ht with
  | idle => exact h
  | haltTx | haltRx => exact h.congr rfl rfl rfl rfl rfl rfl rfl (.refl _) (.refl _) rfl
  | loseTx i => exact h.congr rfl rfl rfl rfl rfl rfl rfl (List.eraseIdx_sublist _ _) (.refl _) rfl
  | loseRx i => exact h.congr rfl rfl rfl rfl rfl rfl rfl (.refl _) (List.eraseIdx_sublist _ _) rfl
  | strayTx _ dl hmay m c hc | missHello dl hmay m c hc =>
    exact h.congr rfl rfl rfl rfl rfl rfl rfl (Channel.deliver_eq hc).2.1 (.refl _) rfl
  | strayRx hrx hwin dl hmay m c hc =>
    obtain ⟨h₁, h₂, -⟩ := Channel.deliver_eq hc
    exact h.congr rfl rfl rfl rfl rfl rfl rfl (.refl _) h₂ h₁
  | sendHello hrx ms hms =>
    cases hstage with
    | hello h₁ h₂ h₃ =>
      exact ⟨hsent, hflight, hearly, hlast, hclosed, .helloSent h₁ rfl (by simpa [h₃] using hms)⟩
    | helloSent _ h₂ | hiSent _ h₂ | hiReceived _ h₂ | ackSent _ h₂ => simp [h₂] at hrx
    | transfer _ h₂ => simp [hrx, Phase.early] at h₂
  | receiveHello htx dl hmay m c hc =>
    obtain ⟨i, rfl⟩ := hmay
    have hoff : s.toRx.sent = [] := by simpa [Sender.output, htx] using hsent
    cases hstage with
    | hello _ _ h₃ => simp [Channel.deliver, h₃] at hc
    | helloSent _ h₂ h₃ =>
      exact ⟨hoff, hflight, fun _ => hearly (by rw [htx]; rfl), hlast, by simp,
        .hiSent (.inl rfl) h₂ (Channel.deliver_singleton h₃ hc).2⟩
    | hiSent h₁ => simp [htx] at h₁
    | hiReceived h₁ | ackSent h₁ => simp [htx] at h₁
    | transfer h₁ => simp [htx, Phase.early] at h₁
  | sendHi htx =>
    have hoff : s.toRx.sent = [] := by simpa [Sender.output, htx] using hsent
    obtain ⟨h₀, hrest⟩ := hearly (by rw [htx]; rfl)
    cases hstage with
    | hiSent _ h₂ h₃ =>
      exact ⟨by simp [Sender.output, hoff, h₀], hflight.append (.refl _), fun _ => ⟨h₀, hrest⟩, hlast,
        by simp, .hiSent (.inr rfl) h₂ h₃⟩
    | hello h₁ | helloSent h₁ | hiReceived h₁ | ackSent h₁ => simp [htx] at h₁
    | transfer h₁ => simp [htx, Phase.early] at h₁
  | receiveHi hrx dl hmay m c hc reaches =>
    obtain ⟨hcsent, hcflight, -⟩ := Channel.deliver_eq hc
    have htx := h.early_of_hi hrx
    obtain ⟨rfl, i, rfl⟩ := h.not_copied htx hmay hc
    have hmem := Channel.mem_of_deliver hflight hc
    have hack : s.tx.phase = .ack := by
      cases hp : s.tx.phase with
      | ack => rfl
      | hello | hi => simp [hsent, Sender.output, hp] at hmem
      | data | ok | finished => simp [hp, Phase.early] at htx
    -- The hi is the only message so far, so nothing is under way after it has come.
    have hall : s.toRx.sent = [.hi] := by simp [hsent, Sender.output, hack, (hearly htx).1]
    refine ⟨hcsent.trans hsent, hcsent ▸ hcflight.trans hflight, hearly, hlast, hclosed, ?_⟩
    have hfrom := (Channel.deliver_singleton (hall ▸ hflight) hc).2
    cases hstage with
    | hiSent _ _ h₃ => exact .hiReceived hack rfl h₃ hfrom
    | hello h₁ | helloSent h₁ => simp [hack] at h₁
    | hiReceived _ h₂ | ackSent _ h₂ => simp [hrx] at h₂
    | transfer h₁ => simp [hack, Phase.early] at h₁
  | sendAck hrx ms hms =>
    cases hstage with
    | hiReceived h₁ _ h₃ h₄ =>
      exact ⟨hsent, hflight, hearly, hlast, hclosed, .ackSent h₁ rfl rfl (by simpa [h₃] using hms) h₄⟩
    | hello _ h₂ | helloSent _ h₂ | hiSent _ h₂ | ackSent _ h₂ => simp [hrx] at h₂
    | transfer _ h₂ => simp [hrx, Phase.early] at h₂
  | receiveAck htx dl hmay win c hc reaches =>
    obtain ⟨i, rfl⟩ := hmay
    have hearly' := hearly (by rw [htx]; rfl)
    obtain ⟨-, -, hrx, hfrom⟩ := h.ack_of_deliver htx hc
    refine ⟨by simpa [Sender.output, htx] using hsent, hflight, fun _ => hearly', hlast, ?_,
      .transfer rfl (by rw [hrx]; rfl) (by simp [hfrom])⟩
    intro hfin
    simp [hearly'.1, Source.complete] at hfin
  | closeTx htx hwin =>
    obtain ⟨h₂, h₃⟩ := hstage.of_tx (by rw [htx]; rfl)
    exact ⟨by simpa [Sender.output, htx] using hsent, hflight, by simp [Phase.early], hlast, by simp,
      .transfer rfl h₂ h₃⟩
  | sendData htx hwin =>
    obtain ⟨h₂, h₃⟩ := hstage.of_tx (by rw [htx]; rfl)
    refine ⟨?_, hflight.append (.refl _), ?_, ?_, ?_, .transfer (by rw [htx]; rfl) h₂ (by simpa using h₃)⟩
    · simp [Sender.output, htx, hsent, List.range_succ]
    · simp [htx, Phase.early]
    · intro k hk hlastk
      rcases Nat.lt_succ_iff_lt_or_eq.1 hk with hk | rfl
      · -- After the last chunk the window is closed.
        have hn := hlast k hk hlastk
        exact absurd (hclosed (by rw [hn]; exact hlastk) htx) hwin
      · rfl
    · intro hfin _
      exact if_pos hfin
  | receiveOk htx dl hmay m c hc hfin =>
    obtain ⟨h₂, h₃⟩ := hstage.of_tx (by rw [htx]; rfl)
    exact ⟨by simpa [Sender.output, htx] using hsent, hflight, by simp [Phase.early], hlast,
      fun h => by simp [hfin] at h, .transfer rfl h₂ h₃⟩
  | receiveLastOk htx dl hmay m c hc hfin =>
    obtain ⟨h₂, h₃⟩ := hstage.of_tx (by rw [htx]; rfl)
    exact ⟨by simpa [Sender.output, htx] using hsent, hflight, by simp [Phase.early], hlast, by simp,
      .transfer rfl h₂ h₃⟩
  | closeRx hrx hwin =>
    obtain ⟨h₁, h₃⟩ := h.transfer_of_rx (by rw [hrx]; rfl) (by simp [hwin])
    exact ⟨hsent, hflight, hearly, hlast, hclosed, .transfer h₁ rfl h₃⟩
  | receiveData hrx hwin dl hmay k c hc =>
    obtain ⟨hcsent, hcflight, -⟩ := Channel.deliver_eq hc
    have htx : s.tx.phase.early = false := by
      refine Bool.eq_false_iff.2 fun hearly => ?_
      simpa using (h.not_copied hearly hmay hc).1
    obtain ⟨h₂, h₃⟩ := hstage.of_tx htx
    exact ⟨hcsent.trans hsent, hcsent ▸ hcflight.trans hflight, by simp [htx], hlast, hclosed,
      .transfer htx h₂ fun hm => h₃ (hcflight.subset hm)⟩
  | store hrx | storeLast hrx =>
    obtain ⟨h₁, h₃⟩ := h.transfer_of_rx (by rw [hrx]; rfl) (by simp [hrx])
    exact ⟨hsent, hflight, by simp [h₁], hlast, hclosed, .transfer h₁ rfl h₃⟩

/-- The messages that are received are those expected. -/
theorem expected (h : Basic src s) {e : Event} (hmay : Network.Arbitrary CopiesData s e) :
    Network.Expected (sender src) (receiver src) Sender.Expects Receiver.Expects s e := by
  constructor
  · rintro dl rfl - m c hc htx
    obtain ⟨i, rfl⟩ := hmay
    exact ⟨5, (h.ack_of_deliver htx hc).1⟩
  · rintro dl rfl - m c hc
    have hm := h.data_of_mem_sent (Channel.mem_of_deliver h.flight hc)
    refine ⟨fun hrx => (h.not_copied (h.early_of_hi hrx) hmay hc).1, fun hrx => ?_⟩
    · rcases hm with rfl | ⟨k, -, rfl⟩
      swap
      · exact ⟨k, rfl⟩
      cases dl with
      | copy j =>
        obtain ⟨d, hd, k, rfl⟩ := hmay
        simpa using (Channel.deliver_copy_eq.1 hc).1.symm.trans hd
      | flight i =>
        have hmem := List.mem_of_getElem? (Channel.deliver_flight_eq.1 hc).1
        rcases h.stage.of_rx (by rw [hrx]; rfl) with ⟨-, h₃⟩ | ⟨-, -, -, h₄⟩
        · exact absurd hmem h₃
        · simp [h₄] at hmem

end Basic

end Udm.Protocol
