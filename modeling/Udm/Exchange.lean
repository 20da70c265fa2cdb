import Udm.Library.Network
import Udm.Session.Addresses
import Udm.Session.Transition

/-!
# Exchanges

A sender and a receiver, each running its session, and the channels between them:
the network of two sites. A site is a process together with its past, the states
it took its steps from and what the operating system answered in them.

`Reachable.site_tx` and `Reachable.site_rx` say that what holds of a process and is
preserved by its transitions holds in every exchange.
-/

namespace Udm

open Session

/-- A process in a network, and the steps it has taken. -/
structure Site where
  /-- Where the process is, or has stopped. -/
  conf : Party
  /-- Each process that it was, with what it got in the step from there. -/
  past : List (Process × Env) := []

namespace Site

variable (bo : ByteOrder)

/-- The process goes on, and waits for a datagram. -/
def awaits (t : Site) : Bool := decide (t.conf.Alive Process.returned) && t.conf.state.awaits

/-- A step of the process, which may take the datagram `d`. Without a datagram, a call of
    `recvfrom` fails. A process that has stopped or returned stays as it is. -/
def step (env : Env) (d : Option (List Byte)) (t : Site) : Site × List (List Byte) :=
  if t.conf.Alive Process.returned then
    let env := { env with datagram := d }
    let c := Conf.exec (Session.step bo) env t.conf.state
    ({ conf := c, past := t.past ++ [(t.conf.state, env)] }, c.state.out)
  else (t, [])

/-- The sites, as parties of a network. -/
def machine : Machine Site Env (List Byte) where
  awaits := awaits
  step := step bo

variable {bo}

theorem step_of_alive {t : Site} (h : t.conf.Alive Process.returned) (env : Env)
    (d : Option (List Byte)) :
    t.step bo env d =
      ({ conf := Conf.exec (Session.step bo) { env with datagram := d } t.conf.state
         past := t.past ++ [(t.conf.state, { env with datagram := d })] },
        (Conf.exec (Session.step bo) { env with datagram := d } t.conf.state).state.out) := if_pos h

theorem step_of_not_alive {t : Site} (h : ¬t.conf.Alive Process.returned) (env : Env)
    (d : Option (List Byte)) : t.step bo env d = (t, []) := if_neg h

theorem awaits_of_alive {t : Site} (h : t.conf.Alive Process.returned) :
    t.awaits = t.conf.state.awaits := by simp [awaits, h]

/-- The process is between two steps of a session in the direction `dir`, unless it
    has stopped. -/
def Steady (dir : StateDirection) (t : Site) : Prop :=
  t.conf.error = none → Session.Steady t.conf.state ∧ t.conf.state.session.dir = dir

theorem Steady.step {dir : StateDirection} {t : Site} (h : t.Steady dir) (env : Env)
    (d : Option (List Byte)) : (t.step bo env d).1.Steady dir := by
  by_cases halive : t.conf.Alive Process.returned
  · rw [step_of_alive halive]
    obtain ⟨hsteady, hdir⟩ := h halive.1
    have htr := transition_exec bo { env with datagram := d } hsteady
    exact fun hc => ⟨htr.steady hsteady.clear hc, (htr.dir_eq hc).trans hdir⟩
  · rwa [step_of_not_alive halive]

/-- What the transitions of a process preserve, its steps in a network preserve. -/
theorem preserves {dir : StateDirection} {P : Site → List (List Byte) → List (List Byte) → Prop}
    (h : ∀ env t ds es, t.conf.Alive Process.returned → Session.Steady t.conf.state →
      t.conf.state.session.dir = dir → P t ds es →
      (env.datagram.isSome → t.conf.state.awaits) → ∀ c,
      Transition bo env t.conf.state.clear c →
      P { conf := c, past := t.past ++ [(t.conf.state, env)] } (ds ++ env.datagram.toList)
        (es ++ c.state.out))
    (env : Env) (d : Option (List Byte)) (t : Site) (ds es : List (List Byte))
    (ht : t.Steady dir ∧ P t ds es) (haw : d.isSome → t.awaits) :
    (t.step bo env d).1.Steady dir ∧
      P (t.step bo env d).1 (ds ++ d.toList) (es ++ (t.step bo env d).2) := by
  refine ⟨ht.1.step env d, ?_⟩
  by_cases halive : t.conf.Alive Process.returned
  · obtain ⟨hst, hdir⟩ := ht.1 halive.1
    rw [awaits_of_alive halive] at haw
    rw [step_of_alive halive]
    exact h { env with datagram := d } t ds es halive hst hdir ht.2 haw _ (transition_exec bo _ hst)
  · -- A process that has stopped or returned awaits nothing.
    obtain rfl : d = none := by simpa [awaits, halive] using haw
    rw [step_of_not_alive halive]
    simpa using ht.2

end Site

/-- A sender, a receiver, and the channels between them. -/
abbrev Exchange := Network Site Site (List Byte)

namespace Exchange

variable (bo : ByteOrder)

/-- The exchange at the start of the sessions of two processes. -/
def start (tx rx : Process) : Exchange where
  tx := { conf := { state := tx } }
  rx := { conf := { state := rx } }

/-- The exchanges that a sender and a receiver come to, over channels that behave as
    `may` says. -/
def Reachable (ok : Env → Prop) (may : Exchange → Event → Prop) (tx rx : Process) :
    Exchange → Prop :=
  Network.Reachable (Site.machine bo) (Site.machine bo) ok may (start tx rx)

variable {bo} {ok : Env → Prop} {may : Exchange → Event → Prop} {tx rx : Process} {s : Exchange}

/-- What holds of a process, with the datagrams it has received and sent, and is
    preserved by its transitions, holds of the sender. -/
theorem Reachable.site_tx {P : Site → List (List Byte) → List (List Byte) → Prop}
    (hsteady : Session.Steady tx) (hdir : tx.session.dir = .TX)
    (init : P { conf := { state := tx } } [] [])
    (step : ∀ env t ds es, t.conf.Alive Process.returned → Session.Steady t.conf.state →
      t.conf.state.session.dir = .TX → P t ds es →
      (env.datagram.isSome → t.conf.state.awaits) → ∀ c,
      Transition bo env t.conf.state.clear c →
      P { conf := c, past := t.past ++ [(t.conf.state, env)] } (ds ++ env.datagram.toList)
        (es ++ c.state.out))
    (h : Reachable bo ok may tx rx s) : P s.tx s.toTx.delivered s.toRx.sent := by
  exact (Network.Reachable.local_tx (P := fun t ds es => t.Steady .TX ∧ P t ds es)
    ⟨fun _ => ⟨hsteady, hdir⟩, init⟩ (fun env d t ds es _ => Site.preserves step env d t ds es) h).2

/-- The same for the receiver. -/
theorem Reachable.site_rx {P : Site → List (List Byte) → List (List Byte) → Prop}
    (hsteady : Session.Steady rx) (hdir : rx.session.dir = .RX)
    (init : P { conf := { state := rx } } [] [])
    (step : ∀ env t ds es, t.conf.Alive Process.returned → Session.Steady t.conf.state →
      t.conf.state.session.dir = .RX → P t ds es →
      (env.datagram.isSome → t.conf.state.awaits) → ∀ c,
      Transition bo env t.conf.state.clear c →
      P { conf := c, past := t.past ++ [(t.conf.state, env)] } (ds ++ env.datagram.toList)
        (es ++ c.state.out))
    (h : Reachable bo ok may tx rx s) : P s.rx s.toRx.delivered s.toTx.sent := by
  exact (Network.Reachable.local_rx (P := fun t ds es => t.Steady .RX ∧ P t ds es)
    ⟨fun _ => ⟨hsteady, hdir⟩, init⟩ (fun env d t ds es _ => Site.preserves step env d t ds es) h).2

/-! ## An exchange of one byte -/

/-- A sender of a file of one byte, at `"10.0.0.1"`. -/
def oneByteSender : Process :=
  .init .TX {} [SessionProcessor.private10] { fmode := .IN, fileSize := 1, fs := { content := [7] } }
    { fmode := .OUT, fs := {} }

/-- A receiver with an empty sink. -/
def oneByteReceiver : Process :=
  .init .RX {} [SessionProcessor.private10] { fmode := .IN, fs := {} } { fmode := .OUT, fs := {} }

/-- The sites that step, one after the other: the handshake takes the first six
    steps, the transfer of the window the rest. -/
def oneByteEvents : List Event :=
  [.rx (.flight 0), .tx (.flight 0), .tx (.flight 0), .rx (.flight 0), .rx (.flight 0),
    .tx (.flight 0), .tx (.flight 0), .tx (.flight 0), .rx (.flight 0), .rx (.flight 0),
    .rx (.flight 0), .tx (.flight 0)]

/-- The exchange after its first `n` steps. -/
def oneByteRun (n : ℕ) : Exchange :=
  Network.exec (Site.machine .little) (Site.machine .little) (start oneByteSender oneByteReceiver)
    ((oneByteEvents.take n).map fun e => (Env.plain none [1, 1, 1], e))

theorem reachable_oneByteRun {ok : Env → Prop} (hok : ok (.plain none [1, 1, 1])) (n : ℕ) :
    Reachable .little ok Network.InOrder oneByteSender oneByteReceiver (oneByteRun n) := by
  have hevents : ∀ e ∈ oneByteEvents, e = .tx (.flight 0) ∨ e = .rx (.flight 0) := by
    simp [oneByteEvents]
  refine (Network.reachable_exec (fun e => e = .tx (.flight 0) ∨ e = .rx (.flight 0)) ?_).mono ?_
  · intro _ he
    obtain ⟨e, hmem, rfl⟩ := List.mem_map.1 he
    exact ⟨hok, hevents e (List.mem_of_mem_take hmem)⟩
  · rintro _ _ (rfl | rfl)
    exacts [rfl, rfl]

end Exchange

end Udm
