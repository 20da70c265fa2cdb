import Udm.Exchange
import Udm.Protocol
import Udm.Session.Sender

/-!
# What the datagrams of an exchange stand for

The sites of an exchange play the parties of the protocol: the file is the source
of what is sent (`File.toSource`), the datagrams stand for the messages (`Means`),
and the state of a session tells its phase (`phase`).
-/

namespace Udm

open Session Protocol

instance (f : File) (n : ℕ) : Decidable (f.Exhausted n) := inferInstanceAs (Decidable (_ ∨ _))

/-- A file, as the source of the protocol. -/
def File.toSource (f : File) : Protocol.Source where
  last k := decide (f.EndsIn k)
  exhausted n := decide (f.Exhausted n)

@[simp] theorem File.last_toSource {f : File} {k : ℕ} : f.toSource.last k = decide (f.EndsIn k) := rfl

/-- The datagram `d` stands for the message `m`. -/
def Means (bo : ByteOrder) (f : File) (d : List Byte) : Msg → Prop
  | .hello | .ok => True
  | .hi => HEADER_SPACE ≤ d.length ∧ (CapsuleHdr.decode bo (d.take HEADER_SPACE)).isPayld = false
  | .ack win => HEADER_SPACE ≤ d.length ∧
      (CapsuleHdr.decode bo (d.take HEADER_SPACE)).capWinSiz.toNat = win
  | .data k => IsData bo f k (k + 1) d ∧ k * PAYLOAD < f.bytes.length ∧ k < MAX_CHUNKS

/-- The phase of a session in the protocol. -/
def phase (p : Process) : Phase :=
  match p.session.next with
  | .open => .hello
  | .setup => .hi
  | .connected => if p.session.complete then .finished else .ack
  | .closed => .data
  | .done => .ok
  | .inq | .send | .recv => .finished

/-- The system calls decide whether a party can go on. -/
def Works (env : Env) (i : Input) : Prop := env.getnameinfo = true → env.sendto = true → i.works = true

variable {bo : ByteOrder} {env : Env} {p : Process}

/-- A session has returned if its part in the protocol is finished. -/
theorem phase_eq_finished (hst : Steady p) : phase p = .finished ↔ p.returned = true := by
  have hmem := hst.next
  cases hnext : p.session.next with
  | «open» | setup | connected | closed | done => simp [phase, Process.returned, hnext]
  | inq | send | recv => simp [hnext, inSession] at hmem

/-- The addresses that are sent are no payload. -/
theorem means_hi (f : File) : Means bo f ((hi env p).wire bo) .hi := by
  refine ⟨by simp, ?_⟩
  rw [Capsule.wire, decode_take_encode]
  show decide (CapsuleType.CTRL.code &&& CapsuleType.PAYLD.code ≠ 0) = false
  decide

/-- The end of the handshake announces a window of `WIN_SIZ` capsules. -/
theorem means_ack (f : File) : Means bo f ((ack env p).wire bo) (.ack 5) := by
  refine ⟨by simp, ?_⟩
  rw [Capsule.wire, decode_take_encode]
  rfl

/-! ## Sites that play parties -/

/-- A site plays a party as long as it goes on. Then it stays as it is, and the party
    does. -/
theorem simulates_of_alive {σ : Type} {M : Machine σ Input Msg} {ok : Env → Prop} {f : File}
    {expects : σ → Msg → Prop} {R : Site → σ → Prop}
    (hawaits : ∀ {s t}, R s t → s.awaits = M.awaits t)
    (hstay : ∀ {s t}, R s t → ¬s.conf.Alive Process.returned → M.step default none t = (t, []))
    (hstep : ∀ {s t env d m}, R s t → s.conf.Alive Process.returned → ok env →
      Option.Rel (Means bo f) d m → (d.isSome → s.conf.state.awaits) → (∀ m' ∈ m, expects t m') →
      ∃ i, Works env i ∧ R (s.step bo env d).1 (M.step i m t).1 ∧
        List.Forall₂ (Means bo f) (s.step bo env d).2 (M.step i m t).2) :
    Simulates (Site.machine bo) M ok Works (Means bo f) expects R where
  input := fun _ _ => ⟨default, fun _ _ => rfl⟩
  awaits := hawaits
  step := by
    intro s t env d m h henv hdm haw hexp
    have haw : d.isSome → s.awaits := haw
    by_cases halive : s.conf.Alive Process.returned
    · rw [Site.awaits_of_alive halive] at haw
      exact hstep h halive henv hdm haw hexp
    · -- Nothing is received.
      obtain rfl : d = none := by
        have : s.awaits = false := by simp [Site.awaits, halive]
        simpa [this] using haw
      cases hdm
      refine ⟨default, fun _ _ => rfl, ?_⟩
      show R (s.step bo env none).1 (M.step default none t).1 ∧
        List.Forall₂ (Means bo f) (s.step bo env none).2 (M.step default none t).2
      rw [Site.step_of_not_alive halive, hstay h halive]
      exact ⟨h, .nil⟩

end Udm
