import Udm.Presentation

/-!
# The wire format

Both ways of sending put the same bytes on the wire (`Capsule.wire`), and
`pull` is inverse to them: it gives back the header and the payload that were
sent (`pulled_wire`), and sending what it decoded from a datagram whose `capSize`
tells its length gives back the datagram (`wire_pulled`).

The payload of a capsule starts `HEADER_SPACE` bytes into its body, behind the place
where the presentation layer copies a header. What is left of an earlier header there is
overwritten, or not sent at all, so it does not matter (`load_setCapParams`). A datagram
that was pulled has its payload at the start of the body.
-/

namespace Udm

namespace Gateway

variable (bo : ByteOrder) (env : Env)

/-- Running `x` from `p` sends the datagram `d`, and no other. -/
def Sends (x : Prog Unit) (p : Process) (d : List Byte) : Prop :=
  wp x (fun _ p' => p'.out = p.out ++ [d]) (fun _ _ => False) p

/-- Pulling from `p` gives a buffer `b` that `Q` holds of. -/
def Pulls (p : Process) (Q : MemBuff → Prop) : Prop :=
  wp (pull bo env) (fun b _ => Q b) (fun _ _ => False) p

/-- `send` writes the header and the payload to one datagram. -/
theorem sends_send (hsend : env.sendto = true) {p : Process} (hp : ¬p.interfaces.NoAddress)
    (cap : Capsule) : Sends (send bo env cap) p (cap.wire bo) := by
  rw [Sends, wp_send, if_neg hp, if_pos hsend]
  simp [Process.out, hsend]

/-- `chunkWrite` writes the header over the start of the body, and sends the body from there. -/
theorem sends_chunkWrite (hsend : env.sendto = true) {p : Process}
    (hp : ¬p.interfaces.NoAddress) (cap : Capsule) :
    Sends (chunkWrite bo env cap) p (cap.wire bo) := by
  rw [Sends, wp_chunkWrite, if_neg hp]
  simp [Process.out, hsend]

/-- The wire format of a capsule whose payload is in its place. -/
theorem wire_of_load {cap : Capsule} {payload : List Byte}
    (hbody : cap.body.load HEADER_SPACE cap.header.capSize.toNat = payload) :
    cap.wire bo = cap.header.encode bo ++ payload := by rw [Capsule.wire, hbody]

/-- The presentation layer leaves the payload as it is. -/
theorem load_setCapParams (cap : Capsule) (par : Params) (code : StateCodes) (n : ℕ) :
    (PresentationProcessor.setCapParams bo cap par code).body.load HEADER_SPACE n =
      cap.body.load HEADER_SPACE n := cap.load_copyHeader bo n

variable {bo env}

/-- What is pulled is what was sent. -/
theorem pulled_wire {p : Process} (hp : p.rxFactory.chunkSize = CHUNK) {h : CapsuleHdr}
    {payload : List Byte} (hlen : payload.length + HEADER_SPACE ≤ CHUNK) :
    (pulled bo env p (h.encode bo ++ payload)).data.header = h ∧
      (pulled bo env p (h.encode bo ++ payload)).data.body.load 0 payload.length = payload ∧
      (pulled bo env p (h.encode bo ++ payload)).size = payload.length + HEADER_SPACE := by
  have hd : (h.encode bo ++ payload).length = payload.length + HEADER_SPACE := by
    rw [List.length_append, CapsuleHdr.length_encode, Nat.add_comm]
  have hle : (h.encode bo ++ payload).length ≤ p.rxFactory.chunkSize := by rw [hd, hp]; exact hlen
  have htake : (h.encode bo ++ payload).take HEADER_SPACE = h.encode bo :=
    List.take_left' (h.length_encode bo)
  have hdrop : (h.encode bo ++ payload).drop HEADER_SPACE = payload :=
    List.drop_left' (h.length_encode bo)
  refine ⟨?_, ?_, ?_⟩
  · rw [header_pulled bo env hle (by omega), htake, CapsuleHdr.decode_encode]
  · rw [load_pulled bo env hle (by omega), hdrop, List.take_length]
  · rw [size_pulled, Nat.min_eq_right hle, hd]
    rfl

/-- What is sent again is what was pulled. -/
theorem wire_pulled {p : Process} {d : List Byte} (hd : HEADER_SPACE ≤ d.length)
    (hle : d.length ≤ p.rxFactory.chunkSize)
    (hsize : (pulled bo env p d).data.header.capSize.toNat = d.length - HEADER_SPACE)
    (fresh : Block Byte) :
    let b := (pulled bo env p d).data
    Capsule.wire bo ⟨b.header, fresh.store HEADER_SPACE (b.body.load 0 b.header.capSize.toNat)⟩ =
      d := by
  intro b
  have hpayload : b.body.load 0 b.header.capSize.toNat = d.drop HEADER_SPACE := by
    rw [hsize, load_pulled bo env hle (by omega)]
    exact List.take_of_length_le (by rw [List.length_drop])
  have hheader : b.header.encode bo = d.take HEADER_SPACE := by
    rw [show b.header = _ from header_pulled bo env hle hd, CapsuleHdr.encode_decode bo]
    rw [List.length_take, Nat.min_eq_left hd]
  have hbody : (fresh.store HEADER_SPACE (b.body.load 0 b.header.capSize.toNat)).load HEADER_SPACE
      b.header.capSize.toNat = d.drop HEADER_SPACE := by
    rw [← hpayload]
    exact fresh.load_store_of_length (by simp)
  exact (wire_of_load bo hbody).trans (by rw [hheader, List.take_append_drop])

/-- The wire format round trip. Whatever header an earlier layer left at the
    start of the body, both ways of sending send the same datagram, and pulling
    it gives the header, the payload and the size; and sending the header and the
    payload pulled from a datagram gives back the datagram. -/
theorem round_trip (hsend : env.sendto = true) {p : Process} (hp : ¬p.interfaces.NoAddress) :
    (∀ (h stale : CapsuleHdr) (par : Params) (code : StateCodes) (body : Block Byte)
      (payload : List Byte), payload.length = h.capSize.toNat →
      payload.length + HEADER_SPACE ≤ CHUNK → body.load HEADER_SPACE payload.length = payload →
      ∃ d, (∀ cap : Capsule, cap = ⟨h, body⟩ ∨
          cap = ⟨h, (PresentationProcessor.setCapParams bo ⟨stale, body⟩ par code).body⟩ →
          Sends (send bo env cap) p d ∧ Sends (chunkWrite bo env cap) p d) ∧
        ∀ (env' : Env) (q : Process), env'.datagram = some d → q.rxFactory.chunkSize = CHUNK →
          Pulls bo env' q fun b => b.data.header = h ∧
            b.data.body.load 0 h.capSize.toNat = payload ∧
            b.size = h.capSize.toNat + HEADER_SPACE) ∧
    ∀ (d : List Byte) (env' : Env) (q : Process), env'.datagram = some d →
      q.rxFactory.chunkSize = CHUNK → HEADER_SPACE ≤ d.length → d.length ≤ CHUNK →
      (CapsuleHdr.decode bo (d.take HEADER_SPACE)).capSize.toNat = d.length - HEADER_SPACE →
      Pulls bo env' q fun b => ∀ fresh : Block Byte,
        let payload := b.data.body.load 0 b.data.header.capSize.toNat
        let cap : Capsule := ⟨b.data.header, fresh.store HEADER_SPACE payload⟩
        Sends (send bo env cap) p d ∧ Sends (chunkWrite bo env cap) p d := by
  constructor
  · intro h stale par code body payload hcap hle hbody
    refine ⟨h.encode bo ++ payload, fun cap hc => ?_, fun env' q hd hq => ?_⟩
    · have hwire : cap.wire bo = h.encode bo ++ payload := by
        rcases hc with rfl | rfl
        · exact wire_of_load bo (by rw [← hcap, hbody])
        · exact wire_of_load bo (by rw [load_setCapParams, ← hcap, hbody])
      rw [← hwire]
      exact ⟨sends_send bo env hsend hp cap, sends_chunkWrite bo env hsend hp cap⟩
    · rw [Pulls, wp_pull _ _ hd, ← hcap]
      exact pulled_wire hq hle
  · intro d env' q hd hq hge hle hsize
    rw [Pulls, wp_pull _ _ hd]
    intro fresh payload cap
    have hle' : d.length ≤ q.rxFactory.chunkSize := hq ▸ hle
    have hwire : cap.wire bo = d :=
      wire_pulled hge hle' (by rw [header_pulled bo env' hle' hge, hsize]) fresh
    rw [← hwire]
    exact ⟨sends_send bo env hsend hp cap, sends_chunkWrite bo env hsend hp cap⟩

/-- A capsule of three bytes, sent before the peer has told its addresses. -/
theorem round_trip_three :
    let env := Env.plain none []
    let p := Process.init .TX {} [] { fmode := .IN, fs := {} } { fmode := .OUT, fs := {} }
    let cap : Capsule := ⟨{ capSize := 3 }, Block.store (fun _ => 0) HEADER_SPACE [1, 2, 3]⟩
    ∃ d, Sends (send .little env cap) p d ∧ Sends (chunkWrite .little env cap) p d := by
  intro env p cap
  have hp : ¬p.interfaces.NoAddress := fun h => h.1 rfl
  obtain ⟨d, hd, -⟩ := (@round_trip .little env rfl p hp).1 cap.header {} {} .open
    cap.body [1, 2, 3] rfl (by decide) (Block.load_store _ _ _)
  exact ⟨d, hd cap (.inl rfl)⟩

end Gateway

end Udm
