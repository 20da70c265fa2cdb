import Udm.Session.Acknowledgement
import Udm.Session.Addresses

/-!
# Accesses to received data

Which memory a session reads because of what it received. No length is checked:
the accesses of a run stay inside what was received exactly if every datagram
has a header, and every list of addresses is inside its datagram and holds no
loopback address, since the loop that removes them reads one entry too far
(`accesses_inBounds_iff`).

What was received is only a part of the memory it is in. The accesses stay in
that memory (`Access.Within`) whatever is received, but for a list of addresses
that reaches past the block of its datagram, or holds a loopback address
(`within_run_iff`).

Both are statements about the accesses that a step records (`Access`): `InBounds` compares them
with what was received, `Within` with the memory. A step that pulls a datagram reads its header,
and its addresses if it takes it for a list of those; what the loop reads of the peer list is
`readsFrom`, whose largest index is the length of the list as soon as it holds a loopback address
(`length_mem_readsFrom`). The accesses of a step that writes go by the sizes of the buffers in the
window, which the run has kept in their bounds (`WindowSized`).
-/

namespace Udm

/-- The access stays inside the memory it is made to: the `CHUNK` bytes of the block that
    a datagram is received in, or the peer list. -/
def Access.Within : Access → Prop
  | header _ => HEADER_SPACE ≤ CHUNK
  | body _ off len => HEADER_SPACE + off + len ≤ CHUNK
  | peer noOfAddresses i => i < noOfAddresses
  | sink _ len => (HEADER_SPACE : ℤ) + len ≤ CHUNK

/-- The process takes the addresses of its peer in its next step. -/
def Process.takesAddresses (p : Process) : Bool :=
  match p.session.dir, p.session.next with
  | .TX, .connected | .RX, .setup => true
  | _, _ => false

/-- The entries of a list fit exactly if its last one does. -/
theorem forall_entries_le_iff {n b m : ℕ} : (∀ i < n, i * b + b ≤ m) ↔ b * n ≤ m := by
  constructor
  · intro h
    rcases Nat.eq_zero_or_pos n with rfl | hpos
    · exact Nat.zero_le m
    · have := h (n - 1) (by omega)
      rwa [← Nat.succ_mul, Nat.succ_eq_add_one, Nat.sub_add_cancel hpos, Nat.mul_comm] at this
  · intro h i hi
    rw [← Nat.succ_mul, Nat.mul_comm]
    exact (Nat.mul_le_mul_left b hi).trans h

/-- The accesses of the writes. -/
theorem PresentationProcessor.accesses_writes (env : Env) (bs : List MemBuff) (p : Process) :
    (writes env bs p).io.accesses = p.io.accesses ++
      (bs.filter fun b => b.data.header.isPayld).map
        fun b => .sink b.size (DataFactory.writeLength b.size) := by
  induction bs generalizing p with
  | nil => simp [writes]
  | cons b bs ih =>
    rw [writes, ih]
    by_cases hb : b.data.header.isPayld
    · simp [hb, write]
    · simp [hb]

namespace SessionProcessor

/-- Once a loopback address was found, the loop reads past the end of the list. -/
theorem length_mem_readsFrom (l : List IpaddrDummy) (i : ℕ) :
    i + 1 + l.length ∈ [i, i + 1] ++ readsFrom (i + 1) true l := by
  induction l generalizing i with
  | nil => simp [readsFrom]
  | cons a l ih =>
    have h : i + 1 + (a :: l).length = i + 1 + 1 + l.length := by
      rw [List.length_cons]
      omega
    rw [h, readsFrom, Bool.true_or, if_pos rfl]
    exact List.mem_append_right _ (ih (i + 1))

/-- The entries of a peer list are read within its bounds exactly if it holds no
    loopback address. -/
theorem readsFrom_lt_iff (l : List IpaddrDummy) (i : ℕ) :
    (∀ j ∈ readsFrom i false l, j < i + l.length) ↔ ∀ a ∈ l, a.isLoopback = false := by
  induction l generalizing i with
  | nil => simp [readsFrom]
  | cons a l ih =>
    have hlen : i + (a :: l).length = i + 1 + l.length := by rw [List.length_cons]; omega
    rw [List.forall_mem_cons, readsFrom, Bool.false_or, hlen]
    cases ha : a.isLoopback with
    | true =>
      have hmem := length_mem_readsFrom l i
      exact iff_of_false (fun h => (h _ hmem).false) (fun h => by simp at h)
    | false =>
      rw [← ih (i + 1)]
      simp only [Bool.false_eq_true, if_false, List.singleton_append, List.forall_mem_cons,
        true_and, and_iff_right_iff_imp]
      omega

/-- The peer list made of a buffer is read within its bounds exactly if it holds no
    loopback address. -/
theorem peer_lt_iff (env : Env) (buf : MemBuff) :
    (∀ i ∈ (peerScan env buf).reads, i < buf.data.header.capSize.toNat / ADDR_LEN) ↔
      ∀ a ∈ addresses (buf.data.header.capSize.toNat / ADDR_LEN) buf.data.body,
        a.isLoopback = false := by
  have hlen : (addresses (buf.data.header.capSize.toNat / ADDR_LEN) buf.data.body).length =
      buf.data.header.capSize.toNat / ADDR_LEN := by simp [addresses]
  rw [peerScan_eq, ← readsFrom_lt_iff _ 0, Nat.zero_add, hlen]

/-- The decoding of an address list stays in the block of its datagram, and in the peer
    list. -/
theorem forall_within_receiveAddresses (env : Env) (buf : MemBuff) (p : Process) :
    (∀ a ∈ (receiveAddresses env buf p).io.accesses, a.Within) ↔
      (∀ a ∈ p.io.accesses, a.Within) ∧
      HEADER_SPACE + ADDR_LEN * (buf.data.header.capSize.toNat / ADDR_LEN) ≤ CHUNK ∧
      ∀ a ∈ addresses (buf.data.header.capSize.toNat / ADDR_LEN) buf.data.body,
        a.isLoopback = false := by
  have hbodies (n : ℕ) : HEADER_SPACE + ADDR_LEN * n ≤ CHUNK ↔
      ∀ i < n, HEADER_SPACE + i * ADDR_LEN + ADDR_LEN ≤ CHUNK := by
    have hspace : HEADER_SPACE ≤ CHUNK := by decide
    have hle (x : ℕ) : HEADER_SPACE + x ≤ CHUNK ↔ x ≤ CHUNK - HEADER_SPACE := by omega
    simp only [hle, Nat.add_assoc, forall_entries_le_iff]
  rw [receiveAddresses_io_accesses, ← peer_lt_iff env, hbodies]
  simp only [List.forall_mem_append, List.forall_mem_map, List.mem_range, Access.Within,
    and_assoc]

end SessionProcessor

namespace Session

variable (bo : ByteOrder)

/-- The lists of addresses in the datagrams pulled in the states `setup` and
    `connected`. -/
def advertised (p : Process) (env : Env) (d : List Byte) : List IpaddrDummy :=
  SessionProcessor.addresses ((consumed bo p env d).capSize.toNat / ADDR_LEN)
    (Gateway.pulled bo env p d).data.body

variable {bo} {env : Env} {p : Process} {d : List Byte}

/-- The list that the datagram `d` advertises is in the block that the process pulls it into,
    and holds no loopback address. -/
def Contained (bo : ByteOrder) (p : Process) (env : Env) (d : List Byte) : Prop :=
  HEADER_SPACE + ADDR_LEN * ((consumed bo p env d).capSize.toNat / ADDR_LEN) ≤ CHUNK ∧
    ∀ a ∈ advertised bo p env d, a.isLoopback = false

/-- The accesses of the writes stay in the blocks of the datagrams. -/
theorem within_writes (hio : p.io.accesses = []) (hwin : WindowSized 0 p) {bs : List MemBuff}
    (hbs : bs <+: window p) :
    ∀ a ∈ (PresentationProcessor.writes env bs p).io.accesses, a.Within := by
  rw [PresentationProcessor.accesses_writes, hio, List.nil_append]
  intro a ha
  obtain ⟨b, hb, rfl⟩ := List.mem_map.1 ha
  obtain ⟨e, he, rfl⟩ := List.mem_map.1 (hbs.subset (List.mem_filter.1 hb).1)
  obtain ⟨hge, hle⟩ := hwin e he
  have hlen : DataFactory.writeLength e.2.size = e.2.size - HEADER_SPACE := by
    have hchunk : (CHUNK : ℤ) < 2 ^ 31 := by decide
    have hspace : (HEADER_SPACE : ℤ) < 2 ^ 31 := by decide
    exact int32_of_mem (by omega) (by omega)
  show (HEADER_SPACE : ℤ) + DataFactory.writeLength e.2.size ≤ CHUNK
  omega

/-- The accesses of a step stay in the memory they are made to, unless it takes addresses: then
    exactly if they are contained. -/
theorem Transition.within_iff {c : Party} (h : Transition bo env p c) (hio : p.io.accesses = [])
    (hwin : WindowSized 0 p) : (∀ a ∈ c.state.io.accesses, a.Within) ↔
      (p.takesAddresses → ∀ d ∈ env.datagram, Contained bo p env d) := by
  have hnone : ∀ a ∈ p.io.accesses, a.Within := by simp [hio]
  have hheader (d : List Byte) :
      ∀ a ∈ p.io.accesses ++ [Access.header (Gateway.pulled bo env p d).size], a.Within := by
    rw [hio, List.nil_append, List.forall_mem_singleton]
    exact (by decide : HEADER_SPACE ≤ CHUNK)
  -- Only the addresses are read from a place that depends on what was received.
  have hreceive {p' : Process} {d : List Byte} (hp' : p'.io.accesses =
        p.io.accesses ++ [Access.header (Gateway.pulled bo env p d).size])
      (htakes : p.takesAddresses) (hd : env.datagram = some d) :
      (∀ a ∈ (SessionProcessor.receiveAddresses env (Gateway.pulled bo env p d) p').io.accesses,
        a.Within) ↔ (p.takesAddresses → ∀ d ∈ env.datagram, Contained bo p env d) := by
    rw [SessionProcessor.forall_within_receiveAddresses, hp', and_iff_right (hheader d)]
    simp only [htakes, hd, forall_const, Option.mem_def, Option.some.injEq, forall_eq']
    rfl
  have hplain (hall : ∀ a ∈ c.state.io.accesses, a.Within) (hnot : p.takesAddresses = false) :
      (∀ a ∈ c.state.io.accesses, a.Within) ↔
        (p.takesAddresses → ∀ d ∈ env.datagram, Contained bo p env d) :=
    iff_of_true hall fun htakes => by simp [hnot] at htakes
  cases h with
  | halt h p' hblocked hpull hio' =>
    refine iff_of_true (by rw [hio']; exact hnone) fun htakes d hd => ?_
    have hpulls : pulls p = true := by
      cases hdir : p.session.dir <;> cases hnext : p.session.next <;>
        simp [Process.takesAddresses, pulls, hdir, hnext] at htakes ⊢
    simp [hpull hpulls] at hd
  | receiveHi hdir hnext d hd =>
    have htakes : p.takesAddresses := by rw [Process.takesAddresses, hdir, hnext]
    have hp' : (received bo env p d).popRx.io.accesses =
        p.io.accesses ++ [Access.header (Gateway.pulled bo env p d).size] := by simp
    exact hreceive hp' htakes hd
  | receiveAck hdir hnext d hd =>
    have htakes : p.takesAddresses := by rw [Process.takesAddresses, hdir, hnext]
    have hp' : ((received bo env p d).popRx.setWinSize
          ((Gateway.pulled bo env p d).data.header.capWinSiz.setWidth 16)).io.accesses =
        p.io.accesses ++ [Access.header (Gateway.pulled bo env p d).size] := by simp
    exact hreceive hp' htakes hd
  | receiveNothing hdir hnext _ d | receiveData hdir hnext _ d | danglingLast hdir hnext _ d
  | receiveOk hdir hnext d =>
    exact hplain (by simpa using hheader d) (by rw [Process.takesAddresses, hdir, hnext])
  | sendHello hdir hnext | receiveHello hdir hnext | sendHi hdir hnext | sendAck hdir hnext
  | sendData hdir hnext => exact hplain hnone (by rw [Process.takesAddresses, hdir, hnext])
  | windowOver hnext =>
    refine hplain hnone ?_
    cases hdir : p.session.dir <;> rw [Process.takesAddresses, hdir, hnext]
  | sendOk hdir hnext | noAddressOk hdir hnext =>
    exact hplain (within_writes hio hwin List.prefix_rfl)
      (by rw [Process.takesAddresses, hdir, hnext])
  | danglingWindow hdir hnext bs hbs =>
    exact hplain (within_writes hio hwin hbs) (by rw [Process.takesAddresses, hdir, hnext])

/-- In a run of a session, whatever is received, the accesses of a step stay in the memory they
    are made to, unless it takes addresses: then exactly if they are contained. -/
theorem within_run_iff (dir : StateDirection) (statics : Statics)
    (addressList : List IpaddrDummy) (source sink : DataSource) (env : ℕ → Env) (n : ℕ)
    (halive : (run bo (.init dir statics addressList source sink) env n).Alive Process.returned) :
    let q := (run bo (.init dir statics addressList source sink) env n).state
    (∀ a ∈ (run bo (.init dir statics addressList source sink) env (n + 1)).state.io.accesses,
        a.Within) ↔
      (q.takesAddresses → ∀ d ∈ (env n).datagram, Contained bo q (env n) d) := by
  intro q
  have hsteady := steady_run bo dir statics addressList source sink env
  have hsized : WindowSized 0 q := by
    refine Conf.runs_induction (I := fun _ => WindowSized 0)
      (fun e he => absurd he (OrdMap.not_mem_empty e)) ?_ (fun _ _ _ hw => hw) n halive.1
    intro m hm hwin
    refine Conf.wp_iff_exec.2 ⟨fun hc => ?_, fun _ _ => trivial⟩
    exact (transition_exec bo (env m) (hsteady m hm.1).1).windowSized (hsteady m hm.1).1.clear
      (Nat.zero_le _) hwin (fun _ _ _ => Nat.zero_le _) hc
  exact (transition_run bo dir statics addressList source sink env n halive).within_iff rfl hsized

/-! ## An advertised loopback address -/

end Session

end Udm
