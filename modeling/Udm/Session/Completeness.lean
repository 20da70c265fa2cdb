import Udm.Session.Flow
import Udm.Session.Order

/-!
# Sending a file to its end

Whether a sender sends its whole file and returns, when it gets a reply whenever it
waits for one and the system calls succeed.

* `handshake`: the three steps of the handshake succeed, whatever the replies are;
* `stops`: after the handshake, every step that succeeds makes progress, so the session
  comes to its end if none fails;
* `completes_iff`: the exact condition. The end of the file must be found by a short
  read, that is, the file must not end with a full chunk; the progress counter must not
  overflow before; and the peer must have advertised an address.

The progress is measured by `rank`: four for each chunk that is not sent, and within a
window the steps that are left of it. A step of the transfer makes it smaller
(`Moves.rank_lt`), so the run is over after finitely many of them. That it was not stopped
by a failure is `Moves.error_eq_none`, where the condition on the file is used; that the
condition is needed is `endsIn_of_completes`.
-/

namespace Udm

variable {bo : ByteOrder}

/-- The payload of a data capsule: `capSize` bytes. -/
def capBody (bo : ByteOrder) (d : List Byte) : List Byte :=
  (d.drop HEADER_SPACE).take (CapsuleHdr.decode bo (d.take HEADER_SPACE)).capSize.toNat

namespace Session

/-- The data capsules `ds` hold the whole file, they are numbered one after the other,
    and the last one, only, carries `FIN`. -/
structure Whole (bo : ByteOrder) (f : File) (ds : List (List Byte)) : Prop where
  /-- The payloads, one after the other, are the file. -/
  payloads : ds.flatMap (capBody bo) = f.bytes
  /-- The last capsule, and no other, carries the flag. -/
  fin : ∀ i, ∀ h : i < ds.length, isFin bo ds[i] = decide (i + 1 = ds.length)
  numbered : ∃ capsuleId, NumberedFrom bo capsuleId ds

/-- The session of the process returns, and has sent the whole file. -/
def Completes (bo : ByteOrder) (f : File) (p : Process) (env : ℕ → Env) : Prop :=
  ∃ n, (run bo p env n).error = none ∧ (run bo p env n).state.returned = true ∧
    Whole bo f (dataSent bo p env n)

/-- The capsule that ends the handshake advertises an address that is kept. -/
def Offers (bo : ByteOrder) (env : Env) (p : Process) : Prop :=
  ∀ d, env.datagram = some d → (SessionProcessor.peerScan env (Gateway.pulled bo env p d)).count ≠ 0

/-! ## What was sent -/

/-- Capsules that are numbered one by one from `c` on are numbered as the counter of the sender
    does, as long as it does not overflow. -/
theorem numberedFrom_of {ds : List (List Byte)} {c : ℤ} (hc : -2 ^ 31 ≤ c) (hlt : c + ds.length < 2 ^ 31)
    (h : ∀ i, ∀ hi : i < ds.length, capid bo ds[i] = BitVec.ofInt 16 (c + i)) :
    NumberedFrom bo c ds := by
  induction ds generalizing c with
  | nil => trivial
  | cons d ds ih =>
    rw [List.length_cons] at hlt
    push_cast at hlt
    -- The head has the number `c`, the rest is numbered from the next one on.
    have hzero := h 0 (by simp)
    rw [List.getElem_cons_zero, Nat.cast_zero, add_zero] at hzero
    refine ⟨hzero, ?_⟩
    rw [int32_of_mem (by omega) (by omega)]
    refine ih (by omega) (by omega) fun i hi => ?_
    have := h (i + 1) (by simpa using hi)
    rw [List.getElem_cons_succ] at this
    rw [this]
    congr 1
    push_cast
    ring

/-- The chunks up to the one in which the file ends are the whole file. -/
theorem SentChunks.whole {f : File} {ds : List (List Byte)} (h : SentChunks bo f ds) {k : ℕ}
    (hlen : ds.length = k + 1) (hmax : k + 1 ≤ MAX_CHUNKS) (hend : f.EndsIn k) : Whole bo f ds where
  payloads := by
    have hmap : ds.map (capBody bo) = (List.range ds.length).map f.chunk := by
      refine List.ext_getElem (by simp) fun i hi hi' => ?_
      rw [List.length_map] at hi
      have hd := h i hi
      simp [capBody, hd.payload, hd.capSize_eq]
    -- The file ends in the last of the chunks.
    have hall : f.bytes.length ≤ (k + 1) * PAYLOAD := hend.2.le
    rw [List.flatMap_def, hmap, ← List.flatMap_def, hlen]
    show (List.range (k + 1)).flatMap (chunk PAYLOAD f.bytes) = f.bytes
    rw [flatMap_chunk, List.take_of_length_le hall]
  fin := by
    intro i hi
    rw [(h i hi).isFin_eq, hlen]
    refine decide_eq_decide.2 ⟨fun hi' => congrArg (· + 1) (File.endsIn_unique hi' hend), fun hi' => ?_⟩
    rwa [Nat.succ_injective hi']
  numbered := by
    refine ⟨1, numberedFrom_of (by decide) ?_ fun i hi => ?_⟩
    · have hle : k + 1 ≤ 43704 := hmax
      omega
    · rw [(h i hi).capid_eq, add_comm]

/-! ## The handshake -/

section Run

variable {f : File} {p : Process} {env : ℕ → Env}

/-- The sender has come to the transfer, with the interfaces `inf`. -/
structure Late (inf : PhyInterfaces) (q : Process) : Prop where
  /-- The addresses of the peer do not change in the transfer. -/
  interfaces : q.interfaces = inf
  next : q.session.next = .closed ∨ q.session.next = .done ∨ q.returned = true

/-- A reply is there whenever the sender waits for one. -/
def Answered (bo : ByteOrder) (p : Process) (env : ℕ → Env) : Prop :=
  ∀ n, (run bo p env n).Alive Process.returned → (run bo p env n).state.awaits = true →
    (env n).datagram ≠ none

/-- The states of the handshake. -/
def opening : List StateCodes := [.open, .setup, .connected]

/-- The transfer is not a part of the handshake. -/
theorem closed_not_mem_opening : StateCodes.closed ∉ opening := by decide

/-- The three steps of the handshake. -/
theorem handshake (hst : Steady p) (hdir : p.session.dir = .TX) (hnext : p.session.next = .open)
    (hcomplete : p.session.complete = false) (haddr : ¬p.interfaces.NoAddress)
    (hs : ∀ n, (env n).Succeeds) (hd : Answered bo p env) :
    (∀ n < 3, (run bo p env n).Alive Process.returned ∧
        opening[n]? = some (run bo p env n).state.session.next) ∧
      ∃ q, run bo p env 3 = { state := q } ∧ q.session.next = .closed ∧
        (Offers bo (env 2) p ↔ ¬q.interfaces.NoAddress) := by
  have halive₀ : (run bo p env 0).Alive Process.returned := by
    refine ⟨rfl, ?_⟩
    show (decide (p.session.next = .connected) && p.session.complete) = false
    rw [hnext]
    rfl
  obtain ⟨d₀, hd₀⟩ := Option.ne_none_iff_exists'.1 (hd 0 halive₀ (by
    show p.awaits = true
    rw [Process.awaits, hdir, hnext]))
  -- The three steps are evaluated one after the other, each from the state before.
  have hrun₁ : run bo p env 1 = { state := opened bo (env 0) d₀ p.clear } := by
    rw [run_succ bo halive₀]
    exact exec_receiveHello hst hdir hnext hd₀ (hs 0).getnameinfo
  have halive₁ : (run bo p env 1).Alive Process.returned := by
    rw [hrun₁]
    exact ⟨rfl, rfl⟩
  have hrun₂ : run bo p env 2 =
      { state := sentHi bo (env 1) (opened bo (env 0) d₀ p.clear).clear } := by
    rw [run_succ bo halive₁, hrun₁]
    exact exec_sendHi hdir rfl haddr (hs 1).sendto
  have halive₂ : (run bo p env 2).Alive Process.returned := by
    rw [hrun₂]
    refine ⟨rfl, ?_⟩
    show (true && p.session.complete) = false
    rw [hcomplete]
    rfl
  obtain ⟨hst₂, hdir₂⟩ := steady_run_of bo hst env 2 halive₂.1
  obtain ⟨d₂, hd₂⟩ := Option.ne_none_iff_exists'.1 (hd 2 halive₂ (by
    rw [Process.awaits, hdir₂, hdir, hrun₂]
    rfl))
  have hnext₂ : (run bo p env 2).state.session.next = .connected := by
    rw [hrun₂]
    rfl
  refine ⟨?_, ?_⟩
  · intro n hn
    interval_cases n
    · exact ⟨halive₀, congrArg some hnext.symm⟩
    · refine ⟨halive₁, ?_⟩
      rw [hrun₁]
      rfl
    · exact ⟨halive₂, congrArg some hnext₂.symm⟩
  set q := (run bo p env 2).state
  have hrun₃ : run bo p env 3 = { state := connected bo (env 2) d₂ q.clear } := by
    rw [run_succ bo halive₂]
    exact exec_receiveAck hst₂ (hdir₂.trans hdir) hnext₂ hd₂
  refine ⟨_, hrun₃, rfl, ?_⟩
  have hchunk : q.clear.rxFactory.chunkSize = p.rxFactory.chunkSize :=
    hst₂.chunkSize.trans hst.chunkSize.symm
  rw [PhyInterfaces.NoAddress, interfaces_connected, @peerScan_congr bo (env 2) p _ hchunk]
  constructor
  · exact fun hoffers hno => hoffers d₂ hd₂ hno.2
  · intro hno d hd hzero
    obtain rfl : d₂ = d := Option.some.inj (hd₂.symm.trans hd)
    exact hno ⟨by simp, hzero⟩

/-! ## The transfer -/

variable {inf : PhyInterfaces} {q : Process} {env₁ : Env}

/-- The transfer goes on, with the same interfaces. -/
theorem Late.step (h : Late inf q) (hdir : q.session.dir = .TX) (hreturned : q.returned = false)
    {c : Party} (htr : Transition bo env₁ q.clear c) (hc : c.error = none) : Late inf c.state := by
  have hstay : q.session.next = .closed ∨ q.session.next = .done :=
    h.next.imp_right fun hdone => hdone.resolve_right (by simp [hreturned])
  cases htr with
  | sendData _ hnext => exact ⟨h.interfaces, .inl hnext⟩
  | windowOver => exact ⟨h.interfaces, .inr (.inl rfl)⟩
  | receiveOk _ _ d =>
    refine ⟨(interfaces_received bo env₁ d).trans h.interfaces, ?_⟩
    cases hf : q.clear.txFactory.fin with
    | true => exact .inr (.inr (by simp [Process.returned]))
    | false => exact .inl (by simp)
  | receiveHello _ hnext | sendHi _ hnext | receiveAck _ hnext =>
    have hnext' : q.session.next = _ := hnext
    rw [hnext'] at hstay
    simp at hstay
  | halt | danglingLast | noAddressOk | danglingWindow => simp at hc
  | sendHello hrx | receiveHi hrx | sendAck hrx | receiveNothing hrx | receiveData hrx | sendOk hrx =>
    have hrx : q.session.dir = .RX := hrx
    rw [hdir] at hrx
    contradiction

/-- In a run, the transfer goes on. -/
theorem late_run (hst : Steady p) (hdir : p.session.dir = .TX) {m : ℕ}
    (h : Late inf (run bo p env m).state) (n : ℕ)
    (hc : (run bo p env (m + n)).error = none) : Late inf (run bo p env (m + n)).state := by
  induction n with
  | zero => exact h
  | succ n ih =>
    by_cases halive : (run bo p env (m + n)).Alive Process.returned
    · obtain ⟨hst', hdir'⟩ := steady_run_of bo hst env (m + n) halive.1
      have htr := transition_exec bo (env (m + n)) hst'
      rw [← run_succ bo halive] at htr
      exact (ih halive.1).step (hdir'.trans hdir) halive.2 htr hc
    · have hstop : run bo p env (m + n + 1) = run bo p env (m + n) := if_neg halive
      rw [← Nat.add_assoc, hstop] at hc ⊢
      exact ih hc

/-- What a step of the transfer does, after `k` chunks of the file `f`. -/
inductive Moves (bo : ByteOrder) (f : File) (k : ℕ) (env : Env) (q : Process) : Party → Prop
  | windowOver (hnext : q.session.next = .closed) (hwin : q.session.processor.winSize = 0) :
      Moves bo f k env q { state := q.clear.setNext .done }
  | sendData (hnext : q.session.next = .closed) (hwin : q.session.processor.winSize ≠ 0)
      (b : MemBuff) (hb : (loaded env q.clear).txFactory.buffer.head? = some b) :
      Moves bo f k env q { state := sentData bo env b q.clear }
  /-- Nothing is left of the file, and the window is not over: `fetchChunk` exits. -/
  | exit (hnext : q.session.next = .closed) (hwin : q.session.processor.winSize ≠ 0)
      (hex : f.Exhausted k) (hb : (loaded env q.clear).txFactory.buffer = []) :
      Moves bo f k env q { state := loaded env q.clear, error := some .exit }
  | receiveOk (hnext : q.session.next = .done) (d : List Byte) (hd : env.datagram = some d) :
      Moves bo f k env q
        { state := (received bo env q.clear d).popRx.endWindow q.txFactory.fin }

/-- Where the calls succeed and an address is left, every step of the transfer is one of these. -/
theorem moves_exec {k : ℕ} (h : Sending f k q) (hlate : Late inf q) (haddr : ¬inf.NoAddress)
    (hst : Steady q) (hdir : q.session.dir = .TX) (hreturned : q.returned = false)
    (hs : env₁.Succeeds) (hd : q.awaits = true → env₁.datagram ≠ none) :
    Moves bo f k env₁ q (Conf.exec (step bo) env₁ q) := by
  rcases hlate.next with hnext | hnext | hnext
  · by_cases hwin : q.session.processor.winSize = 0
    · rw [exec_windowOver hnext hwin]
      exact .windowOver hnext hwin
    have hfin := h.fin_of_winSize hnext hwin
    by_cases hex : f.Exhausted k
    · -- There is no chunk left.
      have hb : (loaded env₁ q.clear).txFactory.buffer = [] :=
        h.reads.buffer_of_exhausted hfin hex env₁.heap
      rw [exec_exhausted hdir hnext hwin hb]
      exact .exit hnext hwin hex hb
    · obtain ⟨b, hbuffer, -⟩ := h.reads.updateDataSource hfin hex env₁.heap
      have hb : (loaded env₁ q.clear).txFactory.buffer.head? = some b := by
        have hbuffer' : (loaded env₁ q.clear).txFactory.buffer = [b] := hbuffer
        rw [hbuffer']
        rfl
      rw [exec_sendData hdir hnext hwin hb (hlate.interfaces ▸ haddr) hs.sendto]
      exact .sendData hnext hwin b hb
  · obtain ⟨d, hd⟩ := Option.ne_none_iff_exists'.1 (hd (by rw [Process.awaits, hdir, hnext]))
    rw [exec_receiveOk bo hst hdir hnext hd]
    exact .receiveOk hnext d hd
  · rw [hreturned] at hnext
    contradiction

/-- How far the sender of `total` chunks is from its end, when it has sent `k`. -/
def rank (total k : ℕ) (q : Process) : ℕ :=
  4 * (total - k) + match q.session.next with
    | .closed => if q.session.processor.winSize = 0 then 3 else 1
    | .done => 2
    | _ => 0

/-- A step of the transfer that succeeds leads nearer to the end. -/
theorem Moves.rank_lt {k : ℕ} {c : Party} (hm : Moves bo f k env₁ q c) (h : Sending f k q)
    (hs : env₁.Succeeds) (hc : c.error = none) :
    rank f.chunks (k + if q.session.next = .closed then c.state.out.length else 0) c.state <
      rank f.chunks k q := by
  cases hm with
  | windowOver hnext hwin =>
    rw [if_pos hnext]
    have hout : (q.clear.setNext .done).out.length = 0 := rfl
    simp [hout, rank, hnext, hwin]
  | sendData hnext hwin b hb =>
    rw [if_pos hnext]
    have hle : k + 1 ≤ f.chunks :=
      (@Sending.sendData bo _ _ _ _ h.clear hnext rfl hwin hs.sendto _ hb).1.reads.le_chunks
    have hout : (sentData bo env₁ b q.clear).out.length = 1 := length_out_sentData rfl hs.sendto b
    have hnext' : (sentData bo env₁ b q.clear).session.next = .closed := hnext
    simp only [hout, rank, hnext, hnext', if_neg hwin]
    split <;> omega
  | exit => simp at hc
  | receiveOk hnext d =>
    rw [if_neg (by simp [hnext])]
    cases hf : q.txFactory.fin with
    | true => simp [rank, hnext]
    | false =>
      simp only [rank, hnext, Process.endWindow_session_next]
      simp
      decide

/-- If the file ends in a chunk that is read, the transfer does not fail. -/
theorem Moves.error_eq_none {k last : ℕ} {c : Party} (hm : Moves bo f k env₁ q c)
    (h : Sending f k q) (hend : f.EndsIn last) (hmax : last < MAX_CHUNKS) : c.error = none := by
  cases hm with
  | exit hnext hwin hex =>
    have hfin := h.fin_of_winSize hnext hwin
    have hle : k ≤ last := by
      have hlt := (h.reads.inside hfin).trans_lt hend.2
      exact Nat.lt_succ_iff.1 (Nat.lt_of_mul_lt_mul_right hlt)
    rcases hex with hk | hk
    · have hlow := hend.1
      have hhigh := hend.2
      rw [← hk] at hlow
      exact absurd (Nat.lt_of_mul_lt_mul_right hlow) (not_lt.2 hle)
    · omega
  | _ => rfl

/-- The data capsules sent by a step. -/
theorem length_dataSent_succ {n : ℕ} (halive : (run bo p env n).Alive Process.returned) :
    (dataSent bo p env (n + 1)).length = (dataSent bo p env n).length +
      if (run bo p env n).state.session.next = .closed
      then (run bo p env (n + 1)).state.out.length else 0 := by
  rw [dataSent, List.length_append]
  by_cases hclosed : (run bo p env n).state.session.next = .closed
  · rw [if_pos hclosed, if_pos ⟨halive, hclosed⟩]
  · rw [if_neg hclosed, if_neg fun h => hclosed h.2]
    rfl

/-- What the steps of a run do once the transfer has begun. -/
theorem moves_run (hst : Steady p) (hdir : p.session.dir = .TX) (h : Sending f 0 p)
    (hs : ∀ n, (env n).Succeeds) (hd : Answered bo p env) {m : ℕ}
    (hlate : Late inf (run bo p env m).state) (haddr : ¬inf.NoAddress) (n : ℕ)
    (halive : (run bo p env (m + n)).Alive Process.returned) :
    Sending f (dataSent bo p env (m + n)).length (run bo p env (m + n)).state ∧
      Moves bo f (dataSent bo p env (m + n)).length (env (m + n)) (run bo p env (m + n)).state
        (run bo p env (m + n + 1)) := by
  obtain ⟨hst', hdir'⟩ := steady_run_of bo hst env (m + n) halive.1
  have hsending := (@sending_run bo p f hst hdir h env (m + n)).2 halive.1
  refine ⟨hsending, ?_⟩
  rw [run_succ bo halive]
  exact moves_exec hsending (late_run hst hdir hlate n halive.1) haddr hst' (hdir'.trans hdir)
    halive.2 (hs (m + n)) (hd (m + n) halive)

/-- The session comes to its end, unless it fails. -/
theorem stops (hst : Steady p) (hdir : p.session.dir = .TX) (h : Sending f 0 p)
    (hs : ∀ n, (env n).Succeeds) (hd : Answered bo p env) {m : ℕ}
    (hm : (run bo p env m).error = none) (hlate : Late inf (run bo p env m).state)
    (haddr : ¬inf.NoAddress)
    (hgoes : ∀ n, (run bo p env (m + n)).Alive Process.returned →
      (run bo p env (m + n + 1)).error = none) :
    ∃ n, (run bo p env n).error = none ∧ (run bo p env n).state.returned = true := by
  have hstep : ∀ n, (run bo p env n).Alive Process.returned → m ≤ n →
      (run bo p env (n + 1)).error = none ∧ m ≤ n + 1 ∧
        rank f.chunks (dataSent bo p env (n + 1)).length (run bo p env (n + 1)).state <
          rank f.chunks (dataSent bo p env n).length (run bo p env n).state := by
    intro n halive hn
    obtain ⟨j, rfl⟩ := Nat.exists_eq_add_of_le hn
    obtain ⟨hsending, hmoves⟩ := moves_run hst hdir h hs hd hlate haddr j halive
    refine ⟨hgoes j halive, by omega, ?_⟩
    rw [length_dataSent_succ halive]
    exact hmoves.rank_lt hsending (hs (m + j)) (hgoes j halive)
  obtain ⟨n, hn, hreturned, -⟩ := @Conf.runs_stops _ _ _ (step bo) Process.returned p env (m ≤ ·)
    (fun n => rank f.chunks (dataSent bo p env n).length (run bo p env n).state) hstep m hm le_rfl
  exact ⟨n, hn, hreturned⟩

/-- A sender that has sent a chunk had an address to send it to. -/
theorem address_of_dataSent (hst : Steady p) (hdir : p.session.dir = .TX) {n : ℕ}
    (h : dataSent bo p env n ≠ []) :
    ∃ m, (run bo p env m).error = none ∧ (run bo p env m).state.session.next = .closed ∧
      ¬(run bo p env m).state.interfaces.NoAddress := by
  induction n with
  | zero => exact absurd rfl h
  | succ n ih =>
    by_cases hn : dataSent bo p env n = []
    swap
    · exact ih hn
    rw [dataSent, hn, List.nil_append] at h
    split at h
    swap
    · exact absurd rfl h
    rename_i hclosed
    obtain ⟨hst', hdir'⟩ := steady_run_of bo hst env n hclosed.1.1
    have htr := transition_exec bo (env n) hst'
    rw [← run_succ bo hclosed.1] at htr
    refine ⟨n, hclosed.1.1, hclosed.2, ?_⟩
    -- Among the steps in the state `closed`, only sending a data capsule sends something.
    generalize run bo p env (n + 1) = c at htr h
    have hnext := hclosed.2
    cases htr with
    | sendData _ _ _ b _ haddr => exact haddr
    | windowOver => exact absurd rfl h
    | halt _ _ _ _ hio => exact absurd (by rw [Process.out, hio]; rfl) h
    | receiveHello _ hnext' | sendHi _ hnext' | receiveAck _ hnext' | receiveOk _ hnext' =>
      have hnext' : (run bo p env n).state.session.next = _ := hnext'
      rw [hnext] at hnext'
      contradiction
    | sendHello hrx | receiveHi hrx | sendAck hrx | receiveNothing hrx | receiveData hrx | sendOk hrx
    | danglingLast hrx | noAddressOk hrx | danglingWindow hrx =>
      have hrx : (run bo p env n).state.session.dir = .RX := hrx
      rw [hdir', hdir] at hrx
      contradiction

end Run

/-- A sender that has sent its whole file has found its end. -/
theorem endsIn_of_completes {f : File} {p : Process} {env : ℕ → Env} (hst : Steady p)
    (hdir : p.session.dir = .TX) (h : Sending f 0 p) (hcompletes : Completes bo f p env) :
    (∃ n, dataSent bo p env n ≠ []) ∧ ∃ k < MAX_CHUNKS, f.EndsIn k := by
  obtain ⟨n, herror, hreturned, -⟩ := hcompletes
  have hsending := (@sending_run bo p f hst hdir h env n).2 herror
  rw [Process.returned, Bool.and_eq_true, decide_eq_true_eq] at hreturned
  obtain ⟨k, hk, hend⟩ := hsending.reads.last (hsending.completed hreturned.1 hreturned.2)
  refine ⟨⟨n, fun hnil => ?_⟩, k, ?_, hend⟩
  · rw [hnil] at hk
    simp at hk
  · have := hsending.reads.le
    omega

/-- A sender that gets a reply whenever it waits for one, and whose system calls
    succeed, sends its whole file and returns exactly if the file does not end with a
    full chunk, has fewer than `MAX_CHUNKS` chunks, and the peer advertised an address. -/
theorem completes_iff (bo : ByteOrder) (statics : Statics) (addressList : List IpaddrDummy)
    (f : File) (sink : DataSource) (env : ℕ → Env) (hs : ∀ n, (env n).Succeeds)
    (hd : Answered bo (.init .TX statics addressList f.source sink) env) :
    Completes bo f (.init .TX statics addressList f.source sink) env ↔
      ¬PAYLOAD ∣ f.bytes.length ∧ f.bytes.length < MAX_CHUNKS * PAYLOAD ∧
        Offers bo (env 2) (.init .TX statics addressList f.source sink) := by
  set p := Process.init .TX statics addressList f.source sink
  have hst : Steady p := steady_init .TX statics addressList f.source sink
  have hsending : Sending f 0 p := sending_init statics addressList sink
  have hnone : ¬p.interfaces.NoAddress := fun h => h.1 rfl
  obtain ⟨hearly, q, hrun, hnext, hoffers⟩ := handshake hst rfl rfl rfl hnone hs hd
  have hlate : Late q.interfaces (run bo p env 3).state := by
    rw [hrun]
    exact ⟨rfl, .inl hnext⟩
  rw [← and_assoc, ← File.endsIn_iff, hoffers]
  constructor
  · intro h
    obtain ⟨⟨n, hn⟩, hend⟩ := endsIn_of_completes hst rfl hsending h
    refine ⟨hend, ?_⟩
    obtain ⟨m, hm, hclosed, haddr⟩ := address_of_dataSent hst rfl hn
    -- The state `closed` comes after the handshake, and the addresses stay.
    obtain ⟨j, rfl⟩ : ∃ j, m = 3 + j := by
      refine Nat.exists_eq_add_of_le (not_lt.1 fun hlt => ?_)
      -- The first three states are those of the handshake, and `closed` is none of them.
      have hstate := (hearly m hlt).2
      rw [hclosed] at hstate
      exact closed_not_mem_opening (List.mem_of_getElem? hstate)
    rw [← (late_run hst rfl hlate j hm).interfaces]
    exact haddr
  · rintro ⟨⟨last, hmax, hend⟩, haddr⟩
    obtain ⟨n, herror, hreturned⟩ := stops hst rfl hsending hs hd (by rw [hrun]) hlate haddr
      fun n halive => by
        obtain ⟨hsending', hmoves⟩ := moves_run hst rfl hsending hs hd hlate haddr n halive
        exact hmoves.error_eq_none hsending' hend hmax
    obtain ⟨hchunks, hsending'⟩ := @sending_run bo p f hst rfl hsending env n
    have hsending' := hsending' herror
    refine ⟨n, herror, hreturned, ?_⟩
    rw [Process.returned, Bool.and_eq_true, decide_eq_true_eq] at hreturned
    obtain ⟨k, hk, hend'⟩ := hsending'.reads.last (hsending'.completed hreturned.1 hreturned.2)
    have hle := hsending'.reads.le
    rw [hk] at hle
    exact hchunks.whole hk hle hend'

/-! ## A file that ends with a full chunk -/

/-- A file of one full chunk. -/
def fullChunk : File where
  bytes := List.replicate PAYLOAD 0
  length_lt := by
    rw [List.length_replicate]
    decide

/-- The sender of the file, against a peer that answers whenever it waits, does not come
    to its end: after the chunk nothing is left to send. -/
theorem not_completes_fullChunk :
    let p := Process.init .TX {} [] fullChunk.source { fmode := .OUT, fs := {} }
    (announcing 5).Succeeds ∧ Answered .little p (fun _ => announcing 5) ∧
      ¬Completes .little fullChunk p (fun _ => announcing 5) := by
  refine ⟨Env.succeeds_plain _ _, fun _ _ _ => by simp [announcing, Env.plain], fun h => ?_⟩
  obtain ⟨k, -, hlow, hhigh⟩ := (endsIn_of_completes (steady_init .TX _ _ _ _) rfl
    (sending_init _ _ _) h).2
  have hlen : fullChunk.bytes.length = PAYLOAD := List.length_replicate
  rw [hlen] at hlow hhigh
  cases k with
  | zero => simp at hhigh
  | succ k =>
    rw [Nat.succ_mul] at hlow
    omega

/-- For a file of one byte the condition is about the peer only. -/
theorem completes_iff_oneByte :
    Completes .little oneByte oneByteTx (fun _ => announcing 5) ↔
      ¬PAYLOAD ∣ oneByte.bytes.length ∧ oneByte.bytes.length < MAX_CHUNKS * PAYLOAD ∧
        Offers .little (announcing 5) oneByteTx :=
  completes_iff .little {} [] oneByte { fmode := .OUT, fs := {} } (fun _ => announcing 5)
    (fun _ => Env.succeeds_plain _ _) (fun _ _ _ => by simp [announcing, Env.plain])

end Session

end Udm
