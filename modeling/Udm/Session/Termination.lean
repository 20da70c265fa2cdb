import Udm.Session.Completeness

/-!
# The end of a sender

Which state functions `start` calls for a sender, and how long it goes on. After the
handshake come only the calls of `closedState` and `doneState`, in turn. Every window but
the first and the last is full, so there are at most `2 + N / WIN_SIZ` of them for a file
of `N` chunks, whatever window the peer announces first; and a call of `closedState` goes
through its loop at most as often as its window says (`Terminates`).

A step of the model is one test of the loop of `closedState`, so the calls are recorded
along a run (`Calls`): the last of them may be going on.

The invariant is `InWindow f k r`: `k` chunks were sent, and `r` windows are over. Its
inequality `WIN_SIZ * r ≤ k + WIN_SIZ` bounds the windows by the chunks, and there are no
more chunks than the file needs. It has a lemma for each move of the sender (`windowOver`,
`sendData`, `receiveOk`), and `step` puts them together: the exit in `fetchChunk` ends the
run within the bound.
-/

namespace Udm

variable {bo : ByteOrder}

namespace Session

/-- The states whose functions `start` has called, and for the last call the window it
    began with and how often it went through its loop. -/
structure Calls where
  /-- The calls, the first one first. -/
  states : List StateCodes
  /-- What `winSize` was when the last call began. -/
  window : ℕ := 0
  /-- How often the loop of the last call was gone through. -/
  iterations : ℕ := 0

/-- The calls after a step of the sender from `p` to `c`: the step is an iteration of the
    loop of `closedState`, or it ends the last call, and `start` goes on to the next. -/
def Calls.step (p : Process) (c : Party) (l : Calls) : Calls :=
  if p.session.next = .closed ∧ p.session.processor.winSize ≠ 0 then
    { l with iterations := l.iterations + 1 }
  else if c.Alive Process.returned then
    { states := l.states ++ [c.state.session.next]
      window := c.state.session.processor.winSize.toNat }
  else l

/-- The calls along a run of the sender. -/
def calls (bo : ByteOrder) (p : Process) (env : ℕ → Env) : ℕ → Calls
  | 0 => { states := [p.session.next], window := p.session.processor.winSize.toNat }
  | n + 1 =>
    if (run bo p env n).Alive Process.returned
    then (calls bo p env n).step (run bo p env n).state (run bo p env (n + 1))
    else calls bo p env n

/-- `r` windows: in each, one call of `closedState` and one of `doneState`. -/
def windows (r : ℕ) : List StateCodes := (List.replicate r [.closed, .done]).flatten

/-- The step from `p` to `c` ends with the exit in `fetchChunk`. -/
def Exits (env : Env) (p : Process) (c : Party) : Prop :=
  p.session.next = .closed ∧ p.session.processor.winSize ≠ 0 ∧
    (loaded env p.clear).txFactory.fetchChunk = none ∧ c.error = some .exit

/-- What the calls of a sender of the file `f` may be: the handshake, and then no more
    windows than the file needs. -/
structure Calls.Bounded (f : File) (l : Calls) : Prop where
  /-- The handshake, and then `closedState` and `doneState` in turn. -/
  states : ∃ r ≤ 2 + f.chunks / WIN_SIZ, l.states <+: opening ++ windows r
  /-- No loop is gone through more often than its window says. -/
  iterations : l.iterations ≤ l.window

/-- The loop of `start` comes to its end. -/
structure Terminates (bo : ByteOrder) (f : File) (p : Process) (env : ℕ → Env) : Prop where
  /-- The calls are bounded at all times. -/
  bounded : ∀ n, (calls bo p env n).Bounded f
  /-- No function is called that the table of `start` does not have. -/
  table : ∀ n, (run bo p env n).Alive Process.returned →
    (run bo p env n).state.session.next ∉ [StateCodes.inq, .send, .recv]
  /-- The session returns, or exits in `fetchChunk`. -/
  stops : ∃ n, (run bo p env n).error = none ∧ (run bo p env n).state.returned = true ∨
    (run bo p env n).Alive Process.returned ∧
      Exits (env n) (run bo p env n).state (run bo p env (n + 1))

/-- One window more. -/
theorem windows_succ (r : ℕ) : windows (r + 1) = windows r ++ [.closed, .done] := by
  rw [windows, windows, List.replicate_succ', List.flatten_append, List.flatten_singleton]

/-! ## The windows -/

variable {f : File} {k r : ℕ} {env : Env} {p q : Process} {c : Party} {l : Calls}

/-- The sender is in its window after `r` others, and has sent `k` chunks. All windows
    but the first are full, so long as the end of the file has not been found. -/
structure InWindow (f : File) (k r : ℕ) (q : Process) (l : Calls) : Prop where
  /-- The handshake, the windows that are over, and the one that is going on. -/
  states : l.states = opening ++ windows r ++
    if q.session.next = .closed then [.closed] else [.closed, .done]
  /-- The first window may be short. -/
  before : WIN_SIZ * r ≤ k + WIN_SIZ
  /-- The chunks of this window and those that it still may have fill it. -/
  counted : q.session.next = .closed → q.txFactory.fin = false →
    WIN_SIZ * r ≤ k + q.session.processor.winSize.toNat ∧
      l.iterations + q.session.processor.winSize.toNat = l.window
  /-- A window that is over was filled. -/
  full : q.session.next = .done → q.txFactory.fin = false → WIN_SIZ * r ≤ k
  /-- The loop counts the window down. -/
  iterations : l.iterations ≤ l.window

/-- A step of the transfer only fails with the exit in `fetchChunk`. -/
theorem Moves.exits (hm : Moves bo f k env q c) (hc : c.error ≠ none) : Exits env q c := by
  cases hm with
  | exit hnext hwin _ hb =>
    refine ⟨hnext, hwin, ?_, rfl⟩
    rw [DataFactory.fetchChunk, DataFactory.tryPop_fst, hb]
    rfl
  | _ => exact absurd rfl hc

namespace InWindow

/-- There are no more windows than the file needs. -/
theorem bounded (h : InWindow f k r q l) (hk : k ≤ f.chunks) : l.Bounded f where
  states := by
    have hle : r + 1 ≤ 2 + f.chunks / WIN_SIZ := by
      have hbefore : WIN_SIZ * (r - 1) ≤ f.chunks := by
        have := h.before
        rw [Nat.mul_sub_one]
        omega
      have := (Nat.le_div_iff_mul_le (show 0 < WIN_SIZ by decide)).2 (Nat.mul_comm _ _ ▸ hbefore)
      omega
    refine ⟨r + 1, hle, ?_⟩
    rw [h.states, windows_succ, ← List.append_assoc, List.prefix_append_right_inj]
    split
    · exact ⟨[.done], rfl⟩
    · exact List.prefix_rfl
  iterations := h.iterations

/-- The first window. -/
theorem first (hstates : l.states = opening ++ [.closed]) (hnext : q.session.next = .closed)
    (hwindow : l.window = q.session.processor.winSize.toNat) (hiter : l.iterations = 0) :
    InWindow f k 0 q l where
  states := by
    rw [hstates, if_pos hnext]
    rfl
  before := by omega
  counted := fun _ _ => ⟨by omega, by omega⟩
  full := fun _ _ => by omega
  iterations := by omega

/-- The end of a window. -/
theorem windowOver (h : InWindow f k r q l)
    (hnext : q.session.next = .closed) (hwin : q.session.processor.winSize = 0) :
    InWindow f k r (q.clear.setNext .done) (l.step q { state := q.clear.setNext .done }) := by
  have halive : Conf.Alive Process.returned ({ state := q.clear.setNext .done } : Party) :=
    ⟨rfl, by simp [Process.returned]⟩
  have hl : l.step q { state := q.clear.setNext .done } =
      { states := l.states ++ [.done], window := 0 } := by
    rw [Calls.step, if_neg (by simp [hwin]), if_pos halive]
    simp [hwin]
  rw [hl]
  refine ⟨?_, h.before, fun hclosed => by simp at hclosed, ?_, le_rfl⟩
  · rw [h.states, if_pos hnext, if_neg (by simp), List.append_assoc]
    rfl
  · intro _ hfin
    have hcounted := (h.counted hnext hfin).1
    rw [hwin] at hcounted
    exact hcounted

/-- An iteration of the loop that sends the next chunk. -/
theorem sendData (h : InWindow f k r q l) (hsending : Sending f k q)
    (hnext : q.session.next = .closed) (hwin : q.session.processor.winSize ≠ 0)
    (hsend : env.sendto = true) {b : MemBuff}
    (hb : (loaded env q.clear).txFactory.buffer.head? = some b) :
    InWindow f (k + 1) r (sentData bo env b q.clear)
      (l.step q { state := sentData bo env b q.clear }) := by
  have hfin := hsending.fin_of_winSize hnext hwin
  obtain ⟨-, -, hfin', hwin', -⟩ :=
    @reads_sentData bo env q.clear f k hsending.reads hfin rfl hwin hsend b hb
  have hnext' : (sentData bo env b q.clear).session.next = .closed := hnext
  have hpos := toNat_pos hwin
  obtain ⟨hcounted, hiter⟩ := h.counted hnext hfin
  have hbefore := h.before
  rw [Calls.step, if_pos ⟨hnext, hwin⟩]
  refine ⟨?_, by omega, ?_, fun hdone => by simp [hnext'] at hdone, ?_⟩
  · rw [if_pos hnext', h.states, if_pos hnext]
  · intro _ hf
    rw [hfin'] at hf
    have hsub : (q.clear.session.processor.winSize - 1).toNat =
        q.session.processor.winSize.toNat - 1 := toNat_sub_one hwin
    rw [hwin', if_neg (of_decide_eq_false hf), hsub]
    dsimp only
    omega
  · dsimp only
    omega

/-- The acknowledgement of a window, if another one follows. -/
theorem receiveOk (h : InWindow f k r q l) (hnext : q.session.next = .done)
    (hfin : q.txFactory.fin = false) (d : List Byte) :
    let q' := (received bo env q.clear d).popRx.endWindow q.txFactory.fin
    InWindow f k (r + 1) q' (l.step q { state := q' }) := by
  intro q'
  have hnext' : q'.session.next = .closed := by simp [q', hfin]
  have hwin : q'.session.processor.winSize.toNat = WIN_SIZ := by
    simp only [q', hfin]
    rfl
  have hl : l.step q { state := q' } = { states := l.states ++ [.closed], window := WIN_SIZ } := by
    rw [Calls.step, if_neg (by simp [hnext]), if_pos ⟨rfl, by simp [Process.returned, hnext']⟩]
    simp only [hnext', hwin]
  have hfull : WIN_SIZ * (r + 1) ≤ k + WIN_SIZ := by
    rw [Nat.mul_succ]
    exact Nat.add_le_add_right (h.full hnext hfin) _
  rw [hl]
  refine ⟨?_, hfull, fun _ _ => ?_, fun hdone => ?_, Nat.zero_le _⟩
  · rw [h.states, if_neg (by simp [hnext]), if_pos hnext', windows_succ]
    simp only [List.append_assoc]
  · rw [hwin]
    exact ⟨hfull, Nat.zero_add _⟩
  · rw [hnext'] at hdone
    contradiction

/-- What a step does to the calls. -/
theorem step (h : InWindow f k r q l) (hsending : Sending f k q) (hs : env.Succeeds)
    (hm : Moves bo f k env q c) :
    (c.error = none ∧ ∃ r, InWindow f
      (k + if q.session.next = .closed then c.state.out.length else 0) r c.state (l.step q c)) ∨
    ¬c.Alive Process.returned ∧ (l.step q c).Bounded f := by
  cases hm with
  | windowOver hnext hwin =>
    have hout : (q.clear.setNext .done).out.length = 0 := rfl
    rw [if_pos hnext, hout]
    exact .inl ⟨rfl, r, h.windowOver hnext hwin⟩
  | sendData hnext hwin b hb =>
    have hout : (sentData bo env b q.clear).out.length = 1 := length_out_sentData rfl hs.sendto b
    rw [if_pos hnext, hout]
    exact .inl ⟨rfl, r, h.sendData hsending hnext hwin hs.sendto hb⟩
  | exit hnext hwin =>
    -- The iteration has begun, and the calls are those there were.
    have hpos := toNat_pos hwin
    have hiter := (h.counted hnext (hsending.fin_of_winSize hnext hwin)).2
    have hbounded := h.bounded hsending.reads.le_chunks
    refine .inr ⟨fun halive => by simp [Conf.Alive] at halive, ?_⟩
    rw [Calls.step, if_pos ⟨hnext, hwin⟩]
    refine ⟨hbounded.states, ?_⟩
    dsimp only
    omega
  | receiveOk hnext d =>
    rw [if_neg (by simp [hnext]), Nat.add_zero]
    cases hfin : q.txFactory.fin with
    | false =>
      have := @receiveOk bo f k r env q l h hnext hfin d
      rw [hfin] at this
      exact .inl ⟨rfl, r + 1, this⟩
    | true =>
      have hdead : ¬Conf.Alive Process.returned
          ({ state := (received bo env q.clear d).popRx.endWindow true } : Party) :=
        fun halive => by simp [Conf.Alive, Process.returned] at halive
      refine .inr ⟨hdead, ?_⟩
      rw [Calls.step, if_neg (by simp [hnext]), if_neg hdead]
      exact h.bounded hsending.reads.le_chunks

end InWindow

/-! ## Runs -/

section Run

variable {env : ℕ → Env}

/-- As long as the session goes on, a step is one more in its calls. -/
theorem calls_succ {n : ℕ} (h : (run bo p env n).Alive Process.returned) :
    calls bo p env (n + 1) = (calls bo p env n).step (run bo p env n).state (run bo p env (n + 1)) :=
  if_pos h

section Opening

variable (hopening : ∀ n < 3, (run bo p env n).Alive Process.returned ∧
  opening[n]? = some (run bo p env n).state.session.next)
include hopening

/-- A step of the handshake ends a call. -/
theorem calls_succ_of_opening {n : ℕ} (hn : n < 3)
    (halive : (run bo p env (n + 1)).Alive Process.returned) :
    calls bo p env (n + 1) =
      { states := (calls bo p env n).states ++ [(run bo p env (n + 1)).state.session.next]
        window := (run bo p env (n + 1)).state.session.processor.winSize.toNat } := by
  have hne : (run bo p env n).state.session.next ≠ .closed := fun hclosed =>
    closed_not_mem_opening (List.mem_of_getElem? (hclosed ▸ (hopening n hn).2))
  rw [calls_succ (hopening n hn).1, Calls.step, if_neg fun h => hne h.1, if_pos halive]

/-- The calls of the handshake. -/
theorem calls_opening {n : ℕ} (hn : n < 3) :
    (calls bo p env n).states = opening.take (n + 1) ∧ (calls bo p env n).iterations = 0 := by
  rw [List.take_add_one, (hopening n hn).2]
  cases n with
  | zero => exact ⟨rfl, rfl⟩
  | succ n =>
    have ih := calls_opening (Nat.lt_of_succ_lt hn)
    rw [calls_succ_of_opening hopening (Nat.lt_of_succ_lt hn) (hopening _ hn).1, ih.1]
    exact ⟨rfl, rfl⟩

end Opening

variable {inf : PhyInterfaces}

/-- After the handshake, the sender is in a window, or its run is over. -/
theorem inWindow_run (hst : Steady p) (hdir : p.session.dir = .TX) (h : Sending f 0 p)
    (hs : ∀ n, (env n).Succeeds) (hd : Answered bo p env) {m : ℕ}
    (hlate : Late inf (run bo p env m).state) (haddr : ¬inf.NoAddress)
    (hm : (run bo p env m).error = none)
    (hfirst : InWindow f (dataSent bo p env m).length 0 (run bo p env m).state (calls bo p env m))
    (n : ℕ) :
    ((run bo p env (m + n)).error = none ∧ ∃ r, InWindow f (dataSent bo p env (m + n)).length r
      (run bo p env (m + n)).state (calls bo p env (m + n))) ∨
    ¬(run bo p env (m + n)).Alive Process.returned ∧ (calls bo p env (m + n)).Bounded f := by
  induction n with
  | zero => exact .inl ⟨hm, 0, hfirst⟩
  | succ n ih =>
    rw [← Nat.add_assoc]
    by_cases halive : (run bo p env (m + n)).Alive Process.returned
    · obtain ⟨hsending, hmoves⟩ := moves_run hst hdir h hs hd hlate haddr n halive
      obtain ⟨-, r, hwindow⟩ := ih.resolve_right fun hdead => hdead.1 halive
      rw [calls_succ halive, length_dataSent_succ halive]
      exact hwindow.step hsending (hs (m + n)) hmoves
    · -- The run is over.
      have hstop : run bo p env (m + n + 1) = run bo p env (m + n) := if_neg halive
      have hcalls : calls bo p env (m + n + 1) = calls bo p env (m + n) := if_neg halive
      rwa [hcalls, dataSent_of_not_alive halive, hstop]

/-- The sender returns, or exits when it has nothing to send. -/
theorem stops_or_exits (hst : Steady p) (hdir : p.session.dir = .TX) (h : Sending f 0 p)
    (hs : ∀ n, (env n).Succeeds) (hd : Answered bo p env) {m : ℕ}
    (hm : (run bo p env m).error = none) (hlate : Late inf (run bo p env m).state)
    (haddr : ¬inf.NoAddress) :
    ∃ n, (run bo p env n).error = none ∧ (run bo p env n).state.returned = true ∨
      (run bo p env n).Alive Process.returned ∧
        Exits (env n) (run bo p env n).state (run bo p env (n + 1)) := by
  by_cases hexit : ∃ n, (run bo p env n).Alive Process.returned ∧
      Exits (env n) (run bo p env n).state (run bo p env (n + 1))
  · obtain ⟨n, hexit⟩ := hexit
    exact ⟨n, .inr hexit⟩
  obtain ⟨n, hstop⟩ := stops hst hdir h hs hd hm hlate haddr fun n halive => by
    obtain ⟨-, hmoves⟩ := moves_run hst hdir h hs hd hlate haddr n halive
    by_contra herror
    exact hexit ⟨m + n, halive, hmoves.exits herror⟩
  exact ⟨n, .inl hstop⟩

end Run

/-- A sender that gets a reply whenever it waits for one, whose system calls succeed, and
    to which the peer advertised an address, comes to its end, whatever the size of its
    file and the first window. -/
theorem terminates (bo : ByteOrder) (statics : Statics) (addressList : List IpaddrDummy)
    (f : File) (sink : DataSource) (env : ℕ → Env) (hs : ∀ n, (env n).Succeeds)
    (hd : Answered bo (.init .TX statics addressList f.source sink) env)
    (haddr : Offers bo (env 2) (.init .TX statics addressList f.source sink)) :
    Terminates bo f (.init .TX statics addressList f.source sink) env := by
  set p := Process.init .TX statics addressList f.source sink
  have hst : Steady p := steady_init .TX statics addressList f.source sink
  have hsending : Sending f 0 p := sending_init statics addressList sink
  obtain ⟨hopening, q, hrun, hnext, hoffers⟩ := handshake hst rfl rfl rfl (fun h => h.1 rfl) hs hd
  have haddr' : ¬q.interfaces.NoAddress := hoffers.1 haddr
  have halive : (run bo p env 3).Alive Process.returned := by
    rw [hrun]
    exact ⟨rfl, by simp [Process.returned, hnext]⟩
  have hlate : Late q.interfaces (run bo p env 3).state := by
    rw [hrun]
    exact ⟨rfl, .inl hnext⟩
  have hfirst : InWindow f (dataSent bo p env 3).length 0 (run bo p env 3).state
      (calls bo p env 3) := by
    have hcalls := calls_succ_of_opening hopening (show 2 < 3 by decide) halive
    have hstates := (calls_opening hopening (show 2 < 3 by decide)).1
    rw [hcalls, hrun, hstates]
    exact .first (by rw [hnext]; rfl) hnext rfl rfl
  constructor
  case bounded =>
    intro n
    -- The handshake takes three steps, and the windows begin with the fourth.
    rcases Nat.lt_or_ge n 3 with hn | hn
    · obtain ⟨hstates, hiter⟩ := calls_opening hopening hn
      refine ⟨⟨0, Nat.zero_le _, ?_⟩, hiter ▸ Nat.zero_le _⟩
      rw [hstates]
      exact (List.take_prefix _ _).trans (List.prefix_append _ _)
    · obtain ⟨n, rfl⟩ := Nat.exists_eq_add_of_le hn
      rcases inWindow_run hst rfl hsending hs hd hlate haddr' halive.1 hfirst n with
        ⟨herror, r, hwindow⟩ | ⟨-, hbounded⟩
      · exact hwindow.bounded ((sending_run hst rfl hsending env (3 + n)).2 herror).reads.le_chunks
      · exact hbounded
  case table =>
    intro n hn
    have hstates : (run bo p env n).state.session.next ∈ opening ++ [.closed, .done] := by
      rcases Nat.lt_or_ge n 3 with hlt | hge
      · exact List.mem_append_left _ (List.mem_of_getElem? (hopening n hlt).2)
      · obtain ⟨n, rfl⟩ := Nat.exists_eq_add_of_le hge
        have hnext' := (late_run hst rfl hlate n hn.1).next
        rw [hn.2] at hnext'
        exact List.mem_append_right _ (by simpa using hnext')
    revert hstates
    generalize (run bo p env n).state.session.next = next
    revert next
    decide
  case stops => exact stops_or_exits hst rfl hsending hs hd (by rw [hrun]) hlate haddr'

/-- The peer advertises `"10.0.0.1"`, which is not the loopback address. -/
theorem offers_oneByte : Offers .little (announcing 5) oneByteTx := by
  intro d hd
  obtain rfl : CapsuleHdr.encode .little { capSize := 15, capWinSiz := 5 } ++
      SessionProcessor.private10.data = d := Option.some.inj hd
  decide +kernel

/-- A file of one byte, against a peer that always announces a window of five. -/
theorem terminates_oneByte : Terminates .little oneByte oneByteTx (fun _ => announcing 5) :=
  terminates .little {} [] oneByte { fmode := .OUT, fs := {} } (fun _ => announcing 5)
    (fun _ => Env.succeeds_plain _ _) (fun _ _ _ => by simp [announcing, Env.plain]) offers_oneByte

end Session

end Udm
