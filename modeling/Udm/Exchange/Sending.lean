import Udm.Exchange.Messages

/-!
# The sender of an exchange

The sender of a file plays the sender of the protocol (`sends`). It numbers the
chunks from one, so the data capsules it has sent hold the first chunks, and the
windows in which it has sent them (`Site.sentWindows`) are those the protocol counts.

A state of the process and a state of the protocol correspond (`Site.PlaysSender`) if

* what was sent, window by window, holds the chunks that the protocol has counted (`Counts`).
  This is read off the past of the site, and still holds when the sender has failed;
* and, while the sender goes on, the process is in the state of the phase, with the same window, and
  has an address to send to exactly if the protocol's sender reaches its peer (`SenderAt`).

There is one lemma for each phase (`step_hello`, `step_hi`, `step_ack`, `step_data`, `step_ok`), and
one for a call that fails (`step_none`). Each chooses the input of the protocol (`Works`) from the
answers of the system: whether the call of this step succeeds, and whether there is an address. The
protocol halts where the process exits, or where it divides by zero in the choice of an address;
the two are one failure here.

What the process waits for and what it gets are matched by `Sender.Expects`: only the datagram that
ends the handshake has a content that matters. Any other one is taken as it comes.
-/

namespace Udm

open Session Protocol

/-! ## The windows that were sent -/

/-- The data capsules of a sender: those of the windows that were acknowledged, and
    those of the window under way. -/
structure SentWindows where
  /-- The windows that were acknowledged, each with its capsules. -/
  acked : List (List (List Byte)) := []
  /-- What was sent since. -/
  current : List (List Byte) := []

namespace SentWindows

/-- All the data capsules, in the order of sending. -/
def all (w : SentWindows) : List (List Byte) := w.acked.flatten ++ w.current

/-- After a step from the state `next` that has sent the datagrams `out`. In the state
    `done`, a datagram acknowledges the window, if one is taken (`answered`). -/
def step (next : StateCodes) (answered : Bool) (out : List (List Byte)) (w : SentWindows) :
    SentWindows :=
  match next with
  | .closed => { w with current := w.current ++ out }
  | .done => if answered then { acked := w.acked ++ [w.current] } else w
  | .open | .setup | .connected | .inq | .send | .recv => w

/-- A step counts as a window if it was in the state `done` and took a datagram. -/
theorem length_acked_step (w : SentWindows) (next : StateCodes) (answered : Bool)
    {out : List (List Byte)} :
    (w.step next answered out).acked.length =
      w.acked.length + if next = .done then answered.toNat else 0 := by
  cases next <;> cases answered <;> simp [step]

end SentWindows

/-- The windows of a sender: an acknowledgement ends one. -/
def Site.sentWindows (bo : ByteOrder) (t : Site) : SentWindows :=
  t.past.foldl (fun w s =>
    w.step s.1.session.next s.2.datagram.isSome
      (Conf.exec (Session.step bo) s.2 s.1).state.out) {}

/-- One more step of the site. -/
theorem Site.sentWindows_append (bo : ByteOrder) (t : Site) (c : Party) (env : Env) :
    Site.sentWindows bo { conf := c, past := t.past ++ [(t.conf.state, env)] } =
      (t.sentWindows bo).step t.conf.state.session.next env.datagram.isSome
        (Conf.exec (Session.step bo) env t.conf.state).state.out := List.foldl_append

/-! ## The sender and its part -/

/-- The data capsules hold the chunks that the sender `t` has counted. -/
structure Counts (bo : ByteOrder) (f : File) (w : SentWindows) (t : Sender) : Prop where
  /-- The data capsules hold the first chunks, in their order. -/
  chunks : SentChunks bo f w.all
  /-- All of them are counted. -/
  sent : w.all.length = t.sent
  /-- The chunks of the acknowledged windows. -/
  base : w.acked.flatten.length = t.base
  /-- The windows that were acknowledged. -/
  acked : w.acked.length = t.acked

/-- A process that goes on plays the sender `t`. -/
structure SenderAt (f : File) (p : Process) (t : Sender) : Prop where
  /-- The file is read up to the chunk that comes next. -/
  sending : Sending f t.sent p
  /-- The states of the session are the phases of the protocol. -/
  phase_eq : t.phase = phase p
  /-- Without a list of addresses, there is no choice to fail. -/
  early : p.session.next = .open ∨ p.session.next = .setup → ¬p.interfaces.NoAddress
  /-- Once the addresses of the peer are known, one is left or none. -/
  reaches : p.session.next = .closed ∨ p.session.next = .done →
    t.reaches = decide ¬p.interfaces.NoAddress
  /-- The windows are the same. -/
  win : p.session.next = .closed → t.win = p.session.processor.winSize.toNat

/-- The site `s` plays the sender `t`. -/
structure Site.PlaysSender (bo : ByteOrder) (f : File) (s : Site) (t : Sender) : Prop where
  /-- The site is that of a sender, between two steps. -/
  steady : s.Steady .TX
  /-- The sender has halted where the process has failed. -/
  halted : t.halted = s.conf.error.isSome
  /-- What was sent is what the protocol has counted. -/
  counts : Counts bo f (s.sentWindows bo) t
  /-- A process that goes on is where the sender is. -/
  alive : s.conf.error = none → SenderAt f s.conf.state t

/-- What a step from `p` leads to, on both sides. -/
structure SenderStep (bo : ByteOrder) (env : Env) (f : File) (w : SentWindows) (p : Process)
    (c : Party) (r : Sender × List Msg) : Prop where
  /-- The sender halts where the process fails. -/
  halted : r.1.halted = c.error.isSome
  /-- What the site has sent and taken is what the sender counts. -/
  counts : Counts bo f (w.step p.session.next env.datagram.isSome c.state.out) r.1
  /-- A process that goes on plays the sender after the step. -/
  alive : c.error = none → SenderAt f c.state r.1
  /-- The datagrams sent mean the messages sent. -/
  out : List.Forall₂ (Means bo f) c.state.out r.2

variable {bo : ByteOrder} {env : Env} {f : File} {p : Process} {w : SentWindows} {t : Sender}

namespace Counts

/-- Only the numbers count. -/
theorem congr (h : Counts bo f w t) {t' : Sender} (hsent : t'.sent = t.sent)
    (hbase : t'.base = t.base) (hacked : t'.acked = t.acked) : Counts bo f w t' :=
  ⟨h.chunks, h.sent.trans hsent.symm, h.base.trans hbase.symm, h.acked.trans hacked.symm⟩

/-- Outside the transfer, nothing is counted. -/
theorem step_early (h : Counts bo f w t) {next : StateCodes} (hclosed : next ≠ .closed)
    (hdone : next ≠ .done) (answered : Bool) (out : List (List Byte)) :
    Counts bo f (w.step next answered out) t := by
  cases next with
  | closed | done => contradiction
  | «open» | setup | connected | inq | send | recv => exact h

/-- A step of the transfer that sends nothing. -/
theorem step_nil (h : Counts bo f w t) (answered : Bool) :
    Counts bo f (w.step .closed answered []) t := by
  have : w.step .closed answered [] = w := by simp [SentWindows.step]
  rwa [this]

/-- The next chunk is sent. -/
theorem step_data (h : Counts bo f w t) {d : List Byte} (hd : IsData bo f t.sent (t.sent + 1) d)
    (answered : Bool) (win : ℕ) :
    Counts bo f (w.step .closed answered [d]) { t with sent := t.sent + 1, win } := by
  have hall : (w.step .closed answered [d]).all = w.all ++ [d] := (List.append_assoc _ _ _).symm
  refine ⟨?_, ?_, h.base, h.acked⟩
  · rw [← h.sent] at hd
    rw [hall]
    exact h.chunks.append hd
  · rw [hall, List.length_append, h.sent, List.length_singleton]

/-- The window is acknowledged. -/
theorem step_done (h : Counts bo f w t) (out : List (List Byte)) (phase : Phase) (win : ℕ) :
    Counts bo f (w.step .done true out)
      { t with phase, win, acked := t.acked + 1, base := t.sent } := by
  have hflat : (w.acked ++ [w.current]).flatten = w.all := by simp [SentWindows.all]
  have hall : (w.step .done true out).all = w.all := by
    rw [SentWindows.all, SentWindows.step, if_pos rfl, hflat, List.append_nil]
  refine ⟨hall ▸ h.chunks, hall ▸ h.sent, hflat ▸ h.sent, ?_⟩
  show (w.acked ++ [w.current]).length = t.acked + 1
  rw [List.length_append, h.acked, List.length_singleton]

end Counts

namespace SenderAt

variable (h : SenderAt f p t) (hst : Steady p) (hdir : p.session.dir = .TX)
  (hcounts : Counts bo f w t) (hhalted : t.halted = false)

/-- A step that fails. -/
theorem step_error (hst : Steady p) (hdir : p.session.dir = .TX) (hcounts : Counts bo f w t)
    (hdone : p.session.next = .done → env.datagram = none)
    (hc : (Conf.exec (step bo) env p).error ≠ none) :
    SenderStep bo env f w p (Conf.exec (step bo) env p) ({ t with halted := true }, []) := by
  have hout := out_of_error hdir (transition_exec bo env hst) hc
  refine ⟨(Option.isSome_iff_ne_none.2 hc).symm, ?_, fun h => absurd h hc, by rw [hout]; exact .nil⟩
  rw [hout]
  have hcounts' : Counts bo f w { t with halted := true } := hcounts.congr rfl rfl rfl
  -- In the transfer, what a step sends counts, and nothing was sent.
  by_cases hclosed : p.session.next = .closed
  · rw [hclosed]
    exact hcounts'.step_nil _
  by_cases hdone' : p.session.next = .done
  · -- Without a datagram, the window is not acknowledged.
    rw [hdone', hdone hdone']
    exact hcounts'
  · exact hcounts'.step_early hclosed hdone' _ []

include h hst hdir hcounts hhalted

/-- The hello is received. -/
theorem step_hello (hnext : p.session.next = .open) {d : List Byte} (hd : env.datagram = some d)
    (m : Msg) : ∃ i, Works env i ∧
      SenderStep bo env f w p (Conf.exec (step bo) env p) (t.step f.toSource i (some m)) := by
  have hphase : t.phase = .hello := by rw [h.phase_eq, phase, hnext]
  refine ⟨⟨true, env.getnameinfo⟩, fun hname _ => hname, ?_⟩
  cases hname : env.getnameinfo with
  | false =>
    -- Without a name for the sender of the hello, the process exits.
    have hc : (Conf.exec (step bo) env p).error ≠ none := fun hc => by
      simp [getnameinfo_of_exec hdir hnext hc] at hname
    have hstep : t.step f.toSource ⟨true, false⟩ (some m) = ({ t with halted := true }, []) := by
      simp [Sender.step, hhalted, hphase]
    rw [hstep]
    exact step_error hst hdir hcounts (by simp [hnext]) hc
  | true =>
    have hstep : t.step f.toSource ⟨true, true⟩ (some m) = ({ t with phase := .hi }, []) := by
      simp [Sender.step, hhalted, hphase]
    have hexec := @exec_receiveHello bo env p hst hdir hnext d hd hname
    have htr := transition_exec bo env hst
    rw [hstep]
    rw [hexec] at htr ⊢
    have hreturned : p.returned = false := by simp [Process.returned, hnext]
    obtain ⟨-, hsending⟩ := (h.sending.step hdir hreturned htr rfl).resolve_left (by simp [hnext])
    refine ⟨hhalted, ?_, fun _ => ⟨hsending, rfl, fun _ => h.early (.inl hnext), ?_, ?_⟩, .nil⟩
    · exact (hcounts.step_early (by simp [hnext]) (by simp [hnext]) _ _).congr rfl rfl rfl
    · rintro (hclosed | hdone)
      · simp [opened] at hclosed
      · simp [opened] at hdone
    · intro hclosed
      simp [opened] at hclosed

/-- The addresses are sent. -/
theorem step_hi (hnext : p.session.next = .setup) : ∃ i, Works env i ∧
      SenderStep bo env f w p (Conf.exec (step bo) env p) (t.step f.toSource i none) := by
  have hphase : t.phase = .hi := by rw [h.phase_eq, phase, hnext]
  refine ⟨⟨true, env.sendto⟩, fun _ hsend => hsend, ?_⟩
  cases hsend : env.sendto with
  | false =>
    -- If the datagram is not sent, the process exits, unlike where the receiver answers.
    have hc : (Conf.exec (step bo) env p).error ≠ none := fun hc => by
      simp [(sends_of_exec hdir hnext hc).2] at hsend
    have hstep : t.step f.toSource ⟨true, false⟩ none = ({ t with halted := true }, []) := by
      simp [Sender.step, hhalted, hphase]
    rw [hstep]
    exact step_error hst hdir hcounts (by simp [hnext]) hc
  | true =>
    have hstep : t.step f.toSource ⟨true, true⟩ none = ({ t with phase := .ack }, [.hi]) := by
      simp [Sender.step, hhalted, hphase]
    have haddr := h.early (.inr hnext)
    have hexec := @exec_sendHi bo env p hdir hnext haddr hsend
    have htr := transition_exec bo env hst
    have hcomplete := (h.sending.opening (.inr hnext)).2
    rw [hstep]
    rw [hexec] at htr ⊢
    have hreturned : p.returned = false := by simp [Process.returned, hnext]
    obtain ⟨-, hsending⟩ := (h.sending.step hdir hreturned htr rfl).resolve_left (by simp [hnext])
    have hout : (sentHi bo env p.clear).out = [(hi env p.clear).wire bo] := by
      simp [Process.out, sentHi, Process.sendControl, hsend]
    refine ⟨hhalted, ?_, fun _ => ⟨hsending, ?_, fun _ => haddr, ?_, ?_⟩, ?_⟩
    · exact (hcounts.step_early (by simp [hnext]) (by simp [hnext]) _ _).congr rfl rfl rfl
    · show Phase.ack = if p.session.complete then _ else _
      rw [hcomplete]
      rfl
    · rintro (hclosed | hdone)
      · simp [sentHi] at hclosed
      · simp [sentHi] at hdone
    · intro hclosed
      simp [sentHi] at hclosed
    · show List.Forall₂ (Means bo f) (sentHi bo env p.clear).out [.hi]
      rw [hout]
      exact .cons (means_hi f) .nil

/-- The handshake is acknowledged. -/
theorem step_ack (hnext : p.session.next = .connected) (hcomplete : p.session.complete = false)
    {d : List Byte} (hd : env.datagram = some d) {win : ℕ} (hm : Means bo f d (.ack win)) :
    ∃ i, Works env i ∧
      SenderStep bo env f w p (Conf.exec (step bo) env p)
        (t.step f.toSource i (some (.ack win))) := by
  have hphase : t.phase = .ack := by simp [h.phase_eq, phase, hnext, hcomplete]
  have hexec := @exec_receiveAck bo env p hst hdir hnext d hd
  set q := connected bo env d p.clear with hq
  -- The list may be of loopback addresses only, so whether the sender reaches its peer is decided
  -- here.
  refine ⟨⟨decide ¬q.interfaces.NoAddress, true⟩, fun _ _ => rfl, ?_⟩
  have hstep : t.step f.toSource ⟨decide ¬q.interfaces.NoAddress, true⟩ (some (.ack win)) =
      ({ t with phase := .data, win, reaches := decide ¬q.interfaces.NoAddress }, []) := by
    simp [Sender.step, hhalted, hphase]
  have htr := transition_exec bo env hst
  rw [hstep]
  rw [hexec] at htr ⊢
  have hreturned : p.returned = false := by simp [Process.returned, hcomplete]
  obtain ⟨-, hsending⟩ := (h.sending.step hdir hreturned htr rfl).resolve_left (by simp [hnext])
  have hout : q.out = [] := by simp [hq, connected, Process.out]
  have hwin : q.session.processor.winSize =
      (Gateway.pulled bo env p.clear d).data.header.capWinSiz.setWidth 16 := rfl
  have hheader : (Gateway.pulled bo env p.clear d).data.header =
      .decode bo (d.take HEADER_SPACE) := (Gateway.carries_pulled hst.chunkSize hm.1).header
  refine ⟨hhalted, ?_, fun _ => ⟨hsending, rfl, ?_, fun _ => rfl, fun _ => ?_⟩, ?_⟩
  · exact (hcounts.step_early (by simp [hnext]) (by simp [hnext]) _ _).congr rfl rfl rfl
  · rintro (hopen | hsetup)
    · simp [hq, connected] at hopen
    · simp [hq, connected] at hsetup
  · rw [hwin, hheader, BitVec.toNat_setWidth_of_le (by decide)]
    exact hm.2.symm
  · show List.Forall₂ (Means bo f) q.out []
    rw [hout]
    exact .nil

/-- A step of the transfer: the window is over, or the next chunk is sent. -/
theorem step_data (hnext : p.session.next = .closed) : ∃ i, Works env i ∧
      SenderStep bo env f w p (Conf.exec (step bo) env p) (t.step f.toSource i none) := by
  have hphase : t.phase = .data := by rw [h.phase_eq, phase, hnext]
  have hwin := h.win hnext
  have hreaches := h.reaches (.inl hnext)
  refine ⟨⟨true, env.sendto⟩, fun _ hsend => hsend, ?_⟩
  by_cases hzero : p.session.processor.winSize = 0
  · have hstep : t.step f.toSource ⟨true, env.sendto⟩ none = ({ t with phase := .ok }, []) := by
      simp [Sender.step, hhalted, hphase, hwin, hzero]
    have htr := transition_exec bo env hst
    have hreturned : p.returned = false := by simp [Process.returned, hnext]
    rw [hstep]
    rw [exec_windowOver hnext hzero] at htr ⊢
    obtain ⟨-, hsending⟩ := (h.sending.step hdir hreturned htr rfl).resolve_left (by simp [hzero])
    refine ⟨hhalted, ?_, fun _ => ⟨hsending, rfl, by simp, fun _ => hreaches, by simp⟩, .nil⟩
    rw [hnext]
    exact (hcounts.step_nil _).congr rfl rfl rfl
  -- The window is open: a chunk is sent if there is one, an address is left, and the datagram is
  -- sent.
  have hne : t.win ≠ 0 := fun heq => hzero (BitVec.eq_of_toNat_eq (hwin.symm.trans heq))
  have hfin := h.sending.fin_of_winSize hnext hzero
  have hsource : f.toSource.exhausted t.sent = decide (f.Exhausted t.sent) := rfl
  by_cases hgo : ¬f.Exhausted t.sent ∧ ¬p.interfaces.NoAddress ∧ env.sendto = true
  · obtain ⟨hex, haddr, hsend⟩ := hgo
    obtain ⟨b, hbuffer, -⟩ := h.sending.reads.updateDataSource hfin hex env.heap
    have hb : (loaded env p.clear).txFactory.buffer.head? = some b := by
      have hbuffer' : (loaded env p.clear).txFactory.buffer = [b] := hbuffer
      rw [hbuffer']
      rfl
    have hsending : Sending f t.sent p.clear := h.sending.clear
    obtain ⟨hsending', d, hout, hd⟩ := @Sending.sendData bo _ _ _ _ hsending hnext rfl hzero hsend _ hb
    obtain ⟨-, -, -, hwin', -⟩ := @reads_sentData bo _ _ _ _ hsending.reads hfin rfl hzero hsend _ hb
    have hlt : t.sent * PAYLOAD < f.bytes.length :=
      lt_of_le_of_ne (h.sending.reads.inside hfin) fun e => hex (.inl e)
    have hmax : t.sent < MAX_CHUNKS :=
      lt_of_le_of_ne h.sending.reads.le fun e => hex (.inr e)
    have hstep : t.step f.toSource ⟨true, env.sendto⟩ none =
        ({ t with sent := t.sent + 1, win := if f.EndsIn t.sent then 0 else t.win - 1 },
          [.data t.sent]) := by
      simp [Sender.step, hhalted, hphase, hne, hsource, hex, hreaches, haddr, hsend]
    rw [hstep, exec_sendData hdir hnext hzero hb haddr hsend]
    refine ⟨hhalted, ?_, fun _ => ⟨hsending', ?_, fun _ => haddr, fun _ => hreaches, fun _ => ?_⟩, ?_⟩
    · rw [hnext, hout]
      exact hcounts.step_data hd _ _
    · have hnext' : (sentData bo env b p.clear).session.next = .closed := hnext
      simp [hphase, phase, hnext']
    · rw [hwin']
      have hwin : p.clear.session.processor.winSize = p.session.processor.winSize := rfl
      split
      · rfl
      · rw [hwin, toNat_sub_one hzero, h.win hnext]
    · show List.Forall₂ (Means bo f) (sentData bo env b p.clear).out _
      rw [hout]
      exact .cons ⟨hd, hlt, hmax⟩ .nil
  · -- Nothing can be sent.
    have hc : (Conf.exec (step bo) env p).error ≠ none := by
      intro hc
      obtain ⟨⟨b, hb⟩, haddr, hsend⟩ := sendsData_of_exec hdir hnext hzero hc
      have hreads : Reads f t.sent p.clear.txFactory := h.sending.reads
      exact hgo ⟨(@reads_sentData bo _ _ _ _ hreads hfin rfl hzero hsend _ hb).1, haddr, hsend⟩
    have hstep : t.step f.toSource ⟨true, env.sendto⟩ none = ({ t with halted := true }, []) := by
      -- One of the three was missing, whichever the process has failed at.
      have hstop : (f.toSource.exhausted t.sent || !t.reaches || !env.sendto) = true := by
        rw [hsource, hreaches]
        by_contra hnot
        simp only [Bool.not_eq_true, Bool.or_eq_false_iff, decide_eq_false_iff_not,
          Bool.not_eq_false', decide_eq_true_eq] at hnot
        exact hgo ⟨hnot.1.1, hnot.1.2, hnot.2⟩
      simp only [Sender.step, hhalted, Bool.false_eq_true, if_false, hphase, if_neg hne, hstop,
        if_true]
    rw [hstep]
    exact step_error hst hdir hcounts (by simp [hnext]) hc

/-- The call for the message that comes next fails. -/
theorem step_none (hnext : p.session.next = .open ∨ p.session.next = .done ∨
    p.session.next = .connected ∧ p.session.complete = false) (hd : env.datagram = none) :
    ∃ i, Works env i ∧
      SenderStep bo env f w p (Conf.exec (step bo) env p) (t.step f.toSource i none) := by
  refine ⟨⟨true, true⟩, fun _ _ => rfl, ?_⟩
  have haw : p.awaits = true := by
    rcases hnext with hnext | hnext | ⟨hnext, -⟩ <;> rw [Process.awaits, hdir, hnext]
  have hc := ((transition_exec bo env hst).stopped_of_none haw hd).1
  have hstep : t.step f.toSource ⟨true, true⟩ none = ({ t with halted := true }, []) := by
    rcases hnext with hnext | hnext | ⟨hnext, hcomplete⟩
    · simp [Sender.step, hhalted, h.phase_eq, phase, hnext]
    · simp [Sender.step, hhalted, h.phase_eq, phase, hnext]
    · simp [Sender.step, hhalted, h.phase_eq, phase, hnext, hcomplete]
  rw [hstep]
  exact step_error hst hdir hcounts (fun _ => hd) hc

/-- The window is acknowledged. -/
theorem step_ok (hnext : p.session.next = .done) {d : List Byte} (hd : env.datagram = some d)
    (m : Msg) : ∃ i, Works env i ∧
      SenderStep bo env f w p (Conf.exec (step bo) env p) (t.step f.toSource i (some m)) := by
  have hphase : t.phase = .ok := by rw [h.phase_eq, phase, hnext]
  refine ⟨⟨true, true⟩, fun _ _ => rfl, ?_⟩
  have htr := transition_exec bo env hst
  have hreturned : p.returned = false := by simp [Process.returned, hnext]
  rw [exec_receiveOk bo hst hdir hnext hd] at htr ⊢
  obtain ⟨-, hsending⟩ := (h.sending.step hdir hreturned htr rfl).resolve_left (by simp [hnext])
  have hout : ((received bo env p.clear d).popRx.endWindow p.txFactory.fin).out = [] := by
    simp [Process.out]
  -- The end of the file was found exactly if the last chunk was sent.
  have hfin : f.toSource.complete t.sent = p.txFactory.fin := by
    cases hf : p.txFactory.fin with
    | true =>
      obtain ⟨k, hk, hend⟩ := h.sending.reads.last hf
      rw [hk, Source.complete, File.last_toSource]
      exact decide_eq_true hend
    | false =>
      have hinside := h.sending.reads.inside hf
      cases hsent : t.sent with
      | zero => rfl
      | succ k =>
        rw [hsent] at hinside
        rw [Source.complete, File.last_toSource]
        exact decide_eq_false fun hend => absurd hend.2 (not_lt.2 hinside)
  cases hf : p.txFactory.fin with
  -- The file is sent: the session completes.
  | true =>
    have hstep : t.step f.toSource ⟨true, true⟩ (some m) =
        ({ t with phase := .finished, acked := t.acked + 1, base := t.sent }, []) := by
      simp [Sender.step, hhalted, hphase, hfin, hf]
    rw [hf] at hsending hout
    rw [hstep]
    refine ⟨hhalted, ?_, fun _ => ⟨hsending, rfl, by simp, by simp, by simp⟩, ?_⟩
    · rw [hnext, hd]
      exact hcounts.step_done _ _ _
    · show List.Forall₂ (Means bo f) ((received bo env p.clear d).popRx.endWindow true).out []
      rw [hout]
      exact .nil
  | false =>
    have hstep : t.step f.toSource ⟨true, true⟩ (some m) =
        ({ t with phase := .data, win := 5, acked := t.acked + 1, base := t.sent }, []) := by
      simp [Sender.step, hhalted, hphase, hfin, hf]
    have hinterfaces : ((received bo env p.clear d).popRx.endWindow false).interfaces =
        p.interfaces := interfaces_received bo env d
    rw [hf] at hsending hout
    rw [hstep]
    refine ⟨hhalted, ?_, fun _ => ⟨hsending, rfl, by simp, fun _ => ?_, fun _ => rfl⟩, ?_⟩
    · rw [hnext, hd]
      exact hcounts.step_done _ _ _
    · rw [hinterfaces]
      exact h.reaches (.inr hnext)
    · show List.Forall₂ (Means bo f) ((received bo env p.clear d).popRx.endWindow false).out []
      rw [hout]
      exact .nil

end SenderAt

/-! ## The simulation -/

namespace Site.PlaysSender

variable {s : Site}

/-- A sender that goes on has not halted, nor come to its end. -/
theorem of_alive (h : s.PlaysSender bo f t) (halive : s.conf.Alive Process.returned) :
    t.halted = false ∧ Session.Steady s.conf.state ∧ s.conf.state.session.dir = .TX ∧
      SenderAt f s.conf.state t ∧ (s.conf.state.session.next = .connected →
        s.conf.state.session.complete = false) := by
  obtain ⟨hst, hdir⟩ := h.steady halive.1
  refine ⟨by rw [h.halted, halive.1]; rfl, hst, hdir, h.alive halive.1, fun hnext => ?_⟩
  simpa [Process.returned, hnext] using halive.2

/-- A sender that does not go on has halted, or come to its end. -/
theorem of_not_alive (h : s.PlaysSender bo f t) (halive : ¬s.conf.Alive Process.returned) :
    t.halted = true ∨ t.phase = .finished := by
  by_cases hc : s.conf.error = none
  · right
    rw [(h.alive hc).phase_eq, phase_eq_finished (h.steady hc).1]
    exact Bool.of_not_eq_false fun hnot => halive ⟨hc, hnot⟩
  · left
    rw [h.halted]
    exact Option.isSome_iff_ne_none.2 hc

/-- A sender that waits for a message is played by a site that waits for a datagram. -/
theorem awaits_eq (h : s.PlaysSender bo f t) : s.awaits = t.awaits := by
  by_cases halive : s.conf.Alive Process.returned
  · obtain ⟨hhalted, hst, hdir, hat, hcomplete⟩ := h.of_alive halive
    have hmem := hst.next
    rw [awaits_of_alive halive, Process.awaits, hdir, Sender.awaits, hhalted, hat.phase_eq, phase]
    cases hnext : s.conf.state.session.next with
    | «open» | setup | closed | done => rfl
    | connected =>
      dsimp only
      rw [hcomplete hnext]
      rfl
    | inq | send | recv => simp [hnext, inSession] at hmem
  · have hnot : s.awaits = false := by simp [awaits, halive]
    rw [hnot, Sender.awaits]
    rcases h.of_not_alive halive with hhalted | hphase
    · simp [hhalted]
    · simp [hphase]

/-- A step of a site that goes on. -/
theorem of_step (h : s.PlaysSender bo f t) (halive : s.conf.Alive Process.returned)
    {d : Option (List Byte)} {r : Sender × List Msg}
    (hr : SenderStep bo { env with datagram := d } f (s.sentWindows bo) s.conf.state
      (Conf.exec (Session.step bo) { env with datagram := d } s.conf.state) r) :
    (s.step bo env d).1.PlaysSender bo f r.1 ∧
      List.Forall₂ (Means bo f) (s.step bo env d).2 r.2 := by
  have hsteady := @Steady.step bo _ _ h.steady env d
  rw [step_of_alive halive] at hsteady ⊢
  refine ⟨⟨hsteady, hr.halted, ?_, hr.alive⟩, hr.out⟩
  rw [sentWindows_append]
  exact hr.counts

end Site.PlaysSender

/-- The sender of the file plays the sender of the protocol. -/
theorem sends (bo : ByteOrder) (ok : Env → Prop) (f : File) :
    Simulates (Site.machine bo) (sender f.toSource) ok Works (Means bo f) Sender.Expects
      (Site.PlaysSender bo f) := by
  refine simulates_of_alive (fun h => h.awaits_eq) ?_ ?_
  · intro s t h halive
    show t.step f.toSource default none = (t, [])
    rcases h.of_not_alive halive with hhalted | hphase
    · simp [Sender.step, hhalted]
    · cases hhalted : t.halted <;> simp [Sender.step, hhalted, hphase]
  · intro s t env d m h halive _ hdm haw hexp
    obtain ⟨hhalted, hst, hdir, hat, hcomplete⟩ := h.of_alive halive
    have hmem := hst.next
    have hcounts := h.counts
    rw [Process.awaits, hdir] at haw
    suffices hstep : ∃ i, Works { env with datagram := d } i ∧
        SenderStep bo { env with datagram := d } f (s.sentWindows bo) s.conf.state
          (Conf.exec (Session.step bo) { env with datagram := d } s.conf.state)
          (t.step f.toSource i m) by
      obtain ⟨i, hi, hr⟩ := hstep
      exact ⟨i, hi, h.of_step halive hr⟩
    cases hnext : s.conf.state.session.next with
    | «open» =>
      cases hdm with
      | none => exact hat.step_none hst hdir hcounts hhalted (.inl hnext) rfl
      | some _ => exact hat.step_hello hst hdir hcounts hhalted hnext rfl _
    | setup =>
      cases hdm with
      | some _ => simp [hnext] at haw
      | none => exact hat.step_hi hst hdir hcounts hhalted hnext
    | connected =>
      cases hdm with
      | none =>
        exact hat.step_none hst hdir hcounts hhalted (.inr (.inr ⟨hnext, hcomplete hnext⟩)) rfl
      | some hd =>
        have hphase : t.phase = .ack := by simp [hat.phase_eq, phase, hnext, hcomplete hnext]
        obtain ⟨win, rfl⟩ := hexp _ rfl hphase
        exact hat.step_ack hst hdir hcounts hhalted hnext (hcomplete hnext) rfl hd
    | closed =>
      cases hdm with
      | some _ => simp [hnext] at haw
      | none => exact hat.step_data hst hdir hcounts hhalted hnext
    | done =>
      cases hdm with
      | none => exact hat.step_none hst hdir hcounts hhalted (.inr (.inl hnext)) rfl
      | some _ => exact hat.step_ok hst hdir hcounts hhalted hnext rfl _
    | inq | send | recv => simp [hnext, inSession] at hmem

/-- At the start of its session, the process plays a sender at its start. -/
theorem playsSender_start (bo : ByteOrder) (f : File) (statics : Statics)
    (addressList : List IpaddrDummy) (sink : DataSource) :
    Site.PlaysSender bo f { conf := { state := .init .TX statics addressList f.source sink } } {} where
  steady := fun _ => ⟨steady_init .TX statics addressList f.source sink, rfl⟩
  halted := rfl
  counts := ⟨fun i hi => by simp [Site.sentWindows, SentWindows.all] at hi, rfl, rfl, rfl⟩
  alive := fun _ => {
    sending := sending_init statics addressList sink
    phase_eq := rfl
    early := fun _ h => h.1 rfl
    reaches := fun h => by simp [Process.init] at h
    win := fun h => by simp [Process.init] at h }

end Udm
