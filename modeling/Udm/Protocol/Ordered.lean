import Udm.Protocol.Windows

/-!
# Transfers in order

What holds when the network delivers the chunks in the order of sending, and
further copies only of those that the receiver has in its window (`Ordered`): what
is stored are the first chunks, and the window holds those that come next. If
nothing is copied at all, the receiver is at most one window ahead of what the
sender knows (`Ordered.base_le`, `Ordered.of_finished`).

The chunks of a network in order lie one after the other: the stored ones, those of the
window, those under way (`Places`). The transitions move the two bounds between them:

* sending a chunk adds one at the end of those under way (`Trans.sendData`);
* delivering one moves the bound `b`, a copy moves nothing (`receiveData`);
* storing a window moves the bound `a` up to `b` (`store`).
-/

namespace Udm.Protocol

/-- The chunk in a message. -/
def Msg.chunk : Msg → Option ℕ
  | .data k => some k
  | .hello | .hi | .ack _ | .ok => none

/-- The copies of what the receiver has in its window. -/
def CopiesWindow (s : Net) (m : Msg) : Prop := ∃ k ∈ s.rx.window, m = .data k

/-- Copies of the window are copies of data. -/
theorem CopiesWindow.data {s : Net} (m : Msg) (h : CopiesWindow s m) : CopiesData s m := by
  obtain ⟨k, -, hm⟩ := h
  exact ⟨k, hm⟩

/-- The chunks up to `a` are stored, those from `a` to `b` are in the window, and the
    others that were sent are under way. -/
structure Places (s : Net) (a b : ℕ) : Prop where
  /-- The window begins where the stored chunks end. -/
  le : a ≤ b
  /-- Only chunks that were sent are held. -/
  sent : b ≤ s.tx.sent
  /-- The first chunks, in order. -/
  stored : s.rx.stored = List.range a
  /-- The next ones. -/
  window : s.rx.window = Finset.Ico a b
  /-- The rest of those sent, in the order of sending: nothing is lost. -/
  flight : s.toRx.flight.filterMap Msg.chunk = List.range' b (s.tx.sent - b)

/-- What holds in a transfer in order. -/
def Ordered (s : Net) : Prop := ∃ a b, Places s a b

/-- The chunks under way, when the first message is delivered. -/
theorem filterMap_of_deliver {c c' : Channel Msg} {m : Msg}
    (hc : c.deliver (.flight 0) = some (m, c')) :
    c.flight.filterMap Msg.chunk = m.chunk.toList ++ c'.flight.filterMap Msg.chunk := by
  obtain ⟨hm, rfl⟩ := Channel.deliver_flight_eq.1 hc
  rcases hf : c.flight with - | ⟨m', l⟩
  · simp [hf] at hm
  · obtain rfl : m' = m := by simpa [hf] using hm
    cases hchunk : m'.chunk <;> simp [hchunk]

namespace Ordered

variable {src : Source} {s s' : Net}

/-- Nothing is stored, held or under way. -/
theorem start : Ordered .start := ⟨0, 0, by constructor <;> simp [Net.start]⟩

/-- Delivering anything else than a chunk changes nothing. -/
theorem receive_other (h : Ordered s) {dl : Delivery}
    (hmay : Network.Duplicating CopiesWindow s (.rx dl)) {m : Msg} {c : Channel Msg}
    (hc : s.toRx.deliver dl = some (m, c)) (hm : ∀ k, m ≠ .data k) :
    Ordered { s with toRx := c } := by
  obtain ⟨a, b, hab⟩ := h
  refine ⟨a, b, { hab with flight := ?_ }⟩
  cases dl with
  | flight i =>
    obtain rfl : i = 0 := hmay
    have hchunk : m.chunk = none := by
      cases m with
      | data k => exact absurd rfl (hm k)
      | hello | hi | ack | ok => rfl
    have := filterMap_of_deliver hc
    rw [hchunk, hab.flight] at this
    exact this.symm
  | copy j =>
    -- Only chunks are copied.
    obtain ⟨d, hd, k, -, rfl⟩ := hmay
    exact absurd (Option.some.inj ((Channel.deliver_copy_eq.1 hc).1.symm.trans hd)) (hm k)

/-- A chunk is delivered: the one that comes next, or a copy. -/
theorem receiveData (h : Ordered s) {dl : Delivery}
    (hmay : Network.Duplicating CopiesWindow s (.rx dl)) {k : ℕ} {c : Channel Msg}
    (hc : s.toRx.deliver dl = some (.data k, c)) (win : ℕ) :
    Ordered { s with rx.window := insert k s.rx.window, rx.win := win, toRx := c } := by
  obtain ⟨a, b, hab⟩ := h
  cases dl with
  | flight i =>
    obtain rfl : i = 0 := hmay
    have hflight := filterMap_of_deliver hc
    rw [hab.flight] at hflight
    -- There is a chunk under way, so `b` is not the end of those sent, and the one that comes is
    -- `b`.
    have hlt : b < s.tx.sent := by
      by_contra hge
      rw [Nat.sub_eq_zero_of_le (not_lt.1 hge)] at hflight
      simp [Msg.chunk] at hflight
    have hsub : s.tx.sent - b = s.tx.sent - (b + 1) + 1 := by omega
    rw [hsub, List.range'_succ] at hflight
    obtain ⟨rfl, hrest⟩ := List.cons.inj hflight
    refine ⟨a, b + 1, { hab with
      le := hab.le.trans (Nat.le_succ b)
      sent := hlt
      window := ?_
      flight := hrest.symm }⟩
    show insert b s.rx.window = _
    rw [hab.window]
    ext j
    simp only [Finset.mem_insert, Finset.mem_Ico]
    have := hab.le
    omega
  | copy j =>
    obtain ⟨d, hd, k', hk', rfl⟩ := hmay
    obtain ⟨hsent, rfl⟩ := Channel.deliver_copy_eq.1 hc
    obtain rfl : k = k' := by simpa using hsent.symm.trans hd
    -- It is in the window already.
    exact ⟨a, b, { hab with window := (Finset.insert_eq_of_mem hk').trans hab.window }⟩

/-- A window is stored. -/
theorem store (h : Ordered s) (phase : Phase) (win : ℕ) (c : Channel Msg) :
    Ordered { s with
      rx.phase := phase
      rx.stored := s.rx.stored ++ s.rx.window.sort
      rx.window := ∅
      rx.win := win
      rx.windows := s.rx.windows + 1
      toTx := c } := by
  obtain ⟨a, b, hab⟩ := h
  refine ⟨b, b, { hab with le := le_rfl, stored := ?_, window := (Finset.Ico_self b).symm }⟩
  show s.rx.stored ++ s.rx.window.sort = _
  rw [hab.stored, hab.window, range_append_sort hab.le]

/-- Every transition keeps the order of the chunks. Only data moves them; the handshake is not
    under way any more when it begins. -/
theorem trans (h : Ordered s) (hb : Basic src s)
    (ht : Trans src (Network.Duplicating CopiesWindow) s s') : Ordered s' := by
  obtain ⟨a, b, hab⟩ := id h
  cases ht with
  | idle | haltTx | haltRx | loseTx | sendHello | missHello | receiveHello | sendAck | receiveAck
  | strayTx | closeTx | receiveOk | receiveLastOk | closeRx => exact ⟨a, b, { hab with }⟩
  | loseRx i hmay => exact hmay.elim
  | sendHi =>
    refine ⟨a, b, { hab with flight := ?_ }⟩
    show (s.toRx.flight ++ [Msg.hi]).filterMap Msg.chunk = _
    rw [List.filterMap_append, hab.flight]
    simp [Msg.chunk]
  | receiveHi hrx dl hmay m c hc reaches =>
    obtain ⟨rfl, -⟩ := hb.not_copied (hb.early_of_hi hrx) (hmay.arbitrary CopiesWindow.data) hc
    obtain ⟨a, b, hab⟩ := h.receive_other hmay hc (by simp)
    exact ⟨a, b, { hab with }⟩
  | strayRx _ _ dl hmay m c hc hm => exact h.receive_other hmay hc hm
  | sendData =>
    refine ⟨a, b, { hab with sent := hab.sent.trans (Nat.le_succ _), flight := ?_ }⟩
    show (s.toRx.flight ++ [Msg.data s.tx.sent]).filterMap Msg.chunk =
      List.range' b (s.tx.sent + 1 - b)
    have hsub : s.tx.sent + 1 - b = s.tx.sent - b + 1 := Nat.sub_add_comm hab.sent
    rw [List.filterMap_append, hab.flight, hsub, List.range'_concat, one_mul,
      Nat.add_sub_of_le hab.sent]
    rfl
  | receiveData _ _ dl hmay k c hc => exact h.receiveData hmay hc _
  | store => exact h.store _ _ _
  | storeLast => exact h.store _ s.rx.win _

/-- What is stored are the first chunks. -/
theorem stored_eq (h : Ordered s) : s.rx.stored = List.range s.rx.stored.length ∧
    s.rx.stored.length ≤ s.tx.sent := by
  obtain ⟨a, b, hab⟩ := h
  rw [hab.stored, List.length_range]
  exact ⟨rfl, hab.le.trans hab.sent⟩

/-- When the receiver has finished, it has stored everything. -/
theorem finished (h : Ordered s) (hw : Windows src s) (hb : Basic src s)
    (hrx : s.rx.phase = .finished) : s.rx.stored = List.range s.tx.sent ∧ src.complete s.tx.sent := by
  refine ⟨?_, hw.complete hb hrx⟩
  obtain ⟨last, hmem, hlast⟩ := (hw.ending hrx).2
  -- The last chunk is stored, so everything before it is, and nothing was sent after it.
  have hsent := hb.last last (hw.bound last hmem) hlast
  obtain ⟨heq, hle⟩ := h.stored_eq
  rw [heq, List.mem_range] at hmem
  rw [heq, le_antisymm hle (hsent ▸ hmem)]

/-- What was acknowledged is stored. -/
theorem base_le (h : Ordered s) (hw : Windows src s) (hb : Basic src s) :
    s.tx.base ≤ s.rx.stored.length := by
  by_cases hrx : s.rx.phase = .finished
  · rw [(h.finished hw hb hrx).1, List.length_range]
    exact hw.base.2
  · have hacked := hw.acked_le
    have hbase := hw.base.1
    rw [(hw.stored hrx).1, List.length_range]
    omega

/-- When the sender has finished, so has the receiver, and every window was
    acknowledged. -/
theorem of_finished (h : Ordered s) (hw : Windows src s) (hb : Basic src s)
    (htx : s.tx.phase = .finished) :
    s.rx.phase = .finished ∧ s.tx.acked = s.rx.windows := by
  obtain ⟨hbase, hcomplete⟩ := hw.finished htx
  have hle := h.base_le hw hb
  obtain ⟨heq, hbound⟩ := h.stored_eq
  have hlen : s.rx.stored.length = s.tx.sent := by omega
  have hrx : s.rx.phase = .finished := by
    by_contra hrx
    -- The last chunk is stored, which only ends the last window.
    cases hsent : s.tx.sent with
    | zero => simp [hsent, Source.complete] at hcomplete
    | succ k =>
      have hlast : src.last k := by rw [hsent] at hcomplete; exact hcomplete
      have := (hw.stored hrx).2 k (by rw [heq, hlen, List.mem_range]; omega)
      simp [hlast] at this
  refine ⟨hrx, le_antisymm hw.acked_le ?_⟩
  have := hw.begun
  have := hw.base.1
  omega

end Ordered

/-! ## Runs -/

/-- The networks reached from the start. -/
abbrev Net.Reached (src : Source) (may : Net → Event → Prop) : Net → Prop :=
  Network.Reachable (sender src) (receiver src) (fun _ => True) may Net.start

namespace Net.Reached

variable {src : Source} {may : Net → Event → Prop} {s : Net}

/-- The parties are related as in any network, if only data is copied. -/
theorem basic (hmay : ∀ s e, may s e → Network.Arbitrary CopiesData s e)
    (h : Net.Reached src may s) : Basic src s :=
  invariant .start (fun _ _ => Basic.trans) (h.mono hmay)

/-- And the windows are as in any network without copies. -/
theorem windows (h : Net.Reached src Network.Unordered s) : Windows src s :=
  h.invariant .start fun _ _ _ hs hw _ hmay =>
    hw.trans (Net.Reached.basic (fun _ _ => Network.Unordered.arbitrary) hs) (trans_next _ hmay)

/-- With deliveries in order, and copies of the window, the chunks are in order. -/
theorem ordered (h : Net.Reached src (Network.Duplicating CopiesWindow) s) : Ordered s :=
  h.invariant .start fun _ _ _ hs ho _ hmay =>
    ho.trans (Net.Reached.basic (fun _ _ => Network.Duplicating.arbitrary CopiesWindow.data) hs)
      (trans_next _ hmay)

/-- A receiver that has finished has not halted. -/
theorem not_halted (h : Net.Reached src may s) : s.rx.phase = .finished → s.rx.halted = false := by
  refine h.local_rx (P := fun r _ _ => r.phase = .finished → r.halted = false)
    (fun _ => rfl) ?_
  intro i m r _ _ _ ih _
  show (r.step src i m).1.phase = .finished → (r.step src i m).1.halted = false
  cases hh : r.halted with
  | true =>
    have hstay : r.step src i m = (r, []) := by simp only [Receiver.step, hh, if_true]
    rwa [hstay]
  | false =>
    cases hp : r.phase with
    | hello | hi | ok | finished => cases m <;> simp [Receiver.step, hh, hp]
    | ack => cases hreaches : r.reaches <;> simp [Receiver.step, hh, hp, hreaches]
    | data =>
      by_cases hwin : r.win = 0 <;> rcases m with - | (_ | _ | _ | _ | _) <;>
        simp [Receiver.step, hh, hp, hwin]

end Net.Reached

end Udm.Protocol
