import Udm.Protocol

/-!
# The windows of an unordered transfer

What holds when the network delivers every message at most once, in any order,
and may lose some (`Windows`). A window that is not the last one is stored when
five of its chunks have come, which are all of them (`Windows.window_eq`): so what
is stored are the first chunks, window by window. The last window is stored when
its last chunk has come, whatever is missing. In any case, the chunks that are
stored are stored in order, and are those that came.

The reason is a bound on both sides: the sender does not leave a window before it is
acknowledged, so what comes is of the window that the receiver collects. With the window
number `w` of the receiver,

* no chunk from `5 * (w + 1)` on was sent yet (`sender`, with `acked ≤ windows`);
* no chunk before `5 * w` is under way, as all of them were stored (`flight`);
* so five different chunks in between are all of them.

`trans` proves that every transition keeps this, with a lemma for each of those that move
a chunk or a window, and the results after it say what is stored at the end.
-/

namespace Udm.Protocol

/-! ## Increasing lists -/

/-- An increasing list is determined by its members. -/
theorem eq_of_increasing {l l' : List ℕ} (hl : l.Pairwise (· < ·)) (hl' : l'.Pairwise (· < ·))
    (h : ∀ k, k ∈ l ↔ k ∈ l') : l = l' :=
  ((List.perm_ext_iff_of_nodup hl.sortedLT.nodup hl'.sortedLT.nodup).2 h).eq_of_pairwise
    (fun _ _ _ _ h h' => absurd h h'.asymm) hl hl'

/-- A window is stored in order. -/
theorem pairwise_sort (W : Finset ℕ) : W.sort.Pairwise (· < ·) := W.sortedLT_sort.pairwise

/-- A window that starts where the stored chunks end. -/
theorem range_append_sort {a b : ℕ} (hab : a ≤ b) :
    List.range a ++ (Finset.Ico a b).sort = List.range b := by
  refine eq_of_increasing (List.pairwise_append.2 ⟨List.pairwise_lt_range, pairwise_sort _, ?_⟩)
    List.pairwise_lt_range fun k => ?_
  · intro j hj k hk
    simp only [List.mem_range, Finset.mem_sort, Finset.mem_Ico] at hj hk
    omega
  · simp only [List.mem_append, List.mem_range, Finset.mem_sort, Finset.mem_Ico]
    omega

/-- The window ends the transfer if one of its chunks is the last. -/
theorem Source.endsIn_iff {src : Source} {W : Finset ℕ} : src.endsIn W ↔ ∃ k ∈ W, src.last k :=
  decide_eq_true_iff

/-- And does not if none is. -/
theorem Source.endsIn_eq_false {src : Source} {W : Finset ℕ} :
    src.endsIn W = false ↔ ∀ k ∈ W, src.last k = false := by
  simp [Source.endsIn]

/-! ## The invariant -/

/-- What holds in an unordered transfer. The sender is in the window after the
    `acked` ones, the receiver in the one after `windows`. -/
structure Windows (src : Source) (s : Net) : Prop where
  /-- In the handshake no window was sent. -/
  early : s.tx.phase.early → s.tx.acked = 0 ∧ s.tx.base = 0
  /-- The sender stays in its window until it takes an acknowledgement, and each
      acknowledgement, taken or under way, is of a window that was stored. -/
  sender : s.tx.phase.early = false →
    s.tx.sent + s.tx.win ≤ 5 * (s.tx.acked + 1) ∧ s.tx.acked + s.toTx.flight.length ≤ s.rx.windows
  /-- The windows that were acknowledged have at most five chunks. -/
  base : s.tx.base ≤ 5 * s.tx.acked ∧ s.tx.base ≤ s.tx.sent
  /-- The sender finishes with the acknowledgement of everything. -/
  finished : s.tx.phase = .finished → s.tx.base = s.tx.sent ∧ src.complete s.tx.sent
  /-- Each chunk is under way once. -/
  nodup : s.toRx.flight.Nodup
  /-- A chunk that is under way is not held, and is of a window that was not stored. -/
  flight : ∀ k, .data k ∈ s.toRx.flight →
    k ∉ s.rx.window ∧ (s.rx.phase ≠ .finished → 5 * s.rx.windows ≤ k)
  /-- The chunks that came are those stored or held. -/
  delivered : ∀ k, .data k ∈ s.toRx.delivered ↔ k ∈ s.rx.stored ∨ k ∈ s.rx.window
  /-- The window holds chunks from its start on, of those that were sent. -/
  window : ∀ k ∈ s.rx.window, 5 * s.rx.windows ≤ k ∧ k < s.tx.sent
  /-- How many chunks the window holds, until the last one is among them. -/
  card : s.rx.phase = .data ∨ s.rx.phase = .ok → src.endsIn s.rx.window = false →
    s.rx.window.card + s.rx.win = 5
  /-- A window is stored when the count is at 0. -/
  closed : s.rx.phase = .ok → s.rx.win = 0
  /-- Until the last window, the first ones are stored as a whole, without the last chunk. -/
  stored : s.rx.phase ≠ .finished →
    s.rx.stored = List.range (5 * s.rx.windows) ∧ ∀ k ∈ s.rx.stored, src.last k = false
  /-- What is stored is in order. -/
  increasing : s.rx.stored.Pairwise (· < ·)
  /-- What is stored was sent. -/
  bound : ∀ k ∈ s.rx.stored, k < s.tx.sent
  /-- A window that is stored has at least one chunk. -/
  begun : s.rx.windows ≠ 0 → 5 * (s.rx.windows - 1) < s.tx.sent
  /-- The receiver finishes with the last chunk. -/
  ending : s.rx.phase = .finished → s.rx.window = ∅ ∧ ∃ k ∈ s.rx.stored, src.last k

namespace Windows

variable {src : Source} {s s' : Net}

/-- At the start all of this is empty. -/
theorem start : Windows src .start := by
  constructor <;> simp [Net.start, Phase.early]

/-- The receiver has only stored chunks that were sent. -/
theorem windows_le (h : Windows src s) (hrx : s.rx.phase ≠ .finished) :
    5 * s.rx.windows ≤ s.tx.sent := by
  by_contra hlt
  have := h.bound (5 * s.rx.windows - 1)
    (by rw [(h.stored hrx).1, List.mem_range]; omega)
  omega

/-- A window that is not the last one is stored when all its chunks have come. -/
theorem window_eq (h : Windows src s) (hb : Basic src s) (hrx : s.rx.phase = .ok)
    (hend : src.endsIn s.rx.window = false) :
    s.rx.window = Finset.Ico (5 * s.rx.windows) (5 * (s.rx.windows + 1)) := by
  have hcard := h.card (.inr hrx) hend
  have hwin := h.closed hrx
  obtain ⟨htx, -⟩ := hb.transfer_of_rx (by rw [hrx]; rfl) (by simp [hrx])
  obtain ⟨hsent, hacked⟩ := h.sender htx
  -- Five chunks, all of them between the same bounds.
  refine Finset.eq_of_subset_of_card_le (fun k hk => ?_) ?_
  · have := h.window k hk
    rw [Finset.mem_Ico]
    omega
  · rw [Nat.card_Ico]
    omega

/-- A chunk that is sent is not under way. -/
theorem not_mem_flight (hb : Basic src s) : .data s.tx.sent ∉ s.toRx.flight := by
  intro hm
  rcases hb.data_of_mem_sent (hb.flight.subset hm) with h | ⟨k, hk, h⟩
  · cases h
  · cases h
    exact lt_irrefl _ hk

/-- Delivering anything else than a chunk. -/
theorem receive_other (h : Windows src s) {dl : Delivery} {m : Msg} {c : Channel Msg}
    (hc : s.toRx.deliver dl = some (m, c)) (hm : ∀ k, m ≠ .data k) :
    Windows src { s with toRx := c } := by
  obtain ⟨-, hsub, hdelivered⟩ := Channel.deliver_eq hc
  refine { h with
    nodup := h.nodup.sublist hsub
    flight := fun k hk => h.flight k (hsub.subset hk)
    delivered := fun k => ?_ }
  rw [← h.delivered k, hdelivered, List.mem_append, List.mem_singleton]
  exact or_iff_left (hm k).symm

/-- The receiver goes on, without storing anything. -/
theorem go (h : Windows src s) (phase : Phase) (win : ℕ) (hrx : s.rx.phase ≠ .finished)
    (hphase : phase ≠ .finished)
    (hcard : phase = .data ∨ phase = .ok → src.endsIn s.rx.window = false →
      s.rx.window.card + win = 5) (hclosed : phase = .ok → win = 0) :
    Windows src { s with rx.phase := phase, rx.win := win } :=
  { h with
    flight := fun k hk => ⟨(h.flight k hk).1, fun _ => (h.flight k hk).2 hrx⟩
    card := hcard
    closed := hclosed
    stored := fun _ => h.stored hrx
    ending := fun heq => absurd heq hphase }

/-- The sender in the handshake. -/
theorem of_early (h : Windows src s) {phase : Phase} {halted : Bool} {c c' : Channel Msg}
    (htx : s.tx.phase.early) (hphase : phase.early) (hnodup : c'.flight.Nodup)
    (hflight : ∀ k, .data k ∈ c'.flight → .data k ∈ s.toRx.flight)
    (hdelivered : c'.delivered = s.toRx.delivered) :
    Windows src
      { s with tx.phase := phase, tx.halted := halted, toTx := c, toRx := c' } :=
  { h with
    early := fun _ => h.early htx
    sender := fun hnot => by simp [hphase] at hnot
    finished := fun heq => by simp [show phase = .finished from heq, Phase.early] at hphase
    nodup := hnodup
    flight := fun k hk => h.flight k (hflight k hk)
    delivered := fun k => by
      show _ ∈ c'.delivered ↔ _
      rw [hdelivered, h.delivered] }

/-- The sender takes an acknowledgement of its window. -/
theorem receiveOk (h : Windows src s) (htx : s.tx.phase = .ok) {i : ℕ} {m : Msg} {c : Channel Msg}
    (hc : s.toTx.deliver (.flight i) = some (m, c)) (phase : Phase) (win : ℕ)
    (hphase : phase.early = false) (hwin : win ≤ max s.tx.win 5)
    (hfin : phase = .finished → src.complete s.tx.sent) :
    Windows src { s with
      tx.phase := phase
      tx.win := win
      tx.acked := s.tx.acked + 1
      tx.base := s.tx.sent
      toTx := c } := by
  obtain ⟨hsent, hacked⟩ := h.sender (by rw [htx]; rfl)
  -- One acknowledgement less is under way, and one more is taken.
  have hlen := (Channel.perm_of_deliver hc).length_eq
  rw [List.length_cons] at hlen
  refine { h with
    early := fun hearly => by simp [hphase] at hearly
    sender := fun _ => ⟨?_, ?_⟩
    base := ⟨?_, le_rfl⟩
    finished := fun heq => ⟨rfl, hfin heq⟩ }
  · show s.tx.sent + win ≤ 5 * (s.tx.acked + 1 + 1)
    omega
  · show s.tx.acked + 1 + c.flight.length ≤ s.rx.windows
    omega
  · show s.tx.sent ≤ 5 * (s.tx.acked + 1)
    omega

/-- The next chunk is sent. -/
theorem sendData (h : Windows src s) (hb : Basic src s) (htx : s.tx.phase = .data)
    (hwin : s.tx.win ≠ 0) :
    Windows src { s with
      tx.sent := s.tx.sent + 1
      tx.win := if src.last s.tx.sent then 0 else s.tx.win - 1
      toRx := s.toRx.send [.data s.tx.sent] } := by
  obtain ⟨hsent, hacked⟩ := h.sender (by rw [htx]; rfl)
  refine { h with
    sender := fun _ => ⟨?_, hacked⟩
    base := ⟨h.base.1, h.base.2.trans (Nat.le_succ _)⟩
    finished := fun heq => by simp [htx] at heq
    nodup := List.nodup_append.2 ⟨h.nodup, List.nodup_singleton _, ?_⟩
    flight := fun k hk => ?_
    window := fun k hk => ⟨(h.window k hk).1, (h.window k hk).2.trans (Nat.lt_succ_self _)⟩
    bound := fun k hk => (h.bound k hk).trans (Nat.lt_succ_self _)
    begun := fun hne => (h.begun hne).trans (Nat.lt_succ_self _) }
  · show s.tx.sent + 1 + (if src.last s.tx.sent then 0 else s.tx.win - 1) ≤ 5 * (s.tx.acked + 1)
    split <;> omega
  · rintro m hm _ hm' rfl
    exact not_mem_flight hb (List.mem_singleton.1 hm' ▸ hm)
  · rcases List.mem_append.1 hk with hk | hk
    · exact h.flight k hk
    · obtain rfl : k = s.tx.sent := by simpa using hk
      exact ⟨fun hmem => (h.window _ hmem).2.false, h.windows_le⟩

/-- The receiver takes a chunk into its window. -/
theorem receiveData (h : Windows src s) (hb : Basic src s) (hrx : s.rx.phase = .data)
    (hwin : s.rx.win ≠ 0) {i k : ℕ} {c : Channel Msg}
    (hc : s.toRx.deliver (.flight i) = some (.data k, c)) :
    Windows src { s with
      rx.window := insert k s.rx.window
      rx.win := if src.endsIn (insert k s.rx.window) then 0 else s.rx.win - 1
      toRx := c } := by
  have hne : s.rx.phase ≠ .finished := by simp [hrx]
  have hperm := Channel.perm_of_deliver hc
  have hmem : .data k ∈ s.toRx.flight := hperm.subset List.mem_cons_self
  -- The chunk was under way once, so it is not any more, and it is new to the window.
  obtain ⟨hnotin, hnodup⟩ := List.nodup_cons.1 (hperm.nodup_iff.2 h.nodup)
  obtain ⟨hnew, hge⟩ := h.flight k hmem
  have hlt : k < s.tx.sent := by
    rcases hb.data_of_mem_sent (hb.flight.subset hmem) with heq | ⟨j, hj, heq⟩
    · cases heq
    · cases heq
      exact hj
  refine { h with
    nodup := hnodup
    flight := fun j hj => ⟨?_, (h.flight j (hperm.subset (List.mem_cons_of_mem _ hj))).2⟩
    delivered := fun j => ?_
    window := fun j hj => ?_
    card := fun _ hend => ?_
    closed := fun heq => by simp [hrx] at heq
    ending := fun heq => absurd heq hne }
  · rw [Finset.mem_insert, not_or]
    refine ⟨?_, (h.flight j (hperm.subset (List.mem_cons_of_mem _ hj))).1⟩
    rintro rfl
    exact hnotin hj
  · rw [(Channel.deliver_eq hc).2.2, List.mem_append, h.delivered, Finset.mem_insert]
    simp only [List.mem_singleton, Msg.data.injEq]
    tauto
  · rcases Finset.mem_insert.1 hj with rfl | hj
    exacts [⟨hge hne, hlt⟩, h.window j hj]
  · have hend : src.endsIn (insert k s.rx.window) = false := hend
    -- The count goes down as long as the last chunk has not come.
    have hold : src.endsIn s.rx.window = false :=
      Source.endsIn_eq_false.2 fun j hj =>
        Source.endsIn_eq_false.1 hend j (Finset.mem_insert_of_mem hj)
    have := h.card (.inl hrx) hold
    show (insert k s.rx.window).card + (if src.endsIn (insert k s.rx.window) then 0 else _) = 5
    rw [hend, if_neg Bool.false_ne_true, Finset.card_insert_of_notMem hnew]
    omega

/-- What stays under way, or was delivered, when a window is stored. -/
theorem delivered_store (h : Windows src s) (k : ℕ) :
    .data k ∈ s.toRx.delivered ↔ k ∈ s.rx.stored ++ s.rx.window.sort ∨ k ∈ (∅ : Finset ℕ) := by
  rw [h.delivered, List.mem_append, Finset.mem_sort]
  simp

/-- The receiver stores a window that is not the last one. -/
theorem store (h : Windows src s) (hb : Basic src s) (hrx : s.rx.phase = .ok)
    (hend : src.endsIn s.rx.window = false) {ms : List Msg} (hms : ms.Sublist [.ok]) :
    Windows src { s with
      rx.phase := .data
      rx.stored := s.rx.stored ++ s.rx.window.sort
      rx.window := ∅
      rx.win := 5
      rx.windows := s.rx.windows + 1
      toTx := s.toTx.send ms } := by
  have hne : s.rx.phase ≠ .finished := by simp [hrx]
  obtain ⟨hstored, hlast⟩ := h.stored hne
  have hwindow := h.window_eq hb hrx hend
  -- The window is a whole one, so the stored chunks are still the first ones.
  have hrange : s.rx.stored ++ s.rx.window.sort = List.range (5 * (s.rx.windows + 1)) := by
    rw [hstored, hwindow]
    exact range_append_sort (by omega)
  have hmem : ∀ k ∈ s.rx.window.sort, k ∈ s.rx.window := fun _ => (Finset.mem_sort _).1
  refine { h with
    sender := fun htx => ⟨(h.sender htx).1, ?_⟩
    flight := fun k hk => ⟨Finset.notMem_empty k, fun _ => ?_⟩
    delivered := h.delivered_store
    window := fun k hk => absurd hk (Finset.notMem_empty k)
    card := fun _ _ => rfl
    closed := by simp
    stored := fun _ => ⟨hrange, List.forall_mem_append.2 ⟨hlast, fun k hk =>
      Source.endsIn_eq_false.1 hend k (hmem k hk)⟩⟩
    increasing := hrange ▸ List.pairwise_lt_range
    bound := List.forall_mem_append.2 ⟨h.bound, fun k hk => (h.window k (hmem k hk)).2⟩
    begun := fun _ => ?_
    ending := by simp }
  · have hlen := hms.length_le
    have hacked := (h.sender htx).2
    rw [List.length_singleton] at hlen
    show s.tx.acked + (s.toTx.flight ++ ms).length ≤ s.rx.windows + 1
    rw [List.length_append]
    omega
  · obtain ⟨hnot, hge⟩ := h.flight k hk
    have hge := hge hne
    rw [hwindow, Finset.mem_Ico] at hnot
    show 5 * (s.rx.windows + 1) ≤ k
    omega
  · exact (h.window (5 * s.rx.windows) (by rw [hwindow, Finset.mem_Ico]; omega)).2

/-- The receiver stores the last window. -/
theorem storeLast (h : Windows src s) (hrx : s.rx.phase = .ok) (hend : src.endsIn s.rx.window)
    {ms : List Msg} (hms : ms.Sublist [.ok]) :
    Windows src { s with
      rx.phase := .finished
      rx.stored := s.rx.stored ++ s.rx.window.sort
      rx.window := ∅
      rx.windows := s.rx.windows + 1
      toTx := s.toTx.send ms } := by
  obtain ⟨hstored, -⟩ := h.stored (by simp [hrx])
  obtain ⟨last, hlast, hsrc⟩ := Source.endsIn_iff.1 hend
  have hmem : ∀ k ∈ s.rx.window.sort, k ∈ s.rx.window := fun _ => (Finset.mem_sort _).1
  refine { h with
    sender := fun htx => ⟨(h.sender htx).1, ?_⟩
    flight := fun k hk => ⟨Finset.notMem_empty k, fun hne => absurd rfl hne⟩
    delivered := h.delivered_store
    window := fun k hk => absurd hk (Finset.notMem_empty k)
    card := by simp
    closed := by simp
    stored := fun hne => absurd rfl hne
    increasing := List.pairwise_append.2 ⟨h.increasing, pairwise_sort _, fun j hj k hk => ?_⟩
    bound := List.forall_mem_append.2 ⟨h.bound, fun k hk => (h.window k (hmem k hk)).2⟩
    begun := fun _ => lt_of_le_of_lt (h.window last hlast).1 (h.window last hlast).2
    ending := fun _ => ⟨rfl, last, ?_, hsrc⟩ }
  · have hlen := hms.length_le
    have hacked := (h.sender htx).2
    rw [List.length_singleton] at hlen
    show s.tx.acked + (s.toTx.flight ++ ms).length ≤ s.rx.windows + 1
    rw [List.length_append]
    omega
  · -- What was stored before comes before the window.
    have := (h.window k (hmem k hk)).1
    rw [hstored, List.mem_range] at hj
    omega
  · exact List.mem_append_right _ ((Finset.mem_sort _).2 hlast)

/-- Every transition of a network without copies keeps the windows. -/
theorem trans (h : Windows src s) (hb : Basic src s) (ht : Trans src Network.Unordered s s') :
    Windows src s' := by
  -- The sender is in the handshake as long as the receiver is.
  have hearly (hrx : s.rx.phase.early) (htx : s.tx.phase.early = false) : False := by
    have := (hb.stage.of_tx htx).1
    simp [hrx] at this
  have hlen {dl : Delivery} {m : Msg} {c : Channel Msg} (hc : s.toTx.deliver dl = some (m, c)) :
      c.flight.length ≤ s.toTx.flight.length := (Channel.deliver_eq hc).2.1.length_le
  cases ht with
  | idle => exact h
  | haltTx | haltRx => exact { h with }
  | loseTx i =>
    have := (List.eraseIdx_sublist s.toTx.flight i).length_le
    exact { h with
      sender := fun htx => ⟨(h.sender htx).1, (Nat.add_le_add_left this _).trans (h.sender htx).2⟩ }
  | loseRx i =>
    have hsub := List.eraseIdx_sublist s.toRx.flight i
    exact { h with
      nodup := h.nodup.sublist hsub
      flight := fun k hk => h.flight k (hsub.subset hk) }
  | strayTx _ dl _ m c hc | missHello dl _ m c hc =>
    exact { h with
      sender := fun htx =>
        ⟨(h.sender htx).1, (Nat.add_le_add_left (hlen hc) _).trans (h.sender htx).2⟩ }
  | strayRx _ _ dl _ m c hc hm => exact h.receive_other hc hm
  | sendHello hrx ms =>
    exact { h.go .hi s.rx.win (by simp [hrx]) (by simp) (by simp) (by simp) with
      sender := fun htx => (hearly (by rw [hrx]; rfl) htx).elim }
  | receiveHello htx =>
    exact h.of_early (by rw [htx]; rfl) rfl h.nodup (fun _ => id) rfl
  | sendHi htx =>
    -- Before its addresses the sender has sent nothing.
    have hnil : s.toRx.flight = [] := by
      have := hb.flight
      rw [hb.sent, Sender.output, htx] at this
      exact List.eq_nil_of_sublist_nil this
    exact h.of_early (by rw [htx]; rfl) rfl (by simp [hnil]) (fun k hk => by simpa using hk) rfl
  | receiveHi hrx dl hmay m c hc =>
    obtain ⟨rfl, -⟩ := hb.not_copied (hb.early_of_hi hrx) hmay.arbitrary hc
    exact { (h.receive_other hc (by simp)).go .ack s.rx.win (by simp [hrx])
      (by simp) (by simp) (by simp) with }
  | sendAck hrx ms =>
    -- Nothing has come yet.
    have htx : s.tx.phase.early := Bool.of_not_eq_false fun hnot => hearly (by rw [hrx]; rfl) hnot
    have hwindow := (hb.early htx).2.2
    exact { h.go .data 5 (by simp [hrx]) (by simp) (by simp [hwindow])
      (by simp) with
      sender := fun htx => (hearly (by rw [hrx]; rfl) htx).elim }
  | receiveAck htx dl hmay win c hc =>
    obtain ⟨i, rfl⟩ := hmay
    obtain ⟨hm, hflight, -⟩ := hb.ack_of_deliver htx hc
    obtain rfl : win = 5 := by simpa using hm
    have hsent := (hb.early (by rw [htx]; rfl)).1
    have hacked := (h.early (by rw [htx]; rfl)).1
    exact { h with
      early := by simp [Phase.early]
      sender := fun _ => by simp [hsent, hacked, hflight]
      finished := by simp }
  | closeTx htx =>
    exact { h with
      early := by simp [Phase.early]
      sender := fun _ => h.sender (by rw [htx]; rfl)
      finished := by simp }
  | sendData htx hwin => exact h.sendData hb htx hwin
  | receiveOk htx dl hmay m c hc =>
    obtain ⟨i, rfl⟩ := hmay
    exact h.receiveOk htx hc .data 5 rfl (le_max_right _ _) (by simp)
  | receiveLastOk htx dl hmay m c hc hfin =>
    obtain ⟨i, rfl⟩ := hmay
    exact h.receiveOk htx hc .finished s.tx.win rfl (le_max_left _ _) fun _ => hfin
  | closeRx hrx hwin =>
    exact h.go .ok s.rx.win (by simp [hrx]) (by simp) (fun _ => h.card (.inl hrx)) fun _ => hwin
  | receiveData hrx hwin dl hmay k c hc =>
    obtain ⟨i, rfl⟩ := hmay
    exact h.receiveData hb hrx hwin hc
  | store hrx hend ms hms => exact h.store hb hrx hend hms
  | storeLast hrx hend ms hms => exact h.storeLast hrx hend hms

/-- No window is acknowledged that was not stored. -/
theorem acked_le (h : Windows src s) : s.tx.acked ≤ s.rx.windows := by
  cases htx : s.tx.phase.early with
  | true => simp [(h.early htx).1]
  | false => exact (Nat.le_add_right _ _).trans (h.sender htx).2

/-- A sender that has finished has had a window acknowledged. -/
theorem acked_pos (h : Windows src s) (htx : s.tx.phase = .finished) : 0 < s.tx.acked := by
  obtain ⟨hbase, hcomplete⟩ := h.finished htx
  have hne : s.tx.sent ≠ 0 := by
    intro heq
    simp [heq, Source.complete] at hcomplete
  have := h.base.1
  omega

/-- What is stored are some of the chunks that were sent. -/
theorem stored_sublist (h : Windows src s) : s.rx.stored.Sublist (List.range s.tx.sent) := by
  have hsub : s.rx.stored ⊆ List.range s.tx.sent := fun k hk => List.mem_range.2 (h.bound k hk)
  refine List.sublist_of_subperm_of_pairwise ?_ h.increasing List.pairwise_lt_range
  exact List.subperm_of_subset h.increasing.sortedLT.nodup hsub

/-- When the receiver has finished, the sender has sent everything. -/
theorem complete (h : Windows src s) (hb : Basic src s) (hrx : s.rx.phase = .finished) :
    src.complete s.tx.sent := by
  obtain ⟨last, hmem, hlast⟩ := (h.ending hrx).2
  rw [hb.last last (h.bound last hmem) hlast]
  exact hlast

/-- When the receiver has finished, it has stored everything exactly if everything has
    come. -/
theorem stored_eq_iff (h : Windows src s) (hrx : s.rx.phase = .finished) :
    s.rx.stored = List.range s.tx.sent ↔ ∀ k < s.tx.sent, .data k ∈ s.toRx.delivered := by
  have hdelivered (k : ℕ) : .data k ∈ s.toRx.delivered ↔ k ∈ s.rx.stored := by
    rw [h.delivered, (h.ending hrx).1]
    simp
  simp only [hdelivered]
  constructor
  · intro heq k hk
    rw [heq, List.mem_range]
    exact hk
  · intro hall
    refine eq_of_increasing h.increasing List.pairwise_lt_range fun k => ?_
    rw [List.mem_range]
    exact ⟨h.bound k, hall k⟩

end Windows

end Udm.Protocol
