import Udm.Exchange.Integrity
import Udm.Protocol.Liveness

/-!
# What is lost

Over a network that loses and reorders datagrams, a transfer can end without the whole
file in the sink. But all the windows but the last one are whole: what is missing are some of
the chunks of the last window, other than its last one (`salvages`). As long as the
receiver goes on, its sink holds whole windows only, and the sender only returns after it.

This is about where the file is damaged, with a disk that takes every write. In the protocol,
`Salvage` splits what is stored at the start of the last window: only the step that stores it
makes the receiver finish (`salvage_trans`), and before it all the windows were whole.
-/

namespace Udm

namespace Protocol

variable {src : Source} {s s' : Net}

/-- All the windows but the last one are whole, and there are only chunks of the last one after
    them, in the list `l`. -/
structure Salvage (src : Source) (s : Net) (l : List ℕ) : Prop where
  /-- The whole windows, and then the chunks `l`. -/
  stored : s.rx.stored = List.range (5 * (s.rx.windows - 1)) ++ l
  /-- These are chunks of the last window. -/
  window : ∀ k ∈ l, 5 * (s.rx.windows - 1) ≤ k ∧ k < 5 * s.rx.windows
  /-- The last chunk of the file is among them. -/
  ending : ∃ k ∈ l, src.last k

/-- The step that stores the last window makes it so, and nothing is stored after it. -/
theorem salvage_trans (hb : Basic src s) (hw : Windows src s)
    (h : s.rx.phase = .finished → ∃ l, Salvage src s l) (ht : Trans src Network.Unordered s s') :
    s'.rx.phase = .finished → ∃ l, Salvage src s' l := by
  cases ht with
  | idle | haltTx | haltRx | loseTx | loseRx | missHello | receiveHello | sendHi | receiveAck
  | strayTx | closeTx | sendData | receiveOk | receiveLastOk | strayRx =>
    intro hrx
    obtain ⟨l, hl⟩ := h hrx
    exact ⟨l, hl.stored, hl.window, hl.ending⟩
  | sendHello | receiveHi | sendAck | closeRx | store => simp
  | receiveData hrx => simp [hrx]
  | storeLast hrx hend =>
    intro _
    have hstored := (hw.stored (by simp [hrx])).1
    refine ⟨s.rx.window.sort, congrArg (· ++ s.rx.window.sort) hstored, fun k hk => ?_, ?_⟩
    · have hk := (Finset.mem_sort _).1 hk
      exact ⟨(hw.window k hk).1, Live.lt_of_mem_window hb hw hrx hk⟩
    · obtain ⟨k, hk, hlast⟩ := of_decide_eq_true hend
      exact ⟨k, (Finset.mem_sort _).2 hk, hlast⟩

/-- When the receiver has finished, only chunks of the last window are missing. -/
theorem Net.Reached.salvage (h : Net.Reached src Network.Unordered s)
    (hrx : s.rx.phase = .finished) : ∃ l, Salvage src s l := by
  refine h.invariant (I := fun s => s.rx.phase = .finished → ∃ l, Salvage src s l)
    (by simp [Net.start]) ?_ hrx
  intro s i e hs ih _ hmay
  exact salvage_trans (Net.Reached.basic (fun _ _ => Network.Unordered.arbitrary) hs)
    (Net.Reached.windows hs) ih (trans_next _ hmay)

end Protocol

open Session Protocol

namespace Exchange

variable {bo : ByteOrder} {f : File} {txStatics rxStatics : Statics}
  {txList rxList : List IpaddrDummy} {sink source : DataSource} {fileSize : ℕ} {s : Exchange}

/-- The sink holds the whole windows, and of the last one the chunks in the list `l`, the end of
    the file among them. -/
structure Salvages (f : File) (s : Exchange) (l : List ℕ) : Prop where
  /-- The whole windows, and what came of the last one. -/
  sink : s.rx.conf.state.sink =
    f.bytes.take (WIN_SIZ * (s.rx.windows.length - 1) * PAYLOAD) ++ l.flatMap f.chunk
  /-- The chunks are in their order. -/
  increasing : l.Pairwise (· < ·)
  /-- They are chunks of the last window. -/
  window : ∀ k ∈ l, WIN_SIZ * (s.rx.windows.length - 1) ≤ k ∧ k < WIN_SIZ * s.rx.windows.length
  /-- The last one is the end of the file. -/
  ending : ∃ k ∈ l, f.EndsIn k

/-- Less than a window is missing. -/
theorem Salvages.length_le {l : List ℕ} (h : Salvages f s l) :
    f.bytes.length ≤ s.rx.conf.state.sink.length + (WIN_SIZ - 1) * PAYLOAD := by
  obtain ⟨k, hk, hend⟩ := h.ending
  obtain ⟨hge, hlt⟩ := h.window k hk
  have hchunk : (f.chunk k).length ≤ (l.flatMap f.chunk).length := by
    rw [List.length_flatMap]
    exact List.le_sum_of_mem (List.mem_map_of_mem hk)
  have hlen : (f.chunk k).length = min PAYLOAD (f.bytes.length - k * PAYLOAD) := length_chunk _ _ _
  have hfirst := List.length_take_of_le
    ((Nat.mul_le_mul_right PAYLOAD hge).trans hend.1.le)
  -- The chunks between the whole windows and the last chunk.
  have hbetween : k * PAYLOAD ≤
      WIN_SIZ * (s.rx.windows.length - 1) * PAYLOAD + (WIN_SIZ - 1) * PAYLOAD := by
    rw [← Nat.add_mul]
    refine Nat.mul_le_mul_right _ ?_
    have hwin : WIN_SIZ = 5 := rfl
    rw [hwin] at hge hlt ⊢
    omega
  have hlast := hend.2
  rw [Nat.add_mul, Nat.one_mul] at hlast
  rw [h.sink, List.length_append, hfirst]
  omega

/-- Whatever is lost or reordered: as long as the receiver goes on, its sink holds the windows it
    has stored; when it has returned, less than a window is missing, all of it from the last one;
    the sender only returns after it, and takes no more acknowledgements than there are windows. -/
theorem salvages (h : Reachable bo Env.Stores Network.Unordered (fileSender f txStatics txList sink)
    (fileReceiver rxStatics rxList source fileSize) s) :
    (¬s.rx.Completed →
      s.rx.conf.state.sink = f.bytes.take (WIN_SIZ * s.rx.windows.length * PAYLOAD)) ∧
    (s.rx.Completed → (∃ l, Salvages f s l) ∧
      f.bytes.length ≤ s.rx.conf.state.sink.length + (WIN_SIZ - 1) * PAYLOAD) ∧
    (s.tx.Completed → s.rx.Completed) ∧
    (s.tx.sentWindows bo).acked.length ≤ s.rx.windows.length := by
  obtain ⟨s', hs', hrel⟩ := simulated (fun _ _ h => h) Network.Unordered
    (fun _ _ => Network.Unordered.arbitrary) (fun _ _ _ _ _ _ he => .inl he) h
  have hw := Net.Reached.windows hs'
  have hsink := sink_eq hrel
  have hwindows := hrel.rx.windows
  have hcompleted (hrx : s'.rx.phase = .finished) : s.rx.Completed :=
    hrel.rx.completed hrx (hs'.not_halted hrx)
  refine ⟨fun hrx => ?_, fun hrx => ?_, fun htx => ?_, ?_⟩
  · rw [hsink, (hw.stored fun hfin => hrx (hcompleted hfin)).1, f.flatMap_chunk, hwindows]
  · have hfin := hrel.rx.finished hrx
    obtain ⟨l, hl⟩ := hs'.salvage hfin
    have hincreasing := hw.increasing
    have hall : Salvages f s l := by
      refine ⟨?_, ?_, ?_, ?_⟩
      · rw [hsink, hl.stored, List.flatMap_append, f.flatMap_chunk, hwindows]
      · rw [hl.stored] at hincreasing
        exact (List.pairwise_append.1 hincreasing).2.1
      · rw [hwindows]
        exact hl.window
      · obtain ⟨k, hk, hlast⟩ := hl.ending
        exact ⟨k, hk, of_decide_eq_true hlast⟩
    exact ⟨⟨l, hall⟩, hall.length_le⟩
  · exact hcompleted (Live.finished_rx hw (hrel.tx.finished htx))
  · rw [hrel.tx.counts.acked, hwindows]
    exact hw.acked_le

/-- When the receiver of one byte has returned, nothing of the windows before is missing. -/
theorem salvages_oneByte : (∃ l, Salvages oneByteFile (oneByteRun 12) l) ∧
    oneByteFile.bytes.length ≤
      (oneByteRun 12).rx.conf.state.sink.length + (WIN_SIZ - 1) * PAYLOAD :=
  (salvages (f := oneByteFile) ((reachable_oneByteRun stores_plain 12).mono
    fun _ _ => Network.InOrder.unordered)).2.1 (by decide +kernel)

end Exchange

end Udm
