import Udm.Exchange.Integrity

/-!
# Acknowledging the end of the file

The receiver computes in `doneState` whether a window contained the end of the file,
and puts the flag `FIN` into the `params` of the acknowledgement. The flags are not
among what `setCapParams` copies into the header, so no datagram of the receiver
carries them: the sender reads the acknowledgements as the receiver meant them
exactly as long as no window with the end of the file is acknowledged
(`acknowledgesFin_iff`).

The file `sixChunks` has two windows, the first of which the receiver acknowledges as one
without the end of the file, and the sender reads it so (`acknowledgesFin_sixChunks`); with
a file of one window the sender misses the flag (`not_acknowledgesFin_oneByte`).
-/

namespace Udm

open Session Protocol

namespace Exchange

/-- The acknowledgements carry the flag `FIN` exactly for the windows for which it
    was set. -/
def AcknowledgesFin (bo : ByteOrder) (s : Exchange) : Prop := s.tx.decoded bo <+: s.rx.windows

/-! ### A file of six chunks -/

/-- A file with one byte more than a window of whole chunks. -/
def sixChunks : File :=
  ⟨List.replicate (5 * PAYLOAD + 1) 0, by rw [List.length_replicate]; decide⟩

/-- Its length, in the form in which the chunks are counted. -/
theorem length_sixChunks : sixChunks.bytes.length = 5 * PAYLOAD + 1 := List.length_replicate

/-- The handshake of its exchange goes well. -/
theorem connected_sixChunks : Connected (shaken sixChunks) := by decide +kernel

/-- Of the first window, `sent` chunks were sent, and `taken` of them have come. -/
def transferring (sent taken : ℕ) : Net where
  tx := { phase := .data, sent, win := 5 - sent }
  rx := { phase := .data, window := Finset.range taken, win := 5 - taken }
  toTx := { sent := [.hello, .ack 5], delivered := [.hello, .ack 5] }
  toRx := { sent := .hi :: (List.range sent).map .data
            flight := ((List.range sent).map .data).drop taken
            delivered := .hi :: ((List.range sent).map .data).take taken }

variable {P : Net → Prop} {es : List Event} {n : ℕ}

/-- The sender sends the next chunk. -/
theorem leads_send (hn : n < 5)
    (h : Network.Leads (sender (endingIn 5)) (receiver (endingIn 5)) (Works (.plain none [1, 1, 1]))
      Network.InOrder P (transferring (n + 1) 0) es) :
    Network.Leads (sender (endingIn 5)) (receiver (endingIn 5)) (Works (.plain none [1, 1, 1]))
      Network.InOrder P (transferring n 0) (.tx (.flight 0) :: es) := by
  refine ⟨rfl, fun ⟨_, w⟩ hw => ?_⟩
  obtain rfl : w = true := hw rfl rfl
  interval_cases n <;> exact h

/-- The receiver takes it. -/
theorem leads_take (hn : n < 5)
    (h : Network.Leads (sender (endingIn 5)) (receiver (endingIn 5)) (Works (.plain none [1, 1, 1]))
      Network.InOrder P (transferring 5 (n + 1)) es) :
    Network.Leads (sender (endingIn 5)) (receiver (endingIn 5)) (Works (.plain none [1, 1, 1]))
      Network.InOrder P (transferring 5 n) (.rx (.flight 0) :: es) := by
  refine ⟨rfl, fun _ _ => ?_⟩
  have hwindow : Finset.range (n + 1) = insert n (Finset.range n) := Finset.range_add_one
  rw [transferring, hwindow] at h
  interval_cases n <;> exact h

/-- The whole chunks make up the first window, whose acknowledgement the sender takes. -/
theorem leads_ok :
    Network.Leads (sender (endingIn 5)) (receiver (endingIn 5)) (Works (.plain none [1, 1, 1]))
      Network.InOrder (fun s => s.tx.acked = 1 ∧ s.rx.phase = .data ∧ s.rx.halted = false)
      (handshaken true)
      [.tx (.flight 0), .tx (.flight 0), .tx (.flight 0), .tx (.flight 0), .tx (.flight 0),
        .rx (.flight 0), .rx (.flight 0), .rx (.flight 0), .rx (.flight 0), .rx (.flight 0),
        .rx (.flight 0), .rx (.flight 0), .tx (.flight 0), .tx (.flight 0)] := by
  show Network.Leads _ _ _ _ _ (transferring 0 0) _
  refine leads_send (by decide) (leads_send (by decide) (leads_send (by decide)
    (leads_send (by decide) (leads_send (by decide) ?_))))
  refine leads_take (by decide) (leads_take (by decide) (leads_take (by decide)
    (leads_take (by decide) (leads_take (by decide) ?_))))
  refine ⟨rfl, fun _ _ => ⟨rfl, fun ⟨_, w⟩ hw => ⟨rfl, fun _ _ => ⟨rfl, fun _ _ => ?_⟩⟩⟩⟩
  obtain rfl : w = true := hw rfl rfl
  exact ⟨rfl, rfl, rfl⟩

/-! ### What the sender decodes -/

/-- In a run over channels in order, the sender decodes `FIN` from exactly the
    acknowledgements of the windows with the end of the file if and only if none of
    the windows whose acknowledgement it has decoded is one. -/
theorem acknowledgesFin_iff (bo : ByteOrder) (txStatics rxStatics : Statics)
    (txList rxList : List IpaddrDummy) (source sink source' sink' : DataSource) (s : Exchange)
    (h : Reachable bo (fun _ => True) Network.InOrder
      (.init .TX txStatics txList source sink) (.init .RX rxStatics rxList source' sink') s) :
    AcknowledgesFin bo s ↔ ∀ fin ∈ s.rx.windows.take (s.tx.decoded bo).length, fin = false := by
  have htx := steady_init .TX txStatics txList source sink
  have hrx := steady_init .RX rxStatics rxList source' sink'
  obtain ⟨hflag, hsent⟩ := length_sent hrx rfl h
  have hdec := length_decoded htx rfl rfl h
  -- The sender has decoded no more acknowledgements than windows were processed.
  have hfifo : s.toTx.delivered ++ s.toTx.flight = s.toTx.sent :=
    (Network.Reachable.fifo .start .start h).1
  have hle : (s.tx.decoded bo).length ≤ s.rx.windows.length := by
    have := congrArg List.length hfifo
    rw [List.length_append] at this
    rcases hdec with hnil | hdec
    · simp [hnil]
    · omega
  have hfalse := decoded_eq_false htx rfl h fun d hd =>
    hflag d (hfifo ▸ List.mem_append_left _ hd)
  rw [AcknowledgesFin, List.prefix_iff_eq_take]
  constructor
  · intro heq fin hfin
    exact hfalse fin (heq ▸ hfin)
  · intro hwin
    have hlen : (s.rx.windows.take (s.tx.decoded bo).length).length = (s.tx.decoded bo).length := by
      rw [List.length_take, min_eq_left hle]
    rw [List.eq_replicate_of_mem hwin, hlen]
    exact List.eq_replicate_of_mem hfalse

/-- The acknowledgement of the first window of six chunks is decoded as it was meant: there is
    another window to come. -/
theorem acknowledgesFin_sixChunks : ∃ s, Reachable .little (fun _ => True) Network.InOrder
      (senderOf sixChunks) twoChunksReceiver s ∧
    (s.tx.decoded .little).length = 1 ∧ AcknowledgesFin .little s := by
  obtain ⟨s, s', hs, hrel, hacked, hphase, hhalted⟩ := exists_of_leads length_sixChunks
    connected_sixChunks Network.InOrder (fun _ _ _ _ he => he)
      (fun _ _ he => he.unordered.arbitrary)
    (fun _ _ he => he) leads_ok
  have hlen := length_acked (steady_init _ _ _ _ _) rfl hs
  rw [hrel.tx.counts.acked, hacked] at hlen
  have halive : s.rx.conf.Alive Process.returned := by
    have hc : s.rx.conf.error = none := by simpa [hhalted] using hrel.rx.halted
    refine ⟨hc, Bool.eq_false_iff.2 fun hreturned => ?_⟩
    have hfin := hrel.rx.finished ⟨hc, hreturned⟩
    exact absurd (hphase.symm.trans hfin) (by decide)
  have hwindows := windows_eq_false (steady_init _ _ _ _ _) rfl hs halive
  refine ⟨s, hs.mono_ok fun _ _ => trivial, hlen.symm, ?_⟩
  exact (acknowledgesFin_iff .little {} {} _ _ _ _ _ _ s (hs.mono_ok fun _ _ => trivial)).2
    fun fin hfin => hwindows fin (List.mem_of_mem_take hfin)

/-- The only window of the exchange contains the end of the file, and the sender
    decodes no flag from its acknowledgement. -/
theorem not_acknowledgesFin_oneByte :
    ¬∀ s, Reachable .little (fun _ => True) Network.InOrder oneByteSender oneByteReceiver s →
      AcknowledgesFin .little s := by
  intro h
  have hprefix := h _ (reachable_oneByteRun trivial 12)
  have htx : (oneByteRun 12).tx.decoded .little = [false] := by decide +kernel
  have hrx : (oneByteRun 12).rx.windows = [true] := by decide +kernel
  rw [AcknowledgesFin, htx, hrx] at hprefix
  exact absurd hprefix (by decide)

end Exchange

end Udm
