import Udm.Exchange.Addresses
import Udm.Session.Failures
import Udm.Session.Pointers

/-!
# Exchanges without faults

When the two programs talk to each other, neither of them fails without defined behaviour,
whatever the network loses or reorders, and whichever data capsules it copies: a side that sends to
an address of its peer has learnt one, and no pointer of a window dangles (`never_faults`). The
only reads outside a block or a list are those of the loop that removes the loopback addresses: a
side makes none if its peer does not advertise one.

What can go wrong in a step is said by `TxMoves.error_iff` and `RxMoves.error_iff`; what a side
knows when it takes the step, by `Site.Informed` and the part it plays. Together they give
`PlaysSender.defined_step` and `PlaysReceiver.defined_step`, and the reads are added to the
simulation as another invariant of the sites (`Site.Sound`).
-/

namespace Udm

open Session Protocol

variable {bo : ByteOrder} {env : Env} {f : File} {s : Site}
  {txList rxList theirs : List IpaddrDummy} {d : Option (List Byte)}

/-- A list that is announced is contained in its datagram, if it fits and holds no loopback
    address. -/
theorem contained_of_announces {p : Process} {d : List Byte} (hd : Announces bo theirs d)
    (hp : p.rxFactory.chunkSize = CHUNK)
    (hfit : HEADER_SPACE + theirs.length * ADDR_LEN ≤ CHUNK)
    (hloop : ∀ a ∈ theirs, a.isLoopback = false) : Contained bo p env d := by
  have hlist : advertised bo p env d = theirs := hd env p hp
  have hlen : (consumed bo p env d).capSize.toNat / ADDR_LEN = theirs.length := by
    have := congrArg List.length hlist
    rwa [advertised, SessionProcessor.addresses, List.length_map, List.length_range] at this
  refine ⟨?_, hlist ▸ hloop⟩
  rwa [hlen, Nat.mul_comm]

/-- A process whose peer has the addresses `theirs` has taken no step without defined behaviour,
    and its steps have only read the memory they are to read, unless these hold a loopback
    address. -/
structure Site.Sound (theirs : List IpaddrDummy) (s : Site) : Prop where
  /-- No step had undefined behaviour. -/
  defined : s.conf.error ≠ some .fault
  /-- The capsules in the window fit into their buffers. -/
  sized : s.conf.error = none → WindowSized 0 s.conf.state
  /-- If the peer has no loopback address, every read was within its block or list. -/
  within : (∀ a ∈ theirs, a.isLoopback = false) → ∀ a ∈ s.conf.state.io.accesses, a.Within

namespace Site

/-- At the start nothing was read. -/
theorem sound_start (dir : StateDirection) (statics : Statics) (mine : List IpaddrDummy)
    (source sink : DataSource) :
    Sound theirs { conf := { state := .init dir statics mine source sink } } where
  defined := by simp
  sized := fun _ e he => absurd he (OrdMap.not_mem_empty e)
  within := fun _ => by simp [Process.init]

/-- What is left to know of a step is that it has defined behaviour. -/
theorem Sound.step {dir : StateDirection} (h : s.Sound theirs) (hs : s.Steady dir)
    (hd : s.conf.Alive Process.returned → s.conf.state.takesAddresses →
      ∀ d' ∈ d, Announces bo theirs d')
    (hfit : HEADER_SPACE + theirs.length * ADDR_LEN ≤ CHUNK)
    (hdefined : (s.step bo env d).1.conf.error ≠ some .fault) :
    (s.step bo env d).1.Sound theirs := by
  by_cases halive : s.conf.Alive Process.returned
  swap
  · rwa [step_of_not_alive halive]
  obtain ⟨hst, -⟩ := hs halive.1
  have htr := transition_exec bo { env with datagram := d } hst
  rw [step_of_alive halive] at hdefined ⊢
  refine ⟨hdefined, fun hc => htr.windowSized hst.clear (Nat.zero_le _) (h.sized halive.1)
    (fun _ _ _ => Nat.zero_le _) hc, fun hloop => ?_⟩
  refine (htr.within_iff rfl (h.sized halive.1)).2 fun htakes d' hd' => ?_
  exact contained_of_announces (hd halive htakes d' hd') hst.chunkSize hfit hloop

/-- A sender that has learnt the addresses of its peer. -/
theorem PlaysSender.defined_step {t : Sender} (h : s.PlaysSender bo f t)
    (hinf : s.Informed txList rxList) (hrx : Advertisable rxList) (hs : s.conf.error ≠ some .fault)
    (env : Env) (d : Option (List Byte)) : (s.step bo env d).1.conf.error ≠ some .fault := by
  by_cases halive : s.conf.Alive Process.returned
  swap
  · rwa [step_of_not_alive halive]
  obtain ⟨-, hst, hdir, hat, -⟩ := h.of_alive halive
  rw [step_of_alive halive]
  intro hfault
  have hm := @txMoves_exec bo { env with datagram := d } _ _ _ hat.sending hst hdir
  obtain ⟨hsends, haddr⟩ := (hm.error_iff hdir).1.1 hfault
  rcases hsends with hnext | ⟨hnext, -⟩
  · exact hat.early (.inr hnext) haddr
  · have hlearnt := hinf.peer halive.1 (by rw [Process.informed, hdir, hnext])
    exact hlearnt.not_noAddress hrx haddr

/-- A receiver that has learnt the addresses of its peer. -/
theorem PlaysReceiver.defined_step {ok : Env → Prop} {r : Receiver}
    (h : s.PlaysReceiver bo ok f r) (hinf : s.Informed rxList txList) (htx : Advertisable txList)
    (hs : s.conf.error ≠ some .fault) (env : Env) (d : Option (List Byte)) :
    (s.step bo env d).1.conf.error ≠ some .fault := by
  by_cases halive : s.conf.Alive Process.returned
  swap
  · rwa [step_of_not_alive halive]
  obtain ⟨-, hst, hdir, hat, -⟩ := h.of_alive halive
  rw [step_of_alive halive]
  intro hfault
  have hm := @rxMoves_exec bo { env with datagram := d } _ hst hdir hat.collects.held
  obtain ⟨hnext | hnext | hnext, haddr⟩ := (hm.error_iff hdir).1.1 hfault
  · exact (hat.early (.inl hnext)).1 haddr
  · have hlearnt := hinf.peer halive.1 (by rw [Process.informed, hdir, hnext])
    exact hlearnt.not_noAddress htx haddr
  · exact hat.late (.inr hnext) haddr

end Site

namespace Exchange

variable {txStatics rxStatics : Statics} {sink source : DataSource} {fileSize : ℕ}
  {sched : ℕ → Env × Event}

/-- In every run of the two programs, whatever is lost or reordered and however often data capsules
    are copied, no step fails without defined behaviour, if both hosts have an address that is not
    the loopback address, and their addresses fit into a capsule. Nor does a side read outside a
    block or its peer list, if its peer does not advertise the loopback address. -/
theorem never_faults {s₀ : Exchange}
    (h₀ : s₀ = fileExchange f txStatics rxStatics txList rxList sink source fileSize)
    (htx : Advertisable txList) (hrx : Advertisable rxList)
    (h : Network.IsRun (Site.machine bo) (Site.machine bo) (Env.InfCount · txList.length)
      (Env.InfCount · rxList.length) (Network.Arbitrary fun _ => IsCapsule bo) s₀ sched) (n : ℕ) :
    let s := trace bo s₀ sched n
    (s.tx.conf.error ≠ some .fault ∧ s.rx.conf.error ≠ some .fault) ∧
      ((∀ a ∈ rxList, a.isLoopback = false) → ∀ a ∈ s.tx.conf.state.io.accesses, a.Within) ∧
      ((∀ a ∈ txList, a.isLoopback = false) → ∀ a ∈ s.rx.conf.state.io.accesses, a.Within) := by
  subst h₀
  have hsends := (@sends_tells txList rxList bo f _ (fun _ => id) htx.fits).and_invariant
    (Q := fun s _ => s.Sound rxList) fun h hs _ hdm hexp _ =>
      hs.step h.1.steady (fun halive => h.1.announced halive hdm hexp) hrx.fits
        (h.1.defined_step h.2 hrx hs.defined _ _)
  have hreceives := (@receives_tells txList rxList bo f _ (fun _ => id) (fun _ _ => id)
    hrx.fits).and_invariant
    (Q := fun s _ => s.Sound txList) fun h hs _ hdm hexp _ =>
      hs.step h.1.steady (fun halive => h.1.announced halive hdm hexp) htx.fits
        (h.1.defined_step h.2 htx hs.defined _ _)
  have hstart := @tells_start bo f txList rxList txStatics rxStatics sink source fileSize
    (Env.InfCount · rxList.length)
  have hstart' : Network.Rel (Tells bo f txList rxList)
      (fun s t => (s.PlaysSender bo f t ∧ s.Informed txList rxList) ∧ s.Sound rxList)
      (fun s r => (s.PlaysReceiver bo (Env.InfCount · rxList.length) f r ∧
        s.Informed rxList txList) ∧ s.Sound txList)
      (fileExchange f txStatics rxStatics txList rxList sink source fileSize) Net.start :=
    ⟨⟨hstart.tx, Site.sound_start _ _ _ _ _⟩, ⟨hstart.rx, Site.sound_start _ _ _ _ _⟩, hstart.toTx,
      hstart.toRx⟩
  have hbasic {s' : Net} (hs' : Net.Reached f.toSource (Network.Arbitrary CopiesData) s') :
      Basic f.toSource s' := hs'.basic fun _ _ => id
  obtain ⟨s', -, hrel⟩ := h.simulated hsends hreceives hstart'
    (fun _ _ _ hs' hrel he => arbitrary_of_meets (hbasic hs') hrel he)
    (fun _ _ hs' he => (hbasic hs').expected he) (fun _ _ _ _ => trivial) default trivial n
  exact ⟨⟨hrel.tx.2.defined, hrel.rx.2.defined⟩, hrel.tx.2.within, hrel.rx.2.within⟩

/-- The exchange of one byte goes on without faults, and reads nothing outside its memory. -/
theorem sound_oneByte :
    let s := trace .little (start oneByteSender oneByteReceiver) turns 20
    (s.tx.conf.error ≠ some .fault ∧ s.rx.conf.error ≠ some .fault) ∧
      (∀ a ∈ s.tx.conf.state.io.accesses, a.Within) ∧
      ∀ a ∈ s.rx.conf.state.io.accesses, a.Within := by
  have hstart : start oneByteSender oneByteReceiver =
      fileExchange oneByteFile {} {} [SessionProcessor.private10] [SessionProcessor.private10]
        { fmode := .OUT, fs := {} } { fmode := .IN, fs := {} } 0 := rfl
  have hloop : ∀ a ∈ [SessionProcessor.private10], a.isLoopback = false := by decide
  have h := never_faults hstart advertisable_private10 advertisable_private10
    (isRun_turns (start oneByteSender oneByteReceiver)) 20
  exact ⟨h.1, h.2.1 hloop, h.2.2 hloop⟩

end Exchange

end Udm
