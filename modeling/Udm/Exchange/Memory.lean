import Udm.Exchange.Addresses
import Udm.Exchange.Lockstep
import Udm.Session.Disclosure

/-!
# Exchanges in other memory

The list of a host has the texts of its addresses (`PhyInterfaces.map_text_fieldsOf`), and behind
each of them what `malloc` has left in the field. These bytes get on the wire with the addresses,
and they are the only ones of fresh memory that do: whatever the network does, two exchanges in any
two memories send datagrams that look alike (`same_trace`), in the same order, and store the same
(`leaks_only_behind_texts`).

Neither side sees the bytes that leak, as the two programs send only whole capsules to each other,
so that `alike_memories` goes through a step of either of them.
-/

namespace Udm

open Session

namespace Exchange

variable {bo : ByteOrder} {dir : StateDirection} {list : List IpaddrDummy}

/-- The same inputs, in other memory, with as many interfaces as there are addresses. -/
def Allocating (list : List IpaddrDummy) (env env' : Env) : Prop :=
  env.InfCount list.length ∧ ∃ heap past, env' = env.allocating heap past env.datagram

/-- Processes in other memory are seen alike. -/
theorem seenAlike_memory : SeenAlike (Lookalike bo) (Process.Same bo list) where
  returned := Process.Same.returned_eq
  awaits := by
    rintro p _ ⟨k, rfl, -⟩
    rfl
  out := by
    rintro p _ ⟨k, rfl, h⟩
    show List.Forall₂ (Lookalike bo) (p.io.sent.map Prod.snd) (k.sent.map Prod.snd)
    rw [List.forall₂_map_left_iff, List.forall₂_map_right_iff]
    exact h.sent.imp fun _ _ hs => hs.2

/-- Such sites send datagrams that look alike, as long as they get such datagrams. -/
theorem alike_memories (hfit : HEADER_SPACE + list.length * ADDR_LEN ≤ CHUNK) :
    (Site.machine bo).Alike (Site.machine bo) (Lookalike bo) (Allocating list)
      (Site.Alike dir (Process.Same bo list)) := by
  refine Site.alike_machine seenAlike_memory ?_
  rintro p q env _ d d' hst h ⟨hinf, heap, past, rfl⟩ hd
  have hend : SameEnd (Process.Same bo list) Eq (Session.step bo { env with datagram := d } p)
      (Session.step bo ({ env with datagram := d }.allocating heap past d') q) :=
    same_step hst h hd hfit hinf
  exact hend

variable {txStatics rxStatics : Statics} {txList rxList txList' rxList' : List IpaddrDummy}
  {txSource txSink rxSource rxSink : DataSource} {sched : ℕ → Env × Event} {heap : ℕ → Block Byte}
  {past : ℕ → IpaddrDummy}

/-- The same events, in other memory. -/
def reallocated (heap : ℕ → Block Byte) (past : ℕ → IpaddrDummy) (sched : ℕ → Env × Event) (n : ℕ) :
    Env × Event :=
  ((sched n).1.allocating (heap n) (past n) (sched n).1.datagram, (sched n).2)

/-- The exchanges of new processes, in any two memories. -/
theorem same_trace (htx : HEADER_SPACE + txList.length * ADDR_LEN ≤ CHUNK)
    (hrx : HEADER_SPACE + rxList.length * ADDR_LEN ≤ CHUNK)
    (htxTexts : txList.map IpaddrDummy.text = txList'.map IpaddrDummy.text)
    (hrxTexts : rxList.map IpaddrDummy.text = rxList'.map IpaddrDummy.text)
    (hsuits : ∀ n, Network.Suits (Env.InfCount · txList.length) (Env.InfCount · rxList.length)
      (sched n).1 (sched n).2) (n : ℕ) :
    Network.Rel (Lookalike bo) (Site.Alike .TX (Process.Same bo txList))
      (Site.Alike .RX (Process.Same bo rxList))
      (trace bo (start (.init .TX txStatics txList txSource txSink)
        (.init .RX rxStatics rxList rxSource rxSink)) sched n)
      (trace bo (start (.init .TX txStatics txList' txSource txSink)
        (.init .RX rxStatics rxList' rxSource rxSink)) (reallocated heap past sched) n) := by
  have hstart : Network.Rel (Lookalike bo) (Site.Alike .TX (Process.Same bo txList))
      (Site.Alike .RX (Process.Same bo rxList))
      (start (.init .TX txStatics txList txSource txSink)
        (.init .RX rxStatics rxList rxSource rxSink))
      (start (.init .TX txStatics txList' txSource txSink)
        (.init .RX rxStatics rxList' rxSource rxSink)) :=
    ⟨Site.alike_start (steady_init _ _ _ _ _) rfl (Process.same_init bo _ _ htxTexts _ _),
      Site.alike_start (steady_init _ _ _ _ _) rfl (Process.same_init bo _ _ hrxTexts _ _),
      Channel.rel_empty, Channel.rel_empty⟩
  have hmatches (n : ℕ) : Network.Matches (Allocating txList) (Allocating rxList) (sched n).1
      (reallocated heap past sched n).1 (sched n).2 := by
    have hn := hsuits n
    cases he : (sched n).2 with
    | tx | rx | failTx | failRx =>
      rw [he] at hn
      exact ⟨hn, heap n, past n, rfl⟩
    | loseTx | loseRx => exact trivial
  exact hstart.run (alike_memories htx) (alike_memories hrx) (fun n => ⟨hmatches n, rfl⟩) n

/-- The process in other memory, that a site has come to: it has stopped at the same moment, if at
    all, and differs from the one of the site in nothing but its memory. -/
def InMemory (t t' : Site) : Prop :=
  t'.conf.error = t.conf.error ∧ (∃ k, t'.conf.state = t.conf.state.onMemory k) ∧
    t'.conf.state.interfaces.peers.map IpaddrDummy.text =
      t.conf.state.interfaces.peers.map IpaddrDummy.text

/-- Alike sites stop together, and their states differ in memory only. -/
theorem inMemory_of_alike {t t' : Site} (h : t.Alike dir (Process.Same bo list) t') :
    InMemory t t' := by
  obtain ⟨herror, k, hk, hshows⟩ := h.conf
  refine ⟨herror.symm, ⟨k, hk⟩, ?_⟩
  rw [hk]
  exact hshows.peers.symm

/-- The only bytes of fresh memory that get on the wire are those behind the texts of the
    addresses, and no one sees them. In every run of the two programs, whatever the network loses,
    reorders or copies, and whichever system calls fail: with other memory, and lists of the same
    texts, the datagrams that are sent, under way and delivered look alike, one by one, and the
    processes differ in their buffers and lists only, so that they have the same sinks, stop or
    return at the same moment, and have peer lists with the same texts. The lists of both hosts
    fit into a capsule, and the number of their interfaces does not change. -/
theorem leaks_only_behind_texts {s₀ s₀' : Exchange}
    (h₀ : s₀ = start (.init .TX txStatics txList txSource txSink)
      (.init .RX rxStatics rxList rxSource rxSink))
    (h₀' : s₀' = start (.init .TX txStatics txList' txSource txSink)
      (.init .RX rxStatics rxList' rxSource rxSink))
    (htx : HEADER_SPACE + txList.length * ADDR_LEN ≤ CHUNK)
    (hrx : HEADER_SPACE + rxList.length * ADDR_LEN ≤ CHUNK)
    (htxTexts : txList.map IpaddrDummy.text = txList'.map IpaddrDummy.text)
    (hrxTexts : rxList.map IpaddrDummy.text = rxList'.map IpaddrDummy.text)
    (hsuits : ∀ n, Network.Suits (Env.InfCount · txList.length) (Env.InfCount · rxList.length)
      (sched n).1 (sched n).2) (n : ℕ) :
    let s := trace bo s₀ sched n
    let s' := trace bo s₀' (reallocated heap past sched) n
    (Channel.Rel (Lookalike bo) s.toTx s'.toTx ∧ Channel.Rel (Lookalike bo) s.toRx s'.toRx) ∧
      InMemory s.tx s'.tx ∧ InMemory s.rx s'.rx := by
  subst h₀ h₀'
  have hsame := @same_trace bo txStatics rxStatics txList rxList txList' rxList' txSource txSink
    rxSource rxSink sched heap past htx hrx htxTexts hrxTexts hsuits n
  exact ⟨⟨hsame.toTx, hsame.toRx⟩, inMemory_of_alike hsame.tx, inMemory_of_alike hsame.rx⟩

/-- The list of a host at `10.0.0.1`, in memory that is all `b`. -/
def listIn (b : Byte) : List IpaddrDummy :=
  fieldsOf (PhyInterfaces.interfacesToIpV4addr .little (fun _ => b) (fun _ => b)
    [{ sa_family := 2, sin_addr := ⟨10, 0, 0, 1⟩ }]).list 1

/-- In memory that is not zero, what is behind the address of the sender gets on the wire, and the
    receiver has taken its text. -/
theorem leaks_oneByte :
    let s := trace .little (start (.init .TX {} (listIn 255)
          { fmode := .IN, fileSize := 1, fs := { content := [7] } } { fmode := .OUT, fs := {} })
        (.init .RX {} (listIn 255) { fmode := .IN, fs := {} } { fmode := .OUT, fs := {} }))
      (reallocated (fun _ _ => 255) (fun _ => SessionProcessor.loopback) turns) 8
    (∃ d ∈ s.toRx.sent,
      d.drop HEADER_SPACE = inetNtop ⟨10, 0, 0, 1⟩ ++ [0] ++ List.replicate 6 255) ∧
      s.rx.conf.state.interfaces.peers.map IpaddrDummy.text = [inetNtop ⟨10, 0, 0, 1⟩] := by
  intro s
  refine ⟨by decide +kernel, ?_⟩
  have hlist : [SessionProcessor.private10].map IpaddrDummy.text =
      (listIn 255).map IpaddrDummy.text := by
    have hzero : listIn 0 = [SessionProcessor.private10] := by decide +kernel
    rw [← hzero, listIn, listIn]
    exact (PhyInterfaces.map_text_fieldsOf _ _ _ [_]).trans
      (PhyInterfaces.map_text_fieldsOf _ _ _ [_]).symm
  have hsuits := (isRun_turns (start oneByteSender oneByteReceiver)).suits
  obtain ⟨-, -, -, -, hpeers⟩ := @leaks_only_behind_texts .little {} {} [SessionProcessor.private10]
    [SessionProcessor.private10] (listIn 255) (listIn 255) _ _ _ _ turns (fun _ _ => 255)
    (fun _ => SessionProcessor.loopback) (start oneByteSender oneByteReceiver) _ rfl rfl (by decide)
    (by decide) hlist hlist hsuits 8
  rw [hpeers]
  decide +kernel

end Exchange

end Udm
