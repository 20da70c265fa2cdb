import Udm.Exchange.Addresses
import Udm.Gateway.AddressList
import Udm.Library.Decimal

/-!
# From the interfaces of a host to its peer

The constructor of `PhyInterfaces` keeps the texts of the addresses of its host (`Makes.lists`).
They go to the peer, which removes the loopback address. So, whatever the network does, a side
that has taken addresses has the texts of those of its peer, in their order, but for the loopback
address, and different texts for different addresses (`discovers_of_isRun`).

On the way from one host to the other:

* the text of an address determines it (`inetNtop_injective`), so that the comparison with
  `"127.0.0.1"` finds the loopback address and no other (`Lists.isLoopback_eq`);
* a list that the constructor makes has the texts of the interfaces (`lists_fieldsOf`), if none of
  them fills its field;
* with one loopback address at most, the loop that removes it leaves the others as they are
  (`SessionProcessor.loopbacksLast_of_countP`).
-/

namespace Udm

open Session SessionProcessor Protocol

/-! ## Texts -/

/-- The address is `127.0.0.1`. -/
def InAddr.isLoopback (addr : InAddr) : Bool := decide (addr.octets = loopback.octets)

/-- The texts of the octets can be read. -/
theorem decimal_injective : Function.Injective decimal := by
  have hread (octet : BitVec 8) : BitVec.ofNat 8 (readDigits (decimal octet)) = octet := by
    revert octet
    decide +kernel
  intro a b h
  rw [← hread a, h, hread]

/-- The digits of an octet are no dots. -/
theorem dot_notMem_decimal (octet : BitVec 8) : 46 ∉ decimal octet := by
  revert octet
  decide

/-- What stands before the first dot, and what behind it. -/
theorem append_dot_inj {a b : BitVec 8} {r r' : List Byte}
    (h : decimal a ++ ([46] ++ r) = decimal b ++ ([46] ++ r')) : a = b ∧ r = r' := by
  have hfirst (octet : BitVec 8) (r : List Byte) :
      (decimal octet ++ ([46] ++ r)).takeWhile (· ≠ 46) = decimal octet := by
    have hne : ∀ c ∈ decimal octet, decide (c ≠ 46) = true := fun c hc =>
      decide_eq_true fun heq => dot_notMem_decimal octet (heq ▸ hc)
    rw [List.takeWhile_append_of_pos hne]
    simp
  have hdecimal : decimal a = decimal b := by rw [← hfirst a r, h, hfirst]
  rw [hdecimal] at h
  exact ⟨decimal_injective hdecimal, List.append_cancel_left (List.append_cancel_left h)⟩

/-- Different addresses have different texts. -/
theorem inetNtop_injective : Function.Injective inetNtop := by
  rintro ⟨a, b, c, d⟩ ⟨a', b', c', d'⟩ h
  simp only [inetNtop, List.append_assoc] at h
  obtain ⟨ha, hbcd⟩ := append_dot_inj h
  obtain ⟨hb, hcd⟩ := append_dot_inj hbcd
  obtain ⟨hc, hd⟩ := append_dot_inj hcd
  rw [ha, hb, hc, decimal_injective hd]

/-! ## The interfaces of a host -/

namespace PhyInterfaces

/-- The entries have the texts of the addresses of the interfaces. -/
def Lists (all : List Ifreq) (list : List IpaddrDummy) : Prop :=
  List.Forall₂ (fun a ifr => a.text = inetNtop ifr.sin_addr) list all

/-- A text that leaves room for its NUL is that of the entry. -/
theorem lists_fieldsOf {all : List Ifreq} (bo : ByteOrder) (heap stack : Block Byte)
    (h : ∀ ifr ∈ all, ¬ifr.sin_addr.Longest) :
    Lists all (fieldsOf (interfacesToIpV4addr bo heap stack all).list all.length) := by
  refine List.forall₂_iff_get.2 ⟨length_fieldsOf _ _, fun i hi hi' => ?_⟩
  obtain ⟨hread, hlt⟩ := holds_interfacesToIpV4addr bo heap stack h i hi'
  rw [List.get_eq_getElem, List.get_eq_getElem, getElem_fieldsOf, IpaddrDummy.text]
  exact hread.cString_load hlt.le

namespace Lists

variable {all : List Ifreq} {list : List IpaddrDummy}

/-- The comparison of the texts compares the addresses. -/
theorem isLoopback_eq {a : IpaddrDummy} {addr : InAddr} (h : a.text = inetNtop addr) :
    a.isLoopback = addr.isLoopback := by
  rw [Bool.eq_iff_iff, a.isLoopback_iff, h, inetNtop_injective.eq_iff, InAddr.isLoopback,
    decide_eq_true_eq]
  exact ⟨congrArg InAddr.octets, fun hoctets => congrArg InAddr.mk hoctets⟩

/-- The loopback address is left out on both sides. -/
theorem filter (h : Lists all list) :
    (list.filter fun a => !a.isLoopback).map IpaddrDummy.text =
      (all.filter fun ifr => !ifr.sin_addr.isLoopback).map fun ifr => inetNtop ifr.sin_addr := by
  induction h with
  | nil => rfl
  | cons htext _ ih =>
    rw [List.filter_cons, List.filter_cons, isLoopback_eq htext]
    split
    · rw [List.map_cons, List.map_cons, ih, htext]
    · exact ih

/-- There are as many loopback addresses on both sides. -/
theorem countP (h : Lists all list) :
    list.countP IpaddrDummy.isLoopback = all.countP fun ifr => ifr.sin_addr.isLoopback := by
  induction h with
  | nil => rfl
  | cons htext _ ih => rw [List.countP_cons, List.countP_cons, ih, isLoopback_eq htext]

end Lists

end PhyInterfaces

/-- A loopback address that is the only one is the last one. -/
theorem SessionProcessor.loopbacksLast_of_countP {l : List IpaddrDummy}
    (h : l.countP IpaddrDummy.isLoopback ≤ 1) : LoopbacksLast l := by
  rw [LoopbacksLast]
  by_cases hany : l.any IpaddrDummy.isLoopback
  · obtain ⟨a, rest, hdrop, ha, hl⟩ := exists_split hany
    rw [hdrop, List.tail_cons]
    have hrest : rest.countP IpaddrDummy.isLoopback = 0 := by
      rw [hl, List.countP_append, List.countP_cons_of_pos ha] at h
      omega
    have hnone := List.countP_eq_zero.1 hrest
    refine List.pairwise_of_forall_mem_list fun b hb c _ _ => ?_
    simpa using hnone b hb
  · have hnone : ∀ b ∈ l, b.isLoopback = false := by simpa using hany
    have hdrop : l.dropWhile (fun a => !a.isLoopback) = [] :=
      List.dropWhile_eq_nil_iff.2 fun b hb => by simp [hnone b hb]
    rw [hdrop]
    exact .nil

/-- A host whose addresses fit into a capsule, and into the fields of its list, and of whose
    interfaces one at most has the loopback address. -/
structure Host where
  /-- The interfaces that the system calls report. -/
  all : List Ifreq
  /-- The capsule with the list has room for all of them. -/
  fits : HEADER_SPACE + all.length * ADDR_LEN ≤ CHUNK
  /-- No text fills its field. -/
  short : ∀ ifr ∈ all, ¬ifr.sin_addr.Longest
  /-- There is one loopback interface, or none. -/
  once : all.countP (fun ifr => ifr.sin_addr.isLoopback) ≤ 1

namespace Host

open PhyInterfaces

/-- A list that the constructor of `PhyInterfaces` makes on the host, whatever memory it gets. -/
def Makes (bo : ByteOrder) (host : Host) (list : List IpaddrDummy) : Prop :=
  ∃ given : Setting, Answers given.ioctl host.all ∧ given.Constructs bo host.all.length list

variable {bo : ByteOrder} {host : Host} {list : List IpaddrDummy}

/-- The addresses fit into a capsule, so an `int` can count the bytes of the interfaces. -/
theorem bytes_fit (host : Host) : IFREQ * 2 ^ host.all.length.size < 2 ^ 31 := by
  have hsize : host.all.length.size ≤ 12 := by
    have := host.fits
    refine Nat.size_le.2 ?_
    simp only [HEADER_SPACE, ADDR_LEN, CHUNK] at this
    omega
  exact (Nat.mul_le_mul_left _ (Nat.pow_le_pow_right (by decide) hsize)).trans_lt (by decide)

/-- Such a list has the texts of the interfaces. -/
theorem Makes.lists (h : host.Makes bo list) : Lists host.all list := by
  obtain ⟨given, hanswers, hlist⟩ := h
  obtain ⟨-, -, block, -, -, rfl⟩ := (constructs_iff hanswers host.bytes_fit _ _).1 hlist
  exact lists_fieldsOf bo block given.buffer host.short

/-- What a host gives to its constructor, in memory that is all zero. -/
def zeroed (host : Host) : Setting where
  ioctl := siocgifconf host.all
  first := fun _ => some fun _ => { sa_family := 0, sin_addr := ⟨0, 0, 0, 0⟩ }
  second := fun _ => some fun _ => { sa_family := 0, sin_addr := ⟨0, 0, 0, 0⟩ }
  ifc := { ifc_len := 0, ifc_buf := .null }
  list := some fun _ => 0
  buffer := fun _ => 0

end Host

/-! ## Discovery -/

namespace Exchange

variable {bo : ByteOrder} {f : File} {txStatics rxStatics : Statics}
  {txList rxList : List IpaddrDummy} {sink source : DataSource} {fileSize : ℕ}
  {sched : ℕ → Env × Event}

/-- The site has the texts of the addresses of its peer, if it has taken them. -/
def Discovers (s : Site) (theirs : Host) : Prop :=
  s.conf.error = none → s.conf.state.informed →
    s.conf.state.interfaces.peers.map IpaddrDummy.text =
      (theirs.all.filter fun ifr => !ifr.sin_addr.isLoopback).map fun ifr => inetNtop ifr.sin_addr

/-- A site that has learnt the list of its peer has its texts without the loopback address. -/
theorem discovers_of_informed {s : Site} {mine theirs : List IpaddrDummy} {host : Host}
    (h : s.Informed mine theirs) (hlist : host.Makes bo theirs) : Discovers s host :=
  fun hc hinformed => by
    have hlists := hlist.lists
    have hlast : LoopbacksLast theirs :=
      loopbacksLast_of_countP (hlists.countP.trans_le host.once)
    rw [((knows_of_informed h hc hinformed).2).2 hlast, hlists.filter]

/-- On two hosts, whatever the network loses or reorders, and however often it copies data capsules:
    a side that has taken the addresses of its peer has their texts, those of the interfaces of the
    other host in their order, without the loopback address. -/
theorem discovers_of_isRun {tx rx : Host} (htx : tx.Makes bo txList) (hrx : rx.Makes bo rxList)
    {s₀ : Exchange} (h₀ : s₀ = fileExchange f txStatics rxStatics txList rxList sink source fileSize)
    (h : Network.IsRun (Site.machine bo) (Site.machine bo) (Env.InfCount · tx.all.length)
      (Env.InfCount · rx.all.length) (Network.Arbitrary fun _ => IsCapsule bo) s₀ sched) (n : ℕ) :
    Discovers (trace bo s₀ sched n).tx rx ∧ Discovers (trace bo s₀ sched n).rx tx := by
  subst h₀
  have htxLen : txList.length = tx.all.length := htx.lists.length_eq
  have hrxLen : rxList.length = rx.all.length := hrx.lists.length_eq
  rw [← htxLen, ← hrxLen] at h
  obtain ⟨hinfTx, hinfRx⟩ := informed_of_isRun (htxLen ▸ tx.fits) (hrxLen ▸ rx.fits) h n
  exact ⟨discovers_of_informed hinfTx hrx, discovers_of_informed hinfRx htx⟩

/-- A host with the loopback interface, and one at `10.0.0.1`. -/
def twoInterfaces : Host where
  all := [{ sa_family := 2, sin_addr := .loopback }, { sa_family := 2, sin_addr := ⟨10, 0, 0, 1⟩ }]
  fits := by decide
  short := by simp [InAddr.Longest, InAddr.loopback]
  once := by decide

/-- In memory that is all zero, the constructor makes this list on it. -/
theorem makes_twoInterfaces :
    twoInterfaces.Makes .little [SessionProcessor.loopback, SessionProcessor.private10] := by
  have hanswers := PhyInterfaces.answers_siocgifconf twoInterfaces.all
  refine ⟨twoInterfaces.zeroed, hanswers,
    (PhyInterfaces.constructs_iff hanswers twoInterfaces.bytes_fit _ _).2 ?_⟩
  exact ⟨nofun, .inr fun _ _ _ => rfl, fun _ => 0, rfl, rfl, by decide +kernel⟩

/-- The exchange of one byte between two such hosts, at its start. -/
def hostExchange : Exchange :=
  fileExchange oneByteFile {} {} [SessionProcessor.loopback, SessionProcessor.private10]
    [SessionProcessor.loopback, SessionProcessor.private10] { fmode := .OUT, fs := {} }
    { fmode := .IN, fs := {} } 0

/-- The sites take turns, on such hosts. -/
def hostTurns (n : ℕ) : Env × Event := (Env.plain none [2, 2, 2, 2], (turns n).2)

/-- On two such hosts, the sites take turns. -/
theorem isRun_hostTurns : Network.IsRun (Site.machine .little) (Site.machine .little)
    (Env.InfCount · twoInterfaces.all.length) (Env.InfCount · twoInterfaces.all.length)
    (Network.Arbitrary fun _ => IsCapsule .little) hostExchange hostTurns where
  suits := fun n => by
    rw [hostTurns, turns]
    split_ifs
    exacts [⟨by decide, by simp [Env.plain, twoInterfaces]⟩,
      ⟨by decide, by simp [Env.plain, twoInterfaces]⟩]
  may := fun n => (inOrder_turns _ n).unordered.arbitrary

/-- After the handshake, each of them has the other's address in its network. -/
theorem discovers_twoInterfaces :
    let s := trace .little hostExchange hostTurns 12
    s.tx.conf.state.interfaces.peers.map IpaddrDummy.text = [inetNtop ⟨10, 0, 0, 1⟩] ∧
      s.rx.conf.state.interfaces.peers.map IpaddrDummy.text = [inetNtop ⟨10, 0, 0, 1⟩] := by
  intro s
  have hinformed : (s.tx.conf.error = none ∧ s.tx.conf.state.informed) ∧
      s.rx.conf.error = none ∧ s.rx.conf.state.informed := by decide +kernel
  obtain ⟨htx, hrx⟩ := discovers_of_isRun makes_twoInterfaces makes_twoInterfaces rfl
    isRun_hostTurns 12
  exact ⟨htx hinformed.1.1 hinformed.1.2, hrx hinformed.2.1 hinformed.2.2⟩

end Exchange

end Udm
