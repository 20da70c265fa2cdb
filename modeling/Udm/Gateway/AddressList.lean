import Udm.Gateway.Interfaces
import Udm.Session.AddressText

/-!
# The list of the addresses of a host

The constructor of `PhyInterfaces` (`gateway.h`) counts the interfaces of its host, twice, and
keeps the texts of their addresses in a list (`construct`). It has no defined behaviour when
`malloc` has left something else than `NULL`, or a block, in the pointer of the `ifconf` that it
starts with (`construct_stray`), or when there is no buffer, or no list, to go through.

Otherwise it ends, and keeps a list with an entry for each interface (`constructs_iff`). The first
of the two counts is not needed for this: it may be that it found no buffer.
-/

namespace Udm

namespace PhyInterfaces

/-- What the constructor of `PhyInterfaces` gets from its host. -/
structure Setting where
  ioctl : Request Ifreq
  /-- What the heap grants to the first call of `_noOfInterfaces`. -/
  first : Grants Ifreq
  /-- What it grants to the second one. -/
  second : Grants Ifreq
  /-- The `ifconf`, as `malloc` returns it. -/
  ifc : Ifconf Ifreq
  /-- The memory of the list, if `malloc` returns some. -/
  list : Option (Block Byte)
  /-- The buffer on the stack. -/
  buffer : Block Byte

/-- The list in `interfacesToIpV4addr`, for the number of interfaces and the `ifconf` of its call
    of `_noOfInterfaces`; the constructor exits without one. The loop goes through the entries up
    to `ifc_len`, in the buffer and in the list. -/
def listFor (bo : ByteOrder) (host : Setting) (infc : ℤ) (ifc : Ifconf Ifreq) :
    Except Halt (ℤ × List IpaddrDummy) :=
  let n := (ifc.ifc_len.toNat + (IFREQ - 1)) / IFREQ
  match host.list with
  | none => .error (if n = 0 then .exit else .fault)
  | some list =>
    if n ≤ ifc.ifc_buf.cells.length ∧ n ≤ infc.toNat then
      let ifc_req := ifc.ifc_buf.cells.take n
      .ok (infc, fieldsOf (interfacesToIpV4addr bo list host.buffer ifc_req).list infc.toNat)
    else .error .fault

/-- The constructor of `PhyInterfaces`: `infc`, and the fields of `addressList`. The loops of
    `_noOfInterfaces` are tried `fuel` times. -/
def construct (bo : ByteOrder) (host : Setting) (fuel : ℕ) :
    Option (Except Halt (ℤ × List IpaddrDummy)) :=
  match noOfInterfaces host.ioctl host.first host.ifc fuel with
  | none => none
  | some (.error e) => some (.error e)
  | some (.ok (_, ifc)) =>
    match noOfInterfaces host.ioctl host.second ifc fuel with
    | none => none
    | some (.error e) => some (.error e)
    | some (.ok (infc, ifc)) => some (listFor bo host infc ifc)

/-- The constructor returns, with the count in `infc` and the list in `addressList`. -/
def Setting.Constructs (bo : ByteOrder) (host : Setting) (infc : ℤ) (list : List IpaddrDummy) :
    Prop :=
  ∃ fuel, construct bo host fuel = some (.ok (infc, list))

/-- The list for the interfaces `all`, in the memory `list`. -/
def Setting.listOf (bo : ByteOrder) (host : Setting) (list : Block Byte) (all : List Ifreq) :
    List IpaddrDummy :=
  fieldsOf (interfacesToIpV4addr bo list host.buffer all).list all.length

variable {bo : ByteOrder} {host : Setting} {all : List Ifreq} {fuel : ℕ}

/-- The pointer of a structure that comes from `malloc` is not set. -/
theorem construct_stray (h : host.ifc.ifc_buf = .stray) (fuel : ℕ) :
    construct bo host (fuel + 1) = some (.error .fault) := by
  rw [construct, noOfInterfaces_stray h]

/-- The loop of `interfacesToIpV4addr` goes through the entries that `ifc_len` is the size of. -/
theorem entries_of_bytes (n : ℕ) : (IFREQ * n + (IFREQ - 1)) / IFREQ = n := by
  simp only [IFREQ]
  omega

/-- A buffer that starts with all the interfaces is gone through up to the last one. -/
theorem listFor_live {ifc : Ifconf Ifreq} {cells : List Ifreq} {list : Block Byte}
    (hlist : host.list = some list) (hlen : ifc.ifc_len = (IFREQ * all.length : ℕ))
    (hbuf : ifc.ifc_buf = .live cells) (hpre : all <+: cells) :
    listFor bo host all.length ifc = .ok ((all.length : ℤ), host.listOf bo list all) := by
  have htake : cells.take all.length = all := (List.prefix_iff_eq_take.1 hpre).symm
  simp only [listFor, hlist, hlen, Int.toNat_natCast, entries_of_bytes, hbuf, HeapPtr.cells]
  rw [if_pos ⟨hpre.length_le, le_rfl⟩, htake, Setting.listOf]

/-- Without a buffer, nothing can be read, so it is to be that there is nothing to read. -/
theorem listFor_null {ifc : Ifconf Ifreq} {r : ℤ × List IpaddrDummy}
    (hlen : ifc.ifc_len = (IFREQ * all.length : ℕ)) (hbuf : ifc.ifc_buf = .null)
    (h : listFor bo host all.length ifc = .ok r) :
    all = [] ∧ ∃ list, host.list = some list ∧ r = ((all.length : ℤ), host.listOf bo list all) := by
  simp only [listFor, hlen, Int.toNat_natCast, entries_of_bytes, hbuf, HeapPtr.cells,
    List.length_nil, List.take_nil] at h
  split at h
  · contradiction
  rename_i list hlist
  split_ifs at h with hle
  obtain rfl : all = [] := List.eq_nil_of_length_eq_zero (Nat.le_zero.1 hle.1)
  exact ⟨rfl, list, hlist, (Except.ok.inj h).symm⟩

theorem Returned.ne_stray {heap : Grants Ifreq} {i : ℕ} {n : ℤ} {ifc : Ifconf Ifreq}
    (h : Returned heap all i n ifc) : ifc.ifc_buf ≠ .stray := by
  rcases h.ifc_buf with ⟨hnull, -⟩ | ⟨⟨cells, hlive, -⟩, -⟩
  · rw [hnull]
    exact nofun
  · rw [hlive]
    exact nofun

/-- The constructor keeps a list of the interfaces exactly if the pointer of its `ifconf` happens to
    be `NULL` or to a block, there is memory for the list, and the second count is refused no buffer
    that matters. -/
theorem constructs_iff (h : Answers host.ioctl all) (hfit : IFREQ * 2 ^ all.length.size < 2 ^ 31)
    (infc : ℤ) (list : List IpaddrDummy) :
    host.Constructs bo infc list ↔
      host.ifc.ifc_buf ≠ .stray ∧
        (all = [] ∨ ∀ i ≤ all.length.size, 2 ^ i ≠ all.length →
          (host.second (IFREQ * 2 ^ i : ℕ)).isSome) ∧
        ∃ block, host.list = some block ∧ infc = all.length ∧ list = host.listOf bo block all := by
  constructor
  · rintro ⟨fuel, hreturns⟩
    have hptr : host.ifc.ifc_buf ≠ .stray := fun hstray => by
      cases fuel with
      | zero => contradiction
      | succ fuel =>
        rw [construct_stray hstray] at hreturns
        simp at hreturns
    refine ⟨hptr, ?_⟩
    simp only [construct] at hreturns
    rcases hfirst : noOfInterfaces host.ioctl host.first host.ifc fuel with - | (e | ⟨n, ifc⟩)
    · simp [hfirst] at hreturns
    · simp [hfirst] at hreturns
    have hreturned := returned h hfit hptr 0 (Nat.zero_le _) hfirst
    rcases hsecond : noOfInterfaces host.ioctl host.second ifc fuel with - | (e | ⟨n', ifc'⟩)
    · simp [hfirst, hsecond] at hreturns
    · simp [hfirst, hsecond] at hreturns
    obtain ⟨rfl, hlen, hbuf⟩ := returned h hfit hreturned.ne_stray 0 (Nat.zero_le _) hsecond
    simp only [hfirst, hsecond, Option.some_inj] at hreturns
    rcases hbuf with ⟨hnull, -⟩ | ⟨⟨cells, hlive, hpre⟩, hgranted⟩
    · obtain ⟨hall, block, hblock, heq⟩ := listFor_null hlen hnull hreturns
      obtain ⟨rfl, rfl⟩ := Prod.mk.inj heq
      exact ⟨.inl hall, block, hblock, rfl, rfl⟩
    · refine ⟨.inr fun i hi => hgranted i (Nat.zero_le i) hi, ?_⟩
      rcases hblock : host.list with - | block
      · simp [listFor, hblock] at hreturns
      · rw [listFor_live hblock hlen hlive hpre, Except.ok.injEq, Prod.mk.injEq] at hreturns
        exact ⟨block, rfl, hreturns.1.symm, hreturns.2.symm⟩
  · rintro ⟨hptr, hheap, block, hblock, rfl, rfl⟩
    have hlt : all.length.size < 0 + (all.length.size + 1) := by omega
    obtain ⟨⟨n, ifc⟩, hfirst⟩ :
        ∃ r, noOfInterfaces host.ioctl host.first host.ifc (all.length.size + 1) = some (.ok r) :=
      exists_returns h hfit hptr 0 (Nat.zero_le _) hlt
    have hptr' := (returned h hfit hptr 0 (Nat.zero_le _) hfirst).ne_stray
    obtain ⟨⟨n', ifc'⟩, hsecond⟩ :
        ∃ r, noOfInterfaces host.ioctl host.second ifc (all.length.size + 1) = some (.ok r) :=
      exists_returns h hfit hptr' 0 (Nat.zero_le _) hlt
    obtain ⟨rfl, hlen, hbuf⟩ := returned h hfit hptr' 0 (Nat.zero_le _) hsecond
    refine ⟨all.length.size + 1, ?_⟩
    simp only [construct, hfirst, hsecond, Option.some_inj]
    rcases hbuf with ⟨hnull, k, hk, hne, hnone⟩ | ⟨⟨cells, hlive, hpre⟩, -⟩
    · -- A buffer was refused, so there are no interfaces, and nothing to go through.
      rcases hheap with rfl | hheap
      · simp only [listFor, hblock, hlen, hnull, HeapPtr.cells, Setting.listOf]
        rfl
      · have hsome := hheap k hk hne
        rw [hnone] at hsome
        contradiction
    · exact listFor_live hblock hlen hlive hpre

end PhyInterfaces

end Udm
