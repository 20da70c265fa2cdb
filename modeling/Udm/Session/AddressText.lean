import Udm.Library.CString
import Udm.Session.Addresses

/-!
# The texts of the addresses

What becomes, in memory, of the text of an address: `interfacesToIpV4addr` copies it with
`strcpy` into the field `data` of an entry of the list of a host; the `ADDR_LEN` bytes of
the field are sent, and stored in the field of an entry of the peer's list. There, the
loop that removes the loopback addresses compares it, and `selectAddrFromList` reads it.

A text of `ADDR_LEN` characters, one whose four octets have three digits, leaves no room
for its NUL, which is stored past the field and not sent. The other texts are read as they
were stored, whatever the memory held before (`textSurvives_iff`).

The steps of the proof, along the way of a text:

* `length_inetNtop`: the texts that leave no room are those of the longest addresses;
* `Filling.readsField_fill`: the other ones are in their fields after the loop of
  `interfacesToIpV4addr`, as later iterations store in later fields only;
* `received_addresses`: a datagram with the list brings the fields to the peer;
* `load_storeAddresses`: they are the fields of its list, whatever `malloc` returned;
* `load_scan` and `exists_getElem_shift`: the loop that removes the loopback addresses
  moves whole entries, each by one place at most.

The list of the peer in memory goes through what the list of its fields does
(`simulates_scan`), so that what is known of that list (`removeLoopback_eq`) is known of
the memory.
-/

namespace Udm

/-! ## Texts -/

/-- `in_addr`, by its octets. -/
structure InAddr where
  octets : BitVec 8 × BitVec 8 × BitVec 8 × BitVec 8

/-- An octet in decimal. -/
def decimal (octet : BitVec 8) : List Byte :=
  (Nat.toDigits 10 octet.toNat).map fun c => BitVec.ofNat 8 c.toNat

/-- `inet_ntop`: the text of an address. -/
def inetNtop (addr : InAddr) : List Byte :=
  let (a, b, c, d) := addr.octets
  decimal a ++ [46] ++ decimal b ++ [46] ++ decimal c ++ [46] ++ decimal d

/-- `127.0.0.1`. -/
def InAddr.loopback : InAddr := ⟨127, 0, 0, 1⟩

/-- All octets of the address have three digits. -/
def InAddr.Longest (addr : InAddr) : Prop :=
  let (a, b, c, d) := addr.octets
  100 ≤ a ∧ 100 ≤ b ∧ 100 ≤ c ∧ 100 ≤ d

/-- An octet has up to three digits, and three of them from 100 on. There are 256 octets, so it
    is decided by looking at each. -/
theorem length_decimal (octet : BitVec 8) :
    (decimal octet).length ≤ 3 ∧ ((decimal octet).length = 3 ↔ 100 ≤ octet) := by
  revert octet
  decide

/-- The digits are `'0'` to `'9'`, none of them is a NUL. -/
theorem zero_notMem_decimal (octet : BitVec 8) : 0 ∉ decimal octet := by
  revert octet
  decide

/-- So the text of an address has no NUL but the one behind it. -/
theorem zero_notMem_inetNtop (addr : InAddr) : 0 ∉ inetNtop addr := by
  simp only [inetNtop, List.mem_append, List.mem_singleton, zero_notMem_decimal, false_or, or_false]
  decide

/-- Only the longest texts fill the field. -/
theorem length_inetNtop (addr : InAddr) :
    (inetNtop addr).length ≤ ADDR_LEN ∧ ((inetNtop addr).length = ADDR_LEN ↔ addr.Longest) := by
  obtain ⟨a, b, c, d⟩ := addr
  have ha := length_decimal a
  have hb := length_decimal b
  have hc := length_decimal c
  have hd := length_decimal d
  simp only [inetNtop, InAddr.Longest, List.length_append, List.length_singleton, ← ha.2, ← hb.2,
    ← hc.2, ← hd.2, ADDR_LEN]
  omega

/-- The other texts leave room for the NUL. -/
theorem length_inetNtop_lt {addr : InAddr} (h : ¬addr.Longest) : (inetNtop addr).length < ADDR_LEN :=
  lt_of_le_of_ne (length_inetNtop addr).1 fun heq => h ((length_inetNtop addr).2.1 heq)

/-- The text in the field: what it holds before the first NUL. -/
def IpaddrDummy.text (a : IpaddrDummy) : List Byte := cString a.data

/-- The comparison with `"127.0.0.1"` compares the texts. -/
theorem IpaddrDummy.isLoopback_iff (a : IpaddrDummy) :
    a.isLoopback = true ↔ a.text = inetNtop .loopback := by
  have htext : loopbackText = inetNtop .loopback ++ [0] := by decide
  have hlen : (inetNtop .loopback).length < a.data.length := by
    rw [a.length_data]
    decide
  rw [isLoopback, decide_eq_true_eq, htext, text, cString_eq_iff (zero_notMem_inetNtop _) hlen]
  exact Iff.rfl

/-! ## The list of a host -/

/-- `sizeof(struct ipaddr_dummy)`. -/
abbrev IPADDR : ℕ := 40

/-- The offset of the field `list[i].data` in a list. -/
def dataAt (i : ℕ) : ℕ := IPADDR * i + 2

/-- The fields of a list of `n` entries. -/
def fieldsOf (list : Block Byte) (n : ℕ) : List IpaddrDummy :=
  (List.range n).map fun i => .ofBlock list (dataAt i)

/-- `ifreq`, with the family and the address of an interface. -/
structure Ifreq where
  sa_family : BitVec 16
  sin_addr : InAddr

namespace PhyInterfaces

/-- The variables of `interfacesToIpV4addr`, and the offset and the length of what
    `strcpy` has stored in the list. -/
structure Filling where
  /-- The list that is filled: the memory that `malloc` returned, with what was stored so far. -/
  list : Block Byte
  /-- `buffer[32]`, on the stack. `inet_ntop` writes the text of each address into it. -/
  buffer : Block Byte
  /-- For every `strcpy`, where it starts and how many bytes it writes, the NUL included. -/
  stores : List (ℕ × ℕ) := []

/-- An iteration of the loop of `interfacesToIpV4addr`. The family is stored in the first
    entry, too. -/
def Filling.next (bo : ByteOrder) (s : Filling) (i : ℕ) (ifr : Ifreq) : Filling :=
  let buffer := s.buffer.store 0 (inetNtop ifr.sin_addr ++ [0])
  let family := bo.bytes 2 ifr.sa_family.toNat
  let list := (s.list.store 0 family).store (IPADDR * i) family
  let src := buffer.load 0 32
  { buffer
    list := strcpy list (dataAt i) src
    stores := s.stores ++ [(dataAt i, (cString src).length + 1)] }

/-- The loop of `interfacesToIpV4addr`, from the entry `i` on. -/
def Filling.fill (bo : ByteOrder) : ℕ → List Ifreq → Filling → Filling
  | _, [], s => s
  | i, ifr :: ifrs, s => fill bo (i + 1) ifrs (s.next bo i ifr)

/-- `interfacesToIpV4addr`: the list for the interfaces `ifc_req`, in the memory that
    `malloc` returns, with a buffer on the stack. -/
def interfacesToIpV4addr (bo : ByteOrder) (heap stack : Block Byte) (ifc_req : List Ifreq) :
    Filling :=
  .fill bo 0 ifc_req { list := heap, buffer := stack }

end PhyInterfaces

namespace SessionProcessor

/-! ## The list of the peer -/

/-- The list of the peer, in memory, in the loop removing the loopback addresses. -/
structure PeerList where
  list : Block Byte
  count : ℤ
  localhost_found : Bool := false

/-- Storing the addresses of a body in the fields of a new list. -/
def storeAddresses (noOfAddresses : ℕ) (heap body : Block Byte) : Block Byte :=
  (List.range noOfAddresses).foldl
    (fun list i => list.store (dataAt i) (body.load (i * ADDR_LEN) ADDR_LEN)) heap

/-- An iteration of the loop removing the loopback addresses. An assignment copies a whole
    entry. -/
def PeerList.iter (noOfAddresses : ℕ) (s : PeerList) (i : ℕ) : PeerList :=
  let s := if (IpaddrDummy.ofBlock s.list (dataAt i)).isLoopback
    then { s with localhost_found := true, count := s.count - 1 } else s
  if s.localhost_found ∧ i < noOfAddresses then
    { s with list := s.list.store (IPADDR * i) (s.list.load (IPADDR * (i + 1)) IPADDR) }
  else s

/-- The list of the peer after the first `k` iterations. -/
def scan (noOfAddresses : ℕ) (heap body : Block Byte) (k : ℕ) : PeerList :=
  (List.range k).foldl (PeerList.iter noOfAddresses)
    { list := storeAddresses noOfAddresses heap body, count := noOfAddresses }

end SessionProcessor

/-- The text that is read from a field is `text`, and is read within the field. -/
def ReadsField (list : Block Byte) (i : ℕ) (text : List Byte) : Prop :=
  CStringAt list (dataAt i) text ∧ text.length < ADDR_LEN

open PhyInterfaces SessionProcessor

/-- The texts of the addresses of a host are stored and read within the fields, as they
    were, whatever memory the lists are in, and whatever body brings the fields from one
    to the other. -/
structure TextSurvives (bo : ByteOrder) (all : List Ifreq) : Prop where
  /-- Every `strcpy` stays within the field it stores to. -/
  stores : ∀ heap stack, ∀ s ∈ (interfacesToIpV4addr bo heap stack all).stores,
    ∃ i < all.length, s.1 = dataAt i ∧ s.2 ≤ ADDR_LEN
  /-- Every field that will be sent has a NUL. -/
  terminated : ∀ heap stack, ∀ a ∈ fieldsOf (interfacesToIpV4addr bo heap stack all).list all.length,
    0 ∈ a.data
  /-- The comparison of the entry `i` with the loopback address. -/
  compared : ∀ heap stack heap' body,
    addresses all.length body = fieldsOf (interfacesToIpV4addr bo heap stack all).list all.length →
    ∀ (i : ℕ) (hi : i < all.length),
      ReadsField (scan all.length heap' body i).list i (inetNtop all[i].sin_addr)
  /-- The choice of an entry of those that are left: each was at its place or the next. -/
  selected : ∀ heap stack heap' body,
    addresses all.length body = fieldsOf (interfacesToIpV4addr bo heap stack all).list all.length →
    ∀ j : ℕ, j < (scan all.length heap' body all.length).count →
      ∃ (k : ℕ) (hk : k < all.length), (k = j ∨ k = j + 1) ∧
        ReadsField (scan all.length heap' body all.length).list j (inetNtop all[k].sin_addr)

/-! ## Storing the texts -/

namespace PhyInterfaces.Filling

variable (bo : ByteOrder) (s : Filling) (i : ℕ) (ifr : Ifreq)

/-- What `strcpy` copies is the text of the address. -/
theorem cString_buffer (buffer : Block Byte) (addr : InAddr) :
    cString ((buffer.store 0 (inetNtop addr ++ [0])).load 0 32) = inetNtop addr := by
  refine (cStringAt_store buffer 0 (zero_notMem_inetNtop addr)).cString_load ?_
  exact (length_inetNtop addr).1.trans (by decide)

/-- An iteration stores the text of its address and a NUL. -/
theorem stores_next :
    (s.next bo i ifr).stores = s.stores ++ [(dataAt i, (inetNtop ifr.sin_addr).length + 1)] := by
  rw [next, cString_buffer]

/-- The text is in its place of the list then, its NUL behind it, in the field or past it. -/
theorem cStringAt_next : CStringAt (s.next bo i ifr).list (dataAt i) (inetNtop ifr.sin_addr) :=
  cStringAt_strcpy _ _ (cString_buffer _ _) (zero_notMem_inetNtop _)

/-- The fields of the entries before stay as they were. -/
theorem load_next {j : ℕ} (hj : j < i) :
    (s.next bo i ifr).list.load (dataAt j) ADDR_LEN = s.list.load (dataAt j) ADDR_LEN := by
  have hbefore : dataAt j + ADDR_LEN ≤ IPADDR * i := by
    simp only [dataAt, IPADDR, ADDR_LEN]
    omega
  have hfirst : 0 + (bo.bytes 2 ifr.sa_family.toNat).length ≤ dataAt j := by
    rw [ByteOrder.length_bytes, dataAt]
    omega
  have hdata : dataAt j + ADDR_LEN ≤ dataAt i := hbefore.trans (Nat.le_add_right _ _)
  rw [next, load_strcpy_of_disjoint (.inl hdata), Block.load_store_of_disjoint _ (.inl hbefore),
    Block.load_store_of_disjoint _ (.inr hfirst)]

variable {s i} (ifrs : List Ifreq)

/-- The iterations from `i` on leave the fields before `i`. -/
theorem load_fill {j : ℕ} (hj : j < i) :
    (fill bo i ifrs s).list.load (dataAt j) ADDR_LEN = s.list.load (dataAt j) ADDR_LEN := by
  induction ifrs generalizing s i with
  | nil => rfl
  | cons ifr ifrs ih => rw [fill, ih (Nat.lt_succ_of_lt hj), load_next bo s i ifr hj]

/-- A text that leaves room for its NUL is in its field. -/
theorem readsField_fill {k : ℕ} (hk : k < ifrs.length) (hroom : ¬ifrs[k].sin_addr.Longest) :
    ReadsField (fill bo i ifrs s).list (i + k) (inetNtop ifrs[k].sin_addr) := by
  induction ifrs generalizing s i k with
  | nil => simp at hk
  | cons ifr ifrs ih =>
    cases k with
    | zero =>
      have hlt : (inetNtop ifr.sin_addr).length < ADDR_LEN := length_inetNtop_lt hroom
      exact ⟨(cStringAt_next bo s i ifr).congr hlt (load_fill bo ifrs (Nat.lt_succ_self i)), hlt⟩
    | succ k =>
      have hnext : i + (k + 1) = i + 1 + k := by omega
      rw [hnext]
      exact ih (Nat.lt_of_succ_lt_succ hk) hroom

/-- Every field has its text, also one that the text fills, with its NUL behind the field. -/
theorem text_fill {k : ℕ} (hk : k < ifrs.length) :
    (IpaddrDummy.ofBlock (fill bo i ifrs s).list (dataAt (i + k))).text =
      inetNtop ifrs[k].sin_addr := by
  induction ifrs generalizing s i k with
  | nil => simp at hk
  | cons ifr ifrs ih =>
    cases k with
    | zero =>
      rw [Nat.add_zero, IpaddrDummy.text, IpaddrDummy.data_ofBlock, fill,
        load_fill bo ifrs (Nat.lt_succ_self i)]
      exact (cStringAt_next bo s i ifr).cString_load (length_inetNtop ifr.sin_addr).1
    | succ k =>
      have hnext : i + (k + 1) = i + 1 + k := by omega
      rw [hnext]
      exact ih (Nat.lt_of_succ_lt_succ hk)

/-- What the loop stores: one text for each interface, at the field of its entry. -/
theorem stores_fill :
    (fill bo i ifrs s).stores =
      s.stores ++ (ifrs.zipIdx i).map fun e => (dataAt e.2, (inetNtop e.1.sin_addr).length + 1) := by
  induction ifrs generalizing s i with
  | nil => simp [fill]
  | cons ifr ifrs ih => rw [fill, ih, stores_next, List.zipIdx_cons]; simp

end PhyInterfaces.Filling

/-- The texts in the list of a host are those of its addresses, whatever memory the list is in. -/
-- Also a text that fills its field is read back to its end: there is no NUL in it, and the field
-- ends.
theorem PhyInterfaces.map_text_fieldsOf (bo : ByteOrder) (heap stack : Block Byte)
    (all : List Ifreq) :
    (fieldsOf (interfacesToIpV4addr bo heap stack all).list all.length).map IpaddrDummy.text =
      all.map fun ifr => inetNtop ifr.sin_addr := by
  refine List.ext_getElem (by simp [fieldsOf]) fun i hi _ => ?_
  have hi' : i < all.length := by simpa [fieldsOf] using hi
  have := Filling.text_fill bo all (s := { list := heap, buffer := stack }) (i := 0) hi'
  rw [Nat.zero_add] at this
  simpa [fieldsOf, interfacesToIpV4addr] using this

/-! ## The list of the peer -/

namespace SessionProcessor

variable {heap body : Block Byte} {n : ℕ}

/-- The fields of a new list are the addresses of the body. -/
theorem load_storeAddresses (heap body : Block Byte) (n i : ℕ) :
    (storeAddresses n heap body).load (dataAt i) ADDR_LEN =
      if i < n then body.load (i * ADDR_LEN) ADDR_LEN else heap.load (dataAt i) ADDR_LEN := by
  induction n with
  | zero => simp [storeAddresses]
  | succ n ih =>
    rw [storeAddresses, List.range_succ, List.foldl_append, List.foldl_cons, List.foldl_nil,
      ← storeAddresses]
    rcases Nat.lt_trichotomy i n with hlt | rfl | hlt
    · rw [Block.load_store_of_disjoint, ih, if_pos hlt, if_pos (Nat.lt_succ_of_lt hlt)]
      left
      simp only [dataAt, IPADDR, ADDR_LEN]
      omega
    · rw [Block.load_store_of_length _ (Block.length_load _ _ _), if_pos (Nat.lt_succ_self i)]
    · rw [Block.load_store_of_disjoint, ih, if_neg (by omega), if_neg (by omega)]
      right
      simp only [dataAt, IPADDR, ADDR_LEN, Block.length_load]
      omega

/-- The bytes between the fields are as they were. -/
theorem load_padding (heap body : Block Byte) (n i : ℕ) :
    (storeAddresses n heap body).load (dataAt i + ADDR_LEN) 1 =
      heap.load (dataAt i + ADDR_LEN) 1 := by
  induction n with
  | zero => rfl
  | succ n ih =>
    rw [storeAddresses, List.range_succ, List.foldl_append, List.foldl_cons, List.foldl_nil,
      ← storeAddresses, Block.load_store_of_disjoint, ih]
    simp only [dataAt, IPADDR, ADDR_LEN, Block.length_load]
    omega

/-- Assigning to an entry the next one, in the fields. -/
theorem load_assign (m : Block Byte) (i j : ℕ) :
    (m.store (IPADDR * i) (m.load (IPADDR * (i + 1)) IPADDR)).load (dataAt j) ADDR_LEN =
      m.load (dataAt (if j = i then i + 1 else j)) ADDR_LEN := by
  split_ifs with hij
  · have hpart : 2 + ADDR_LEN ≤ (m.load (IPADDR * (i + 1)) IPADDR).length := by
      rw [Block.length_load]
      decide
    rw [hij, dataAt, Block.load_store_add _ hpart, Block.drop_load, Block.take_load]
    rfl
  · refine Block.load_store_of_disjoint _ ?_
    simp only [dataAt, IPADDR, ADDR_LEN, Block.length_load]
    omega

/-- The list in memory has the fields of a list, and behind them the entry `past`. -/
structure Simulates (n : ℕ) (past : IpaddrDummy) (s : PeerList) (t : Scan) : Prop where
  /-- The entries that were received. -/
  list : fieldsOf s.list n = t.list
  count : s.count = t.count
  localhost_found : s.localhost_found = t.localhost_found
  /-- The entry that the last assignment may read: it is not one of the list. -/
  past : IpaddrDummy.ofBlock s.list (dataAt n) = past

/-- One field for each entry. -/
theorem length_fieldsOf (m : Block Byte) (n : ℕ) : (fieldsOf m n).length = n := by simp [fieldsOf]

/-- The field of an entry is what the memory holds at its place. -/
theorem getElem_fieldsOf {m : Block Byte} {n i : ℕ} (hi : i < (fieldsOf m n).length) :
    (fieldsOf m n)[i] = .ofBlock m (dataAt i) := by simp [fieldsOf]

/-- Two lists of entries with the same fields. -/
theorem fieldsOf_congr {m : Block Byte} {l : List IpaddrDummy} (hlen : l.length = n)
    (h : ∀ i (hi : i < l.length), m.load (dataAt i) ADDR_LEN = (l[i]).data) : fieldsOf m n = l := by
  refine List.ext_getElem (by rw [length_fieldsOf, hlen]) fun i hi hi' => ?_
  rw [getElem_fieldsOf]
  exact IpaddrDummy.ext (h i hi')

namespace Simulates

variable {past : IpaddrDummy} {s : PeerList} {t : Scan}

/-- The entry at a place of the list, or behind it. -/
theorem getD_list (h : Simulates n past s t) {i : ℕ} (hi : i ≤ n) :
    t.list.getD i past = .ofBlock s.list (dataAt i) := by
  rw [← h.list]
  rcases hi.lt_or_eq with hlt | rfl
  · have hlen : i < (fieldsOf s.list n).length := by rwa [length_fieldsOf]
    rw [List.getD_eq_getElem _ _ hlen, getElem_fieldsOf]
  · rw [List.getD_eq_default _ _ (length_fieldsOf _ _).le, h.past]

/-- An assignment to an entry. -/
theorem assign (h : Simulates n past s t) {i : ℕ} (hi : i < n) (reads : List ℕ) :
    Simulates n past
      { s with list := s.list.store (IPADDR * i) (s.list.load (IPADDR * (i + 1)) IPADDR) }
      { t with list := t.list.set i (t.list.getD (i + 1) past), reads } where
  list := by
    have hlen : t.list.length = n := by rw [← h.list, length_fieldsOf]
    refine fieldsOf_congr (l := t.list.set i _) (by rw [List.length_set, hlen]) fun j hj => ?_
    have hj' : j < t.list.length := by rwa [List.length_set] at hj
    rcases eq_or_ne i j with rfl | hne
    · rw [load_assign, if_pos rfl, List.getElem_set_self, h.getD_list hi, IpaddrDummy.data_ofBlock]
    · have hget := h.getD_list (hlen ▸ hj').le
      rw [List.getD_eq_getElem _ _ hj'] at hget
      rw [load_assign, if_neg hne.symm, List.getElem_set_ne hne, hget, IpaddrDummy.data_ofBlock]
  count := h.count
  localhost_found := h.localhost_found
  past := by
    rw [← h.past]
    refine IpaddrDummy.ext ?_
    rw [IpaddrDummy.data_ofBlock, IpaddrDummy.data_ofBlock, load_assign, if_neg hi.ne']

/-- The iterations do the same. -/
theorem iter (h : Simulates n past s t) {i : ℕ} (hi : i < n) :
    Simulates n past (s.iter n i) (t.iter n past i) := by
  have hget := h.getD_list hi.le
  simp only [PeerList.iter, Scan.iter, hget, hi, and_true]
  cases (IpaddrDummy.ofBlock s.list (dataAt i)).isLoopback with
  | true =>
    simp only [if_true]
    refine assign (s := { s with localhost_found := true, count := s.count - 1 })
      (t := { t with localhost_found := true, count := t.count - 1, reads := t.reads ++ [i] })
      ⟨h.list, ?_, rfl, h.past⟩ hi _
    show s.count - 1 = t.count - 1
    rw [h.count]
  | false =>
    simp only [Bool.false_eq_true, if_false]
    by_cases hfound : t.localhost_found = true
    · rw [if_pos (h.localhost_found.trans hfound), if_pos hfound]
      exact assign (t := { t with reads := t.reads ++ [i] })
        ⟨h.list, h.count, h.localhost_found, h.past⟩ hi _
    · rw [if_neg (h.localhost_found ▸ hfound), if_neg hfound]
      exact ⟨h.list, h.count, h.localhost_found, h.past⟩

end Simulates

/-- At the start of the loop the list has the addresses that were received, and past them what
    the memory held before. -/
theorem simulates_storeAddresses (heap body : Block Byte) (n : ℕ) :
    Simulates n (.ofBlock heap (dataAt n)) { list := storeAddresses n heap body, count := n }
      { list := addresses n body, count := n } where
  list := by
    refine fieldsOf_congr (by simp [addresses]) fun i hi => ?_
    have hi' : i < n := by simpa [addresses] using hi
    rw [load_storeAddresses, if_pos hi']
    simp [addresses]
  count := rfl
  localhost_found := rfl
  past := by
    refine IpaddrDummy.ext ?_
    rw [IpaddrDummy.data_ofBlock, IpaddrDummy.data_ofBlock, load_storeAddresses,
      if_neg (lt_irrefl n)]

/-- The list of the peer, in memory, goes through what the list of its fields does. -/
theorem simulates_scan (heap body : Block Byte) {k : ℕ} (hk : k ≤ n) :
    Simulates n (.ofBlock heap (dataAt n)) (scan n heap body k)
      ((List.range k).foldl (Scan.iter n (.ofBlock heap (dataAt n)))
        { list := addresses n body, count := n }) := by
  induction k with
  | zero => exact simulates_storeAddresses heap body n
  | succ k ih =>
    rw [scan, List.range_succ, List.foldl_append, List.foldl_append]
    exact (ih (Nat.le_of_succ_le hk)).iter hk

/-- An entry is as it was stored until the iteration that may replace it. -/
theorem load_scan (heap body : Block Byte) {i j : ℕ} (hij : i ≤ j) :
    (scan n heap body i).list.load (dataAt j) ADDR_LEN =
      (storeAddresses n heap body).load (dataAt j) ADDR_LEN := by
  induction i with
  | zero => rfl
  | succ i ih =>
    rw [← ih (Nat.le_of_succ_le hij), scan, List.range_succ, List.foldl_append, List.foldl_cons,
      List.foldl_nil, ← scan, PeerList.iter]
    have hne : j ≠ i := by omega
    split_ifs <;> simp only [load_assign, if_neg hne]

/-- Every entry of the list that is left was at its place, or at the next one. -/
theorem getElem?_shift (past : IpaddrDummy) (localhost_found : Bool) (l : List IpaddrDummy) {j : ℕ}
    (hj : j < l.length) :
    (shift past localhost_found l)[j]? = l[j]? ∨
      (localhost_found || l.any IpaddrDummy.isLoopback) = true ∧
        (shift past localhost_found l)[j]? = some (l.getD (j + 1) past) := by
  induction l generalizing localhost_found j with
  | nil => simp at hj
  | cons a l ih =>
    cases j with
    | zero =>
      by_cases hfound : (localhost_found || a.isLoopback) = true
      · right
        simp only [shift, hfound, if_true, List.any_cons, ← Bool.or_assoc, Bool.true_or, true_and]
        cases l <;> simp
      · left
        simp [shift, hfound]
    | succ j =>
      have := ih (localhost_found || a.isLoopback) (Nat.lt_of_succ_lt_succ hj)
      simpa [shift, Bool.or_assoc] using this

/-- The same for the entries that count. -/
theorem exists_getElem_shift (past : IpaddrDummy) {l : List IpaddrDummy} {j : ℕ}
    (hj : (j : ℤ) < l.length - l.countP IpaddrDummy.isLoopback) :
    ∃ (k : ℕ) (hk : k < l.length), (k = j ∨ k = j + 1) ∧ (shift past false l)[j]? = some l[k] := by
  have hlt : j < l.length := by omega
  rcases getElem?_shift past false l hlt with hstay | ⟨hany, hnext⟩
  · exact ⟨j, hlt, .inl rfl, hstay.trans (List.getElem?_eq_getElem hlt)⟩
  · -- A loopback address does not count, so this is not the last entry.
    have hpos : 0 < l.countP IpaddrDummy.isLoopback :=
      List.countP_pos_iff.2 (by simpa using hany)
    have hlt' : j + 1 < l.length := by omega
    exact ⟨j + 1, hlt', .inr rfl, by rw [hnext, List.getD_eq_getElem _ _ hlt']⟩

end SessionProcessor

/-! ## From one list to the other -/

section Exchange

variable {bo : ByteOrder} {all : List Ifreq} {list heap body : Block Byte}

/-- A field that was copied byte by byte reads as the original: the NUL is among its bytes. -/
theorem ReadsField.congr {m m' : Block Byte} {i j : ℕ} {text : List Byte} (h : ReadsField m i text)
    (hcopy : m'.load (dataAt j) ADDR_LEN = m.load (dataAt i) ADDR_LEN) : ReadsField m' j text :=
  ⟨h.1.congr h.2 hcopy, h.2⟩

/-- The part of a body that brings a field. -/
theorem load_of_addresses {n i : ℕ} (h : addresses n body = fieldsOf list n) (hi : i < n) :
    body.load (i * ADDR_LEN) ADDR_LEN = list.load (dataAt i) ADDR_LEN := by
  have hget := congrArg (fun l : List IpaddrDummy => l[i]?.map IpaddrDummy.data) h
  simpa [addresses, fieldsOf, hi] using hget

/-- The exchange brings the fields from one list to the other: the body that is received is
    one of those of `TextSurvives`. -/
theorem received_addresses {env : Env} {p q : Process} {code : StateCodes} {n : ℕ}
    (hlist : p.interfaces.addressList = fieldsOf list n) (hq : q.rxFactory.chunkSize = CHUNK)
    (hfit : HEADER_SPACE + n * ADDR_LEN ≤ CHUNK) (hinf : env.InfCount n)
    (hcode : code = .setup ∨ code = .connected) (hsend : env.sendto = true)
    (hp : ¬p.interfaces.NoAddress) (dir : StateDirection) (cap : Capsule) (par : Params) :
    wp (do
        let cap ← setCapParams env cap par code
        Session.sendState bo env code dir cap)
      (fun _ p' => ∃ d, p'.out = p.out ++ [d] ∧ ∀ env' : Env, env'.datagram = some d →
        wp (Gateway.pull bo env')
          (fun buf _ => buf.data.header.capSize.toNat / ADDR_LEN = n ∧
            addresses n buf.data.body = fieldsOf list n)
          (fun _ _ => False) q)
      (fun _ _ => False) p := by
  obtain ⟨cap', p', hinter, hio, hsize, hbody, hset⟩ :=
    exists_advertised env (E := fun _ _ => False) hcode p cap par
  have hlen : (fieldsOf list n).length = n := length_fieldsOf list n
  rw [wp_bind, hset, wp_sendState bo env hsend (hinter ▸ hp)]
  refine ⟨cap'.wire bo, by simp [Process.out, hsend, hio], fun env' hd => ?_⟩
  rw [Gateway.wp_pull bo env' hd]
  have hreceived := addresses_pulled bo env hq (hlen.symm ▸ hfit) (hlen.symm ▸ hinf) hsize
    (hlist ▸ hbody) env'
  have hcount := congrArg List.length hreceived
  rw [hlen, addresses, List.length_map, List.length_range] at hcount
  dsimp only at hreceived
  rw [hcount] at hreceived
  exact ⟨hcount, hreceived⟩

/-- A list that is in memory as the texts of addresses. -/
def Holds (all : List Ifreq) (list : Block Byte) : Prop :=
  ∀ (i : ℕ) (hi : i < all.length), ReadsField list i (inetNtop all[i].sin_addr)

/-- The comparison of the entry `i` reads the text as it was received, as the iterations before
    store in earlier entries. -/
theorem Holds.compared (h : Holds all list)
    (hbody : addresses all.length body = fieldsOf list all.length) (heap : Block Byte) {i : ℕ}
    (hi : i < all.length) :
    ReadsField (scan all.length heap body i).list i (inetNtop all[i].sin_addr) := by
  refine (h i hi).congr ?_
  rw [load_scan heap body le_rfl, load_storeAddresses, if_pos hi, load_of_addresses hbody hi]

/-- An address that is left is one of those received: its entry was not moved, or by one place. -/
theorem Holds.selected (h : Holds all list)
    (hbody : addresses all.length body = fieldsOf list all.length) (heap : Block Byte) {j : ℕ}
    (hj : j < (scan all.length heap body all.length).count) :
    ∃ (k : ℕ) (hk : k < all.length), (k = j ∨ k = j + 1) ∧
      ReadsField (scan all.length heap body all.length).list j (inetNtop all[k].sin_addr) := by
  set n := all.length
  set past := IpaddrDummy.ofBlock heap (dataAt n)
  have hlen : (addresses n body).length = n := by simp [addresses]
  have hsim := simulates_scan heap body (n := n) le_rfl
  have hscan := removeLoopback_eq past (addresses n body)
  rw [hlen, removeLoopback] at hscan
  rw [hscan] at hsim
  have hcount := hsim.count
  have hlist := hsim.list
  rw [hcount] at hj
  obtain ⟨k, hk, hkj, hget⟩ := exists_getElem_shift past (l := addresses n body) (by rwa [hlen])
  have hk' : k < n := lt_of_lt_of_eq hk hlen
  have hj' : j < n := by omega
  refine ⟨k, hk', hkj, (h k hk').congr ?_⟩
  have hentry : (fieldsOf (scan n heap body n).list n)[j]? =
      some (.ofBlock (scan n heap body n).list (dataAt j)) := by simp [fieldsOf, hj']
  rw [hlist, hget, Option.some_inj] at hentry
  have hload := congrArg IpaddrDummy.data hentry.symm
  rw [IpaddrDummy.data_ofBlock] at hload
  rw [hload, ← load_of_addresses hbody hk']
  simp [addresses]

/-- A list that `interfacesToIpV4addr` fills is in memory as texts, if none of the addresses is
    one of the longest. -/
theorem holds_interfacesToIpV4addr (bo : ByteOrder) (heap stack : Block Byte)
    (h : ∀ ifr ∈ all, ¬ifr.sin_addr.Longest) :
    Holds all (interfacesToIpV4addr bo heap stack all).list := fun i hi => by
  have := Filling.readsField_fill bo all (s := { list := heap, buffer := stack }) (i := 0) hi
    (h _ (List.getElem_mem hi))
  rwa [Nat.zero_add] at this

/-- What is read of a text that fills its field goes on with what memory held behind the
    field. -/
theorem not_cStringAt_of_longest {n i : ℕ} {addr : InAddr} (h : addr.Longest)
    (hheap : heap (dataAt i + ADDR_LEN) ≠ 0) :
    ¬CStringAt (storeAddresses n heap body) (dataAt i) (inetNtop addr) := by
  rintro ⟨-, hload⟩
  rw [Block.load_add, (length_inetNtop addr).2.2 h, load_padding] at hload
  have hnul := (List.append_inj' hload rfl).2
  exact hheap (by simpa [Block.load] using hnul)

/-- The texts of the addresses survive, whatever memory held before, exactly if none of
    them has three digits in every octet. -/
theorem textSurvives_iff (bo : ByteOrder) (all : List Ifreq) :
    TextSurvives bo all ↔ ∀ ifr ∈ all, ¬ifr.sin_addr.Longest := by
  have hstores (heap stack : Block Byte) : (interfacesToIpV4addr bo heap stack all).stores =
      all.zipIdx.map fun e => (dataAt e.2, (inetNtop e.1.sin_addr).length + 1) := by
    simp [interfacesToIpV4addr, Filling.stores_fill]
  constructor
  · intro h ifr hifr hlongest
    obtain ⟨i, hi⟩ := List.mem_iff_getElem?.1 hifr
    have hmem : (dataAt i, (inetNtop ifr.sin_addr).length + 1) ∈
        (interfacesToIpV4addr bo (fun _ => 0) (fun _ => 0) all).stores := by
      rw [hstores]
      exact List.mem_map.2 ⟨(ifr, i), List.mem_zipIdx_iff_getElem?.2 hi, rfl⟩
    obtain ⟨-, -, -, hlen⟩ := h.stores _ _ _ hmem
    have := (length_inetNtop ifr.sin_addr).2.2 hlongest
    omega
  · intro h
    have hholds (heap stack : Block Byte) := holds_interfacesToIpV4addr bo heap stack h
    refine ⟨fun heap stack s hs => ?_, fun heap stack a ha => ?_,
      fun heap stack heap' body hbody i hi => (hholds heap stack).compared hbody heap' hi,
      fun heap stack heap' body hbody j hj => (hholds heap stack).selected hbody heap' hj⟩
    · rw [hstores] at hs
      obtain ⟨⟨ifr, i⟩, hmem, rfl⟩ := List.mem_map.1 hs
      have hget := List.mem_zipIdx_iff_getElem?.1 hmem
      obtain ⟨hi, -⟩ := List.getElem?_eq_some_iff.1 hget
      exact ⟨i, hi, rfl, length_inetNtop_lt (h ifr (List.mem_of_getElem? hget))⟩
    · obtain ⟨i, hi, rfl⟩ := List.mem_map.1 ha
      have hread := hholds heap stack i (List.mem_range.1 hi)
      exact hread.1.nul_mem hread.2

/-- `"200.100.100.100"` fills its field. -/
theorem not_textSurvives :
    ¬TextSurvives .little [{ sa_family := 2, sin_addr := ⟨200, 100, 100, 100⟩ }] := by
  intro h
  have hmem : (dataAt 0, 16) ∈ (interfacesToIpV4addr .little (fun _ => 0) (fun _ => 0)
      [{ sa_family := 2, sin_addr := ⟨200, 100, 100, 100⟩ }]).stores := by decide
  obtain ⟨i, hi, hoff, hlen⟩ := h.stores _ _ _ hmem
  exact absurd hlen (by decide)

end Exchange

end Udm
