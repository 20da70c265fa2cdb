import Udm.Library.Word
import Udm.Process

/-!
# Counting the interfaces

`_noOfInterfaces` (`gateway.h`) asks for the interfaces with a buffer whose room it
doubles until the answer does not fill it. The request `SIOCGIFCONF` is an argument
(`Request`); of a successful one (`Answers`) it is known that it writes as many entries
as there are, or as there is room for, and sets the length to theirs, and that it writes
nothing without a buffer, and sets the length to the one of all entries.

The buffer comes from `realloc`, which may be refused, and has no defined behaviour on a
pointer that is neither `NULL` nor to a block (`HeapPtr.realloc`). The constructor calls
`_noOfInterfaces` on a structure that comes from `malloc`, whose pointer nothing has set.

* `noOfInterfacesFrom_granted`, `noOfInterfacesFrom_refused`: one request;
* `exists_returns`, `returned`: the loop ends, and what it returns. When the room is a
  power of two, a full buffer may hold all the interfaces; the loop then goes on to the next
  power, so it ends at the least one above their number;
* `enumerates_iff`: when the loop enumerates the interfaces. That it is without a buffer
  does not show when there are as many interfaces as the buffer was to have room for: the
  loop then goes on as if it were full.
-/

namespace Udm

/-! ## Pointers into the heap -/

/-- A pointer into the heap, with the cells of the block that it is to. -/
inductive HeapPtr (ε : Type)
  /-- `NULL`. -/
  | null
  /-- To a block that was allocated, and has not been released. -/
  | live (cells : List ε)
  /-- Neither: never set, or to a block that was released. -/
  | stray
  deriving DecidableEq

namespace HeapPtr

variable {ε : Type}

/-- The cells that can be read through the pointer. -/
def cells : HeapPtr ε → List ε
  | live cells => cells
  | null | stray => []

/-- A block of `n` cells that starts as `cells` does. What a new block holds is arbitrary, and
    none may be granted. -/
def grow (fresh : Option (ℕ → ε)) (n : ℕ) (cells : List ε) : HeapPtr ε :=
  match fresh with
  | none => null
  | some fresh => live ((cells ++ (List.range n).map fresh).take n)

/-- `realloc`, to `n` cells: of `NULL`, it allocates; any other pointer must be to a block. -/
def realloc (fresh : Option (ℕ → ε)) (n : ℕ) : HeapPtr ε → Except Halt (HeapPtr ε)
  | null => .ok (grow fresh n [])
  | live cells => .ok (grow fresh n cells)
  | stray => .error .fault

theorem realloc_of_ne_stray {ptr : HeapPtr ε} (h : ptr ≠ stray) (fresh : Option (ℕ → ε)) (n : ℕ) :
    ptr.realloc fresh n = .ok (grow fresh n ptr.cells) := by
  cases ptr with
  | null | live => rfl
  | stray => exact absurd rfl h

/-- A block that was granted has the cells that were asked for. -/
theorem grow_some (fresh : ℕ → ε) (n : ℕ) (cells : List ε) :
    ∃ cells', cells'.length = n ∧ grow (some fresh) n cells = live cells' :=
  ⟨_, by simp, rfl⟩

end HeapPtr

/-! ## The loop -/

/-- `sizeof(struct ifreq)`. -/
abbrev IFREQ : ℕ := 40

/-- `ifconf`: the length, in bytes, of the entries in its buffer, and the pointer to it. -/
structure Ifconf (ε : Type) where
  /-- Before the request, the size of the buffer; after it, that of the entries in it. -/
  ifc_len : ℤ
  /-- Where the entries go. `NULL` asks for their size only. -/
  ifc_buf : HeapPtr ε
  deriving DecidableEq

/-- `ioctl(sfd, SIOCGIFCONF, ifc)`. It may fail, and changes nothing then. -/
abbrev Request (ε : Type) := Ifconf ε → Option (Ifconf ε)

/-- What the heap grants for a number of bytes, and what is in it. -/
abbrev Grants (ε : Type) := ℤ → Option (ℕ → ε)

namespace PhyInterfaces

variable {ε : Type}

/-- The loop of `_noOfInterfaces`, tried at most `fuel` times from the capacity
    `numreqs` on: the number it returns, and the `ifconf` it leaves. -/
def noOfInterfacesFrom (ioctl : Request ε) (heap : Grants ε) (ifc : Ifconf ε) (numreqs : ℤ) :
    ℕ → Option (Except Halt (ℤ × Ifconf ε))
  | 0 => none
  | fuel + 1 =>
    let ifc_len := int32 ((IFREQ * sizeT numreqs : ℕ) : ℤ)
    match ifc.ifc_buf.realloc (heap ifc_len) (sizeT ifc_len / IFREQ) with
    | .error e => some (.error e)
    | .ok ifc_buf =>
      match ioctl { ifc_len, ifc_buf } with
      | none => some (.ok (numreqs, { ifc_len, ifc_buf }))
      | some ifc =>
        if ifc.ifc_len = int32 (IFREQ * numreqs) then
          noOfInterfacesFrom ioctl heap ifc (int32 (numreqs * 2)) fuel
        else some (.ok (int32 ((sizeT ifc.ifc_len / IFREQ : ℕ) : ℤ), ifc))

/-- `_noOfInterfaces`. -/
def noOfInterfaces (ioctl : Request ε) (heap : Grants ε) (ifc : Ifconf ε) (fuel : ℕ) :
    Option (Except Halt (ℤ × Ifconf ε)) :=
  noOfInterfacesFrom ioctl heap ifc 1 fuel

/-- The request succeeds, on the interfaces `all`. -/
structure Answers (ioctl : Request ε) (all : List ε) : Prop where
  /-- A buffer gets as many entries as it has room for. -/
  live : ∀ cells : List ε, IFREQ * cells.length < 2 ^ 31 →
    ioctl { ifc_len := (IFREQ * cells.length : ℕ), ifc_buf := .live cells } =
      some { ifc_len := (IFREQ * min cells.length all.length : ℕ)
             ifc_buf := .live (all.take cells.length ++ cells.drop all.length) }
  /-- Without a buffer, the size of all the entries is told. -/
  null : ∀ ifc_len, ioctl { ifc_len, ifc_buf := .null } =
    some { ifc_len := (IFREQ * all.length : ℕ), ifc_buf := .null }

/-- The request on the interfaces `all`. -/
def siocgifconf (all : List ε) : Request ε := fun ifc =>
  match ifc.ifc_buf with
  | .null => some { ifc with ifc_len := (IFREQ * all.length : ℕ) }
  | .live cells =>
    let room := min (ifc.ifc_len.toNat / IFREQ) all.length
    some { ifc_len := (IFREQ * room : ℕ), ifc_buf := .live (all.take room ++ cells.drop room) }
  | .stray => none

theorem answers_siocgifconf (all : List ε) : Answers (siocgifconf all) all where
  live := fun cells _ => by
    have hroom : IFREQ * cells.length / IFREQ = cells.length :=
      Nat.mul_div_cancel_left _ (by decide)
    have htake : all.take (min cells.length all.length) = all.take cells.length :=
      List.take_eq_take_iff.2 (by omega)
    have hdrop : cells.drop (min cells.length all.length) = cells.drop all.length :=
      List.drop_eq_drop_iff.2 (by omega)
    simp only [siocgifconf, Int.toNat_natCast, hroom, htake, hdrop]
  null := fun _ => rfl

/-- The loop ends, and returns the number of interfaces, with all of them in the buffer. -/
def Enumerates (ioctl : Request ε) (heap : Grants ε) (all : List ε) (ifc : Ifconf ε) : Prop :=
  ∃ m, ∀ fuel ≥ m, ∃ ifc',
    noOfInterfaces ioctl heap ifc fuel = some (.ok ((all.length : ℤ), ifc')) ∧
    ifc'.ifc_len = (IFREQ * all.length : ℕ) ∧ all <+: ifc'.ifc_buf.cells

variable {ioctl : Request ε} {heap : Grants ε} {all : List ε} {ifc : Ifconf ε} {fuel : ℕ}

/-! ## One request -/

/-- A number of interfaces whose entries have an `int` as their size is an `int`. -/
theorem int32_of_bytes {n : ℕ} (h : IFREQ * n < 2 ^ 31) : int32 (n : ℤ) = n := by
  simp only [IFREQ] at h
  exact int32_of_mem (by omega) (by omega)

/-- The sizes of a buffer for `room` interfaces, as the loop computes them. -/
theorem bytes_of_room {room : ℕ} (hroom : IFREQ * room < 2 ^ 31) :
    int32 ((IFREQ * sizeT room : ℕ) : ℤ) = (IFREQ * room : ℕ) ∧
      sizeT ((IFREQ * room : ℕ) : ℤ) / IFREQ = room ∧
      int32 ((IFREQ : ℤ) * room) = (IFREQ * room : ℕ) := by
  simp only [IFREQ] at hroom ⊢
  refine ⟨?_, ?_, int32_of_mem (by omega) (by omega)⟩
  · rw [sizeT_natCast (by omega)]
    exact int32_of_mem (by omega) (by omega)
  · rw [sizeT_natCast (by omega), Nat.mul_div_cancel_left _ (by decide)]

/-- A request with a buffer for `room` interfaces. -/
theorem noOfInterfacesFrom_granted (h : Answers ioctl all) (hptr : ifc.ifc_buf ≠ .stray) {room : ℕ}
    (hroom : IFREQ * room < 2 ^ 31) (hheap : (heap (IFREQ * room : ℕ)).isSome) (fuel : ℕ) :
    ∃ cells, all.take room <+: cells ∧
      noOfInterfacesFrom ioctl heap ifc room (fuel + 1) =
        if room ≤ all.length then
          noOfInterfacesFrom ioctl heap { ifc_len := (IFREQ * room : ℕ), ifc_buf := .live cells }
            (int32 (room * 2)) fuel
        else some (.ok ((all.length : ℤ),
          { ifc_len := (IFREQ * all.length : ℕ), ifc_buf := .live cells })) := by
  obtain ⟨fresh, hfresh⟩ := Option.isSome_iff_exists.1 hheap
  obtain ⟨cells, hcells, hgrow⟩ := HeapPtr.grow_some fresh room ifc.ifc_buf.cells
  obtain ⟨hlen, hsize, hfull⟩ := bytes_of_room hroom
  have hanswer := h.live cells (by rwa [hcells])
  rw [hcells] at hanswer
  refine ⟨_, List.prefix_append _ (cells.drop all.length), ?_⟩
  simp only [noOfInterfacesFrom, hlen, hsize, HeapPtr.realloc_of_ne_stray hptr, hfresh, hgrow,
    hanswer, hfull, Nat.cast_inj]
  rcases Nat.lt_or_ge all.length room with hlt | hle
  · -- The buffer is not full, and holds all the interfaces.
    obtain ⟨-, hcount, -⟩ := bytes_of_room (lt_of_le_of_lt (Nat.mul_le_mul_left _ hlt.le) hroom)
    have hint := int32_of_bytes (lt_of_le_of_lt (Nat.mul_le_mul_left _ hlt.le) hroom)
    rw [Nat.min_eq_right hlt.le, if_neg (by simp only [IFREQ]; omega), if_neg (not_le.2 hlt),
      hcount, hint]
  · rw [Nat.min_eq_left hle, if_pos rfl, if_pos hle]

/-- A request without a buffer, in the place of one for `room` interfaces. -/
theorem noOfInterfacesFrom_refused (h : Answers ioctl all) (hptr : ifc.ifc_buf ≠ .stray) {room : ℕ}
    (hroom : IFREQ * room < 2 ^ 31) (hall : IFREQ * all.length < 2 ^ 31)
    (hheap : heap (IFREQ * room : ℕ) = none) (fuel : ℕ) :
    noOfInterfacesFrom ioctl heap ifc room (fuel + 1) =
      if room = all.length then
        noOfInterfacesFrom ioctl heap { ifc_len := (IFREQ * room : ℕ), ifc_buf := .null }
          (int32 (room * 2)) fuel
      else some (.ok ((all.length : ℤ),
        { ifc_len := (IFREQ * all.length : ℕ), ifc_buf := .null })) := by
  obtain ⟨hlen, hsize, hfull⟩ := bytes_of_room hroom
  obtain ⟨-, hcount, -⟩ := bytes_of_room hall
  have hint := int32_of_bytes hall
  simp only [noOfInterfacesFrom, hlen, hsize, HeapPtr.realloc_of_ne_stray hptr, hheap,
    HeapPtr.grow, h.null, hfull, Nat.cast_inj, hcount, hint]
  rcases eq_or_ne room all.length with heq | hne
  · rw [if_pos (by rw [heq]), if_pos heq, heq]
  · rw [if_neg fun heq => hne (Nat.eq_of_mul_eq_mul_left (by decide) heq.symm), if_neg hne]

/-! ## All the requests -/

/-- The room of the next try. -/
theorem int32_double {i : ℕ} (hi : i < all.length.size)
    (hfit : IFREQ * 2 ^ all.length.size < 2 ^ 31) :
    int32 (((2 ^ i : ℕ) : ℤ) * 2) = ((2 ^ (i + 1) : ℕ) : ℤ) := by
  have hpow : 2 ^ (i + 1) ≤ 2 ^ all.length.size := Nat.pow_le_pow_right (by decide) hi
  simp only [IFREQ] at hfit
  rw [pow_succ] at hpow ⊢
  exact int32_of_mem (by omega) (by omega)

theorem room_of_le {i : ℕ} (hi : i ≤ all.length.size)
    (hfit : IFREQ * 2 ^ all.length.size < 2 ^ 31) : IFREQ * 2 ^ i < 2 ^ 31 :=
  lt_of_le_of_lt (Nat.mul_le_mul_left _ (Nat.pow_le_pow_right (by decide) hi)) hfit

theorem bytes_lt (hfit : IFREQ * 2 ^ all.length.size < 2 ^ 31) : IFREQ * all.length < 2 ^ 31 :=
  lt_of_le_of_lt (Nat.mul_le_mul_left _ (Nat.lt_size_self _).le) hfit

/-- The loop ends, from every power of two that is not above the one it ends at. -/
theorem exists_returns (h : Answers ioctl all) (hfit : IFREQ * 2 ^ all.length.size < 2 ^ 31)
    (hptr : ifc.ifc_buf ≠ .stray) (i : ℕ) (hi : i ≤ all.length.size)
    (hfuel : all.length.size < i + fuel) :
    ∃ r, noOfInterfacesFrom ioctl heap ifc ((2 ^ i : ℕ) : ℤ) fuel = some (.ok r) := by
  induction fuel generalizing ifc i with
  | zero => omega
  | succ fuel ih =>
    have hroom := room_of_le hi hfit
    -- What is not above the number of interfaces is below the power the loop ends at.
    have hnext (hle : 2 ^ i ≤ all.length) (ifc : Ifconf ε) (hptr : ifc.ifc_buf ≠ .stray) :
        ∃ r, noOfInterfacesFrom ioctl heap ifc (int32 (((2 ^ i : ℕ) : ℤ) * 2)) fuel =
          some (.ok r) := by
      have hlt : i < all.length.size := Nat.lt_size.2 hle
      rw [int32_double hlt hfit]
      exact ih hptr (i + 1) hlt (by omega)
    rcases hgrant : heap (IFREQ * 2 ^ i : ℕ) with - | fresh
    · rw [noOfInterfacesFrom_refused h hptr hroom (bytes_lt hfit) hgrant]
      split_ifs with hexact
      · exact hnext hexact.le _ nofun
      · exact ⟨_, rfl⟩
    · obtain ⟨cells, -, heq⟩ := noOfInterfacesFrom_granted h hptr hroom
        (Option.isSome_of_eq_some hgrant) fuel
      rw [heq]
      split_ifs with hfull
      · exact hnext hfull _ nofun
      · exact ⟨_, rfl⟩

/-- What the loop has returned, from `2 ^ i` on: the number of the interfaces, and a buffer with all
    of them if none was refused but for exactly as many, and no buffer otherwise. -/
structure Returned (heap : Grants ε) (all : List ε) (i : ℕ) (n : ℤ) (ifc : Ifconf ε) : Prop where
  /-- The loop returns how many interfaces there are. -/
  count : n = all.length
  /-- The length is that of their entries. -/
  ifc_len : ifc.ifc_len = (IFREQ * all.length : ℕ)
  /-- The buffer was freed by a refusal, or holds them all. -/
  ifc_buf : (ifc.ifc_buf = .null ∧
      ∃ k ≤ all.length.size, 2 ^ k ≠ all.length ∧ heap (IFREQ * 2 ^ k : ℕ) = none) ∨
    (∃ cells, ifc.ifc_buf = .live cells ∧ all <+: cells) ∧ ∀ k, i ≤ k → k ≤ all.length.size →
      2 ^ k ≠ all.length → (heap (IFREQ * 2 ^ k : ℕ)).isSome

/-- A try before those that the loop goes through. -/
theorem Returned.of_succ {i : ℕ} {n : ℤ} (h : Returned heap all (i + 1) n ifc)
    (hthis : 2 ^ i ≠ all.length → (heap (IFREQ * 2 ^ i : ℕ)).isSome) :
    Returned heap all i n ifc where
  count := h.count
  ifc_len := h.ifc_len
  ifc_buf := h.ifc_buf.imp_right fun ⟨hcells, hgranted⟩ => ⟨hcells, fun k hik hk => by
    rcases hik.eq_or_lt with rfl | hik
    exacts [hthis, hgranted k hik hk]⟩

theorem returned (h : Answers ioctl all) (hfit : IFREQ * 2 ^ all.length.size < 2 ^ 31)
    (hptr : ifc.ifc_buf ≠ .stray) (i : ℕ) (hi : i ≤ all.length.size) {n : ℤ} {ifc' : Ifconf ε}
    (hreturns : noOfInterfacesFrom ioctl heap ifc ((2 ^ i : ℕ) : ℤ) fuel = some (.ok (n, ifc'))) :
    Returned heap all i n ifc' := by
  induction fuel generalizing ifc i with
  | zero => contradiction
  | succ fuel ih =>
    have hroom := room_of_le hi hfit
    -- The room of this try is not the last one, and is granted or that of a full buffer.
    have hnext {ifc : Ifconf ε} (hle : 2 ^ i ≤ all.length)
        (hthis : 2 ^ i ≠ all.length → (heap (IFREQ * 2 ^ i : ℕ)).isSome)
        (hreturns : noOfInterfacesFrom ioctl heap ifc (int32 (((2 ^ i : ℕ) : ℤ) * 2)) fuel =
          some (.ok (n, ifc'))) (hptr : ifc.ifc_buf ≠ .stray) : Returned heap all i n ifc' := by
      have hlt : i < all.length.size := Nat.lt_size.2 hle
      rw [int32_double hlt hfit] at hreturns
      exact (ih hptr (i + 1) hlt hreturns).of_succ hthis
    rcases hgrant : heap (IFREQ * 2 ^ i : ℕ) with - | fresh
    · rw [noOfInterfacesFrom_refused h hptr hroom (bytes_lt hfit) hgrant] at hreturns
      split_ifs at hreturns with hexact
      · exact hnext hexact.le (fun hne => absurd hexact hne) hreturns nofun
      · simp only [Option.some_inj, Except.ok.injEq, Prod.mk.injEq] at hreturns
        obtain ⟨rfl, rfl⟩ := hreturns
        exact ⟨rfl, rfl, .inl ⟨rfl, i, hi, hexact, hgrant⟩⟩
    · have hsome := Option.isSome_of_eq_some hgrant
      obtain ⟨cells, hpre, heq⟩ := noOfInterfacesFrom_granted h hptr hroom hsome fuel
      rw [heq] at hreturns
      split_ifs at hreturns with hfull
      · exact hnext hfull (fun _ => hsome) hreturns nofun
      · -- The room is above the number of interfaces, so it is that of the last try.
        have hlast : i = all.length.size :=
          hi.antisymm (not_lt.1 fun hlt => hfull (Nat.lt_size.1 hlt))
        simp only [Option.some_inj, Except.ok.injEq, Prod.mk.injEq] at hreturns
        obtain ⟨rfl, rfl⟩ := hreturns
        rw [List.take_of_length_le (not_le.1 hfull).le] at hpre
        refine ⟨rfl, rfl, .inr ⟨⟨cells, rfl, hpre⟩, fun k hik hk _ => ?_⟩⟩
        obtain rfl : k = i := by omega
        exact hsome

/-- On a pointer that was not set, the first `realloc` has no defined behaviour. -/
theorem noOfInterfaces_stray (hptr : ifc.ifc_buf = .stray) (fuel : ℕ) :
    noOfInterfaces ioctl heap ifc (fuel + 1) = some (.error .fault) := by
  rw [noOfInterfaces, noOfInterfacesFrom, hptr]
  rfl

/-- The loop enumerates the interfaces exactly if the pointer it starts with is `NULL` or to a
    block, and there are none or every buffer is granted, one for exactly as many interfaces as
    there are apart. -/
theorem enumerates_iff (h : Answers ioctl all) (hfit : IFREQ * 2 ^ all.length.size < 2 ^ 31)
    (ifc : Ifconf ε) :
    Enumerates ioctl heap all ifc ↔
      ifc.ifc_buf ≠ .stray ∧
        (all = [] ∨
          ∀ i ≤ all.length.size, 2 ^ i ≠ all.length → (heap (IFREQ * 2 ^ i : ℕ)).isSome) := by
  constructor
  · rintro ⟨m, hm⟩
    obtain ⟨ifc', hreturns, -, hpre⟩ := hm (m + 1) (Nat.le_succ m)
    have hptr : ifc.ifc_buf ≠ .stray := fun hstray => by
      rw [noOfInterfaces_stray hstray] at hreturns
      simp at hreturns
    rcases (returned h hfit hptr 0 (Nat.zero_le _) hreturns).ifc_buf with ⟨hnull, -⟩ | ⟨-, hgranted⟩
    · rw [hnull] at hpre
      exact ⟨hptr, .inl (List.prefix_nil.1 hpre)⟩
    · exact ⟨hptr, .inr fun i hi => hgranted i (Nat.zero_le i) hi⟩
  · rintro ⟨hptr, hheap⟩
    refine ⟨all.length.size + 1, fun fuel hfuel => ?_⟩
    have hlt : all.length.size < 0 + fuel := by omega
    obtain ⟨⟨n, ifc'⟩, hreturns⟩ : ∃ r, noOfInterfaces ioctl heap ifc fuel = some (.ok r) :=
      exists_returns h hfit hptr 0 (Nat.zero_le _) hlt
    obtain ⟨rfl, hlen, hcases⟩ := returned h hfit hptr 0 (Nat.zero_le _) hreturns
    refine ⟨ifc', hreturns, hlen, ?_⟩
    rcases hcases with ⟨-, k, hk, hne, hnone⟩ | ⟨⟨cells, hlive, hpre⟩, -⟩
    · -- A buffer was refused, so there are no interfaces.
      rcases hheap with rfl | hheap
      · exact List.nil_prefix
      · have hsome := hheap k hk hne
        rw [hnone] at hsome
        contradiction
    · rwa [hlive]

/-- Four interfaces fill the room of the third try, and are found by the fourth, from `NULL` on. -/
theorem enumerates_four :
    Enumerates (siocgifconf [6, 7, 8, 9]) (fun _ => some fun _ => 0) [6, 7, 8, 9]
      { ifc_len := 0, ifc_buf := .null } :=
  (enumerates_iff (answers_siocgifconf [6, 7, 8, 9]) (by decide) _).2 ⟨nofun, .inr fun _ _ _ => rfl⟩

/-- The structure of the constructor has a pointer that was never set, and no interface is found
    through it. -/
theorem not_enumerates :
    ¬Enumerates (siocgifconf [6, 7, 8, 9]) (fun _ => some fun _ => 0) [6, 7, 8, 9]
      { ifc_len := 0, ifc_buf := .stray } := by
  rintro ⟨m, hm⟩
  obtain ⟨ifc', heq, -⟩ := hm (m + 1) (Nat.le_succ m)
  rw [noOfInterfaces_stray rfl] at heq
  simp at heq

end PhyInterfaces

end Udm
