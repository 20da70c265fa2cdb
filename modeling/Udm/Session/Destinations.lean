import Udm.Session.Storage

/-!
# Destinations

Where a session sends to: `selectAddrFromList` goes round the addresses of the peer,
with an `int` that is never reset. It is defined, and goes round all of them, if and
only if there is an address left and the counter does not become negative before the
round is over (`goesRound_iff`). A peer that advertises no address, or only loopback
addresses, makes the next selection divide by zero.

The selections of a round are `index i count j`, the remainder of the counter after `j`
more calls. Division in C rounds to zero, so a negative counter has a negative remainder,
which is no index, unless the count divides it. Two negative numbers in a row are not both
multiples of a count above one (`not_tmod_nonneg`): this is what excludes every round in which
the counter overflows, but for the one whose last number is `2 ^ 31`, if the count divides it
(`perm_index_iff`).
-/

namespace Udm

namespace Gateway

/-- Several calls of `selectAddrFromList`, one after the other. -/
def selectAddrs : ℕ → Prog (List Dest)
  | 0 => pure []
  | n + 1 => do
    let s ← selectAddrFromList
    let ss ← selectAddrs n
    return s :: ss

/-- With a list of peer addresses, a selection is an index in the list, and as many
    selections as it has addresses take each of them once. -/
structure GoesRound (p : Process) : Prop where
  /-- One selection is defined, and in the list. -/
  index : wp selectAddrFromList
    (fun s _ => ∃ i, s = .address i ∧ 0 ≤ i ∧ i < p.interfaces.peer_addressCount)
    (fun _ _ => False) p
  /-- A round takes every address. -/
  round : wp (selectAddrs p.interfaces.peer_addressCount.toNat)
    (fun ss _ => ss.Perm
      ((List.range p.interfaces.peer_addressCount.toNat).map fun (i : ℕ) => .address i))
    (fun _ _ => False) p

/-- The `count` numbers after `i` are no negative `int`s, or there is only one
    address. (The last one may wrap to a multiple of `count`.) -/
def RoundFits (i count : ℤ) : Prop :=
  count = 1 ∨ 0 < count ∧ -1 ≤ i ∧ (i + count < 2 ^ 31 ∨ i + count = 2 ^ 31 ∧ count ∣ 2 ^ 31)

instance (i count : ℤ) : Decidable (RoundFits i count) := inferInstanceAs (Decidable (_ ∨ _))

/-- The index of the `j`-th selection after the counter was `i`. -/
def index (i count : ℤ) (j : ℕ) : ℤ := (int32 (i + 1 + j)).tmod count

/-! ## Rounds of indices -/

/-- A negative number with a remainder that is not negative is a multiple. -/
theorem dvd_of_tmod_nonneg {x c : ℤ} (hx : x < 0) (h : 0 ≤ x.tmod c) : c ∣ x := by
  have hneg : (-x).tmod c = -x.tmod c := Int.neg_tmod x c
  have hpos : 0 ≤ (-x).tmod c := Int.tmod_nonneg c (by omega)
  exact Int.dvd_of_tmod_eq_zero (by omega)

/-- Two negative numbers in a row are not both multiples. -/
theorem not_tmod_nonneg {x c : ℤ} (hx : x + 1 < 0) (hc : 1 < c) :
    ¬(0 ≤ x.tmod c ∧ 0 ≤ (x + 1).tmod c) := by
  rintro ⟨h, h'⟩
  have hone : c ∣ 1 := by
    have := Int.dvd_sub (dvd_of_tmod_nonneg hx h') (dvd_of_tmod_nonneg (by omega) h)
    simpa using this
  exact absurd (Int.le_of_dvd one_pos hone) (by omega)

/-- As long as the round fits, the indices are the numbers modulo `count`. -/
theorem index_eq {i count : ℤ} (hi : -1 ≤ i)
    (h : i + count < 2 ^ 31 ∨ i + count = 2 ^ 31 ∧ count ∣ 2 ^ 31) {j : ℕ} (hj : (j : ℤ) < count) :
    index i count j = (i + 1 + j) % count := by
  rw [index]
  by_cases hlt : i + 1 + j < 2 ^ 31
  · rw [int32_of_mem (by omega) hlt, Int.tmod_eq_emod_of_nonneg (by omega)]
  · -- The last number wraps, and is a multiple all the same.
    obtain ⟨hsum, hdvd⟩ := h.resolve_left (by omega)
    have heq : i + 1 + j = 2 ^ 31 := by omega
    have hwrap : int32 (2 ^ 31) = -2 ^ 31 := by decide
    rw [heq, hwrap, Int.emod_eq_zero_of_dvd hdvd, Int.neg_tmod, Int.tmod_eq_zero_of_dvd hdvd]
    rfl

/-- Consecutive numbers go round the residues. -/
theorem perm_residues {a : ℤ} {n : ℕ} (hn : 0 < n) :
    ((List.range n).map fun (j : ℕ) => (a + j) % n).Perm ((List.range n).map fun (j : ℕ) => (j : ℤ)) := by
  have hn' : (0 : ℤ) < n := by exact_mod_cast hn
  have hinj : ∀ j ∈ List.range n, ∀ k ∈ List.range n, (a + j) % n = (a + k) % n → j = k := by
    intro j hj k hk h
    rw [List.mem_range] at hj hk
    have hmod : (j : ℤ) % n = k % n :=
      (Int.ModEq.add_left_cancel' a h : (j : ℤ) ≡ k [ZMOD n])
    rw [Int.emod_eq_of_lt (by omega) (by omega), Int.emod_eq_of_lt (by omega) (by omega)] at hmod
    exact_mod_cast hmod
  have hnodup : ((List.range n).map fun (j : ℕ) => (a + j) % n).Nodup :=
    List.Nodup.map_on hinj List.nodup_range
  refine (List.subperm_of_subset hnodup fun x hx => ?_).perm_of_length_le (by simp)
  obtain ⟨j, -, rfl⟩ := List.mem_map.1 hx
  have hlo := Int.emod_nonneg (a + j) hn'.ne'
  have hhi := Int.emod_lt_of_pos (a + j) hn'
  exact List.mem_map.2 ⟨((a + j) % n).toNat, by rw [List.mem_range]; omega, by omega⟩

/-- The indices of a round are those of the list exactly if the round fits. -/
theorem perm_index_iff {i count : ℤ} (hi : -2 ^ 31 ≤ i) (hi' : i < 2 ^ 31) (hc : 0 < count) :
    ((List.range count.toNat).map (index i count)).Perm
        ((List.range count.toNat).map fun (j : ℕ) => (j : ℤ)) ↔ RoundFits i count := by
  have hcast : (count.toNat : ℤ) = count := Int.toNat_of_nonneg hc.le
  constructor
  · intro hperm
    have hmem : ∀ j : ℕ, (j : ℤ) < count → 0 ≤ index i count j := by
      intro j hj
      have : index i count j ∈ (List.range count.toNat).map (index i count) :=
        List.mem_map.2 ⟨j, List.mem_range.2 (by omega), rfl⟩
      obtain ⟨k, -, hk⟩ := List.mem_map.1 (hperm.subset this)
      omega
    rcases eq_or_ne count 1 with hone | hone
    · exact .inl hone
    -- A number that is no multiple must not be negative.
    have hlo : -1 ≤ i := by
      by_contra hneg
      have h₀ := hmem 0 (by simpa using hc)
      have h₁ := hmem 1 (by push_cast; omega)
      have e₀ : int32 (i + 1 + (0 : ℕ)) = i + 1 := by
        rw [Nat.cast_zero, add_zero]
        exact int32_of_mem (by omega) (by omega)
      have e₁ : int32 (i + 1 + (1 : ℕ)) = i + 1 + 1 := by
        rw [Nat.cast_one]
        exact int32_of_mem (by omega) (by omega)
      rw [index, e₀] at h₀
      rw [index, e₁] at h₁
      have hdvd := dvd_of_tmod_nonneg (by omega) h₀
      have hle := Int.le_of_dvd (a := count) (b := -(i + 1)) (by omega) ((Int.dvd_neg).2 hdvd)
      exact not_tmod_nonneg (by omega) (by omega) ⟨h₀, h₁⟩
    refine .inr ⟨hc, hlo, ?_⟩
    by_cases hlt : i + count < 2 ^ 31
    · exact .inl hlt
    -- The number that wraps, and the next one.
    obtain ⟨j, hj⟩ : ∃ j : ℕ, i + 1 + j = 2 ^ 31 := ⟨(2 ^ 31 - 1 - i).toNat, by omega⟩
    have h₀ := hmem j (by omega)
    have e₀ : int32 (2 ^ 31) = -2 ^ 31 := by decide
    rw [index, hj, e₀] at h₀
    refine .inr ⟨?_, (Int.dvd_neg).1 (dvd_of_tmod_nonneg (by omega) h₀)⟩
    by_contra hne
    have h₁ := hmem (j + 1) (by push_cast; omega)
    have e₁ : int32 (i + 1 + (j + 1 : ℕ)) = -2 ^ 31 + 1 := by
      rw [show i + 1 + ((j + 1 : ℕ) : ℤ) = 2 ^ 31 + 1 by push_cast; omega]
      decide
    rw [index, e₁] at h₁
    exact not_tmod_nonneg (by omega) (by omega) ⟨h₀, h₁⟩
  · rintro (rfl | ⟨-, hlo, hfits⟩)
    · have : index i 1 0 = 0 := Int.tmod_one _
      simp [this]
    · have hmap : (List.range count.toNat).map (index i count) =
          (List.range count.toNat).map fun (j : ℕ) => (i + 1 + j) % count.toNat := by
        refine List.map_congr_left fun j hj => ?_
        rw [List.mem_range] at hj
        rw [index_eq hlo hfits (by omega), hcast]
      rw [hmap]
      exact perm_residues (by omega)

/-! ## Selecting -/

variable {Q : List Dest → Process → Prop} {E : Halt → Process → Prop} {p : Process}

/-- The selections made one after the other. -/
theorem wp_selectAddrs (hlist : p.interfaces.peer_addressList ≠ none)
    (hcount : p.interfaces.peer_addressCount ≠ 0) (n : ℕ) :
    wp (selectAddrs n) Q E p ↔
      Q ((List.range n).map fun j =>
        .address (index p.statics.i p.interfaces.peer_addressCount j)) (Process.select^[n] p) := by
  induction n generalizing p Q with
  | zero => rfl
  | succ n ih =>
    obtain ⟨l, hl⟩ := Option.ne_none_iff_exists'.1 hlist
    have haddr : ¬p.interfaces.NoAddress := fun h => hcount h.2
    have hdest : p.interfaces.dest p.statics.i =
        .address (index p.statics.i p.interfaces.peer_addressCount 0) := by
      simp [PhyInterfaces.dest, hl, index]
    have hstep (j : ℕ) : index p.select.statics.i p.interfaces.peer_addressCount j =
        index p.statics.i p.interfaces.peer_addressCount (j + 1) := by
      have : p.select.statics.i = int32 (p.statics.i + 1) := by
        simp [PhyInterfaces.nextIndex, hl]
      rw [index, index, this, add_assoc, int32_add]
      congr 2
      push_cast
      ring
    rw [selectAddrs, wp_bind, wp_selectAddrFromList, if_neg haddr, wp_bind]
    refine (ih (p := p.select) hlist hcount).trans ?_
    rw [wp_pure, hdest, List.range_succ_eq_map, List.map_cons, List.map_map]
    have hmap : (List.range n).map (fun j =>
        Dest.address (index p.select.statics.i p.select.interfaces.peer_addressCount j)) =
        (List.range n).map ((fun j =>
          Dest.address (index p.statics.i p.interfaces.peer_addressCount j)) ∘ Nat.succ) :=
      List.map_congr_left fun j _ => congrArg Dest.address (hstep j)
    rw [hmap]
    rfl

/-- The counter counts only as an `int`. -/
theorem index_int32 (i count : ℤ) : index (int32 i) count = index i count := by
  funext j
  rw [index, index, add_assoc, int32_add, ← add_assoc]

/-- With a list of peer addresses, the selection goes round it if and only if an
    address is left in it and the round fits. -/
theorem goesRound_iff (p : Process) :
    (p.interfaces.peer_addressList ≠ none → GoesRound p) ↔
      (p.interfaces.peer_addressList ≠ none →
        RoundFits (int32 p.statics.i) p.interfaces.peer_addressCount) := by
  refine forall_congr' fun hlist => ?_
  have hinj : Function.Injective Dest.address := fun _ _ h => Dest.address.inj h
  set count := p.interfaces.peer_addressCount with hcount
  set n := count.toNat with hn
  -- Both sides say that the indices are those of the list.
  have hround (h : count ≠ 0) : wp (selectAddrs n)
      (fun ss _ => ss.Perm ((List.range n).map fun (i : ℕ) => .address i)) (fun _ _ => False) p ↔
      ((List.range n).map (index (int32 p.statics.i) count)).Perm
        ((List.range n).map fun (j : ℕ) => (j : ℤ)) := by
    have hmap (f : ℕ → ℤ) : (List.range n).map (fun j => Dest.address (f j)) =
        ((List.range n).map f).map Dest.address := by rw [List.map_map]; rfl
    rw [wp_selectAddrs hlist h, ← hcount, hmap, hmap, List.map_perm_map_iff hinj, index_int32]
  constructor
  · rintro ⟨hindex, hperm⟩
    rw [wp_selectAddrFromList] at hindex
    split_ifs at hindex with haddr
    obtain ⟨i, -, hi, hi'⟩ := hindex
    have hpos : 0 < count := by omega
    exact (perm_index_iff (le_int32 _) (int32_lt _) hpos).1 ((hround hpos.ne').1 hperm)
  · intro hfits
    have hpos : 0 < count := by
      rcases hfits with h | h
      exacts [by omega, h.1]
    have hperm := (perm_index_iff (le_int32 _) (int32_lt _) hpos).2 hfits
    refine ⟨?_, (hround hpos.ne').2 hperm⟩
    rw [wp_selectAddrFromList, if_neg fun h => hpos.ne' h.2]
    obtain ⟨l, hl⟩ := Option.ne_none_iff_exists'.1 hlist
    -- The first index of the round.
    have hmem : index (int32 p.statics.i) count 0 ∈
        (List.range n).map (index (int32 p.statics.i) count) :=
      List.mem_map.2 ⟨0, List.mem_range.2 (by omega), rfl⟩
    obtain ⟨k, hk, heq⟩ := List.mem_map.1 (hperm.subset hmem)
    rw [List.mem_range] at hk
    refine ⟨k, ?_, by omega, by omega⟩
    rw [heq, index_int32, PhyInterfaces.dest, hl, index, Nat.cast_zero, add_zero]

/-- In every state of a run, the selection goes round the peer list, if there is
    one, if and only if in every state an address is left in it and the round
    fits. -/
theorem goesRound_run_iff (bo : ByteOrder) (dir : StateDirection) (statics : Statics)
    (addressList : List IpaddrDummy) (source sink : DataSource) (env : ℕ → Env) :
    let c := Session.run bo (.init dir statics addressList source sink) env
    (∀ n, (c n).error = none → (c n).state.interfaces.peer_addressList ≠ none →
      GoesRound (c n).state) ↔
    ∀ n, (c n).error = none → (c n).state.interfaces.peer_addressList ≠ none →
      RoundFits (int32 (c n).state.statics.i) (c n).state.interfaces.peer_addressCount :=
  forall_congr' fun _ => forall_congr' fun _ => goesRound_iff _

/-! ## A peer without addresses -/

/-- The answer to the hello has no addresses. -/
def noAddresses : ℕ → Env
  | 1 => .plain (some (CapsuleHdr.encode .little {})) []
  | _ => .plain none []

/-- After the handshake with a peer that advertises no address, the selection is not
    defined. -/
theorem not_goesRound_noAddresses :
    ¬∀ n, (Session.run .little Session.newReceiver noAddresses n).error = none →
      (Session.run .little Session.newReceiver noAddresses n).state.interfaces.peer_addressList ≠ none →
      GoesRound (Session.run .little Session.newReceiver noAddresses n).state := by
  intro h
  have hlist : (Session.run .little Session.newReceiver noAddresses
      2).state.interfaces.peer_addressList.isSome := by decide +kernel
  have hround := h 2 (by decide +kernel) (Option.isSome_iff_ne_none.1 hlist)
  have haddr : (Session.run .little Session.newReceiver noAddresses
      2).state.interfaces.NoAddress := by decide +kernel
  have hindex := hround.index
  rwa [wp_selectAddrFromList, if_pos haddr] at hindex

end Gateway

end Udm
