import Udm.Session.Addresses

/-!
# What is advertised

The addresses that `setCapParams` advertises are those found when the gateway was built.
How many there are is asked of the kernel again: once for the size of the capsule, and
once for every test of the loop that copies them. The answers are a sequence `counts`, of
which any first ones may have been given.

What is read, written and announced is as it should be exactly if the first answer is the
number of copies, and these are in the list and in the body (`advertises_iff`): so it is
as long as the interfaces stay the same, and are few enough (`Agrees.of_constant`).
-/

namespace Udm

/-- The environment in which `getInfCount` returns `counts`, as far as it is called: `n`
    times. -/
def Env.reports (env : Env) (counts : ℕ → ℕ) (n : ℕ) : Env :=
  { env with infCount := (List.range n).map counts }

namespace SessionProcessor

/-- The interfaces that the loop copies in its first `n` tests. -/
def copied (counts : ℕ → ℕ) (n : ℕ) : List ℕ :=
  (List.range n).takeWhile fun i => i < counts (i + 1)

/-- The loop ends with the test `n`, or before. -/
def Ended (counts : ℕ → ℕ) (n : ℕ) : Prop := (copied counts n).length < n

/-- Copying the address of the interface `i` into a body. -/
def copyAddress (interfaces : List IpaddrDummy) (past : IpaddrDummy) (body : Block Byte) (i : ℕ) :
    Block Byte :=
  body.store (HEADER_SPACE + i * ADDR_LEN) (interfaces.getD i past).data

/-- `setCapParams` makes copies that read addresses of the list and write inside the body,
    and at the end of the loop announces their size. -/
structure Advertises (env : Env) (counts : ℕ → ℕ) (code : StateCodes) (p : Process) (cap : Capsule)
    (par : Params) : Prop where
  /-- Every address that is copied is one of the list. -/
  reads : ∀ n, ∀ i ∈ copied counts n, i < p.interfaces.addressList.length
  /-- It has its place in the body. -/
  writes : ∀ n, ∀ i ∈ copied counts n, HEADER_SPACE + i * ADDR_LEN + ADDR_LEN ≤ p.txFactory.chunkSize
  /-- When the loop ends, the body has the copies, and `capSize` is their size. -/
  capsule : ∀ n, Ended counts n → wp (setCapParams (env.reports counts (n + 1)) cap par code)
    (fun cap' _ =>
      cap'.body = (copied counts n).foldl (copyAddress p.interfaces.addressList env.past) cap.body ∧
      cap'.header.capSize.toNat = ADDR_LEN * (copied counts n).length ∧
      cap'.header.capSize.toNat = ADDR_LEN * counts 0)
    (fun _ _ => False) p

/-- The first answer is the number of copies, and these have their place in the list, in
    the body and in `capSize`. -/
structure Agrees (counts : ℕ → ℕ) (addresses chunkSize : ℕ) : Prop where
  /-- The loop makes that many copies. -/
  below : ∀ i < counts 0, i < counts (i + 1)
  /-- It ends then. -/
  last : counts (counts 0 + 1) ≤ counts 0
  /-- There are as many addresses. -/
  list : counts 0 ≤ addresses
  /-- They have room in the body. -/
  body : counts 0 ≠ 0 → HEADER_SPACE + ADDR_LEN * counts 0 ≤ chunkSize
  /-- Their size has room in the field. -/
  capSize : ADDR_LEN * counts 0 < 2 ^ 16

variable {counts : ℕ → ℕ} {list : List IpaddrDummy} {past : IpaddrDummy}

/-! ## The loop -/

/-- The loop copies the interfaces `copied`, one after the other. -/
theorem copyAddresses_range' (i n : ℕ) (body : Block Byte) :
    copyAddresses list past i ((List.range' i n).map fun j => counts (j + 1)) body =
      ((List.range' i n).takeWhile fun j => j < counts (j + 1)).foldl (copyAddress list past) body := by
  induction n generalizing i body with
  | zero => rfl
  | succ n ih =>
    rw [List.range'_succ, List.map_cons, copyAddresses, List.takeWhile_cons]
    by_cases hi : i < counts (i + 1)
    · simp only [hi, if_true, decide_true, List.foldl_cons]
      exact ih (i + 1) _
    · simp only [hi, if_false, decide_false, Bool.false_eq_true, List.foldl_nil]

theorem copyAddresses_reports (env : Env) (n : ℕ) (body : Block Byte) :
    copyAddresses list past 0 (env.reports counts (n + 1)).infCount.tail body =
      (copied counts n).foldl (copyAddress list past) body := by
  have htail : (env.reports counts (n + 1)).infCount.tail =
      (List.range' 0 n).map fun j => counts (j + 1) := by
    rw [Env.reports, List.range_succ_eq_map, ← List.range_eq_range']
    simp
  rw [htail, copyAddresses_range', copied, List.range_eq_range']

/-- The interfaces are copied in order, until a test fails. -/
theorem copied_eq (counts : ℕ → ℕ) (n : ℕ) : ∃ k ≤ n, copied counts n = List.range k ∧
    (∀ i < k, i < counts (i + 1)) ∧ (k < n → counts (k + 1) ≤ k) := by
  induction n with
  | zero => exact ⟨0, le_rfl, rfl, by simp, by simp⟩
  | succ n ih =>
    obtain ⟨k, hk, heq, hbelow, hlast⟩ := ih
    rw [copied] at heq
    rw [copied, List.range_succ, List.takeWhile_append, heq, List.length_range, List.length_range]
    rcases hk.lt_or_eq with hlt | rfl
    · rw [if_neg hlt.ne]
      exact ⟨k, hk.trans (Nat.le_succ _), rfl, hbelow, fun _ => hlast hlt⟩
    · rw [if_pos rfl]
      by_cases hnext : k < counts (k + 1)
      · refine ⟨k + 1, le_rfl, by simp [hnext, List.range_succ], fun i hi => ?_, by simp⟩
        rcases (Nat.lt_succ_iff.1 hi).lt_or_eq with hi | rfl
        · exact hbelow i hi
        · exact hnext
      · exact ⟨k, Nat.le_succ _, by simp [hnext], hbelow, fun _ => not_lt.1 hnext⟩

/-! ## The capsule -/

section Capsule

variable {env : Env} {code : StateCodes} {p : Process} {cap : Capsule} {par : Params}

/-- The capsule that is advertised when `getInfCount` has been called `n + 1` times. -/
theorem exists_reported {E : Halt → Process → Prop} (env : Env)
    (hcode : code = .setup ∨ code = .connected) (p : Process) (cap : Capsule) (par : Params)
    (counts : ℕ → ℕ) (n : ℕ) :
    ∃ (cap' : Capsule) (p' : Process), cap'.header.capSize.toNat = ADDR_LEN * counts 0 % 2 ^ 16 ∧
      cap'.body =
        (copied counts n).foldl (copyAddress p.interfaces.addressList env.past) cap.body ∧
      ∀ Q, wp (setCapParams (env.reports counts (n + 1)) cap par code) Q E p ↔ Q cap' p' := by
  obtain ⟨cap', p', -, -, hsize, hbody, hwp⟩ :=
    exists_advertised (env.reports counts (n + 1)) hcode p cap par
  have hhead : (env.reports counts (n + 1)).infCount.headD 0 = counts 0 := by
    simp [Env.reports, List.range_succ_eq_map]
  refine ⟨cap', p', ?_, hbody.trans (copyAddresses_reports env n cap.body), hwp⟩
  rw [hsize, hhead, ← Nat.cast_mul, BitVec.ofInt_natCast, BitVec.toNat_ofNat]

/-- If what is advertised is as it should be, the loop has ended with the copy announced
    first. -/
theorem Advertises.agrees (h : Advertises env counts code p cap par)
    (hcode : code = .setup ∨ code = .connected) :
    Agrees counts p.interfaces.addressList.length p.txFactory.chunkSize := by
  set list := p.interfaces.addressList
  obtain ⟨k, hk, heq, hbelow, hlast⟩ := copied_eq counts (list.length + 1)
  have hmem (i : ℕ) (hi : i < k) : i ∈ copied counts (list.length + 1) :=
    heq ▸ List.mem_range.2 hi
  have hlist : k ≤ list.length := by
    by_contra hlt
    exact (h.reads _ _ (hmem list.length (not_le.1 hlt))).false
  have hlen : (copied counts (list.length + 1)).length = k := by rw [heq, List.length_range]
  -- The loop has ended, so the size has been set.
  have hended : Ended counts (list.length + 1) := by
    rw [Ended, hlen]
    exact Nat.lt_succ_of_le hlist
  have hsize := h.capsule _ hended
  obtain ⟨cap', p', -, -, hwp⟩ := exists_reported env hcode p cap par counts (list.length + 1)
  rw [hwp, hlen] at hsize
  obtain rfl : k = counts 0 := Nat.eq_of_mul_eq_mul_left (by decide) (hsize.2.1.symm.trans hsize.2.2)
  refine ⟨hbelow, hlast (Nat.lt_succ_of_le hlist), hlist, fun hpos => ?_, ?_⟩
  · have := h.writes _ _ (hmem (counts 0 - 1) (by omega))
    simp only [ADDR_LEN] at this ⊢
    omega
  · rw [← hsize.2.1]
    exact cap'.header.capSize.isLt

namespace Agrees

variable {addresses chunkSize : ℕ}

/-- No more is copied than was announced. -/
theorem copied_lt (h : Agrees counts addresses chunkSize) {n i : ℕ} (hi : i ∈ copied counts n) :
    i < counts 0 := by
  obtain ⟨k, hk, heq, hbelow, -⟩ := copied_eq counts n
  by_contra hle
  have hik : i < k := List.mem_range.1 (heq ▸ hi)
  have := hbelow (counts 0) (by omega)
  have := h.last
  omega

/-- At the end of the loop, as much has been copied as was announced. -/
theorem length_copied (h : Agrees counts addresses chunkSize) {n : ℕ} (hended : Ended counts n) :
    (copied counts n).length = counts 0 := by
  obtain ⟨k, hk, heq, hbelow, hlast⟩ := copied_eq counts n
  rw [Ended, heq, List.length_range] at hended
  rw [heq, List.length_range]
  have hfail := hlast hended
  refine le_antisymm ?_ ?_
  · by_contra hlt
    have := hbelow (counts 0) (not_le.1 hlt)
    have := h.last
    omega
  · by_contra hlt
    have := h.below k (not_le.1 hlt)
    omega

theorem advertises (h : Agrees counts p.interfaces.addressList.length p.txFactory.chunkSize)
    (hcode : code = .setup ∨ code = .connected) : Advertises env counts code p cap par where
  reads n i hi := (h.copied_lt hi).trans_le h.list
  writes n i hi := by
    have hlt := h.copied_lt hi
    have := h.body (by omega)
    simp only [ADDR_LEN] at this ⊢
    omega
  capsule n hended := by
    obtain ⟨cap', p', hsize, hbody, hwp⟩ := exists_reported env hcode p cap par counts n
    rw [hwp, hsize, Nat.mod_eq_of_lt h.capSize, h.length_copied hended]
    exact ⟨hbody, rfl, rfl⟩

/-- Interfaces that stay the same, and have their place. -/
theorem of_constant (hcounts : ∀ i, counts i = addresses)
    (hbody : HEADER_SPACE + ADDR_LEN * addresses ≤ chunkSize)
    (hcapSize : ADDR_LEN * addresses < 2 ^ 16) :
    Agrees counts addresses chunkSize where
  below i hi := by rwa [hcounts] at hi ⊢
  last := by rw [hcounts, hcounts]
  list := (hcounts 0).le
  body _ := by rwa [hcounts]
  capSize := by rwa [hcounts]

end Agrees

/-- What is advertised is as it should be exactly if the answers of the kernel agree with
    the first of them, and with the list, as far as the loop goes. -/
theorem advertises_iff (hcode : code = .setup ∨ code = .connected) :
    Advertises env counts code p cap par ↔
      Agrees counts p.interfaces.addressList.length p.txFactory.chunkSize :=
  ⟨fun h => h.agrees hcode, fun h => h.advertises hcode⟩

/-- One interface that stays. -/
theorem advertises_host :
    Advertises (.plain none []) (fun _ => 1) .setup (host [private10]) ⟨{}, fun _ => 0⟩ {} :=
  (advertises_iff (.inl rfl)).2 (.of_constant (fun _ => rfl) (by decide) (by decide))

/-- An interface that appears after the first answer makes the loop read past the list. -/
theorem not_advertises_host :
    ¬Advertises (.plain none []) (fun i => if i = 0 then 1 else 2) .setup (host [private10])
      ⟨{}, fun _ => 0⟩ {} := fun h =>
  absurd (h.reads 2 1 (by decide)) (by decide)

end Capsule

end SessionProcessor

end Udm
