import Mathlib

/-!
# Memory blocks

The memory a pointer gives access to, as the function from offsets to cells.
Nothing bounds the offsets: what was allocated, or initialised, is for the
user of a block to say. A copy (`memcpy`) is a `load` of a list of cells from
one block and a `store` of the list into another; advancing the pointer is a
`shift`.

* `load_store`: what is stored is loaded back;
* `load_store_of_disjoint`: a load away from a store does not see it;
* `load_add`: a load splits into two consecutive ones;
* `load_shift`: loading past an advanced pointer.

A block has no end, so what lies behind what a program allocated is there as well, and some value
is read from it. A statement that holds for every block thus holds whatever is there; that a
program does not look there is a statement about the offsets it loads.
-/

namespace Udm

/-- The memory seen through a pointer: the cells at every offset. -/
abbrev Block (β : Type*) := ℕ → β

namespace Block

variable {β : Type*} (m : Block β)

/-- The `n` cells from the offset `off` on. -/
def load (off n : ℕ) : List β := (List.range n).map fun i => m (off + i)

/-- Overwriting the cells from the offset `off` on with `bs`. -/
def store (off : ℕ) (bs : List β) : Block β := fun i =>
  if off ≤ i then bs.getD (i - off) (m i) else m i

/-- The memory seen through the pointer advanced by `k`. -/
def shift (k : ℕ) : Block β := fun i => m (k + i)

/-- As many cells as asked for. -/
@[simp] theorem length_load (off n : ℕ) : (m.load off n).length = n := by simp [load]

/-- No cells. -/
@[simp] theorem load_zero (off : ℕ) : m.load off 0 = [] := rfl

/-- The cells of a load, one by one. -/
theorem getElem_load {off n i : ℕ} (h : i < (m.load off n).length) :
    (m.load off n)[i] = m (off + i) := by simp [load]

/-- A load in two parts. -/
theorem load_add (off a b : ℕ) : m.load off (a + b) = m.load off a ++ m.load (off + a) b := by
  simp [load, List.range_add, Nat.add_assoc]

/-- A load through the advanced pointer. -/
@[simp] theorem load_shift (k off n : ℕ) : (m.shift k).load off n = m.load (k + off) n := by
  simp [load, shift, Nat.add_assoc]

/-- The first cells of a load. -/
theorem take_load (off n k : ℕ) : (m.load off n).take k = m.load off (min k n) := by
  simp [load, ← List.map_take, List.take_range]

/-- The last ones. -/
theorem drop_load (off n k : ℕ) : (m.load off n).drop k = m.load (off + k) (n - k) := by
  refine List.ext_getElem (by simp) fun i h₁ h₂ => ?_
  rw [List.getElem_drop, getElem_load, getElem_load, Nat.add_assoc]

/-- A load only depends on the cells it reads. -/
theorem load_congr {m m' : Block β} {off n : ℕ} (h : ∀ i < n, m (off + i) = m' (off + i)) :
    m.load off n = m'.load off n :=
  List.map_congr_left fun i hi => h i (List.mem_range.1 hi)

/-- What is stored is loaded back. -/
@[simp] theorem load_store (off : ℕ) (bs : List β) :
    (m.store off bs).load off bs.length = bs := by
  refine List.ext_getElem (by simp) fun i h₁ h₂ => ?_
  rw [getElem_load]
  simp [store, h₂]

/-- What is stored is loaded back, for a length equal to the stored one. -/
theorem load_store_of_length {off n : ℕ} {bs : List β} (h : bs.length = n) :
    (m.store off bs).load off n = bs := h ▸ m.load_store off bs

/-- A load away from a store does not see it. -/
theorem load_store_of_disjoint {off n off' : ℕ} {bs : List β}
    (h : off + n ≤ off' ∨ off' + bs.length ≤ off) :
    (m.store off' bs).load off n = m.load off n := by
  refine load_congr fun i hi => ?_
  rw [store]
  split
  · rw [List.getD_eq_default]
    omega
  · rfl

/-- A part of what is stored. -/
theorem load_store_of_le {off n : ℕ} {bs : List β} (h : n ≤ bs.length) :
    (m.store off bs).load off n = bs.take n := by
  conv_lhs => rw [← Nat.min_eq_left h, ← take_load, load_store]

/-- The part of a store past its first `k` cells. -/
theorem load_store_add {off k n : ℕ} {bs : List β} (h : k + n ≤ bs.length) :
    (m.store off bs).load (off + k) n = (bs.drop k).take n := by
  have := (m.store off bs).drop_load off (k + n) k
  rw [load_store_of_le _ h, Nat.add_sub_cancel_left, List.drop_take,
    Nat.add_sub_cancel_left] at this
  exact this.symm

/-! ## The same cells -/

section Same

variable {m} {m' : Block β} {off k n : ℕ}

/-- A part of what is the same. -/
theorem load_eq_of_load {j : ℕ} (h : m.load off n = m'.load off n) (hle : j + k ≤ n) :
    m.load (off + j) k = m'.load (off + j) k := by
  have hmin : min k (n - j) = k := Nat.min_eq_left (by omega)
  have hpart := congrArg (fun bs => (bs.drop j).take k) h
  simpa only [drop_load, take_load, hmin] using hpart

/-- A load of pieces of the same length, one after the other, is a load of each of them at its
    place. -/
theorem load_eq_flatMap_iff {α : Type*} {f : α → List β} (hf : ∀ a, (f a).length = k)
    {l : List α} :
    m.load off (l.length * k) = l.flatMap f ↔
      ∀ j (hj : j < l.length), m.load (off + j * k) k = f l[j] := by
  induction l generalizing off with
  | nil => simp
  | cons a l ih =>
    have hplace (j : ℕ) : off + (j + 1) * k = off + k + j * k := by ring
    have hlen : (a :: l).length * k = k + l.length * k := by
      rw [List.length_cons, Nat.succ_mul, Nat.add_comm]
    rw [hlen, load_add, List.flatMap_cons]
    constructor
    · intro h j hj
      obtain ⟨hfirst, hrest⟩ := List.append_inj h (by rw [length_load, hf])
      cases j with
      | zero => simpa using hfirst
      | succ j =>
        rw [hplace]
        exact ih.1 hrest j (Nat.lt_of_succ_lt_succ hj)
    · intro h
      have hfirst : m.load off k = f a := by simpa using h 0 (Nat.zero_lt_succ _)
      have hrest : m.load (off + k) (l.length * k) = l.flatMap f := by
        refine ih.2 fun j hj => ?_
        rw [← hplace]
        exact h (j + 1) (Nat.succ_lt_succ hj)
      rw [hfirst, hrest]

end Same

end Block

end Udm
