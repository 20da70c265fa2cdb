import Mathlib

/-!
# Chunks

A list cut into chunks of `n` elements, the last one possibly shorter:
`chunk n l k` is the one after the first `k`. The first `k` chunks one after the
other are the first `k * n` elements (`flatMap_chunk`).

The chunk after the end is empty, so that there is no last chunk: where the list ends is seen by
the length of a chunk (`length_chunk_lt_iff`), as a reader that asks for `n` elements at a time
sees it.
-/

namespace Udm

variable {α : Type*} (n : ℕ) (l : List α)

/-- The chunk of `n` elements of `l` after the first `k` ones. -/
def chunk (k : ℕ) : List α := (l.drop (k * n)).take n

/-- What is left, but no more than `n`. -/
theorem length_chunk (k : ℕ) : (chunk n l k).length = min n (l.length - k * n) := by
  rw [chunk, List.length_take, List.length_drop]

/-- What was taken, with the next chunk. -/
theorem take_append_chunk (k : ℕ) : l.take (k * n) ++ chunk n l k = l.take ((k + 1) * n) := by
  rw [chunk, Nat.succ_mul, List.take_add]

/-- The first `k` chunks are the first `k * n` elements. -/
theorem flatMap_chunk (k : ℕ) : (List.range k).flatMap (chunk n l) = l.take (k * n) := by
  induction k with
  | zero => simp
  | succ k ih => rw [List.range_succ, List.flatMap_append, ih, List.flatMap_singleton,
      take_append_chunk]

variable {n l}

/-- A chunk that lies in the list is whole. -/
theorem length_chunk_of_le {k : ℕ} (h : (k + 1) * n ≤ l.length) : (chunk n l k).length = n := by
  rw [length_chunk, Nat.min_eq_left]
  rw [Nat.succ_mul] at h
  omega

/-- A chunk is short when the list ends in it, or before. -/
theorem length_chunk_lt_iff {k : ℕ} (hn : 0 < n) :
    (chunk n l k).length < n ↔ l.length < (k + 1) * n := by
  rw [length_chunk, Nat.succ_mul]
  omega

/-- Nothing can be left out of non-empty lists without shortening their concatenation. -/
theorem eq_of_length_flatMap_le {β : Type*} {f : β → List α} {ks ks' : List β}
    (h : ks.Sublist ks') (hne : ∀ k ∈ ks', f k ≠ [])
    (hlen : (ks'.flatMap f).length ≤ (ks.flatMap f).length) : ks = ks' := by
  induction h with
  | slnil => rfl
  | cons k h =>
    -- `k` is left out.
    have hle := (h.flatMap f).length_le
    have hpos := List.length_pos_of_ne_nil (hne k List.mem_cons_self)
    rw [List.flatMap_cons, List.length_append] at hlen
    omega
  | cons_cons k _ ih =>
    rw [List.flatMap_cons, List.flatMap_cons, List.length_append, List.length_append] at hlen
    rw [ih (fun k' hk' => hne k' (List.mem_cons_of_mem k hk')) (Nat.le_of_add_le_add_left hlen)]

end Udm
