import Mathlib

/-!
# Linked lists in memory

Cells at addresses, and the chains they form. A cell has a content and the address of
the next cell; where there is no cell, a chain ends. `Chain cell a l b` says that
following the links from the address `a` visits the cells `l`, each an address with its
content, and ends at `b`.

* `Chain.congr`: a chain only depends on its cells;
* `Chain.append`, `Chain.snoc`: chains one after the other, a cell at the end;
* `Chain.nodup`: a chain that ends visits no address twice.

The addresses of new cells come from an `Allocator`, of which only one thing is known:
they are not in use.

A chain is described by the cells it visits, and so is a structure made of chains: to change a cell
that it does not visit leaves it (`Chain.congr`), and to write the cell at its end makes it longer
(`Chain.snoc`). Since a chain that ends visits no address twice, a cell can be told by its address.
-/

namespace Udm

/-- Memory cells at addresses. -/
abbrev Heap (β : Type) := Finmap fun _ : ℕ => β

/-- Where new cells are put: at an address that is not in use. -/
structure Allocator where
  /-- The address of the next cell, by those in use. -/
  fresh : Finset ℕ → ℕ
  /-- It is none of them. -/
  fresh_notMem : ∀ s, fresh s ∉ s

/-- The allocator that never goes back. -/
def Allocator.bump : Allocator where
  fresh s := s.sup id + 1
  fresh_notMem _ h := absurd (Finset.le_sup (f := id) h) (Nat.not_succ_le_self _)

variable {δ : Type} {cell cell' : ℕ → Option (δ × ℕ)} {a b c : ℕ} {l m : List (ℕ × δ)}

/-- Following the links from `a` visits the cells `l` and ends at `b`. -/
def Chain (cell : ℕ → Option (δ × ℕ)) : ℕ → List (ℕ × δ) → ℕ → Prop
  | a, [], b => a = b
  | a, p :: l, b => p.1 = a ∧ ∃ next, cell a = some (p.2, next) ∧ Chain cell next l b

namespace Chain

/-- A chain visits cells that are there. -/
theorem cell_ne_none (h : Chain cell a l b) {p : ℕ × δ} (hp : p ∈ l) : cell p.1 ≠ none := by
  induction l generalizing a with
  | nil => simp at hp
  | cons q l ih =>
    obtain ⟨rfl, next, hcell, hl⟩ := h
    rcases List.mem_cons.1 hp with rfl | hp
    · simp [hcell]
    · exact ih hl hp

/-- A chain only depends on the cells it visits. -/
theorem congr (h : Chain cell a l b) (heq : ∀ p ∈ l, cell' p.1 = cell p.1) :
    Chain cell' a l b := by
  induction l generalizing a with
  | nil => exact h
  | cons p l ih =>
    obtain ⟨rfl, next, hcell, hl⟩ := h
    refine ⟨rfl, next, ?_, ih hl fun q hq => heq q (List.mem_cons_of_mem _ hq)⟩
    rw [heq p List.mem_cons_self, hcell]

/-- One chain after the other. -/
theorem append (h : Chain cell a l b) (h' : Chain cell b m c) : Chain cell a (l ++ m) c := by
  induction l generalizing a with
  | nil =>
    obtain rfl : a = b := h
    exact h'
  | cons p l ih =>
    obtain ⟨hp, next, hcell, hl⟩ := h
    exact ⟨hp, next, hcell, ih hl⟩

/-- One more cell at the end. -/
theorem snoc (h : Chain cell a l b) {d : δ} (hcell : cell b = some (d, c)) :
    Chain cell a (l ++ [(b, d)]) c := h.append ⟨rfl, c, hcell, rfl⟩

/-- A chain that ends where there is no cell is determined by its start. -/
theorem unique (h : Chain cell a l b) (h' : Chain cell a m b) (hb : cell b = none) : l = m := by
  induction l generalizing a m with
  | nil =>
    obtain rfl : a = b := h
    cases m with
    | nil => rfl
    | cons p m =>
      obtain ⟨-, next, hcell, -⟩ := h'
      simp [hb] at hcell
  | cons p l ih =>
    obtain ⟨rfl, next, hcell, hl⟩ := h
    cases m with
    | nil =>
      obtain rfl : p.1 = b := h'
      simp [hb] at hcell
    | cons q m =>
      obtain ⟨hq, next', hcell', hm⟩ := h'
      obtain ⟨hd, rfl⟩ := Prod.mk.inj (Option.some.inj (hcell.symm.trans hcell'))
      rw [ih hl hm, Prod.ext hq.symm hd]

/-- From each of its cells, the rest of the chain goes on. -/
theorem exists_suffix (h : Chain cell a l b) {p : ℕ × δ} (hp : p ∈ l) :
    ∃ k < l.length, Chain cell p.1 (l.drop k) b := by
  induction l generalizing a with
  | nil => simp at hp
  | cons q l ih =>
    rcases List.mem_cons.1 hp with rfl | hp
    · obtain rfl : p.1 = a := h.1
      exact ⟨0, by simp, h⟩
    · obtain ⟨-, next, -, hl⟩ := h
      obtain ⟨k, hk, hchain⟩ := ih hl hp
      exact ⟨k + 1, by simpa using hk, by simpa using hchain⟩

/-- A chain that ends where there is no cell visits no address twice. -/
theorem nodup (h : Chain cell a l b) (hb : cell b = none) : (l.map Prod.fst).Nodup := by
  induction l generalizing a with
  | nil => exact List.nodup_nil
  | cons p l ih =>
    obtain ⟨-, next, -, hl⟩ := id h
    refine List.nodup_cons.2 ⟨fun hp => ?_, ih hl⟩
    obtain ⟨q, hq, heq⟩ := List.mem_map.1 hp
    -- From the address that comes twice, the chain would have two lengths.
    obtain ⟨k, -, hchain⟩ := hl.exists_suffix hq
    obtain rfl : p.1 = a := h.1
    have hlen := congrArg List.length (h.unique (heq ▸ hchain) hb)
    rw [List.length_cons, List.length_drop] at hlen
    omega

/-- A chain visits no cell exactly if it ends where it starts. -/
theorem eq_iff (h : Chain cell a l b) (hb : cell b = none) : a = b ↔ l = [] := by
  constructor
  · rintro rfl
    exact h.unique (m := []) rfl hb
  · rintro rfl
    exact h

end Chain

end Udm
