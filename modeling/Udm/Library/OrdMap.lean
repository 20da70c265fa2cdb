import Mathlib

/-!
# Ordered maps

A finite map with ordered keys, as the list of its entries by increasing key
(what iterating over a `std::map` visits). The order of the keys is a field, so
that a map has one representation: two maps with the same entries are equal
(`OrdMap.ext_mem`), whatever the order in which the entries were inserted.

* `insert`: insertion, overwriting the entry the key had;
* `get`: the value at a key;
* `last`: the entry with the largest key (`rbegin`).

Membership (`p ∈ m`) is that of entries, pairs of a key and a value, and every operation is
described by it (`mem_insert`, `get_eq_some`, `last_eq_some`), so that no proof about a map
looks at the list it is. Two maps with the same keys may be related value by value (`Rel`):
inserting at the same key keeps them so.
-/

namespace Udm

/-- Entries by increasing key. -/
abbrev KeyOrdered {κ ν : Type*} [LT κ] (l : List (κ × ν)) : Prop :=
  l.Pairwise fun p q => p.1 < q.1

/-- A finite map, as its entries by increasing key. -/
@[ext] structure OrdMap (κ ν : Type*) [LinearOrder κ] where
  /-- The entries, by increasing key. -/
  entries : List (κ × ν)
  /-- No two of them have the same key. -/
  ordered : KeyOrdered entries

namespace OrdMap

variable {κ ν : Type*} [LinearOrder κ]

instance [DecidableEq ν] : DecidableEq (OrdMap κ ν) := fun _ _ =>
  decidable_of_iff _ OrdMap.ext_iff.symm

instance : Membership (κ × ν) (OrdMap κ ν) := ⟨fun m p => p ∈ m.entries⟩

/-- Membership is that of the list. -/
theorem mem_def {m : OrdMap κ ν} {p : κ × ν} : p ∈ m ↔ p ∈ m.entries := Iff.rfl

/-- The map without entries. -/
def empty : OrdMap κ ν := ⟨[], .nil⟩

instance : EmptyCollection (OrdMap κ ν) := ⟨empty⟩

@[simp] theorem entries_empty : (∅ : OrdMap κ ν).entries = [] := rfl

/-- The empty map has no entries. -/
theorem not_mem_empty (p : κ × ν) : p ∉ (∅ : OrdMap κ ν) := List.not_mem_nil

/-- The number of entries. -/
def size (m : OrdMap κ ν) : ℕ := m.entries.length

/-- The keys, in order. -/
def keys (m : OrdMap κ ν) : List κ := m.entries.map Prod.fst

/-! ## Insertion -/

/-- Inserting an entry in its place, overwriting the one with the same key. -/
def insertEntry (k : κ) (v : ν) : List (κ × ν) → List (κ × ν)
  | [] => [(k, v)]
  | p :: l =>
    if k < p.1 then (k, v) :: p :: l
    else if k = p.1 then (k, v) :: l
    else p :: insertEntry k v l

/-- The entries after an insertion: the new one, and those at other keys. -/
theorem mem_insertEntry {k : κ} {v : ν} {q : κ × ν} {l : List (κ × ν)} (hl : KeyOrdered l) :
    q ∈ insertEntry k v l ↔ q = (k, v) ∨ (q ∈ l ∧ q.1 ≠ k) := by
  induction l with
  | nil => simp [insertEntry]
  | cons p l ih =>
    obtain ⟨hp, hl⟩ := List.pairwise_cons.1 hl
    rw [insertEntry]
    split_ifs with h₁ h₂
    · have : ∀ q ∈ p :: l, q.1 ≠ k := fun q hq =>
        (List.mem_cons.1 hq).elim (fun e => e ▸ h₁.ne') fun hq => (h₁.trans (hp q hq)).ne'
      grind
    · have : ∀ q ∈ l, q.1 ≠ k := fun q hq => h₂ ▸ (hp q hq).ne'
      grind
    · grind

/-- The place of the new entry keeps the order. -/
theorem keyOrdered_insertEntry (k : κ) (v : ν) {l : List (κ × ν)} (hl : KeyOrdered l) :
    KeyOrdered (insertEntry k v l) := by
  induction l with
  | nil => exact List.pairwise_singleton _ _
  | cons p l ih =>
    obtain ⟨hp, hl'⟩ := List.pairwise_cons.1 hl
    rw [insertEntry]
    split_ifs with h₁ h₂
    · refine List.pairwise_cons.2 ⟨fun q hq => ?_, hl⟩
      rcases List.mem_cons.1 hq with rfl | hq
      exacts [h₁, h₁.trans (hp q hq)]
    · exact List.pairwise_cons.2 ⟨fun q hq => h₂ ▸ hp q hq, hl'⟩
    · refine List.pairwise_cons.2 ⟨fun q hq => ?_, ih hl'⟩
      rcases (mem_insertEntry hl').1 hq with rfl | ⟨hq, _⟩
      exacts [lt_of_le_of_ne (not_lt.1 h₁) (Ne.symm h₂), hp q hq]

/-- `m[k] = v`. -/
def insert (m : OrdMap κ ν) (k : κ) (v : ν) : OrdMap κ ν :=
  ⟨insertEntry k v m.entries, keyOrdered_insertEntry k v m.ordered⟩

/-- The entries after an insertion. -/
theorem mem_insert {m : OrdMap κ ν} {k : κ} {v : ν} {q : κ × ν} :
    q ∈ m.insert k v ↔ q = (k, v) ∨ (q ∈ m ∧ q.1 ≠ k) := mem_insertEntry m.ordered

/-- Two maps with the same entries are equal. -/
theorem ext_mem {m m' : OrdMap κ ν} (h : ∀ p, p ∈ m ↔ p ∈ m') : m = m' := by
  have hnd : ∀ m : OrdMap κ ν, m.entries.Nodup := fun m =>
    m.ordered.imp fun h e => (e ▸ h).false
  refine OrdMap.ext (List.Perm.eq_of_pairwise
    (fun p q _ _ (hpq : p.1 < q.1) hqp => absurd hqp hpq.asymm) m.ordered m'.ordered ?_)
  exact (List.perm_ext_iff_of_nodup (hnd m) (hnd m')).2 h

/-- A key has at most one entry. -/
theorem eq_of_mem {m : OrdMap κ ν} {p q : κ × ν} (hp : p ∈ m) (hq : q ∈ m) (h : p.1 = q.1) :
    p = q := by
  have hnd : (m.entries.map Prod.fst).Nodup := List.pairwise_map.2 (m.ordered.imp ne_of_lt)
  exact List.inj_on_of_nodup_map hnd hp hq h

/-- Overwriting an entry by itself changes nothing. -/
theorem insert_of_mem {m : OrdMap κ ν} {k : κ} {v : ν} (h : (k, v) ∈ m) : m.insert k v = m := by
  refine ext_mem fun q => ?_
  rw [mem_insert]
  constructor
  · rintro (rfl | ⟨hq, _⟩)
    exacts [h, hq]
  · intro hq
    by_cases hk : q.1 = k
    · exact .inl (eq_of_mem hq h hk)
    · exact .inr ⟨hq, hk⟩

/-- Only the last of two insertions at a key counts. -/
theorem insert_insert (m : OrdMap κ ν) (k : κ) (v w : ν) :
    (m.insert k v).insert k w = m.insert k w := by
  refine ext_mem fun q => ?_
  simp only [mem_insert]
  grind

/-- A key is one of an entry. -/
theorem mem_keys {m : OrdMap κ ν} {k : κ} : k ∈ m.keys ↔ ∃ v, (k, v) ∈ m := by
  simp [keys, mem_def]

/-- An insertion adds its key. -/
theorem mem_keys_insert {m : OrdMap κ ν} {k l : κ} {v : ν} :
    l ∈ (m.insert k v).keys ↔ l = k ∨ l ∈ m.keys := by
  simp only [mem_keys, mem_insert, Prod.mk.injEq]
  grind

/-! ## Access -/

/-- The value at the key `k`. -/
def get (m : OrdMap κ ν) (k : κ) : Option ν := m.entries.lookup k

/-- The value at a key is that of its entry. -/
theorem get_eq_some {m : OrdMap κ ν} {k : κ} {v : ν} : m.get k = some v ↔ (k, v) ∈ m := by
  have key : ∀ l : List (κ × ν), KeyOrdered l → (l.lookup k = some v ↔ (k, v) ∈ l) := by
    intro l hl
    induction l with
    | nil => simp
    | cons p l ih =>
      obtain ⟨hp, hl⟩ := List.pairwise_cons.1 hl
      rw [List.lookup_cons, List.mem_cons]
      by_cases hk : k = p.1
      · subst hk
        have : (p.1, v) ∉ l := fun h => (hp _ h).false
        simp only [beq_self_eq_true, Option.some.injEq, this, or_false]
        exact ⟨fun e => Prod.ext rfl e.symm, fun e => (Prod.ext_iff.1 e).2.symm⟩
      · have hne : (k, v) ≠ p := fun e => hk (e ▸ rfl)
        have hbeq : (k == p.1) = false := beq_eq_false_iff_ne.2 hk
        simp only [hbeq, ih hl, hne, false_or]
  exact key m.entries m.ordered

@[simp] theorem get_insert_self (m : OrdMap κ ν) (k : κ) (v : ν) : (m.insert k v).get k = some v :=
  get_eq_some.2 (mem_insert.2 (.inl rfl))

/-- An insertion leaves the other keys. -/
theorem get_insert_of_ne {m : OrdMap κ ν} {k l : κ} (v : ν) (h : l ≠ k) :
    (m.insert k v).get l = m.get l := by
  refine Option.ext fun w => ?_
  rw [get_eq_some, get_eq_some, mem_insert]
  exact ⟨fun h' => h'.elim (fun e => absurd (Prod.ext_iff.1 e).1 h) (·.1), fun h' => .inr ⟨h', h⟩⟩

/-- The entry with the largest key. -/
def last (m : OrdMap κ ν) : Option (κ × ν) := m.entries.getLast?

/-- The last entry has the largest key of all. -/
theorem last_eq_some {m : OrdMap κ ν} {p : κ × ν} :
    m.last = some p ↔ p ∈ m ∧ ∀ q ∈ m, q.1 ≤ p.1 := by
  have max_of : ∀ {p}, m.last = some p → p ∈ m ∧ ∀ q ∈ m, q.1 ≤ p.1 := by
    intro p h
    obtain ⟨l, hl⟩ := List.getLast?_eq_some_iff.1 h
    have hord := m.ordered
    rw [hl, KeyOrdered, List.pairwise_append] at hord
    simp only [mem_def, hl, List.mem_append, List.mem_singleton, or_true, true_and]
    rintro q (hq | rfl)
    exacts [(hord.2.2 q hq p (List.mem_singleton_self p)).le, le_rfl]
  refine ⟨max_of, fun ⟨hp, hmax⟩ => ?_⟩
  obtain ⟨q, hq⟩ : ∃ q, m.last = some q := by
    rw [← Option.isSome_iff_exists, last, List.getLast?_isSome]
    exact List.ne_nil_of_mem hp
  obtain ⟨hqm, hqmax⟩ := max_of hq
  rw [hq, eq_of_mem hp hqm (le_antisymm (hqmax p hp) (hmax q hqm))]

/-- Only the empty map has no last entry. -/
theorem last_eq_none {m : OrdMap κ ν} : m.last = none ↔ m = ∅ := by
  rw [last, List.getLast?_eq_none_iff, OrdMap.ext_iff]
  rfl

/-! ## Related maps -/

section Rel

variable {ν' : Type*} {R : ν → ν' → Prop}

/-- The maps have the same keys, and related values at them. -/
def Rel (R : ν → ν' → Prop) (m : OrdMap κ ν) (m' : OrdMap κ ν') : Prop :=
  List.Forall₂ (fun p p' => p.1 = p'.1 ∧ R p.2 p'.2) m.entries m'.entries

/-- Empty maps are related. -/
theorem rel_empty : Rel R (∅ : OrdMap κ ν) (∅ : OrdMap κ ν') := .nil

/-- The new entries are put in the same place. -/
theorem forall₂_insertEntry {k : κ} {v : ν} {v' : ν'} (hv : R v v') {l : List (κ × ν)}
    {l' : List (κ × ν')} (h : List.Forall₂ (fun p p' => p.1 = p'.1 ∧ R p.2 p'.2) l l') :
    List.Forall₂ (fun p p' => p.1 = p'.1 ∧ R p.2 p'.2) (insertEntry k v l)
      (insertEntry k v' l') := by
  induction h with
  | nil => exact .cons ⟨rfl, hv⟩ .nil
  | cons hp hl ih =>
    rw [insertEntry, insertEntry, hp.1]
    split_ifs
    · exact .cons ⟨rfl, hv⟩ (.cons hp hl)
    · exact .cons ⟨rfl, hv⟩ hl
    · exact .cons hp ih

/-- Insertions at the same key, of related values. -/
theorem Rel.insert {m : OrdMap κ ν} {m' : OrdMap κ ν'} (h : Rel R m m') (k : κ) {v : ν} {v' : ν'}
    (hv : R v v') : Rel R (m.insert k v) (m'.insert k v') := forall₂_insertEntry hv h

/-- The last entries are related. -/
theorem Rel.last {m : OrdMap κ ν} {m' : OrdMap κ ν'} (h : Rel R m m') :
    Option.Rel (fun p p' => p.1 = p'.1 ∧ R p.2 p'.2) m.last m'.last := by
  have hrev := List.rel_reverse h
  rw [OrdMap.last, OrdMap.last, List.getLast?_eq_head?_reverse, List.getLast?_eq_head?_reverse]
  generalize m.entries.reverse = l at hrev
  generalize m'.entries.reverse = l' at hrev
  cases hrev with
  | nil => exact .none
  | cons hp => exact .some hp

end Rel

end OrdMap

end Udm
