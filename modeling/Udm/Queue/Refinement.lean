import Udm.Queue

/-!
# The queue is a list

Every operation of `threadsafe_queue` does what it does to a list (`wp_exec`), so a new
queue returns, over any sequence of operations, what an empty list returns, and
represents it afterwards (`refines`): with its length counted in an `int`, which wraps
after `2 ^ 31 - 1` (`not_refines_length`).

The relation is `Represents`: from `head`, the nodes are chained up to the sentinel at
`tail`, and their elements are those of the list, in its order. Each operation has one
rule over it, stated with `wp` and a postcondition for its result, under the name of
the operation. The rules of `popHead`, `tryPopInto` and `peek` come in pairs, one for the
empty queue, where nothing changes, and one for a queue with a first element.

That no operation ends in a fault is part of each rule: its second postcondition, for
a load through a null or a dangling pointer, is `False`.
-/

namespace Udm

namespace ThreadsafeQueue

variable {α β : Type} {alloc : Allocator} {q : ThreadsafeQueue α} {l : List (ℕ × α)}
  {E : Halt → ThreadsafeQueue α → Prop}

/-! ## Memory -/

/-- A pointer to a node is read. -/
theorem wp_load {Q : ℕ × Node → ThreadsafeQueue α → Prop} {a : ℕ} {n : Node}
    (h : q.nodes.lookup a = some n) : wp (load (some a)) Q E q ↔ Q (a, n) q := by
  simp [load, h]

/-- A shared pointer to an element is read. -/
theorem wp_element {Q : ℕ × α → ThreadsafeQueue α → Prop} {r : ℕ} {v : α}
    (h : q.elements.lookup r = some v) : wp (element (some r)) Q E q ↔ Q (r, v) q := by
  simp [element, h]

/-- A cell of a chain is a node with an element and a next node. -/
theorem cell_eq_some {a r next : ℕ} :
    q.cell a = some (r, next) ↔ q.nodes.lookup a = some { data := some r, next := some next } := by
  rw [cell, Option.bind_eq_some_iff]
  constructor
  · rintro ⟨⟨data, next'⟩, hn, h⟩
    rw [hn]
    rcases data with - | r' <;> rcases next' with - | b <;> simp at h
    rw [h.1, h.2]
  · intro h
    exact ⟨_, h, rfl⟩

/-- The sentinel is not a cell. -/
theorem cell_sentinel {a : ℕ} (h : q.nodes.lookup a = some {}) : q.cell a = none := by
  rw [cell, h]
  rfl

namespace Represents

/-- The chain ends at `tail`, since the sentinel has no element. -/
theorem cell_tail (h : q.Represents l) : q.cell q.tail = none := cell_sentinel h.sentinel

/-- `head` is at the sentinel exactly if the queue is empty. -/
theorem head_eq_tail_iff (h : q.Represents l) : q.head = some q.tail ↔ l = [] := by
  obtain ⟨a, cells, hhead, hchain, hmap⟩ := h.chain
  rw [hhead, Option.some_inj, hchain.eq_iff h.cell_tail, ← List.map_eq_nil_iff (f := Prod.snd), hmap,
    List.map_eq_nil_iff]

/-- A new queue represents the empty list. -/
theorem new (alloc : Allocator) : (new alloc : ThreadsafeQueue α).Represents [] where
  chain := ⟨_, [], rfl, rfl, rfl⟩
  sentinel := Finmap.lookup_singleton_eq
  nodup := List.nodup_nil
  elements := by simp
  count := (int32_of_mem (x := 0) (by norm_num) (by norm_num)).symm

/-- The nodes of a queue that is not empty. -/
theorem head_cons {e : ℕ × α} (h : q.Represents (e :: l)) :
    ∃ a next cells, q.head = some a ∧
      q.nodes.lookup a = some { data := some e.1, next := some next } ∧
      Chain q.cell next cells q.tail ∧ cells.map Prod.snd = l.map Prod.fst ∧
      a ∉ cells.map Prod.fst ∧ a ≠ q.tail := by
  obtain ⟨a, cells, hhead, hchain, hmap⟩ := h.chain
  have hnodup := hchain.nodup h.cell_tail
  rcases cells with - | ⟨⟨b, r⟩, cells⟩
  · simp at hmap
  · obtain ⟨rfl, next, hcell, hrest⟩ := hchain
    rw [List.map_cons, List.map_cons, List.cons.injEq] at hmap
    obtain ⟨rfl, hmap⟩ := hmap
    rw [List.map_cons, List.nodup_cons] at hnodup
    refine ⟨_, next, cells, hhead, cell_eq_some.1 hcell, hrest, hmap, hnodup.1, ?_⟩
    rintro rfl
    simp [h.cell_tail] at hcell

end Represents

/-! ## Operations -/

/-- Reading `tail` changes nothing. -/
theorem wp_getTail {Q : ℕ → ThreadsafeQueue α → Prop} : wp getTail Q E q ↔ Q q.tail q := Iff.rfl

/-- Moving the head takes the first element out of the queue. -/
theorem wp_moveHead {e : ℕ × α} (h : q.Represents (e :: l)) :
    wp moveHead (fun old_head q' => old_head.data = some e.1 ∧ q'.Represents l ∧
      q'.elements = q.elements) (fun _ _ => False) q := by
  obtain ⟨a, next, cells, hhead, hnode, hchain, hmap, hnotMem, hne⟩ := h.head_cons
  simp only [moveHead, wp_bind, wp_get, hhead]
  rw [wp_load hnode]
  refine ⟨rfl, ?_, rfl⟩
  constructor
  · -- The chain from the second node on does not go through the first one, which is deleted.
    refine ⟨next, cells, rfl, hchain.congr fun p hp => ?_, hmap⟩
    have hpa : p.1 ≠ a := fun heq => hnotMem (heq ▸ List.mem_map_of_mem hp)
    simp only [cell, Finmap.lookup_erase_ne hpa]
  · rw [← h.sentinel]
    exact Finmap.lookup_erase_ne hne.symm
  · exact (List.nodup_cons.1 h.nodup).2
  · exact fun e' he' => h.elements e' (List.mem_cons_of_mem _ he')
  · show int32 (q.count - 1) = _
    rw [h.count, sub_eq_add_neg, int32_add]
    congr 1
    push_cast [List.length_cons]
    ring

/-- The head of an empty queue is not moved. -/
theorem wp_popHead_nil {Q : Option Node → ThreadsafeQueue α → Prop} (h : q.Represents []) :
    wp popHead Q E q ↔ Q none q := by
  simp only [popHead, wp_bind, wp_get, wp_getTail, h.head_eq_tail_iff.2 rfl, if_true, wp_pure]

/-- The head of a queue that is not empty is the node of its first element. -/
theorem wp_popHead_cons {e : ℕ × α} (h : q.Represents (e :: l)) :
    wp popHead (fun old_head q' => (∃ n, old_head = some n ∧ n.data = some e.1) ∧ q'.Represents l ∧
      q'.elements = q.elements) (fun _ _ => False) q := by
  have hne : q.head ≠ some q.tail := fun heq => by simpa using h.head_eq_tail_iff.1 heq
  simp only [popHead, wp_bind, wp_get, wp_getTail, if_neg hne]
  exact wp_mono (wp_moveHead h) (fun n _ hn => ⟨⟨n, rfl, hn.1⟩, hn.2⟩) fun _ _ => id

/-- A new element is written in the sentinel, and a new sentinel linked behind it. -/
theorem wp_pushWithRef (h : q.Represents l) (v : α) :
    wp (pushWithRef alloc v) (fun r q' => r ∉ l.map Prod.fst ∧ q'.Represents (l ++ [(r, v)]) ∧
      q'.head = q.head) (fun _ _ => False) q := by
  -- The element and the node get addresses that none of the others has.
  set r := alloc.fresh q.elements.keys with hr
  set new_tail := alloc.fresh q.nodes.keys with hnew
  obtain ⟨a, cells, hhead, hchain, hmap⟩ := h.chain
  have hrefs : r ∉ l.map Prod.fst := by
    intro hmem
    obtain ⟨e, he, heq⟩ := List.mem_map.1 hmem
    have := Finmap.mem_of_lookup_eq_some (h.elements e he)
    exact alloc.fresh_notMem _ (Finmap.mem_keys.2 (heq ▸ this))
  -- The new sentinel is none of the nodes.
  have hnodes {b : ℕ} (hb : q.nodes.lookup b ≠ none) : b ≠ new_tail := by
    rintro rfl
    refine hb (Finmap.lookup_eq_none.2 fun hmem => ?_)
    exact alloc.fresh_notMem _ (Finmap.mem_keys.2 hmem)
  have htail : q.tail ≠ new_tail := hnodes (by rw [h.sentinel]; simp)
  have hload : (q.nodes.insert new_tail ({} : Node)).lookup q.tail = some {} := by
    rw [Finmap.lookup_insert_of_ne _ htail, h.sentinel]
  simp only [pushWithRef, wp_bind, wp_get, wp_modify, ← hr, ← hnew]
  rw [wp_load hload]
  refine ⟨hrefs, ?_, rfl⟩
  constructor
  · refine ⟨a, cells ++ [(q.tail, r)], hhead, Chain.snoc (hchain.congr fun p hp => ?_) ?_, ?_⟩
    · have hcell := hchain.cell_ne_none hp
      have hp₁ : p.1 ≠ q.tail := fun heq => hcell (heq ▸ h.cell_tail)
      have hp₂ : p.1 ≠ new_tail := hnodes fun hnone => hcell (by rw [cell, hnone]; rfl)
      simp only [cell, Finmap.lookup_insert_of_ne _ hp₁, Finmap.lookup_insert_of_ne _ hp₂]
    · exact cell_eq_some.2 (Finmap.lookup_insert _)
    · simp [hmap]
  · show Finmap.lookup new_tail _ = _
    rw [Finmap.lookup_insert_of_ne _ htail.symm, Finmap.lookup_insert]
  · rw [List.map_append, List.nodup_append]
    refine ⟨h.nodup, List.nodup_singleton _, ?_⟩
    rintro x hx y hy rfl
    obtain rfl : x = r := List.mem_singleton.1 hy
    exact hrefs hx
  · intro e he
    rcases List.mem_append.1 he with he | he
    · have hne : e.1 ≠ r := fun heq => hrefs (heq ▸ List.mem_map_of_mem he)
      exact (Finmap.lookup_insert_of_ne _ hne).trans (h.elements e he)
    · rw [List.mem_singleton.1 he]
      exact Finmap.lookup_insert _
  · show int32 (q.count + 1) = _
    rw [h.count, int32_add]
    push_cast [List.length_append, List.length_singleton]
    rfl

/-- The first element is moved out of the queue. -/
theorem wp_tryPopInto {e : ℕ × α} (h : q.Represents (e :: l)) :
    wp tryPopInto (fun value q' => value = some e.2 ∧ q'.Represents l) (fun _ _ => False) q := by
  simp only [tryPopInto, wp_bind]
  refine wp_mono (wp_popHead_cons h) ?_ fun _ _ => id
  rintro _ q' ⟨⟨n, rfl, hdata⟩, hq, helements⟩
  have he : q'.elements.lookup e.1 = some e.2 := by
    rw [helements]
    exact h.elements e List.mem_cons_self
  simp only [hdata, wp_bind]
  rw [wp_element he]
  refine ⟨rfl, hq.chain, hq.sentinel, hq.nodup, fun e' he' => ?_, hq.count⟩
  have hne : e'.1 ≠ e.1 := fun heq =>
    (List.nodup_cons.1 h.nodup).1 (heq ▸ List.mem_map_of_mem he')
  exact (Finmap.lookup_erase_ne hne).trans (hq.elements e' he')

/-- From an empty queue no element is moved. -/
theorem wp_tryPopInto_nil {Q : Option α → ThreadsafeQueue α → Prop} (h : q.Represents []) :
    wp tryPopInto Q E q ↔ Q none q := by
  simp only [tryPopInto, wp_bind, wp_popHead_nil h, wp_pure]

/-- Looking for an element takes the first one out of the queue. -/
theorem wp_peek {e : ℕ × α} (h : q.Represents (e :: l)) :
    wp peek (fun found q' => found = true ∧ q'.Represents l) (fun _ _ => False) q := by
  simp only [peek, wp_bind]
  refine wp_mono (wp_popHead_cons h) ?_ fun _ _ => id
  rintro _ q' ⟨⟨n, rfl, -⟩, hq, -⟩
  exact ⟨rfl, hq⟩

/-- In an empty queue no element is found. -/
theorem wp_peek_nil {Q : Bool → ThreadsafeQueue α → Prop} (h : q.Represents []) :
    wp peek Q E q ↔ Q false q := by
  simp only [peek, wp_bind, wp_popHead_nil h, wp_pure, Option.isSome_none]

/-- What every operation does is what it does to a list. -/
theorem wp_exec (h : q.Represents l) (op : Op α) :
    wp (exec alloc op) (fun res q' => ∃ l', Fifo.Step (fun n => int32 n) l op res l' ∧
      q'.Represents l') (fun _ _ => False) q := by
  cases op with
  | push v =>
    simp only [exec, push, wp_bind]
    exact wp_mono (wp_pushWithRef h v) (fun r q' hq => ⟨_, .push hq.1 v, hq.2.1⟩) fun _ _ => id
  | pushWithRef v =>
    simp only [exec, wp_bind]
    exact wp_mono (wp_pushWithRef h v) (fun r q' hq => ⟨_, .pushWithRef hq.1 v, hq.2.1⟩) fun _ _ => id
  | tryPop =>
    simp only [exec, tryPop, wp_bind]
    cases l with
    | nil => exact (wp_popHead_nil h).2 ⟨[], .tryPopEmpty, h⟩
    | cons e l =>
      refine wp_mono (wp_popHead_cons h) ?_ fun _ _ => id
      rintro _ q' ⟨⟨n, rfl, hdata⟩, hq, helements⟩
      -- The element stays where it is.
      have he : q'.elements.lookup e.1 = some e.2 := by
        rw [helements]
        exact h.elements e List.mem_cons_self
      simp only [wp_pure, hdata, wp_bind]
      exact (wp_element he).2 ⟨l, .tryPop e l, hq⟩
  | tryPopInto =>
    simp only [exec, wp_bind]
    cases l with
    | nil => exact (wp_tryPopInto_nil h).2 ⟨[], .tryPopIntoEmpty, h⟩
    | cons e l =>
      refine wp_mono (wp_tryPopInto h) ?_ fun _ _ => id
      rintro _ q' ⟨rfl, hq⟩
      exact ⟨l, .tryPopInto e l, hq⟩
  | isEmpty =>
    have hempty : decide (q.head = some q.tail) = l.isEmpty := by
      rw [Bool.eq_iff_iff, decide_eq_true_iff, h.head_eq_tail_iff, List.isEmpty_iff]
    simp only [exec, isEmpty, wp_bind, wp_get, wp_getTail, wp_pure, hempty]
    exact ⟨l, .isEmpty l, h⟩
  | getCount =>
    simp only [exec, getCount, wp_bind, wp_get, wp_pure, h.count]
    exact ⟨l, .getCount l, h⟩

/-- What a sequence of operations does is what it does to a list, one operation after the other. -/
theorem wp_execAll (h : q.Represents l) (ops : List (Op α)) :
    wp (execAll alloc ops) (fun ress q' => ∃ l', Fifo.Run (fun n => int32 n) l ops ress l' ∧
      q'.Represents l') (fun _ _ => False) q := by
  induction ops generalizing q l with
  | nil => exact ⟨l, .nil l, h⟩
  | cons op ops ih =>
    simp only [execAll, wp_bind]
    refine wp_mono (wp_exec h op) ?_ fun _ _ => id
    rintro res q' ⟨l', hstep, hq'⟩
    rw [wp_bind]
    refine wp_mono (ih hq') ?_ fun _ _ => id
    rintro ress q'' ⟨l'', hrun, hq''⟩
    exact ⟨l'', .cons hstep hrun, hq''⟩

/-- Over any sequence of operations, the queue is a list, whose length is counted in an
    `int`. -/
theorem refines (alloc : Allocator) (ops : List (Op α)) : Refines alloc (fun n => int32 n) ops :=
  wp_execAll (.new alloc) ops

/-! ## The count -/

/-- After `n` pushes, the count of the length is returned. -/
theorem count_of_run {counts : ℕ → ℤ} {v : α} {n : ℕ} {ress : List (Result α)}
    {l l' : List (ℕ × α)}
    (h : Fifo.Run counts l (List.replicate n (.push v) ++ [.getCount]) ress l') :
    ress.getLast? = some (.count (counts (l.length + n))) := by
  induction n generalizing l ress with
  | zero =>
    rcases h with - | ⟨hstep, hrun⟩
    cases hstep
    cases hrun
    rfl
  | succ n ih =>
    rw [List.replicate_succ, List.cons_append] at h
    rcases h with - | ⟨hstep, hrun⟩
    cases hstep
    have hne : ∀ {ress : List (Result α)}, ress.getLast? = some (.count (counts (l.length + 1 + n))) →
        (Result.done :: ress).getLast? = some (.count (counts (l.length + 1 + n))) := by
      intro ress hress
      cases ress with
      | nil => simp at hress
      | cons => simpa using hress
    have := hne (by simpa using ih hrun)
    rwa [Nat.add_right_comm, Nat.add_assoc] at this

/-- After pushes whose number is no `int`, `getCount` does not return the length. -/
theorem not_refines_of_wrap {v : α} {n : ℕ} (hn : int32 n ≠ n) :
    ¬Refines alloc (fun n => n) (List.replicate n (.push v) ++ [.getCount]) := by
  intro hnat
  -- What is returned is what the list with a wrapping count returns.
  have hint := @wp_execAll α alloc _ [] (.new alloc) (List.replicate n (.push v) ++ [.getCount])
  rw [Refines, wp] at hnat
  rw [wp] at hint
  split at hint
  · rename_i heq
    rw [heq] at hnat
    obtain ⟨l, hrun, -⟩ := hint
    obtain ⟨l', hrun', -⟩ := hnat
    have hcount := (count_of_run hrun).symm.trans (count_of_run hrun')
    simp only [List.length_nil, Nat.zero_add, Option.some.injEq, Result.count.injEq] at hcount
    exact hn hcount
  · exact hint.elim

/-- After `2 ^ 31` pushes, the count is negative. -/
theorem not_refines_length : ¬∀ ops : List (Op Unit), Refines .bump (fun n => n) ops := fun h =>
  not_refines_of_wrap (n := 2 ^ 31) (v := ()) (by norm_num [int32]) (h _)

end ThreadsafeQueue

end Udm
