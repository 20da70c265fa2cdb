import Udm.Library.Linked
import Udm.Library.Word
import Udm.Library.Wp
import Udm.Process

/-!
# The queue

`threadsafe_queue` (`circular_pipeline.hpp`): a singly linked list of nodes from `head`
to `tail`, of which the last one is an empty sentinel. An element is written in the
sentinel, and a new sentinel is linked behind it; elements are taken from the head.

The nodes and the elements are cells of two heaps. A node is owned by the link to it,
and is freed when it has been taken out; an element is shared with the reference that
`pushWithRef` returns, and stays where it is. Following a null pointer, or one to a cell
that was freed, stops the program.

The operations do what those of a list do (`refines`), but that `getCount` counts in an
`int`. The queues of a `DataFactory` are modelled as lists.
-/

namespace Udm

/-- `threadsafe_queue::node`. -/
structure Node where
  data : Option ℕ := none
  next : Option ℕ := none

/-- `threadsafe_queue`. -/
structure ThreadsafeQueue (α : Type) where
  nodes : Heap Node
  elements : Heap α := ∅
  head : Option ℕ
  tail : ℕ
  count : ℤ := 0

/-- A program over the state of a queue. -/
abbrev QueueProg (α : Type) := EStateM Halt (ThreadsafeQueue α)

namespace ThreadsafeQueue

variable {α : Type} (alloc : Allocator)

/-- A new queue: `head` and `tail` point to a sentinel. -/
def new : ThreadsafeQueue α where
  nodes := Finmap.singleton (alloc.fresh ∅) {}
  head := some (alloc.fresh ∅)
  tail := alloc.fresh ∅

/-! ## Memory -/

/-- The node a pointer points to, with its address. -/
def load (p : Option ℕ) : QueueProg α (ℕ × Node) := do
  match p with
  | none => throw .fault
  | some a =>
    match (← get).nodes.lookup a with
    | some n => return (a, n)
    | none => throw .fault

/-- The element a pointer points to, with its address. -/
def element (p : Option ℕ) : QueueProg α (ℕ × α) := do
  match p with
  | none => throw .fault
  | some r =>
    match (← get).elements.lookup r with
    | some v => return (r, v)
    | none => throw .fault

/-! ## Operations -/

/-- `get_tail`. -/
def getTail : QueueProg α ℕ := return (← get).tail

/-- Moving `head` to the next node, which takes the first node out of the queue. -/
def moveHead : QueueProg α Node := do
  let (a, old_head) ← load (← get).head
  modify fun q =>
    { q with nodes := q.nodes.erase a, head := old_head.next, count := int32 (q.count - 1) }
  return old_head

/-- `pop_head`. -/
def popHead : QueueProg α (Option Node) := do
  let head := (← get).head
  let tail ← getTail
  if head = some tail then return none
  else return some (← moveHead)

/-- `try_pop()`: the pointer to the element that was popped. -/
def tryPop : QueueProg α (Option ℕ) := do
  match ← popHead with
  | some old_head => return old_head.data
  | none => return none

/-- `try_pop(T &value)`: the element is moved out, and destroyed. -/
def tryPopInto : QueueProg α (Option α) := do
  match ← popHead with
  | some old_head =>
    let (r, value) ← element old_head.data
    modify fun q => { q with elements := q.elements.erase r }
    return some value
  | none => return none

/-- `peek`: whether there was an element, which is taken out. -/
def peek : QueueProg α Bool := return (← popHead).isSome

/-- `isEmpty`. -/
def isEmpty : QueueProg α Bool := do
  let head := (← get).head
  let tail ← getTail
  return decide (head = some tail)

/-- `pushWithRef`. -/
def pushWithRef (new_value : α) : QueueProg α ℕ := do
  let q ← get
  let new_data := alloc.fresh q.elements.keys
  let new_tail := alloc.fresh q.nodes.keys
  modify fun q =>
    { q with elements := q.elements.insert new_data new_value, nodes := q.nodes.insert new_tail {} }
  let (tail, _) ← load (some q.tail)
  modify fun q =>
    { q with
      nodes := q.nodes.insert tail { data := some new_data, next := some new_tail }
      tail := new_tail
      count := int32 (q.count + 1) }
  return new_data

/-- `push`: the same, without a reference to the element. -/
def push (new_value : α) : QueueProg α Unit := do
  let _ ← pushWithRef alloc new_value

/-- `getCount`. -/
def getCount : QueueProg α ℤ := return (← get).count

/-- An operation of the queue. -/
inductive Op (α : Type)
  | push (new_value : α)
  | pushWithRef (new_value : α)
  | tryPop
  | tryPopInto
  | isEmpty
  | getCount

/-- What an operation returns: for a pop, the element it returns, or points to. -/
inductive Result (α : Type)
  | done
  | ref (r : ℕ)
  | popped (value : Option α)
  | empty (b : Bool)
  | count (n : ℤ)

/-- Executing an operation. -/
def exec : Op α → QueueProg α (Result α)
  | .push new_value => do
    push alloc new_value
    return .done
  | .pushWithRef new_value => return .ref (← pushWithRef alloc new_value)
  | .tryPop => do
    match ← tryPop with
    | some r => return .popped (some (← element (some r)).2)
    | none => return .popped none
  | .tryPopInto => return .popped (← tryPopInto)
  | .isEmpty => return .empty (← isEmpty)
  | .getCount => return .count (← getCount)

/-- Executing operations one after the other. -/
def execAll : List (Op α) → QueueProg α (List (Result α))
  | [] => return []
  | op :: ops => do
    let res ← exec alloc op
    let ress ← execAll ops
    return res :: ress

end ThreadsafeQueue

/-! ## Lists as queues -/

namespace Fifo

open ThreadsafeQueue

variable {α : Type}

/-- What the operations do to a list of elements, each with a reference to it, which
    no two elements share. `counts` is how the length of the list is counted. -/
inductive Step (counts : ℕ → ℤ) : List (ℕ × α) → Op α → Result α → List (ℕ × α) → Prop
  | push {l : List (ℕ × α)} {r : ℕ} (hr : r ∉ l.map Prod.fst) (v : α) :
      Step counts l (.push v) .done (l ++ [(r, v)])
  | pushWithRef {l : List (ℕ × α)} {r : ℕ} (hr : r ∉ l.map Prod.fst) (v : α) :
      Step counts l (.pushWithRef v) (.ref r) (l ++ [(r, v)])
  | tryPop (e : ℕ × α) (l : List (ℕ × α)) : Step counts (e :: l) .tryPop (.popped (some e.2)) l
  | tryPopEmpty : Step counts [] .tryPop (.popped none) []
  | tryPopInto (e : ℕ × α) (l : List (ℕ × α)) :
      Step counts (e :: l) .tryPopInto (.popped (some e.2)) l
  | tryPopIntoEmpty : Step counts [] .tryPopInto (.popped none) []
  | isEmpty (l : List (ℕ × α)) : Step counts l .isEmpty (.empty l.isEmpty) l
  | getCount (l : List (ℕ × α)) : Step counts l .getCount (.count (counts l.length)) l

/-- What operations, one after the other, do to a list and return. -/
inductive Run (counts : ℕ → ℤ) :
    List (ℕ × α) → List (Op α) → List (Result α) → List (ℕ × α) → Prop
  | nil (l : List (ℕ × α)) : Run counts l [] [] l
  | cons {l l' l'' : List (ℕ × α)} {op : Op α} {ops : List (Op α)} {res : Result α}
      {ress : List (Result α)} (h : Step counts l op res l') (hs : Run counts l' ops ress l'') :
      Run counts l (op :: ops) (res :: ress) l''

end Fifo

namespace ThreadsafeQueue

variable {α : Type} (alloc : Allocator)

/-- The nodes that hold an element, as cells of a chain. -/
def cell (q : ThreadsafeQueue α) (a : ℕ) : Option (ℕ × ℕ) :=
  (q.nodes.lookup a).bind fun n =>
    match n.data, n.next with
    | some r, some next => some (r, next)
    | _, _ => none

/-- Following the links from `head` visits nodes with the elements `l`, in order, and
    ends at `tail`, an empty sentinel. The references point to the elements. -/
structure Represents (q : ThreadsafeQueue α) (l : List (ℕ × α)) : Prop where
  /-- The nodes from `head` on have the elements in their order. -/
  chain : ∃ a cells, q.head = some a ∧ Chain q.cell a cells q.tail ∧
    cells.map Prod.snd = l.map Prod.fst
  /-- The node at `tail` has no element, and no next node. -/
  sentinel : q.nodes.lookup q.tail = some {}
  /-- No two nodes share an element. -/
  nodup : (l.map Prod.fst).Nodup
  /-- The references point to the values. -/
  elements : ∀ e ∈ l, q.elements.lookup e.1 = some e.2
  /-- The count wraps as an `int`. -/
  count : q.count = int32 l.length

/-- The operations, on a new queue, return what those of a list return, and the queue
    represents the list afterwards. -/
def Refines (counts : ℕ → ℤ) (ops : List (Op α)) : Prop :=
  wp (execAll alloc ops) (fun ress q => ∃ l, Fifo.Run counts [] ops ress l ∧ q.Represents l)
    (fun _ _ => False) (new alloc)

end ThreadsafeQueue

end Udm
