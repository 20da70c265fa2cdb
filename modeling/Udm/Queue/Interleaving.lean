import Udm.Library.Run
import Udm.Queue.Refinement

/-!
# The queue between threads

Threads push and pop in any order. A push is one step, under `tail_mutex`. A pop is
taken apart into the steps it makes under `head_mutex`: taking the mutex, reading `tail`
under `tail_mutex`, comparing it with `head`, and moving `head` to the next node. Pushes
of other threads may come between any of them.

The state keeps a record of what was pushed and what pops returned, and of how many
elements the queue had when a pop that reports it as empty read `tail`. In every state,
what was pushed is what was returned, in this order, and what is in the queue
(`interleaved`).
-/

namespace Udm

namespace ThreadsafeQueue

variable {ι α : Type}

/-- Where a thread is in `pop_head`. -/
inductive Phase
  /-- Outside. -/
  | idle
  /-- It holds `head_mutex`. -/
  | locked
  /-- It has read `tail`, when the queue had `elements` elements. -/
  | compare (tail : ℕ) (elements : ℕ)
  /-- It found that `head` is not at the `tail` it read. -/
  | move
  deriving DecidableEq

/-- A queue shared by the threads `ι`, and the record of what they did. -/
structure Shared (ι α : Type) where
  /-- The queue itself. -/
  queue : ThreadsafeQueue α
  /-- The thread that holds `head_mutex`. -/
  head_mutex : Option ι := none
  /-- Where each thread is. -/
  phase : ι → Phase := fun _ => .idle
  /-- The elements that were pushed, in their order, with the threads. -/
  pushed : List (ι × α) := []
  /-- Those that were returned, in their order. -/
  returned : List (ι × α) := []
  /-- The threads that found the queue empty, and its length when they read `tail`. -/
  reports : List (ι × ℕ) := []

/-- A step of a thread: a push, or the next step of a pop. -/
inductive Turn (ι α : Type)
  | push (i : ι) (new_value : α)
  | pop (i : ι)

/-- A program of the queue, run on the shared one. -/
def shared {β : Type} (x : QueueProg α β) : EStateM Halt (Shared ι α) β := fun s =>
  match x s.queue with
  | .ok b queue => .ok b { s with queue }
  | .error e queue => .error e { s with queue }

/-- The thread `i` goes on to `phase`. -/
@[simps] def Shared.setPhase [DecidableEq ι] (i : ι) (phase : Phase) (s : Shared ι α) : Shared ι α :=
  { s with phase := Function.update s.phase i phase }

/-- The thread `i` leaves `pop_head`, and its mutex. -/
@[simps] def Shared.unlock [DecidableEq ι] (i : ι) (s : Shared ι α) : Shared ι α :=
  { s with head_mutex := none, phase := Function.update s.phase i .idle }

variable (alloc : Allocator)

/-- The next step of a pop of the thread `i`. A thread that finds the mutex taken
    waits. -/
def popStep [DecidableEq ι] (i : ι) : EStateM Halt (Shared ι α) Unit := do
  let s ← get
  match s.phase i with
  | .idle =>
    if s.head_mutex = none then
      modify fun s => { s with head_mutex := some i }
      modify (Shared.setPhase i .locked)
  | .locked =>
    let tail ← shared getTail
    modify fun s => s.setPhase i (.compare tail (s.pushed.length - s.returned.length))
  | .compare tail elements =>
    if s.queue.head = some tail then
      modify fun s => { s with reports := s.reports ++ [(i, elements)] }
      modify (Shared.unlock i)
    else modify (Shared.setPhase i .move)
  | .move =>
    let old_head ← shared moveHead
    let (_, value) ← shared (element old_head.data)
    modify fun s => { s with returned := s.returned ++ [(i, value)] }
    modify (Shared.unlock i)

/-- The step of a thread whose turn it is. A thread does not push while it pops. -/
def turn [DecidableEq ι] : Turn ι α → EStateM Halt (Shared ι α) Unit
  | .push i new_value => do
    if (← get).phase i = .idle then
      let _ ← shared (pushWithRef alloc new_value)
      modify fun s => { s with pushed := s.pushed ++ [(i, new_value)] }
  | .pop i => popStep i

/-- The states that threads come to by taking turns, from a new queue. -/
def schedule [DecidableEq ι] (turns : ℕ → Turn ι α) (n : ℕ) : Conf Halt (Shared ι α) :=
  Conf.runs (turn alloc) (fun _ => false) { queue := new alloc } turns n

/-! ## What holds between the steps -/

variable {alloc} {s : Shared ι α} {l : List (ℕ × α)}

theorem wp_shared {β : Type} {x : QueueProg α β} {Q : β → Shared ι α → Prop}
    {E : Halt → Shared ι α → Prop} :
    wp (shared x) Q E s ↔ wp x (fun b queue => Q b { s with queue })
      (fun e queue => E e { s with queue }) s.queue := by
  rw [wp, wp, shared]
  cases x s.queue <;> rfl

/-- What is known of a thread, from where it is in `pop_head`. -/
def Located (s : Shared ι α) (l : List (ℕ × α)) : Phase → Prop
  | .idle | .locked => True
  | .compare tail elements =>
    (s.queue.head = some tail ↔ elements = 0) ∧ elements ≤ l.length
  | .move => l ≠ []

/-- Pushes do not disturb a pop. -/
theorem Located.push {s' : Shared ι α} {e : ℕ × α} {phase : Phase} (h : Located s l phase)
    (hhead : s'.queue.head = s.queue.head) : Located s' (l ++ [e]) phase := by
  cases phase with
  | idle | locked => trivial
  | compare tail elements =>
    refine ⟨by rw [hhead]; exact h.1, ?_⟩
    rw [List.length_append]
    exact h.2.trans (Nat.le_add_right _ _)
  | move => exact List.append_ne_nil_of_right_ne_nil _ (List.cons_ne_nil _ _)

theorem Located.congr {s' : Shared ι α} {phase : Phase} (h : Located s l phase)
    (hhead : s'.queue.head = s.queue.head) : Located s' l phase := by
  cases phase with
  | idle | locked => trivial
  | compare tail elements => exact ⟨by rw [hhead]; exact h.1, h.2⟩
  | move => exact h

/-- The queue holds the elements that were pushed and not returned, only the thread
    with the mutex is in a pop, and a pop reports an empty queue only if it was empty
    when `tail` was read. -/
structure Consistent (s : Shared ι α) (l : List (ℕ × α)) : Prop where
  /-- The nodes are those of the list `l`. -/
  queue : s.queue.Represents l
  /-- The elements come out in the order in which they went in. -/
  pushed : s.pushed.map Prod.snd = s.returned.map Prod.snd ++ l.map Prod.snd
  /-- Only one thread is in a pop. -/
  mutex : ∀ i, s.phase i ≠ .idle → s.head_mutex = some i
  /-- What a thread in a pop has read still holds. -/
  located : ∀ i, Located s l (s.phase i)
  /-- No thread was told that a queue with elements is empty. -/
  reports : ∀ r ∈ s.reports, r.2 = 0

namespace Consistent

theorem init (alloc : Allocator) : Consistent ({ queue := new alloc } : Shared ι α) [] where
  queue := .new alloc
  pushed := rfl
  mutex _ h := absurd rfl h
  located _ := trivial
  reports := by simp

/-- Only the thread with the mutex is in a pop. -/
theorem idle_of_ne (h : Consistent s l) {i j : ι} (hi : s.phase i ≠ .idle) (hne : j ≠ i) :
    s.phase j = .idle := by
  by_contra hj
  exact hne (Option.some.inj ((h.mutex j hj).symm.trans (h.mutex i hi)))

/-- The thread with the mutex goes on. -/
theorem setPhase [DecidableEq ι] (h : Consistent s l) {i : ι} (hi : s.head_mutex = some i) {phase : Phase}
    (hphase : Located s l phase) : Consistent (s.setPhase i phase) l where
  queue := h.queue
  pushed := h.pushed
  mutex j hj := by
    by_cases heq : j = i
    · rw [heq]
      exact hi
    · rw [Shared.setPhase_phase, Function.update_of_ne heq] at hj
      exact h.mutex j hj
  located j := by
    by_cases heq : j = i
    · rw [heq, Shared.setPhase_phase, Function.update_self]
      exact hphase.congr rfl
    · rw [Shared.setPhase_phase, Function.update_of_ne heq]
      exact (h.located j).congr rfl
  reports := h.reports

/-- The thread with the mutex gives it back. -/
theorem unlock [DecidableEq ι] {i : ι} (hqueue : s.queue.Represents l)
    (hpushed : s.pushed.map Prod.snd = s.returned.map Prod.snd ++ l.map Prod.snd)
    (hreports : ∀ r ∈ s.reports, r.2 = 0) (hidle : ∀ j, j ≠ i → s.phase j = .idle) :
    Consistent (s.unlock i) l := by
  have hphase : ∀ j, (s.unlock i).phase j = .idle := by
    intro j
    rw [Shared.unlock_phase]
    by_cases heq : j = i
    · rw [heq, Function.update_self]
    · rw [Function.update_of_ne heq, hidle j heq]
  refine ⟨hqueue, hpushed, fun j hj => absurd (hphase j) hj, fun j => ?_, hreports⟩
  rw [hphase j]
  trivial

theorem length_eq (h : Consistent s l) : s.pushed.length - s.returned.length = l.length := by
  have := congrArg List.length h.pushed
  simp only [List.length_map, List.length_append] at this
  omega

end Consistent

/-! ## Steps -/

theorem wp_push [DecidableEq ι] (h : Consistent s l) (i : ι) (v : α) :
    wp (turn alloc (.push i v)) (fun _ s' => ∃ l, Consistent s' l) (fun _ _ => False) s := by
  simp only [turn, wp_bind, wp_get]
  split_ifs with hidle
  · rw [wp_bind, wp_shared]
    refine wp_mono (wp_pushWithRef h.queue v) ?_ fun _ _ => id
    rintro r q ⟨-, hq, hhead⟩
    refine ⟨l ++ [(r, v)], hq, ?_, h.mutex, fun j => (h.located j).push hhead, h.reports⟩
    show (s.pushed ++ [(i, v)]).map Prod.snd = s.returned.map Prod.snd ++ _
    simp [h.pushed]
  · exact ⟨l, h⟩

theorem wp_pop [DecidableEq ι] (h : Consistent s l) (i : ι) :
    wp (popStep i) (fun _ s' => ∃ l, Consistent s' l) (fun _ _ => False) s := by
  have hlocated := h.located i
  have hmutex := h.mutex i
  simp only [popStep, wp_bind, wp_get]
  cases hphase : s.phase i with
  | idle =>
    dsimp only
    split_ifs with hfree
    · simp only [wp_bind, wp_modify]
      refine ⟨l, Consistent.setPhase (s := { s with head_mutex := some i }) ?_ rfl trivial⟩
      -- Nobody is in a pop while the mutex is free.
      have hidle : ∀ j, s.phase j = .idle := fun j => by
        by_contra hj
        simpa [hfree] using h.mutex j hj
      refine ⟨h.queue, h.pushed, fun j hj => absurd (hidle j) hj, fun j => ?_, h.reports⟩
      show Located _ l (s.phase j)
      rw [hidle j]
      trivial
    · exact ⟨l, h⟩
  | locked =>
    have hi := hmutex (by simp [hphase])
    simp only [wp_bind, wp_shared, wp_getTail, wp_modify]
    refine ⟨l, h.setPhase hi ⟨?_, ?_⟩⟩
    · rw [h.length_eq, h.queue.head_eq_tail_iff, List.length_eq_zero_iff]
    · rw [h.length_eq]
  | compare tail elements =>
    have hi := hmutex (by simp [hphase])
    rw [hphase] at hlocated
    dsimp only
    split_ifs with hhead
    · simp only [wp_bind, wp_modify]
      refine ⟨l, .unlock h.queue h.pushed ?_ fun j => h.idle_of_ne (by simp [hphase])⟩
      show ∀ r ∈ s.reports ++ [(i, elements)], r.2 = 0
      rw [List.forall_mem_append]
      exact ⟨h.reports, by simpa using hlocated.1.1 hhead⟩
    · rw [wp_modify]
      refine ⟨l, h.setPhase hi ?_⟩
      -- What was in the queue when `tail` was read still is.
      rintro rfl
      have hzero : elements = 0 := Nat.le_zero.1 hlocated.2
      exact hhead (hlocated.1.2 hzero)
  | move =>
    rw [hphase] at hlocated
    obtain ⟨e, l, rfl⟩ := List.exists_cons_of_ne_nil hlocated
    simp only [wp_bind, wp_shared]
    refine wp_mono (wp_moveHead h.queue) ?_ fun _ _ => id
    rintro old_head q ⟨hdata, hq, helements⟩
    have he : q.elements.lookup e.1 = some e.2 := by
      rw [helements]
      exact h.queue.elements e List.mem_cons_self
    rw [hdata, wp_element he]
    refine ⟨l, .unlock hq ?_ h.reports fun j => h.idle_of_ne (by simp [hphase])⟩
    show s.pushed.map Prod.snd = (s.returned ++ [(i, e.2)]).map Prod.snd ++ _
    rw [h.pushed]
    simp

/-- A turn does not stop the program, and leaves the queue consistent. -/
theorem wp_turn [DecidableEq ι] (h : Consistent s l) (t : Turn ι α) :
    wp (turn alloc t) (fun _ s' => ∃ l, Consistent s' l) (fun _ _ => False) s := by
  cases t with
  | push i v => exact wp_push h i v
  | pop i => exact wp_pop h i

/-- Whatever turns the threads take, no pop follows a missing pointer: `head` is not
    at the sentinel when it is moved. What pops have returned is what was pushed first,
    in the order of the pushes, each element once; the rest is in the queue. A pop
    reports an empty queue only if it was empty when the pop read `tail`. -/
theorem interleaved {ι α : Type} [DecidableEq ι] (alloc : Allocator) (turns : ℕ → Turn ι α)
    (n : ℕ) :
    let c := schedule alloc turns n
    c.error = none ∧
    (∀ i, c.state.phase i = .move → c.state.queue.head ≠ some c.state.queue.tail) ∧
    (∃ l, c.state.queue.Represents l ∧
      c.state.pushed.map Prod.snd = c.state.returned.map Prod.snd ++ l.map Prod.snd) ∧
    ∀ r ∈ c.state.reports, r.2 = 0 := by
  intro c
  have hsafe : c.error = none ∧ ∃ l, Consistent c.state l :=
    Conf.runs_safe (I := fun s => ∃ l, Consistent s l) ⟨[], .init alloc⟩
      (fun t s ⟨l, h⟩ _ => wp_turn h t) n
  obtain ⟨herror, l, h⟩ := hsafe
  refine ⟨herror, fun i hi hhead => ?_, ⟨l, h.queue, h.pushed⟩, h.reports⟩
  have hlocated := h.located i
  rw [hi] at hlocated
  exact hlocated (h.queue.head_eq_tail_iff.1 hhead)

end ThreadsafeQueue

end Udm
