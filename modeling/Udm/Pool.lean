import Udm.Library.Run
import Udm.Queue.Refinement

/-!
# The worker pool

`thread_pool` (`worker_pool.hpp`): tasks are pushed to a queue, from which workers pop and
run them until the pool is `done`. The destructor waits while `peek` finds a task in the
queue, sets `done` and joins the workers.

Whatever workers there are, every task has been run by one of them when the pool is
destroyed, or was taken out of the queue by the waiting destructor, as `peek` pops what it
finds (`run_or_peeked`). But the loop of the constructor is left by a `break` before it
starts a thread, so there are no workers, and it is the destructor that gets all the tasks
(`noTaskLost_iff`).

The owner of the pool and the workers take turns. An operation of the queue is one turn:
what happens within it is in `Udm.Queue.Interleaving`.

The invariant is `Accounts`: as multisets, the tasks are those that were run, are held by
a worker, were lost to `peek`, are in the queue, or are not submitted yet. A step moves one
of them from one of these places to another (`wp_ownerStep`, `wp_workerStep`). With no
workers, `remaining` falls with every turn of the owner, so that the destructor ends
(`exists_destroyed`).
-/

namespace Udm

/-- Where a worker is in `worker_thread`. -/
inductive Worker (τ : Type)
  /-- At the test of `done`. -/
  | test
  /-- It goes to the queue. -/
  | pop
  /-- It has popped a task. -/
  | run (task : τ)
  /-- It has returned. -/
  | returned

/-- Where the owner of a pool is. -/
inductive Owner (τ : Type)
  /-- It submits tasks, before it destroys the pool. -/
  | submit (tasks : List τ)
  /-- In the waiting loop of the destructor. -/
  | wait
  /-- After the loop. -/
  | stop
  /-- It joins the threads. -/
  | join
  | destroyed

/-- `thread_pool`, with its owner, the tasks that workers have run, and how many times
    `peek` has found one. -/
structure ThreadPool (τ : Type) where
  /-- Set by the destructor, and tested by the workers. -/
  done : Bool := false
  /-- The tasks that no one has taken. -/
  work_queue : ThreadsafeQueue τ
  /-- Where each worker is. -/
  threads : List (Worker τ)
  owner : Owner τ
  /-- Each task with the worker that has run it. -/
  ran : List (ℕ × τ) := []
  peeked : ℕ := 0

/-- A program over the state of a pool. -/
abbrev PoolProg (τ : Type) := EStateM Halt (ThreadPool τ)

variable {τ : Type}

/-- The task a worker holds. -/
def Worker.task : Worker τ → Option τ
  | run task => some task
  | test | pop | returned => none

/-- `join` waits for a worker no more. -/
def Worker.hasReturned : Worker τ → Bool
  | returned => true
  | test | pop | run _ => false

/-- A worker that has returned holds no task. -/
theorem Worker.task_of_hasReturned {w : Worker τ} (h : w.hasReturned = true) : w.task = none := by
  cases w with
  | run task => simp [hasReturned] at h
  | test | pop | returned => rfl

/-- The tasks that are not submitted yet. -/
def Owner.rest : Owner τ → List τ
  | submit tasks => tasks
  | wait | stop | join | destroyed => []

/-- The waiting loop is over. -/
def Owner.Waited : Owner τ → Prop
  | submit _ | wait => False
  | stop | join | destroyed => True

/-- How many steps of the destructor are left, but for the turns of its loop. -/
def Owner.rank : Owner τ → ℕ
  | submit _ => 4
  | wait => 3
  | stop => 2
  | join => 1
  | destroyed => 0

/-- The pool is destroyed, and no one takes a turn any more. -/
def Owner.isDestroyed : Owner τ → Bool
  | destroyed => true
  | submit _ | wait | stop | join => false

theorem Owner.isDestroyed_iff {o : Owner τ} : o.isDestroyed = true ↔ o = .destroyed := by
  cases o <;> simp [isDestroyed]

namespace ThreadPool

variable (alloc : Allocator)

/-- The loop of the constructor. Its body is left by `break`, before `push_back`. -/
def startThreads (thread_count : ℕ) : List (Worker τ) :=
  Id.run (forIn (List.range thread_count) [] fun _ threads => pure (.done threads))

/-- A pool with the given workers, to which `tasks` will be submitted. -/
def ofThreads (threads : List (Worker τ)) (tasks : List τ) : ThreadPool τ :=
  { work_queue := .new alloc, threads, owner := .submit tasks }

/-- A new pool. -/
def new (thread_count : ℕ) (tasks : List τ) : ThreadPool τ :=
  ofThreads alloc (startThreads thread_count) tasks

/-- A program of the queue of a pool. -/
def onQueue {β : Type} (x : QueueProg τ β) : PoolProg τ β := fun s =>
  match x s.work_queue with
  | .ok b work_queue => .ok b { s with work_queue }
  | .error e work_queue => .error e { s with work_queue }

/-- The owner goes on. -/
@[simps] def setOwner (owner : Owner τ) (s : ThreadPool τ) : ThreadPool τ := { s with owner }

/-- The worker `i` goes on. -/
@[simps] def setThread (i : ℕ) (w : Worker τ) (s : ThreadPool τ) : ThreadPool τ :=
  { s with threads := s.threads.set i w }

/-- The next step of the owner: `submit`, and then the destructor. -/
def ownerStep : PoolProg τ Unit := do
  match (← get).owner with
  | .submit (task :: tasks) =>
    onQueue (ThreadsafeQueue.push alloc task)
    modify (setOwner (.submit tasks))
  | .submit [] => modify (setOwner .wait)
  | .wait =>
    if ← onQueue ThreadsafeQueue.peek then modify fun s => { s with peeked := s.peeked + 1 }
    else modify (setOwner .stop)
  | .stop =>
    modify fun s => { s with done := true }
    modify (setOwner .join)
  | .join => if (← get).threads.all Worker.hasReturned then modify (setOwner .destroyed)
  | .destroyed => return

/-- The next step of the worker `i`, in `worker_thread`. -/
def workerStep (i : ℕ) : PoolProg τ Unit := do
  match (← get).threads[i]? with
  | some .test => modify (setThread i (if (← get).done then .returned else .pop))
  | some .pop =>
    match ← onQueue ThreadsafeQueue.tryPopInto with
    | some task => modify (setThread i (.run task))
    | none => modify (setThread i .test)
  | some (.run task) =>
    modify fun s => { s with ran := s.ran ++ [(i, task)] }
    modify (setThread i .test)
  | some .returned => return
  | none => return

/-- Whose turn it is. -/
inductive Turn
  | owner
  | worker (i : ℕ)

/-- The step of the one whose turn it is. -/
def turn : Turn → PoolProg τ Unit
  | .owner => ownerStep alloc
  | .worker i => workerStep i

/-- The states that a pool comes to, until it is destroyed. -/
def schedule (s : ThreadPool τ) (turns : ℕ → Turn) (n : ℕ) : Conf Halt (ThreadPool τ) :=
  Conf.runs (turn alloc) (fun s => s.owner.isDestroyed) s turns n

/-- Whatever turns are taken, every task has been run once when the pool is destroyed, and
    the waiting loop has taken none from the queue. -/
def NoTaskLost (thread_count : ℕ) (tasks : List τ) : Prop :=
  ∀ (turns : ℕ → Turn) (n : ℕ),
    let s := (schedule alloc (new alloc thread_count tasks) turns n).state
    s.owner = .destroyed → (s.ran.map Prod.snd).Perm tasks ∧ s.peeked = 0

/-! ## Accounting -/

/-- The tasks that workers have popped and not yet run. -/
def held (s : ThreadPool τ) : List τ := s.threads.filterMap Worker.task

/-- Every task has been run, is held by a worker, was lost to `peek`, is in the queue, or
    is not submitted yet. After the waiting loop there is none in the queue. -/
structure Accounts (tasks : List τ) (s : ThreadPool τ) (l : List (ℕ × τ)) (lost : List τ) :
    Prop where
  /-- The queue is a list. -/
  queue : s.work_queue.Represents l
  /-- Every task is in one of these places. -/
  tasks : (tasks : Multiset τ) =
    ↑(s.ran.map Prod.snd) + ↑s.held + ↑lost + ↑(l.map Prod.snd) + ↑s.owner.rest
  /-- As many are lost as `peek` has found. -/
  peeked : lost.length = s.peeked
  /-- The waiting loop has seen the queue empty, and nothing is submitted after it. -/
  waited : s.owner.Waited → l = []
  /-- The destructor has joined every thread. -/
  joined : s.owner = .destroyed → ∀ w ∈ s.threads, w.hasReturned = true

variable {alloc} {s : ThreadPool τ} {tasks : List τ} {l : List (ℕ × τ)} {lost : List τ}

/-- What a program of the queue does is what it does to the queue of the pool. -/
theorem wp_onQueue {β : Type} {x : QueueProg τ β} {Q : β → ThreadPool τ → Prop}
    {E : Halt → ThreadPool τ → Prop} :
    wp (onQueue x) Q E s ↔ wp x (fun b work_queue => Q b { s with work_queue })
      (fun e work_queue => E e { s with work_queue }) s.work_queue := by
  rw [wp, wp, onQueue]
  cases x s.work_queue <;> rfl

/-- Replacing an element of a list, in what a partial function gives for it. -/
theorem coe_filterMap_set {α β : Type} (f : α → Option β) {l : List α} {i : ℕ} {a : α}
    (h : l[i]? = some a) (b : α) :
    (((l.set i b).filterMap f : List β) : Multiset β) + ((f a).toList : List β) =
      ((l.filterMap f : List β) : Multiset β) + ((f b).toList : List β) := by
  induction l generalizing i with
  | nil => simp at h
  | cons c l ih =>
    have hcons (c : α) (l : List α) : (((c :: l).filterMap f : List β) : Multiset β) =
        ((f c).toList : List β) + (l.filterMap f : List β) := by
      cases hc : f c <;> simp [hc]
    cases i with
    | zero =>
      obtain rfl : c = a := by simpa using h
      rw [List.set_cons_zero, hcons, hcons]
      abel
    | succ i =>
      have := ih (i := i) (by simpa using h)
      rw [List.set_cons_succ, hcons, hcons, add_assoc, this, add_assoc]

/-- What a worker holds when it goes on. -/
theorem held_setThread {i : ℕ} {w : Worker τ} (h : s.threads[i]? = some w) (w' : Worker τ) :
    ((s.setThread i w').held : Multiset τ) + (w.task.toList : List τ) =
      (s.held : Multiset τ) + (w'.task.toList : List τ) := coe_filterMap_set Worker.task h w'

/-- A worker that neither takes a task nor runs one holds what it held. -/
theorem held_setThread_of_task {i : ℕ} {w w' : Worker τ} (h : s.threads[i]? = some w)
    (heq : w'.task = w.task) : ((s.setThread i w').held : Multiset τ) = s.held := by
  have := held_setThread h w'
  rwa [heq, add_left_inj] at this

namespace Accounts

/-- A pool whose workers hold nothing starts with all the tasks at the owner. -/
theorem ofThreads {threads : List (Worker τ)} (h : ∀ w ∈ threads, w.task = none) (tasks : List τ) :
    Accounts tasks (ofThreads alloc threads tasks) [] [] where
  queue := .new alloc
  tasks := by
    have hheld : (ThreadPool.ofThreads alloc threads tasks).held = [] := List.filterMap_eq_nil_iff.2 h
    rw [hheld]
    simp [ThreadPool.ofThreads, Owner.rest]
  peeked := rfl
  waited h := h.elim
  joined h := by simp [ThreadPool.ofThreads] at h

/-- The worker `i` goes on, and the accounts are kept. -/
theorem setThread (h : Accounts tasks s l lost) (hlive : s.owner.isDestroyed = false) {i : ℕ}
    {w w' : Worker τ} (hw : s.threads[i]? = some w) (heq : w'.task = w.task) :
    Accounts tasks (s.setThread i w') l lost where
  queue := h.queue
  tasks := by
    rw [held_setThread_of_task hw heq]
    exact h.tasks
  peeked := h.peeked
  waited := h.waited
  joined hd := by
    rw [setThread_owner] at hd
    simp [hd, Owner.isDestroyed] at hlive

end Accounts

/-! ## Steps -/

/-- How far the destruction of a pool with `total` tasks is, if nothing but `peek` takes
    them. -/
def remaining (total : ℕ) (s : ThreadPool τ) : ℕ :=
  total - s.peeked + s.owner.rest.length + s.owner.rank

/-- The owner keeps the accounts: a task goes from the owner to the queue, and from the
    queue to `peek`. Without threads to join, it comes closer to the end. -/
theorem wp_ownerStep (h : Accounts tasks s l lost) :
    wp (ownerStep alloc)
      (fun _ s' => (∃ l lost, Accounts tasks s' l lost) ∧ s'.threads = s.threads ∧ s'.ran = s.ran ∧
        (s.threads = [] → s.owner.isDestroyed = false →
          s'.remaining tasks.length < s.remaining tasks.length))
      (fun _ _ => False) s := by
  have htasks := h.tasks
  simp only [ownerStep, wp_bind, wp_get]
  cases howner : s.owner with
  -- A task goes from the owner to the queue.
  | submit rest =>
    rw [howner] at htasks
    cases rest with
    | nil =>
      refine ⟨⟨l, lost, h.queue, htasks, h.peeked, fun hd => hd.elim, fun hd => by simp at hd⟩,
        rfl, rfl, fun _ _ => ?_⟩
      simp [remaining, howner, Owner.rest, Owner.rank]
    | cons task rest =>
      simp only [wp_bind, wp_onQueue, wp_modify, ThreadsafeQueue.push]
      refine wp_mono (ThreadsafeQueue.wp_pushWithRef h.queue task) ?_ fun _ _ => id
      rintro r q ⟨-, hq, -⟩
      refine ⟨⟨l ++ [(r, task)], lost, hq, ?_, h.peeked, fun hd => hd.elim, fun hd => by simp at hd⟩,
        rfl, rfl, fun _ _ => ?_⟩
      · rw [htasks]
        simp [held, Owner.rest, setOwner]
      · simp [remaining, howner, Owner.rest, Owner.rank]
  | wait =>
    rw [howner] at htasks
    simp only [wp_bind, wp_onQueue, wp_ite, wp_modify]
    cases l with
    | nil =>
      rw [ThreadsafeQueue.wp_peek_nil h.queue]
      refine ⟨⟨[], lost, h.queue, htasks, h.peeked, fun _ => rfl, fun hd => by simp at hd⟩,
        rfl, rfl, fun _ _ => ?_⟩
      simp [remaining, howner, Owner.rest, Owner.rank]
    | cons e l =>
      refine wp_mono (ThreadsafeQueue.wp_peek h.queue) ?_ fun _ _ => id
      rintro _ q ⟨rfl, hq⟩
      rw [if_pos rfl]
      refine ⟨⟨l, lost ++ [e.2], hq, ?_, by simp [h.peeked], fun hd => ?_, fun hd => ?_⟩,
        trivial, trivial, fun _ _ => ?_⟩
      · show (tasks : Multiset τ) = ↑(s.ran.map Prod.snd) + ↑s.held + ↑(lost ++ [e.2]) + _ + _
        rw [htasks, List.map_cons, ← Multiset.cons_coe, ← Multiset.coe_add, ← Multiset.singleton_add,
          Multiset.coe_singleton, howner]
        abel
      · simp [howner, Owner.Waited] at hd
      · simp [howner] at hd
      · -- What was in the queue is one of the tasks.
        have hlt : s.peeked < tasks.length := by
          have hcard := congrArg Multiset.card htasks
          simp only [Multiset.card_add, Multiset.coe_card, List.map_cons, List.length_cons] at hcard
          rw [← h.peeked]
          omega
        simp only [remaining, howner]
        omega
  | stop =>
    rw [howner] at htasks
    have hl := h.waited (by simp [howner, Owner.Waited])
    refine ⟨⟨l, lost, h.queue, htasks, h.peeked, fun _ => hl, fun hd => by simp at hd⟩,
      rfl, rfl, fun _ _ => ?_⟩
    simp [remaining, howner, Owner.rest, Owner.rank]
  | join =>
    rw [howner] at htasks
    have hl := h.waited (by simp [howner, Owner.Waited])
    simp only [wp_bind, wp_get, wp_ite, wp_modify, wp_pure]
    split_ifs with hall
    · refine ⟨⟨l, lost, h.queue, htasks, h.peeked, fun _ => hl, fun _ => List.all_eq_true.1 hall⟩,
        rfl, rfl, fun _ _ => ?_⟩
      simp [remaining, howner, Owner.rest, Owner.rank]
    · exact ⟨⟨l, lost, h⟩, trivial, trivial, fun hnil => absurd (by simp [hnil]) hall⟩
  | destroyed => exact ⟨⟨l, lost, h⟩, rfl, rfl, fun _ hd => by simp [Owner.isDestroyed] at hd⟩

/-- A worker keeps the accounts: a task goes from the queue to the worker, which runs it. -/
theorem wp_workerStep (h : Accounts tasks s l lost) (hlive : s.owner.isDestroyed = false) (i : ℕ) :
    wp (workerStep i) (fun _ s' => ∃ l lost, Accounts tasks s' l lost) (fun _ _ => False) s := by
  have htasks := h.tasks
  simp only [workerStep, wp_bind, wp_get]
  cases hw : s.threads[i]? with
  | none => exact ⟨l, lost, h⟩
  | some w =>
    cases w with
    | test =>
      refine ⟨l, lost, h.setThread hlive hw ?_⟩
      split_ifs <;> rfl
    | pop =>
      simp only [wp_bind, wp_onQueue]
      cases l with
      | nil =>
        rw [ThreadsafeQueue.wp_tryPopInto_nil h.queue]
        exact ⟨[], lost, h.setThread hlive hw rfl⟩
      | cons e l =>
        refine wp_mono (ThreadsafeQueue.wp_tryPopInto h.queue) ?_ fun _ _ => id
        rintro _ q ⟨rfl, hq⟩
        refine ⟨l, lost, hq, ?_, h.peeked, fun hd => ?_, fun hd => ?_⟩
        · have hheld := held_setThread hw (.run e.2)
          show (tasks : Multiset τ) =
            ↑(s.ran.map Prod.snd) + ↑(s.setThread i (.run e.2)).held + _ + _ + _
          simp only [Worker.task, Option.toList_none, Option.toList_some, Multiset.coe_nil, add_zero,
            Multiset.coe_singleton] at hheld
          rw [htasks, hheld, List.map_cons, ← Multiset.cons_coe, ← Multiset.singleton_add]
          abel
        · simpa using h.waited hd
        · simp [show s.owner = .destroyed from hd, Owner.isDestroyed] at hlive
    | run task =>
      refine ⟨l, lost, h.queue, ?_, h.peeked, h.waited, fun hd => ?_⟩
      · have hheld := held_setThread hw .test
        show (tasks : Multiset τ) =
          ↑((s.ran ++ [(i, task)]).map Prod.snd) + ↑(s.setThread i .test).held + _ + _ + _
        simp only [Worker.task, Option.toList_none, Option.toList_some, Multiset.coe_nil, add_zero,
          Multiset.coe_singleton] at hheld
        rw [htasks, ← hheld, List.map_append, ← Multiset.coe_add, List.map_singleton,
          Multiset.coe_singleton]
        abel
      · simp [show s.owner = .destroyed from hd, Owner.isDestroyed] at hlive
    | returned => exact ⟨l, lost, h⟩

/-! ## Runs -/

/-- Nothing fails, and the accounts are kept, whatever workers there are. -/
theorem accounts_schedule {threads : List (Worker τ)} (h : ∀ w ∈ threads, w.task = none)
    (tasks : List τ) (turns : ℕ → Turn) (n : ℕ) :
    (schedule alloc (ofThreads alloc threads tasks) turns n).error = none ∧
    ∃ l lost, Accounts tasks (schedule alloc (ofThreads alloc threads tasks) turns n).state l lost := by
  refine Conf.runs_safe (I := fun s => ∃ l lost, Accounts tasks s l lost)
    ⟨[], [], .ofThreads h tasks⟩ (fun t s ⟨l, lost, hs⟩ hlive => ?_) n
  cases t with
  | owner => exact wp_mono (wp_ownerStep hs) (fun _ _ hs' => hs'.1) fun _ _ => id
  | worker i => exact wp_workerStep hs hlive i

/-- When a pool is destroyed, every task has been run by a worker, once, or was taken out
    of the queue by the destructor. -/
theorem run_or_peeked {threads : List (Worker τ)} (h : ∀ w ∈ threads, w.task = none)
    (tasks : List τ) (turns : ℕ → Turn) (n : ℕ) :
    let s := (schedule alloc (ofThreads alloc threads tasks) turns n).state
    s.owner = .destroyed →
      ∃ lost, lost.length = s.peeked ∧ (s.ran.map Prod.snd ++ lost).Perm tasks := by
  intro s hd
  obtain ⟨-, l, lost, hs⟩ := @accounts_schedule τ alloc threads h tasks turns n
  have hheld : s.held = [] :=
    List.filterMap_eq_nil_iff.2 fun w hw => Worker.task_of_hasReturned (hs.joined hd w hw)
  have hl : l = [] := by
    refine hs.waited ?_
    rw [show (schedule alloc (ofThreads alloc threads tasks) turns n).state.owner = _ from hd]
    trivial
  refine ⟨lost, hs.peeked, Multiset.coe_eq_coe.1 ?_⟩
  have htasks := hs.tasks
  rw [hheld, hl, hd] at htasks
  simpa [Owner.rest] using htasks.symm

/-! ## The constructor -/

/-- The constructor starts no thread. -/
theorem startThreads_eq (thread_count : ℕ) : (startThreads thread_count : List (Worker τ)) = [] := by
  rw [startThreads]
  cases List.range thread_count <;> rfl

/-- So a new pool has no workers. -/
theorem new_eq (thread_count : ℕ) (tasks : List τ) :
    new alloc thread_count tasks = ofThreads alloc [] tasks := by rw [new, startThreads_eq]

/-- Without threads, no task is run. -/
theorem ran_eq_nil (tasks : List τ) (turns : ℕ → Turn) (n : ℕ) :
    (schedule alloc (ofThreads alloc [] tasks) turns n).state.threads = [] ∧
    (schedule alloc (ofThreads alloc [] tasks) turns n).state.ran = [] := by
  refine (Conf.runs_safe
    (I := fun s => (∃ l lost, Accounts tasks s l lost) ∧ s.threads = [] ∧ s.ran = [])
    ⟨⟨[], [], .ofThreads (by simp) tasks⟩, rfl, rfl⟩ (fun t s hI _ => ?_) n).2.2
  obtain ⟨⟨l, lost, hs⟩, hthreads, hran⟩ := hI
  cases t with
  | owner =>
    refine wp_mono (wp_ownerStep hs) (fun _ s' hs' => ?_) fun _ _ => id
    obtain ⟨hs', hthreads', hran', -⟩ := hs'
    exact ⟨hs', hthreads'.trans hthreads, hran'.trans hran⟩
  | worker i =>
    have hnone : s.threads[i]? = none := by simp [hthreads]
    simp only [turn, workerStep, wp_bind, wp_get, hnone, wp_pure]
    exact ⟨⟨l, lost, hs⟩, hthreads, hran⟩

/-- The destructor comes to its end. -/
theorem exists_destroyed (alloc : Allocator) (tasks : List τ) :
    ∃ n, (schedule alloc (ofThreads alloc [] tasks) (fun _ => .owner) n).state.owner = .destroyed := by
  set runs := schedule alloc (ofThreads alloc [] tasks) fun _ => .owner
  have hstep (n : ℕ) (halive : (runs n).Alive fun s => s.owner.isDestroyed) (_ : True) :
      (runs (n + 1)).error = none ∧ True ∧
        (runs (n + 1)).state.remaining tasks.length < (runs n).state.remaining tasks.length := by
    obtain ⟨-, l, lost, hs⟩ := @accounts_schedule τ alloc [] (by simp) tasks (fun _ => .owner) n
    have hnext : runs (n + 1) = Conf.exec (turn alloc) .owner (runs n).state :=
      Conf.next_of_alive halive
    have hexec := Conf.wp_iff_exec.1 (@wp_ownerStep τ alloc _ _ _ _ hs)
    have herror : (runs (n + 1)).error = none := by
      rw [hnext]
      exact Option.eq_none_iff_forall_ne_some.2 fun e he => hexec.2 e he
    refine ⟨herror, trivial, ?_⟩
    rw [hnext] at herror ⊢
    exact (hexec.1 herror).2.2.2 (ran_eq_nil tasks _ n).1 halive.2
  obtain ⟨n, -, hstop, -⟩ := @Conf.runs_stops _ _ _ (turn alloc) (fun s => s.owner.isDestroyed)
    (ofThreads alloc [] tasks) (fun _ => .owner) (fun _ => True)
    (fun n => (runs n).state.remaining tasks.length) hstep 0 rfl trivial
  exact ⟨n, Owner.isDestroyed_iff.1 hstop⟩

/-- A task that is submitted is not run. -/
theorem NoTaskLost.eq_nil {thread_count : ℕ} (h : NoTaskLost alloc thread_count tasks) :
    tasks = [] := by
  rw [NoTaskLost, new_eq] at h
  obtain ⟨n, hn⟩ := exists_destroyed alloc tasks
  have hperm := (h _ n hn).1
  rw [(ran_eq_nil tasks _ n).2] at hperm
  exact hperm.symm.eq_nil

/-- Whatever turns are taken, no task is lost exactly if none is submitted. -/
theorem noTaskLost_iff (alloc : Allocator) (thread_count : ℕ) (tasks : List τ) :
    NoTaskLost alloc thread_count tasks ↔ tasks = [] := by
  refine ⟨NoTaskLost.eq_nil, ?_⟩
  rw [NoTaskLost, new_eq]
  rintro rfl turns n s hd
  obtain ⟨lost, hlost, hperm⟩ := run_or_peeked (by simp) [] turns n hd
  obtain ⟨hran, rfl⟩ := List.append_eq_nil_iff.1 hperm.eq_nil
  exact ⟨by rw [hran], hlost.symm⟩

/-- One task, on one hardware thread. -/
theorem not_noTaskLost : ¬NoTaskLost .bump 1 [()] := fun h => List.cons_ne_nil _ _ h.eq_nil

end ThreadPool

end Udm
