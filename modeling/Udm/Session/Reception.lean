import Udm.Session.Transition

/-!
# Receiving a window

What the receiver does with a datagram in the state `closed`. As long as the
window points to buffers that the queue holds, under their capsule ids (`Held`),
no pointer dangles and `process` puts the newest capsule where it already is:
the step only takes the datagram into the window and looks for the end of the
file in the capsule with the largest id (`exec_arrived`).

`arrived` is the process after it, with a lemma for each of its parts that a later
proof reads. A capsule with an id that the window has replaces the one there, whose buffer
stays in the queue.
-/

namespace Udm

namespace Session

variable (bo : ByteOrder) (env : Env)

/-- The window points to buffers in the queue, under their capsule ids. -/
def Held (p : Process) : Prop :=
  ∀ e ∈ p.rxcurrentWindow, e.2 ∈ p.rxFactory.buffer ∧ e.1 = e.2.data.header.capid

/-- The process after it has received `d` in the state `closed`. -/
def arrived (d : List Byte) (p : Process) : Process :=
  let q := received bo env p d
  match q.rxcurrentWindow.last with
  | none => q.countDown
  | some (_, b) =>
    let fin := q.rxFactory.fin || b.data.header.isFin
    ((q.setRx { q.rxFactory with fin }).setWinSize
      (if fin then 0 else q.session.processor.winSize)).countDown

variable {bo env} {p : Process} {d : List Byte}

/-- An empty window points to nothing. -/
theorem held_empty (h : p.rxcurrentWindow = ∅) : Held p := by
  intro e he
  rw [h] at he
  exact absurd he (OrdMap.not_mem_empty e)

/-- A datagram is taken into the window under its capsule id. -/
theorem rxcurrentWindow_received :
    (received bo env p d).rxcurrentWindow =
      if (Gateway.pulled bo env p d).data.header.isPayld then
        p.rxcurrentWindow.insert (Gateway.pulled bo env p d).data.header.capid
          (Gateway.pulled bo env p d)
      else p.rxcurrentWindow := by
  rw [received]
  split <;> rfl

/-- A datagram is put into a buffer at the end of the queue, so the others stay where they are. -/
theorem Held.received (h : Held p) : Held (received bo env p d) := by
  have hold : ∀ e ∈ p.rxcurrentWindow,
      e.2 ∈ (Session.received bo env p d).rxFactory.buffer ∧ e.1 = e.2.data.header.capid := by
    intro e he
    rw [rxFactory_received]
    exact ⟨List.mem_append_left _ (h e he).1, (h e he).2⟩
  intro e he
  rw [rxcurrentWindow_received] at he
  split_ifs at he
  · rcases OrdMap.mem_insert.1 he with rfl | ⟨he, -⟩
    · rw [rxFactory_received]
      exact ⟨List.mem_append_right _ (List.mem_singleton_self _), rfl⟩
    · exact hold e he
  · exact hold e he

/-- What a datagram does in the state `closed`. -/
theorem exec_arrived (h : Held p) (hdir : p.session.dir = .RX) (hnext : p.session.next = .closed)
    (hwin : p.session.processor.winSize ≠ 0) (hd : env.datagram = some d) :
    Conf.exec (step bo) env p = { state := arrived bo env d p.clear } := by
  refine Conf.exec_of_wp (C := fun c => c = { state := arrived bo env d p.clear }) ?_
  have hclear : Held p.clear := h
  have hheld := @Held.received bo env p.clear d hclear
  have hwin' : p.clear.session.processor.winSize ≠ 0 := hwin
  rw [wp_step, hnext, hdir]
  show wp (closedState bo env .RX) _ _ _
  rw [wp_closedState, if_neg hwin', wp_submitTask_rx bo env hd, arrived]
  rcases hlast : (received bo env p.clear d).rxcurrentWindow.last with - | ⟨k, b⟩
  · rfl
  · have hmem := (OrdMap.last_eq_some.1 hlast).1
    obtain ⟨hb, hk⟩ := hheld _ hmem
    have hk : k = b.data.header.capid := hk
    dsimp only
    rw [if_pos (DataFactory.holds_of_mem hb)]
    -- The newest capsule is put where it is.
    have hsame : (received bo env p.clear d).rxcurrentWindow.insert b.data.header.capid b =
        (received bo env p.clear d).rxcurrentWindow := OrdMap.insert_of_mem (hk ▸ hmem)
    congr 1
    simp only [checkFin, keepFin, hsame, ite_self]
    rfl

section arrived

/-- Looking for the end of the file leaves the window as it was. -/
@[simp] theorem rxcurrentWindow_arrived :
    (arrived bo env d p).rxcurrentWindow = (received bo env p d).rxcurrentWindow := by
  rw [arrived]
  dsimp only
  split <;> rfl

/-- It leaves the queue with the new buffer. -/
@[simp] theorem buffer_arrived :
    (arrived bo env d p).rxFactory.buffer = p.rxFactory.buffer ++ [Gateway.pulled bo env p d] := by
  rw [arrived]
  dsimp only
  split <;> simp

end arrived

end Session

end Udm
