import Udm.Library.Wp
import Udm.Process

/-!
# Binding the socket

`bindAddress` (`connection.h`) goes through a list of addresses, to bind a socket to the
first one it can be bound to. It closes the descriptor after a `bind` that failed, and
does not open another socket, so only the first attempt is made on an open descriptor
(`bindAddress_closed`): the first bindable address is found exactly if it is the head of
the list (`bindsFirst_iff`).
-/

namespace Udm

/-- What a file descriptor refers to: nothing, or a socket with the address it is bound
    to. -/
inductive Descriptor (α : Type)
  | closed
  | opened (bound : Option α)
  deriving DecidableEq

/-- A program over the descriptors of the process. -/
abbrev SocketProg (α : Type) := EStateM Halt (ℤ → Descriptor α)

namespace Descriptor

variable {α : Type} (bindable : α → Bool) (sfd : ℤ)

/-- `bind`: whether it succeeds. A closed descriptor is bound to nothing, and a socket to
    one address. -/
def bind (addr : α) : SocketProg α Bool := do
  match (← get) sfd with
  | .opened none =>
    if bindable addr then
      modify fun fds => Function.update fds sfd (.opened (some addr))
      return true
    else return false
  | _ => return false

/-- `close`. -/
def close : SocketProg α Unit := modify fun fds => Function.update fds sfd .closed

/-- `bindAddress`. The program exits at the end of the list. -/
def bindAddress : List α → SocketProg α Unit
  | [] => throw .exit
  | rp :: result => do
    if ← bind bindable sfd rp then return
    else
      close sfd
      bindAddress result

/-- `udm_bind`, to an endpoint and those linked behind it. -/
def udm_bind (addr : α) (next : List α) : SocketProg α Unit := do
  if 0 < sfd then bindAddress bindable sfd (addr :: next)

/-- `bindAddress` binds the descriptor to the first bindable address of the list, and
    exits only without one. -/
def BindsFirst (result : List α) (fds : ℤ → Descriptor α) : Prop :=
  wp (bindAddress bindable sfd result)
    (fun _ fds' => ∃ addr, result.find? bindable = some addr ∧ fds' sfd = .opened (some addr))
    (fun _ _ => ∀ addr ∈ result, bindable addr = false) fds

variable {bindable sfd} {fds : ℤ → Descriptor α} {E : Halt → (ℤ → Descriptor α) → Prop}

/-! ## One attempt -/

theorem wp_bind_opened {Q : Bool → (ℤ → Descriptor α) → Prop} {addr : α}
    (h : fds sfd = .opened none) :
    wp (bind bindable sfd addr) Q E fds ↔
      if bindable addr then Q true (Function.update fds sfd (.opened (some addr)))
      else Q false fds := by
  simp only [bind, wp_bind, wp_get, h]
  split <;> simp

theorem wp_bind_closed {Q : Bool → (ℤ → Descriptor α) → Prop} {addr : α} (h : fds sfd = .closed) :
    wp (bind bindable sfd addr) Q E fds ↔ Q false fds := by
  simp [bind, h]

/-! ## The list -/

/-- On a closed descriptor, every attempt fails. -/
theorem bindAddress_closed {Q : Unit → (ℤ → Descriptor α) → Prop} (result : List α)
    (h : fds sfd = .closed) : wp (bindAddress bindable sfd result) Q E fds ↔ E .exit fds := by
  induction result generalizing fds with
  | nil => simp [bindAddress]
  | cons rp result ih =>
    have hclose : Function.update fds sfd .closed = fds := by
      rw [← h, Function.update_eq_self]
    simp only [bindAddress, wp_bind, wp_bind_closed h]
    simpa [close, hclose] using ih h

/-- On an open descriptor, only the first attempt counts. -/
theorem bindAddress_opened {Q : Unit → (ℤ → Descriptor α) → Prop} {rp : α} {result : List α}
    (h : fds sfd = .opened none) :
    wp (bindAddress bindable sfd (rp :: result)) Q E fds ↔
      if bindable rp then Q () (Function.update fds sfd (.opened (some rp)))
      else E .exit (Function.update fds sfd .closed) := by
  have hclosed : Function.update fds sfd .closed sfd = (.closed : Descriptor α) :=
    Function.update_self ..
  simp only [bindAddress, wp_bind, wp_bind_opened h]
  split
  · simp
  · simpa [close] using bindAddress_closed result hclosed

/-- The first bindable address is found exactly if it is the head of the list. -/
theorem bindsFirst_iff (result : List α) (h : fds sfd = .opened none) :
    BindsFirst bindable sfd result fds ↔
      ∀ rp rest, result = rp :: rest → bindable rp = true ∨ ∀ addr ∈ rest, bindable addr = false := by
  rw [BindsFirst]
  rcases result with - | ⟨rp, rest⟩
  · simp [bindAddress]
  rw [bindAddress_opened h]
  rcases hrp : bindable rp with - | -
  · -- The descriptor was closed, and nothing else is tried.
    simp [hrp]
  · simp [hrp]

/-- The second address is not needed if the first one can be bound. -/
theorem bindsFirst_head : BindsFirst (fun addr => addr) 3 [true, false] fun _ => .opened none :=
  (bindsFirst_iff [true, false] rfl).2 (by simp)

/-- An address that cannot be bound hides the next one. -/
theorem not_bindsFirst : ¬BindsFirst (fun addr => addr) 3 [false, true] fun _ => .opened none := by
  rw [BindsFirst, bindAddress_opened rfl]
  simp

end Descriptor

end Udm
