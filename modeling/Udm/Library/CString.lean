import Udm.Library.Memory
import Udm.Library.Word

/-!
# C strings

A text in memory is followed by a NUL, which it does not contain (`CStringAt`); a program
that reads it has the first NUL as its end. `strcpy` stores a text with its NUL, whatever
the room there is for it.

* `cString_eq_iff`, `CStringAt.cString_load`: reading a text;
* `CStringAt.congr`: a copy of a part of memory that holds the text and its NUL holds the
  text;
* `cStringAt_strcpy`: what `strcpy` stores.

A program that compares or copies a text reads up to the first NUL and not further, so bytes behind
it make no difference. Where a field holds no NUL, the text goes on behind the field: `cString` of
the bytes of the field is then all of them, and what a program reads is more.
-/

namespace Udm

/-- The text at the offset `off`, up to its NUL. -/
def CStringAt (m : Block Byte) (off : ℕ) (text : List Byte) : Prop :=
  0 ∉ text ∧ m.load off (text.length + 1) = text ++ [0]

/-- The text at the start of some bytes. -/
def cString (bytes : List Byte) : List Byte := bytes.takeWhile (· ≠ 0)

/-- `strcpy`, of the text at the start of `src`. -/
def strcpy (m : Block Byte) (dst : ℕ) (src : List Byte) : Block Byte :=
  m.store dst (cString src ++ [0])

variable {m m' : Block Byte} {off off' n : ℕ} {text : List Byte}

/-- The text ends at its NUL. -/
theorem cString_append (h : 0 ∉ text) (rest : List Byte) : cString (text ++ 0 :: rest) = text := by
  have hne : ∀ b ∈ text, decide (b ≠ 0) = true := fun b hb =>
    decide_eq_true fun heq => h (heq ▸ hb)
  rw [cString, List.takeWhile_append_of_pos hne]
  simp

/-- Without a NUL, it ends with the bytes. -/
theorem cString_of_notMem (h : 0 ∉ text) : cString text = text :=
  List.takeWhile_eq_self_iff.2 fun _ hb => decide_eq_true fun heq => h (heq ▸ hb)

/-- The text at the start of more bytes than it has is followed by its NUL. -/
theorem cString_eq_iff {bytes : List Byte} (h : 0 ∉ text) (hlen : text.length < bytes.length) :
    cString bytes = text ↔ bytes.take (text.length + 1) = text ++ [0] := by
  constructor
  · intro htext
    have hsplit : cString bytes ++ bytes.dropWhile (· ≠ 0) = bytes :=
      List.takeWhile_append_dropWhile
    have hne : bytes.dropWhile (· ≠ 0) ≠ [] := by
      intro hnil
      rw [hnil, List.append_nil, htext] at hsplit
      exact hlen.ne (congrArg List.length hsplit)
    obtain ⟨b, rest, hdrop⟩ := List.exists_cons_of_ne_nil hne
    obtain rfl : b = 0 := by
      have hb := List.head_dropWhile_not (fun b : Byte => decide (b ≠ 0)) hne
      simp only [hdrop, List.head_cons] at hb
      simpa using hb
    rw [htext, hdrop, ← List.singleton_append, ← List.append_assoc] at hsplit
    rw [← hsplit]
    exact List.take_left' (by simp)
  · intro htake
    rw [← List.take_append_drop (text.length + 1) bytes, htake, List.append_assoc]
    exact cString_append h _

namespace CStringAt

/-- The text in a part of memory that has it, with its NUL or up to it. -/
theorem cString_load (h : CStringAt m off text) (hn : text.length ≤ n) :
    cString (m.load off n) = text := by
  rcases hn.lt_or_eq with hlt | rfl
  · have hsplit : m.load off n =
        text ++ 0 :: m.load (off + (text.length + 1)) (n - (text.length + 1)) := by
      rw [← Nat.add_sub_cancel' hlt, Block.load_add, h.2, List.append_assoc,
        Nat.add_sub_cancel_left]
      rfl
    rw [hsplit, cString_append h.1]
  · -- The NUL lies behind the part.
    have hload := congrArg (List.take text.length) h.2
    rw [Block.take_load, Nat.min_eq_left (Nat.le_succ _), List.take_left' rfl] at hload
    rw [hload, cString_of_notMem h.1]

/-- A copy of a part of memory that has the text and its NUL. -/
theorem congr (h : CStringAt m off text) (hn : text.length < n)
    (hcopy : m'.load off' n = m.load off n) : CStringAt m' off' text := by
  refine ⟨h.1, ?_⟩
  have := congrArg (List.take (text.length + 1)) hcopy
  rwa [Block.take_load, Block.take_load, Nat.min_eq_left hn, h.2] at this

/-- The NUL is in a part of memory that is longer than the text. -/
theorem nul_mem (h : CStringAt m off text) (hn : text.length < n) : 0 ∈ m.load off n := by
  rw [← Nat.add_sub_cancel' hn, Block.load_add, h.2]
  simp

end CStringAt

/-- A text is stored with its NUL. -/
theorem cStringAt_store (m : Block Byte) (dst : ℕ) (h : 0 ∉ text) :
    CStringAt (m.store dst (text ++ [0])) dst text :=
  ⟨h, m.load_store_of_length (by simp)⟩

/-- What is copied is a text in its new place. -/
theorem cStringAt_strcpy (m : Block Byte) (dst : ℕ) {src : List Byte} (h : cString src = text)
    (hnul : 0 ∉ text) : CStringAt (strcpy m dst src) dst text := by
  rw [strcpy, h]
  exact cStringAt_store m dst hnul

/-- Memory away from the text and its NUL stays as it was. -/
theorem load_strcpy_of_disjoint {dst : ℕ} {src : List Byte}
    (h : off + n ≤ dst ∨ dst + ((cString src).length + 1) ≤ off) :
    (strcpy m dst src).load off n = m.load off n :=
  m.load_store_of_disjoint (by simpa using h)

end Udm
