import Mathlib

/-!
# Words and their bytes

A machine word of `k` bytes as the list of its bytes, lowest first
(`toBytes`), and the number a list of bytes stands for (`ofBytes`), with the
same in the opposite order (`ByteOrder`). Both directions are inverse to each
other (`value_bytes`, `bytes_value`), a word being taken modulo `256 ^ k`.

The C conversions between `int` and the other integer types: `int32` wraps a
number into the range of `int`, and `sizeT` is the value of an `int` converted
to `size_t` (sign-extended, then read as unsigned).

Signed values are integers, of which `int32` takes the representative between `-2 ^ 31` and
`2 ^ 31 - 1`, as two's complement does. A sum that leaves this range has no defined value in
C++; the compilers it is built with wrap it around, and so does `int32`.
-/

namespace Udm

/-- A byte. -/
abbrev Byte := BitVec 8

/-! ## Bytes of a number -/

/-- The `k` low bytes of `n`, lowest first. -/
def toBytes : ℕ → ℕ → List Byte
  | 0, _ => []
  | k + 1, n => BitVec.ofNat 8 n :: toBytes k (n / 256)

/-- The number whose bytes are `bs`, lowest first. -/
def ofBytes : List Byte → ℕ
  | [] => 0
  | b :: bs => b.toNat + 256 * ofBytes bs

/-- As many bytes as asked for. -/
@[simp] theorem length_toBytes (k n : ℕ) : (toBytes k n).length = k := by
  induction k generalizing n with
  | zero => rfl
  | succ k ih => simp [toBytes, ih]

/-- The bytes above the first `k` are lost. -/
theorem ofBytes_toBytes (k n : ℕ) : ofBytes (toBytes k n) = n % 256 ^ k := by
  induction k generalizing n with
  | zero => simp [toBytes, ofBytes, Nat.mod_one]
  | succ k ih =>
    have hlow : (BitVec.ofNat 8 n).toNat = n % 256 := BitVec.toNat_ofNat n 8
    have hsplit : n % 256 ^ (k + 1) = n % 256 + 256 * (n / 256 % 256 ^ k) := by
      rw [Nat.pow_succ', Nat.mod_mul]
    rw [toBytes, ofBytes, ih, hlow, hsplit]

/-- A list of bytes is that of the number it stands for. -/
theorem toBytes_ofBytes (bs : List Byte) : toBytes bs.length (ofBytes bs) = bs := by
  induction bs with
  | nil => rfl
  | cons b bs ih =>
    have hlow : BitVec.ofNat 8 (b.toNat + 256 * ofBytes bs) = b := by
      apply BitVec.eq_of_toNat_eq
      rw [BitVec.toNat_ofNat]
      omega
    have hhigh : (b.toNat + 256 * ofBytes bs) / 256 = ofBytes bs := by omega
    rw [List.length_cons, ofBytes, toBytes, hlow, hhigh, ih]

/-- So many bytes stand for no larger number. -/
theorem ofBytes_lt (bs : List Byte) : ofBytes bs < 256 ^ bs.length := by
  induction bs with
  | nil => simp [ofBytes]
  | cons b bs ih =>
    rw [ofBytes, List.length_cons, Nat.pow_succ']
    omega

/-! ## Byte orders -/

/-- The order in which the bytes of a word are stored. -/
inductive ByteOrder
  | little
  | big
  deriving DecidableEq, Repr

namespace ByteOrder

variable (bo : ByteOrder)

/-- The `k` bytes of the word `n`, as stored. -/
def bytes (k n : ℕ) : List Byte :=
  match bo with
  | little => toBytes k n
  | big => (toBytes k n).reverse

/-- The word stored as the bytes `bs`. -/
def value (bs : List Byte) : ℕ :=
  match bo with
  | little => ofBytes bs
  | big => ofBytes bs.reverse

/-- In either order there are as many bytes. -/
@[simp] theorem length_bytes (k n : ℕ) : (bo.bytes k n).length = k := by
  cases bo <;> simp [bytes]

/-- What was stored is read back, modulo the size of the word. -/
theorem value_bytes (k n : ℕ) : bo.value (bo.bytes k n) = n % 256 ^ k := by
  cases bo <;> simp [bytes, value, ofBytes_toBytes]

/-- What was read is stored as it was. -/
theorem bytes_value (bs : List Byte) : bo.bytes bs.length (bo.value bs) = bs := by
  cases bo with
  | little => exact toBytes_ofBytes bs
  | big =>
    have := toBytes_ofBytes bs.reverse
    rw [List.length_reverse] at this
    rw [bytes, value, this, List.reverse_reverse]

/-- A word of so many bytes is no larger number. -/
theorem value_lt (bs : List Byte) : bo.value bs < 256 ^ bs.length := by
  cases bo with
  | little => exact ofBytes_lt bs
  | big => simpa [value] using ofBytes_lt bs.reverse

end ByteOrder

/-! ## Order of words -/

/-- Words are ordered by their value. -/
instance BitVec.linearOrder (w : ℕ) : LinearOrder (BitVec w) where
  le x y := x ≤ y
  lt x y := x < y
  le_refl x := Nat.le_refl x.toNat
  le_trans _ _ _ h h' := Nat.le_trans h h'
  lt_iff_le_not_ge x y := Nat.lt_iff_le_and_not_ge
  le_antisymm x y h h' := BitVec.eq_of_toNat_eq (Nat.le_antisymm h h')
  le_total x y := Nat.le_total x.toNat y.toNat
  toDecidableLE x y := inferInstanceAs (Decidable (x.toNat ≤ y.toNat))
  toDecidableLT x y := inferInstanceAs (Decidable (x.toNat < y.toNat))
  toDecidableEq x y := decEq x y

/-! ## Counters -/

/-- A counter that is not zero can be counted down. -/
theorem toNat_pos {w : ℕ} {x : BitVec w} (h : x ≠ 0) : 0 < x.toNat :=
  Nat.pos_of_ne_zero fun hzero => h (BitVec.eq_of_toNat_eq hzero)

/-- A counter that is not zero is counted down without wrapping. -/
theorem toNat_sub_one {w : ℕ} {x : BitVec w} (h : x ≠ 0) : (x - 1).toNat = x.toNat - 1 := by
  have hpos := toNat_pos h
  have hone : (1 : BitVec w).toNat = 1 := Nat.mod_eq_of_lt (lt_of_le_of_lt hpos x.isLt)
  have hle : (1 : BitVec w) ≤ x := by
    rw [BitVec.le_def, hone]
    exact hpos
  rw [BitVec.toNat_sub_of_le hle, hone]

/-! ## C integers -/

/-- The value of an `int` whose bits are those of `x`. -/
def int32 (x : ℤ) : ℤ := (x + 2 ^ 31) % 2 ^ 32 - 2 ^ 31

/-- The value of `x` converted to `size_t`. -/
def sizeT (x : ℤ) : ℕ := (x % 2 ^ 64).toNat

/-- An `int` is its own value. -/
theorem int32_of_mem {x : ℤ} (h : -2 ^ 31 ≤ x) (h' : x < 2 ^ 31) : int32 x = x := by
  rw [int32]
  omega

/-- The largest `int`. -/
theorem int32_lt (x : ℤ) : int32 x < 2 ^ 31 := by
  rw [int32]
  omega

/-- The smallest one. -/
theorem le_int32 (x : ℤ) : -2 ^ 31 ≤ int32 x := by
  rw [int32]
  omega

/-- Additions may wrap at every step or once at the end. -/
theorem int32_add (x y : ℤ) : int32 (int32 x + y) = int32 (x + y) := by
  simp only [int32]
  omega

/-- A number that is not negative is its own size. -/
theorem sizeT_of_nonneg {x : ℤ} (h : 0 ≤ x) (h' : x < 2 ^ 64) : sizeT x = x.toNat := by
  rw [sizeT, Int.emod_eq_of_lt h h']

/-- The same, of a natural number. -/
theorem sizeT_natCast {n : ℕ} (h : n < 2 ^ 64) : sizeT n = n := by
  rw [sizeT_of_nonneg (by omega) (by omega), Int.toNat_natCast]

/-- A negative `int` becomes one of the largest sizes. -/
theorem le_sizeT_of_neg {x : ℤ} (h : x < 0) (h' : -2 ^ 31 ≤ x) : 2 ^ 64 - 2 ^ 31 ≤ sizeT x := by
  rw [sizeT]
  omega

/-- An `int` counter that overflowed is compared as a large number. -/
theorem le_sizeT_int32 {r x : ℕ} (hle : r ≤ x) (hx : x < 2 ^ 32) :
    r ≤ sizeT (int32 x) := by
  rcases Nat.lt_or_ge x (2 ^ 31) with hsmall | hlarge
  · rw [int32_of_mem (by omega) (by omega), sizeT_of_nonneg (by omega) (by omega)]
    omega
  · have hneg : int32 x < 0 := by
      rw [int32]
      omega
    have := le_sizeT_of_neg hneg (le_int32 _)
    omega

end Udm
