import Udm.Library.CString

/-!
# Decimal numbers

Numbers as decimal texts.

* `to_string`: the text of a number (`std::to_string`);
* `atoi`: the number at the start of a text, after white space and a sign;
* `atoi_to_string`: reading the text of a number.

`atoi` has no defined result for a number that is not an `int`, and gives zero for a text that does
not start with a number. There is no way to tell the latter from a zero.
-/

namespace Udm

/-- The character of a digit. -/
def digitChar (d : ℕ) : Byte := BitVec.ofNat 8 (48 + d)

/-- `isdigit`. -/
def isDigit (c : Byte) : Bool := decide (48 ≤ c.toNat ∧ c.toNat ≤ 57)

/-- `isspace`. -/
def isSpace (c : Byte) : Bool := decide (c = 32 ∨ 9 ≤ c.toNat ∧ c.toNat ≤ 13)

/-- The digits of a number, the most significant one first. -/
def decimalText (n : ℕ) : List Byte :=
  if n = 0 then [digitChar 0] else ((Nat.digits 10 n).map digitChar).reverse

/-- `std::to_string`. -/
def to_string (z : ℤ) : List Byte :=
  if z < 0 then 45 :: decimalText z.natAbs else decimalText z.natAbs

/-- The number whose digits `text` starts with. -/
def readDigits (text : List Byte) : ℕ :=
  (text.takeWhile isDigit).foldl (fun n c => 10 * n + (c.toNat - 48)) 0

/-- The number `text` starts with, as a mathematical one: `strtol`. -/
def readNumber (text : List Byte) : ℤ :=
  match text.dropWhile isSpace with
  | 43 :: text => readDigits text
  | 45 :: text => -readDigits text
  | text => readDigits text

/-- `atoi`. A number that is no `int` has no defined result. -/
def atoi (text : List Byte) : Option ℤ :=
  if int32 (readNumber text) = readNumber text then some (readNumber text) else none

/-! ## Digits -/

/-- The digits are consecutive characters. -/
theorem toNat_digitChar {d : ℕ} (h : d < 10) : (digitChar d).toNat = 48 + d := by
  rw [digitChar, BitVec.toNat_ofNat, Nat.mod_eq_of_lt (by omega)]

/-- The character of a digit is one. -/
theorem isDigit_digitChar {d : ℕ} (h : d < 10) : isDigit (digitChar d) = true := by
  rw [isDigit, toNat_digitChar h, decide_eq_true_eq]
  omega

/-- A text of digits has no sign, and no space before it. -/
theorem isDigit_of_mem_decimalText {n : ℕ} {c : Byte} (h : c ∈ decimalText n) :
    isDigit c = true := by
  rw [decimalText] at h
  split_ifs at h
  · rw [List.mem_singleton.1 h]
    rfl
  · obtain ⟨d, hd, rfl⟩ := List.mem_map.1 (List.mem_reverse.1 h)
    exact isDigit_digitChar (Nat.digits_lt_base (by decide) hd)

/-- Every number has a digit, also zero. -/
theorem decimalText_ne_nil (n : ℕ) : decimalText n ≠ [] := by
  rw [decimalText]
  split_ifs with h
  · simp
  · simpa [Nat.digits_ne_nil_iff_ne_zero] using h

/-- Reading digits, the most significant one first. -/
theorem foldl_digits (l : List ℕ) (h : ∀ d ∈ l, d < 10) :
    ((l.map digitChar).reverse).foldl (fun n c => 10 * n + (c.toNat - 48)) 0 =
      Nat.ofDigits 10 l := by
  induction l with
  | nil => rfl
  | cons d l ih =>
    rw [List.map_cons, List.reverse_cons, List.foldl_append,
      ih fun e he => h e (List.mem_cons_of_mem d he), Nat.ofDigits_cons]
    simp only [List.foldl_cons, List.foldl_nil, toNat_digitChar (h d List.mem_cons_self)]
    omega

/-- Reading the digits of a number. -/
theorem readDigits_decimalText (n : ℕ) : readDigits (decimalText n) = n := by
  have hall : (decimalText n).takeWhile isDigit = decimalText n :=
    List.takeWhile_eq_self_iff.2 fun c hc => isDigit_of_mem_decimalText hc
  rw [readDigits, hall, decimalText]
  split_ifs with h
  · rw [h]
    rfl
  · rw [foldl_digits _ fun d hd => Nat.digits_lt_base (by decide) hd, Nat.ofDigits_digits]

/-! ## Reading a text -/

/-- Reading the text of a number, with its sign. -/
theorem readNumber_to_string (z : ℤ) : readNumber (to_string z) = z := by
  rw [readNumber, to_string]
  split_ifs with hneg
  · have hspace : ¬isSpace 45 = true := by decide
    rw [List.dropWhile_cons_of_neg hspace]
    show -(readDigits (decimalText z.natAbs) : ℤ) = z
    rw [readDigits_decimalText]
    omega
  · -- The text starts with a digit, so there is no space to skip, and neither of the two signs.
    obtain ⟨c, cs, hcs⟩ := List.exists_cons_of_ne_nil (decimalText_ne_nil z.natAbs)
    have hc : isDigit c = true := isDigit_of_mem_decimalText (n := z.natAbs) (by rw [hcs]; simp)
    rw [isDigit, decide_eq_true_eq] at hc
    have hspace : ¬isSpace c = true := by
      rw [isSpace, decide_eq_true_eq]
      rintro (rfl | hc')
      · exact absurd hc (by decide)
      · omega
    have hdrop : (decimalText z.natAbs).dropWhile isSpace = decimalText z.natAbs := by
      rw [hcs, List.dropWhile_cons_of_neg hspace]
    have hdigits := readDigits_decimalText z.natAbs
    rw [hdrop]
    rw [hcs] at hdigits ⊢
    split
    · next heq =>
      obtain ⟨rfl, -⟩ := List.cons.inj heq
      exact absurd hc (by decide)
    · next heq =>
      obtain ⟨rfl, -⟩ := List.cons.inj heq
      exact absurd hc (by decide)
    · rw [hdigits]
      omega

/-- Reading the text of an `int`. -/
theorem atoi_to_string {z : ℤ} (h : int32 z = z) : atoi (to_string z) = some z := by
  rw [atoi, readNumber_to_string, if_pos h]

end Udm
