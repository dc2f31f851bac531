import Mathlib.Algebra.Ring.Int.Defs
import Mathlib.Algebra.Ring.Nat

/-!
# ScxSlam.Lib.Word

Wrapping arithmetic of unsigned machine words of `w` bits, on naturals.  A
word is a natural below `size w`; the operations wrap where the machine does,
and the lemmas say when they are the exact ones.
-/

namespace Word

/-- Number of words of `w` bits. -/
def size (w : Nat) : Nat := 2 ^ w

/-- There is a word of any width. -/
theorem size_pos (w : Nat) : 0 < size w := Nat.two_pow_pos w

/-- Wrapping addition. -/
def add (w a b : Nat) : Nat := (a + b) % size w

/-- Wrapping multiplication. -/
def mul (w a b : Nat) : Nat := (a * b) % size w

/-- Wrapping subtraction. -/
def sub (w a b : Nat) : Nat := (a + size w - b) % size w

variable {w a b : Nat}

/-- Subtraction is exact where it does not go below zero. -/
theorem sub_of_le (hle : b ≤ a) (ha : a < size w) : sub w a b = a - b := by
  have hsplit : a + size w - b = a - b + size w := by omega
  rw [sub, hsplit, Nat.add_mod_right]
  exact Nat.mod_eq_of_lt (by omega)

/-- Subtraction below zero wraps once. -/
theorem sub_of_lt (hlt : a < b) (hb : b ≤ size w) : sub w a b = a + size w - b :=
  Nat.mod_eq_of_lt (by omega)

/-- Addition is exact where the sum is a word. -/
theorem add_of_lt (h : a + b < size w) : add w a b = a + b := Nat.mod_eq_of_lt h

/-- The sum of two words wraps at most once. -/
theorem add_of_le (h : size w ≤ a + b) (ha : a < size w) (hb : b < size w) :
    add w a b = a + b - size w := by
  rw [add, Nat.mod_eq_sub_mod h]
  exact Nat.mod_eq_of_lt (by omega)

/-- Multiplication is exact where the product is a word. -/
theorem mul_of_lt (h : a * b < size w) : mul w a b = a * b := Nat.mod_eq_of_lt h

/-- A wrapped sum, with zero for no bound, bounds the words the exact sum does
unless it wraps past zero and below one of them. -/
theorem exceeds_add_iff (ha : a < size w) (hb : b < size w) (hpos : 0 < b) (t : Nat)
    (ht : t < size w) : ((add w a b ≠ 0 ∧ add w a b < t) ↔ a + b < t) ↔
      a + b ≤ size w ∨ size w + t ≤ a + b := by
  by_cases h : a + b < size w
  · rw [add_of_lt h]
    omega
  · rw [add_of_le (by omega) ha hb]
    omega

/-- A wrapped difference exceeds `b` where the exact one does, unless it wraps. -/
theorem lt_sub_iff (ha : a < size w) (hb : b < size w) (t : Nat) (ht : t < size w) :
    (b < sub w t a ↔ a + b < t) ↔ a ≤ t ∨ size w + t ≤ a + b := by
  by_cases h : a ≤ t
  · rw [sub_of_le h ht]
    omega
  · rw [sub_of_lt (by omega) (by omega)]
    omega

end Word
