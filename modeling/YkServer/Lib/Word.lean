import Mathlib.Tactic.Ring
import Mathlib.Data.Int.Basic

/-!
# Machine Words as Numbers

The two integer types the loops of a C program mix up: an unsigned 64-bit word
kept as a natural number below `2 ^ 64`, and a signed 32-bit integer kept as an
integer. Converting a negative integer to a word wraps it to a huge value, and
converting a word to an integer keeps its low 32 bits and reads them signed.

Subtraction and addition are stated on values that are already words.

## Main definitions

* `subWord`: Subtraction of words, borrowing from `2 ^ 64`.
* `addWord`: Addition of words.
* `wordOfInt`: A signed integer as a word.
* `intOfWord`: A word as a signed 32-bit integer.

## Theorems

* `wordOfInt_nonneg`, `wordOfInt_neg`: The two branches of the conversion.
* `intOfWord_small`: A small word is itself.
-/

namespace Lib

/-- `a - b` in 64-bit arithmetic. -/
def subWord (a b : Nat) : Nat := if b ≤ a then a - b else a + 2 ^ 64 - b

/-- `a + b` in 64-bit arithmetic. -/
def addWord (a b : Nat) : Nat := if a + b < 2 ^ 64 then a + b else a + b - 2 ^ 64

/-- A signed integer converted to an unsigned 64-bit word. -/
def wordOfInt (r : Int) : Nat := if 0 ≤ r then r.toNat else 2 ^ 64 - (-r).toNat

/-- A word converted to a signed 32-bit integer. -/
def intOfWord (n : Nat) : Int :=
  if n % 2 ^ 32 < 2 ^ 31 then (n % 2 ^ 32 : Nat) else (n % 2 ^ 32 : Nat) - 2 ^ 32

theorem wordOfInt_nonneg (r : Int) (hr : 0 ≤ r) : wordOfInt r = r.toNat := if_pos hr

theorem wordOfInt_natCast (k : Nat) : wordOfInt (k : Nat) = k := by
  rw [wordOfInt_nonneg _ (Int.natCast_nonneg k), Int.toNat_natCast]

/-- An offset moved on by what is done of what was left. -/
theorem addWord_left (length left k : Nat) (hlen : length < 2 ^ 64) (hleft : left ≤ length)
    (hk : k ≤ left) : addWord (length - left) k = length - (left - k) := by
  rw [addWord, if_pos (by omega)]
  omega

/-- A negative `int` is a word, and not zero. -/
theorem wordOfInt_neg (r : Int) (hr : r < 0) (hlow : -(2 ^ 31 : Int) ≤ r) :
    wordOfInt r = 2 ^ 64 - (-r).toNat ∧ wordOfInt r ≠ 0 := by
  have hneg : ¬0 ≤ r := by omega
  rw [wordOfInt, if_neg hneg]
  refine ⟨rfl, ?_⟩
  omega

theorem intOfWord_small (n : Nat) (h : n < 2 ^ 31) : intOfWord n = n := by
  have hmod : n % 2 ^ 32 = n := Nat.mod_eq_of_lt (by omega)
  rw [intOfWord, hmod, if_pos h]

/-- A 32-bit number too large for an `int` is a negative one. -/
theorem intOfWord_large (n : Nat) (hlow : 2 ^ 31 ≤ n) (hhigh : n < 2 ^ 32) :
    intOfWord n = n - 2 ^ 32 := by
  have hmod : n % 2 ^ 32 = n := Nat.mod_eq_of_lt hhigh
  rw [intOfWord, hmod, if_neg (by omega)]

theorem intOfWord_zero : intOfWord 0 = 0 := by
  rw [intOfWord_small 0 (by decide)]
  rfl

end Lib
