import Mathlib.Data.Nat.Basic

/-!
# Leading Bits

Words whose bits are counted from the most significant one, as they are when the word goes
over a network.

## Main definitions

* `leadingOnes`: The word whose first bits are set.
* `swap16`, `swap32`: The bytes in reverse order.

## Theorems

* `getMsbD_leading`: Its bits.
* `and_leading_iff`: Words that agree on their first bits.
* `getLsbD_swap32`, `extract_swap32`: Bits and bytes of the swapped word.
* `swap16_append`: Swapping two bytes.
* `swap32_swap32`, `swap32_and`, `swap32_or`, `swap32_not`: Swapping and the operations on bits.
-/

namespace Lib

variable {w : Nat}

/-- The first `n` bits are set. -/
def leadingOnes (w n : Nat) : BitVec w := ~~~(BitVec.allOnes w >>> n)

theorem getMsbD_leading (n i : Nat) (hi : i < w) : (leadingOnes w n).getMsbD i = decide (i < n) := by
  rw [leadingOnes, BitVec.getMsbD_not, BitVec.getMsbD_ushiftRight, BitVec.getMsbD_allOnes,
    decide_eq_true hi, decide_eq_true (show i - n < w by omega), Bool.and_true, Bool.true_and,
    Bool.true_and, Bool.not_not]

/-- The first bits, and nothing else, are what is left under the mask. -/
theorem and_leading_iff (n : Nat) (hn : n ≤ w) (x y : BitVec w) :
    x &&& leadingOnes w n = y &&& leadingOnes w n ↔ ∀ i < n, x.getMsbD i = y.getMsbD i := by
  constructor
  · intro h i hi
    have hbit := congrArg (fun z => z.getMsbD i) h
    simp only [BitVec.getMsbD_and, getMsbD_leading n i (Nat.lt_of_lt_of_le hi hn),
      decide_eq_true hi, Bool.and_true] at hbit
    exact hbit
  · intro h
    refine BitVec.eq_of_getMsbD_eq (fun i hi => ?_)
    rw [BitVec.getMsbD_and, BitVec.getMsbD_and, getMsbD_leading n i hi]
    by_cases hlt : i < n
    · rw [h i hlt]
    · rw [decide_eq_false hlt, Bool.and_false, Bool.and_false]

/-! ## Byte orders -/

def swap16 (x : BitVec 16) : BitVec 16 := x.extractLsb' 0 8 ++ x.extractLsb' 8 8

theorem extract_low (a b : BitVec 8) : (a ++ b).extractLsb' 0 8 = b := by
  refine BitVec.eq_of_getLsbD_eq (fun i hi => ?_)
  rw [BitVec.getLsbD_extractLsb', Nat.zero_add, decide_eq_true hi, Bool.true_and,
    BitVec.getLsbD_append, if_pos hi]

theorem extract_high (a b : BitVec 8) : (a ++ b).extractLsb' 8 8 = a := by
  refine BitVec.eq_of_getLsbD_eq (fun i hi => ?_)
  rw [BitVec.getLsbD_extractLsb', decide_eq_true hi, Bool.true_and, BitVec.getLsbD_append,
    if_neg (by omega), Nat.add_sub_cancel_left]

theorem swap16_append (a b : BitVec 8) : swap16 (a ++ b) = b ++ a :=
  congrArg₂ (fun x y : BitVec 8 => (x ++ y : BitVec 16)) (extract_low a b) (extract_high a b)

theorem swap16_swap16 (x : BitVec 16) : swap16 (swap16 x) = x := by
  refine (swap16_append _ _).trans (BitVec.eq_of_getLsbD_eq (fun i hi => ?_))
  rw [BitVec.getLsbD_append, BitVec.getLsbD_extractLsb', BitVec.getLsbD_extractLsb']
  by_cases h : i < 8
  · rw [if_pos h, decide_eq_true h, Bool.true_and, Nat.zero_add]
  · rw [if_neg h, decide_eq_true (by omega), Bool.true_and, Nat.add_sub_cancel' (by omega)]

def swap32 (x : BitVec 32) : BitVec 32 :=
  x.extractLsb' 0 8 ++ x.extractLsb' 8 8 ++ x.extractLsb' 16 8 ++ x.extractLsb' 24 8

/-- A bit keeps its place in its byte. -/
theorem getLsbD_swap32 (x : BitVec 32) (i : Nat) (hi : i < 32) :
    (swap32 x).getLsbD i = x.getLsbD ((3 - i / 8) * 8 + i % 8) := by
  simp only [swap32, BitVec.getLsbD_append, BitVec.getLsbD_extractLsb']
  rcases Nat.lt_or_ge i 8 with h | h
  · rw [if_pos h, decide_eq_true h, Bool.true_and]
    exact congrArg x.getLsbD (by omega)
  · rw [if_neg (by omega)]
    rcases Nat.lt_or_ge i 16 with h' | h'
    · rw [if_pos (by omega), decide_eq_true (by omega), Bool.true_and]
      exact congrArg x.getLsbD (by omega)
    · rw [if_neg (by omega)]
      rcases Nat.lt_or_ge i 24 with h'' | h''
      · rw [if_pos (by omega), decide_eq_true (by omega), Bool.true_and]
        exact congrArg x.getLsbD (by omega)
      · rw [if_neg (by omega), decide_eq_true (by omega), Bool.true_and]
        exact congrArg x.getLsbD (by omega)

/-- Where a bit of the swapped word comes from. -/
theorem swapped_lt (i : Nat) (hi : i < 32) : (3 - i / 8) * 8 + i % 8 < 32 := by omega

/-- Byte by byte. -/
theorem extract_swap32 (x : BitVec 32) (j : Nat) (hj : j < 4) :
    (swap32 x).extractLsb' (8 * j) 8 = x.extractLsb' (8 * (3 - j)) 8 := by
  refine BitVec.eq_of_getLsbD_eq (fun i hi => ?_)
  rw [BitVec.getLsbD_extractLsb', BitVec.getLsbD_extractLsb', getLsbD_swap32 _ _ (by omega)]
  exact congrArg (fun k => decide (i < 8) && x.getLsbD k) (by omega)

theorem swap32_swap32 (x : BitVec 32) : swap32 (swap32 x) = x := by
  refine BitVec.eq_of_getLsbD_eq (fun i hi => ?_)
  rw [getLsbD_swap32 _ i hi, getLsbD_swap32 _ _ (swapped_lt i hi)]
  exact congrArg x.getLsbD (by omega)

theorem swap32_and (x y : BitVec 32) : swap32 (x &&& y) = swap32 x &&& swap32 y := by
  refine BitVec.eq_of_getLsbD_eq (fun i hi => ?_)
  rw [getLsbD_swap32 _ i hi, BitVec.getLsbD_and, BitVec.getLsbD_and, getLsbD_swap32 _ i hi,
    getLsbD_swap32 _ i hi]

theorem swap32_or (x y : BitVec 32) : swap32 (x ||| y) = swap32 x ||| swap32 y := by
  refine BitVec.eq_of_getLsbD_eq (fun i hi => ?_)
  rw [getLsbD_swap32 _ i hi, BitVec.getLsbD_or, BitVec.getLsbD_or, getLsbD_swap32 _ i hi,
    getLsbD_swap32 _ i hi]

theorem swap32_not (x : BitVec 32) : swap32 (~~~x) = ~~~swap32 x := by
  refine BitVec.eq_of_getLsbD_eq (fun i hi => ?_)
  rw [getLsbD_swap32 _ i hi, BitVec.getLsbD_not, BitVec.getLsbD_not, getLsbD_swap32 _ i hi,
    decide_eq_true hi, decide_eq_true (swapped_lt i hi)]

end Lib
