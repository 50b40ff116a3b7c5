import Mathlib.Data.Nat.Bitwise

/-!
# Signs Folded into the Lowest Bit

The encoding that makes small negative numbers small: a two's complement word is
shifted up by one, and a negative one has all its bits flipped. The sign ends up
in the lowest bit, which is what tells the two halves of the decoder apart.

The definitions do it with arithmetic, as C programs do. The negation overflows on
the least number and the doubling on half of all numbers, and neither matters: in a
word of any width both are what the bits say.

## Main definitions

* `zigzag`: Fold the sign in.
* `unzigzag`: Unfold it.

## Theorems

* `zigzag_neg`, `zigzag_nonneg`: The encoder in terms of bits.
* `unzigzag_zigzag`: The word reads back.
-/

namespace Lib

variable {w : Nat}

/-- The sign folded into the lowest bit. -/
def zigzag (v : BitVec w) : BitVec w := if v.slt 0#w then -v * 2#w - 1#w else v * 2#w

/-- The sign unfolded again. -/
def unzigzag (u : BitVec w) : BitVec w := (u >>> 1) ^^^ (0#w - (u &&& 1#w))

theorem mul_two_shift (v : BitVec w) : v * 2#w = v <<< 1 := by
  have htwo : 2#w = BitVec.twoPow w 1 := by
    apply BitVec.eq_of_toNat_eq
    rw [BitVec.toNat_ofNat, BitVec.toNat_twoPow]
  rw [htwo, BitVec.mul_twoPow_eq_shiftLeft]

theorem zigzag_neg (v : BitVec w) (h : v.msb = true) : zigzag v = ~~~(v <<< 1) := by
  rw [zigzag, if_pos (by rw [BitVec.slt_zero_eq_msb, h]), mul_two_shift, BitVec.shiftLeft_neg,
    BitVec.not_eq_neg_add]

theorem zigzag_nonneg (v : BitVec w) (h : v.msb = false) : zigzag v = v <<< 1 := by
  rw [zigzag, if_neg (by rw [BitVec.slt_zero_eq_msb, h]; decide), mul_two_shift]

theorem unzigzag_even (u : BitVec w) (h : u &&& 1#w = 0#w) : unzigzag u = u >>> 1 := by
  rw [unzigzag, h, BitVec.sub_self, BitVec.xor_zero]

theorem unzigzag_odd (u : BitVec w) (h : u &&& 1#w = 1#w) : unzigzag u = ~~~(u >>> 1) := by
  rw [unzigzag, h, BitVec.zero_sub, BitVec.neg_one_eq_allOnes, BitVec.xor_allOnes]

/-- The lowest bit of a word that was shifted up is clear. -/
theorem shifted_and_one (v : BitVec w) : v <<< 1 &&& 1#w = 0#w := by
  refine BitVec.eq_of_getLsbD_eq (fun i hi => ?_)
  rw [BitVec.getLsbD_and, BitVec.getLsbD_shiftLeft, BitVec.getLsbD_zero]
  by_cases hlow : i < 1
  · simp only [hlow, decide_true, Bool.not_true, Bool.and_false, Bool.false_and]
  · have hone : (1#w).getLsbD i = false := by
      rw [BitVec.getLsbD_one]
      simp only [show i ≠ 0 by omega, decide_false, Bool.and_false]
    rw [hone, Bool.and_false]

theorem not_shifted_and_one (v : BitVec w) : ~~~(v <<< 1) &&& 1#w = 1#w := by
  refine BitVec.eq_of_getLsbD_eq (fun i hi => ?_)
  have hclear := congrArg (fun x => x.getLsbD i) (shifted_and_one v)
  simp only [BitVec.getLsbD_and, BitVec.getLsbD_zero] at hclear
  rw [BitVec.getLsbD_and, BitVec.getLsbD_not]
  cases hone : (1#w).getLsbD i with
  | false => rw [Bool.and_false]
  | true =>
      -- Where `1` has its bit the shifted word has none.
      rw [hone, Bool.and_true] at hclear
      simp only [hclear, hi, decide_true, Bool.not_false, Bool.and_true]

/-- Shifting up loses the highest bit, and shifting back down leaves it clear. -/
theorem getLsbD_shift_back (v : BitVec w) (i : Nat) :
    (v <<< 1 >>> 1).getLsbD i = (decide (i + 1 < w) && v.getLsbD i) := by
  rw [BitVec.getLsbD_ushiftRight, BitVec.getLsbD_shiftLeft, Nat.add_comm 1 i, Nat.add_sub_cancel]
  simp only [Nat.not_lt.mpr (Nat.le_add_left 1 i), decide_false, Bool.not_false, Bool.and_true]

/-- A word reads back. The highest bit is the one the shifts lose, and the
    decoder takes it from the lowest. -/
theorem unzigzag_zigzag (v : BitVec w) : unzigzag (zigzag v) = v := by
  have hlast : ∀ i, i < w → ¬i + 1 < w → v.getLsbD i = v.msb := by
    intro i hi hnext
    rw [BitVec.msb_eq_getLsbD_last, show w - 1 = i by omega]
  cases hmsb : v.msb with
  | false =>
      rw [zigzag_nonneg v hmsb, unzigzag_even _ (shifted_and_one v)]
      refine BitVec.eq_of_getLsbD_eq (fun i hi => ?_)
      rw [getLsbD_shift_back]
      by_cases hnext : i + 1 < w
      · rw [decide_eq_true hnext, Bool.true_and]
      · rw [decide_eq_false hnext, Bool.false_and, hlast i hi hnext, hmsb]
  | true =>
      rw [zigzag_neg v hmsb, unzigzag_odd _ (not_shifted_and_one v)]
      refine BitVec.eq_of_getLsbD_eq (fun i hi => ?_)
      have hback := getLsbD_shift_back v i
      rw [BitVec.getLsbD_ushiftRight] at hback
      rw [BitVec.getLsbD_not, BitVec.getLsbD_ushiftRight, BitVec.getLsbD_not, hback]
      by_cases hnext : i + 1 < w
      · simp only [hnext, hi, show 1 + i < w by omega, decide_true, Bool.true_and, Bool.not_not]
      · simp only [hi, show ¬1 + i < w by omega, decide_true, decide_false, Bool.true_and,
          Bool.false_and, Bool.not_false, hlast i hi hnext, hmsb]

end Lib
