import Mathlib.Algebra.Order.Ring.Nat
import YkServer.Lib.Base64
import YkServer.Core.Util

/-!
# Base 64

`base64encode` writes the standard text.

The rounds of the code shift and mask one word of 32 bits, the text is defined by
division. A round is one group of the text, whichever of the three lengths it
has, so that the whole text is the standard one and reads back.

## Theorems

* `base64Round_three`, `base64Round_two`, `base64Round_one`: A round by its length.
* `base64encode_eq_encode64`: The text is the standard one.
* `base64encode_standard`: Length, characters, padding, and reading back.
-/

namespace YkServer

open Lib

theorem base64_eq_alphabet : base64 = base64Alphabet := rfl

theorem length_base64Alphabet : base64Alphabet.length = 64 := rfl

theorem nodup_base64Alphabet : base64Alphabet.Nodup := by decide

theorem pad_not_mem_alphabet : 61 ∉ base64Alphabet := by decide

/-- A byte shifted into the word. -/
theorem toNat_shift_or (packed : UInt32) (b : UInt8) (h : packed.toNat < 65536) :
    ((packed <<< 8) ||| b.toUInt32).toNat = packed.toNat * 256 + b.toNat := by
  have hb := b.toNat_lt
  have hor := Nat.two_pow_add_eq_or_of_lt (show b.toNat < 2 ^ 8 by omega) packed.toNat
  rw [UInt32.toNat_or, UInt32.toNat_shiftLeft, UInt8.toNat_toUInt32]
  simp only [UInt32.reduceToNat, Nat.reduceMod, Nat.shiftLeft_eq]
  rw [Nat.mod_eq_of_lt (by omega), Nat.mul_comm, ← hor]

theorem toNat_shift (packed : UInt32) (h : packed.toNat < 16777216) :
    (packed <<< 8).toNat = packed.toNat * 256 := by
  rw [UInt32.toNat_shiftLeft]
  simp only [UInt32.reduceToNat, Nat.reduceMod, Nat.shiftLeft_eq]
  omega

/-- Six bits of the word. -/
theorem base64Char_bits (packed k : UInt32) (hk : k.toNat < 32) :
    base64Char ((packed >>> k) &&& 0x3f)
      = letter base64Alphabet (packed.toNat / 2 ^ k.toNat % 64) := by
  have hand := Nat.and_two_pow_sub_one_eq_mod (packed.toNat >>> k.toNat) 6
  rw [base64Char, UInt32.toNat_and, UInt32.toNat_shiftRight, Nat.mod_eq_of_lt hk]
  simp only [UInt32.reduceToNat]
  rw [hand, Nat.shiftRight_eq_div_pow, base64_eq_alphabet, letter]

/-- The low six bits of the word. -/
theorem base64Char_low (packed : UInt32) :
    base64Char (packed &&& 0x3f) = letter base64Alphabet (packed.toNat % 64) := by
  have hand := Nat.and_two_pow_sub_one_eq_mod packed.toNat 6
  rw [base64Char, UInt32.toNat_and]
  simp only [UInt32.reduceToNat]
  rw [hand, base64_eq_alphabet, letter]

/-- The high bits of the word. -/
theorem base64Char_high (packed : UInt32) :
    base64Char (packed >>> 18) = letter base64Alphabet (packed.toNat / 262144) := by
  rw [base64Char, UInt32.toNat_shiftRight]
  simp only [UInt32.reduceToNat, Nat.reduceMod, Nat.shiftRight_eq_div_pow, Nat.reducePow]
  rw [base64_eq_alphabet, letter]

/-- The word of the first byte. -/
theorem toNat_first (a : UInt8) : (((0 : UInt32) <<< 8) ||| a.toUInt32).toNat = a.toNat := by
  rw [toNat_shift_or 0 a (by decide)]
  simp only [UInt32.reduceToNat, Nat.zero_mul, Nat.zero_add]

theorem toNat_second (a b : UInt8) :
    (((((0 : UInt32) <<< 8) ||| a.toUInt32) <<< 8) ||| b.toUInt32).toNat
      = a.toNat * 256 + b.toNat := by
  have ha := a.toNat_lt
  rw [toNat_shift_or _ b (by rw [toNat_first]; omega), toNat_first]

theorem toNat_third (a b c : UInt8) :
    (((((((0 : UInt32) <<< 8) ||| a.toUInt32) <<< 8) ||| b.toUInt32) <<< 8)
      ||| c.toUInt32).toNat = a.toNat * 65536 + b.toNat * 256 + c.toNat := by
  have ha := a.toNat_lt
  have hb := b.toNat_lt
  rw [toNat_shift_or _ c (by rw [toNat_second]; omega), toNat_second]
  omega

/-- A round with three bytes is a full group. -/
theorem base64Round_three (a b c : UInt8) (data : List UInt8) :
    base64Round [a, b, c] ++ encode64 base64Alphabet 61 data
      = encode64 base64Alphabet 61 (a :: b :: c :: data) := by
  have hword := toNat_third a b c
  generalize hpacked : ((((((0 : UInt32) <<< 8) ||| a.toUInt32) <<< 8) ||| b.toUInt32) <<< 8)
    ||| c.toUInt32 = packed at hword
  have hround : base64Round [a, b, c] = [base64Char (packed >>> 18),
      base64Char ((packed >>> 12) &&& 0x3f), base64Char ((packed >>> 6) &&& 0x3f),
      base64Char (packed &&& 0x3f)] := by
    rw [← hpacked]
    rfl
  rw [hround, base64Char_high, base64Char_bits packed 12 (by decide),
    base64Char_bits packed 6 (by decide), base64Char_low, hword, encode64]
  rfl

/-- A round with two bytes shifts in one zero byte and pads one character. -/
theorem base64Round_two (a b : UInt8) :
    base64Round [a, b] = encode64 base64Alphabet 61 [a, b] := by
  have ha := a.toNat_lt
  have hb := b.toNat_lt
  have hword : ((((((0 : UInt32) <<< 8) ||| a.toUInt32) <<< 8) ||| b.toUInt32) <<< 8).toNat
      = (a.toNat * 256 + b.toNat) * 256 := by
    rw [toNat_shift _ (by rw [toNat_second]; omega), toNat_second]
  generalize hpacked : (((((0 : UInt32) <<< 8) ||| a.toUInt32) <<< 8) ||| b.toUInt32) <<< 8
    = packed at hword
  have hround : base64Round [a, b] = [base64Char (packed >>> 18),
      base64Char ((packed >>> 12) &&& 0x3f), base64Char ((packed >>> 6) &&& 0x3f), 61] := by
    rw [← hpacked]
    rfl
  have hhigh : packed.toNat / 262144 = (a.toNat * 256 + b.toNat) * 4 / 4096 := by omega
  have hmid : packed.toNat / 4096 % 64 = (a.toNat * 256 + b.toNat) * 4 / 64 % 64 := by omega
  have hlow : packed.toNat / 64 % 64 = (a.toNat * 256 + b.toNat) * 4 % 64 := by omega
  rw [hround, base64Char_high, base64Char_bits packed 12 (by decide),
    base64Char_bits packed 6 (by decide)]
  simp only [UInt32.reduceToNat, Nat.reducePow]
  rw [hhigh, hmid, hlow, encode64]

/-- A round with one byte shifts in two zero bytes and pads two characters. -/
theorem base64Round_one (a : UInt8) :
    base64Round [a] = encode64 base64Alphabet 61 [a] := by
  have ha := a.toNat_lt
  have hshift : ((((0 : UInt32) <<< 8) ||| a.toUInt32) <<< 8).toNat = a.toNat * 256 := by
    rw [toNat_shift _ (by rw [toNat_first]; omega), toNat_first]
  have hword : (((((0 : UInt32) <<< 8) ||| a.toUInt32) <<< 8) <<< 8).toNat
      = a.toNat * 65536 := by
    rw [toNat_shift _ (by rw [hshift]; omega), hshift]
    omega
  generalize hpacked : ((((0 : UInt32) <<< 8) ||| a.toUInt32) <<< 8) <<< 8 = packed at hword
  have hround : base64Round [a] = [base64Char (packed >>> 18),
      base64Char ((packed >>> 12) &&& 0x3f), 61, 61] := by
    rw [← hpacked]
    rfl
  have hhigh : packed.toNat / 262144 = a.toNat * 16 / 64 := by omega
  have hlow : packed.toNat / 4096 % 64 = a.toNat * 16 % 64 := by omega
  rw [hround, base64Char_high, base64Char_bits packed 12 (by decide)]
  simp only [UInt32.reduceToNat, Nat.reducePow]
  rw [hhigh, hlow, encode64]

/-- The text is the standard one. -/
theorem base64encode_eq_encode64 (data : List UInt8) :
    base64encode data = encode64 base64Alphabet 61 data := by
  induction data using base64encode.induct with
  | case1 a b c data ih => rw [base64encode, ih, base64Round_three]
  | case2 a b => exact base64Round_two a b
  | case3 a => exact base64Round_one a
  | case4 => rfl

/-- The text has four characters for every three bytes begun, all of the standard
    alphabet up to the padding for the bytes missing in the last group, and
    reads back as the bytes. -/
theorem base64encode_standard (data : List UInt8) :
    (base64encode data).length = 4 * ((data.length + 2) / 3)
      ∧ (∃ body, base64encode data = body ++ List.replicate ((3 - data.length % 3) % 3) 61
        ∧ ∀ c ∈ body, c ∈ base64Alphabet)
      ∧ decode64 base64Alphabet 61 (base64encode data) = some data := by
  rw [base64encode_eq_encode64]
  exact ⟨length_encode64 base64Alphabet 61 data,
    encode64_body base64Alphabet 61 length_base64Alphabet data,
    decode64_encode64 base64Alphabet 61 length_base64Alphabet nodup_base64Alphabet
      pad_not_mem_alphabet data⟩

example : base64encode (ascii "foob") = ascii "Zm9vYg==" := by decide

end YkServer
