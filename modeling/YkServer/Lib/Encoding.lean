import Mathlib.Data.List.Basic
import Mathlib.Data.Nat.Bitwise
import Mathlib.Tactic.Ring

/-!
# Integers as Bytes

The two byte encodings of an unsigned integer: a fixed number of bytes, least
significant first, and the base-128 variable length form, seven bits a byte
with the top bit set on every byte but the last.

The variable length encoder writes into a scratch array, so it takes the room
left in that array and answers `none` when the value does not fit. The decoder
takes the number of bytes it is prepared to look at and the width its result is
truncated to; it stops early at the first byte with the top bit clear, and when
it has looked at as many bytes as it may it stops wherever it is.

Bytes can also be masked, each with the byte of a key at its place.

## Main definitions

* `leBytes`, `leValue`: The fixed form and its value.
* `encode128`: The variable length form.
* `decode128`: Reading it back.
* `xorKey`: Masked bytes.

## Theorems

* `leValue_leBytes`: The fixed form reads back.
* `encode128_isSome`: Enough room for a value that is small enough.
* `encode128_length`: An encoding has at least one byte and fits its array.
* `decode128_encode128`: The variable length form reads back, whatever
  follows it.
* `xorKey_twice`: Masking with a key undoes itself.
* `xorKey_eq_self_iff`: Keys that mask nothing.
-/

namespace Lib

/-- The `k` low bytes of `v`, least significant first. -/
def leBytes : Nat → Nat → List UInt8
  | 0, _ => []
  | k + 1, v => UInt8.ofNat (v % 256) :: leBytes k (v / 256)

/-- The value of a little-endian byte string. -/
def leValue : List UInt8 → Nat
  | [] => 0
  | b :: bs => b.toNat + 256 * leValue bs

theorem length_leBytes (k v : Nat) : (leBytes k v).length = k := by
  induction k generalizing v with
  | zero => rfl
  | succ k ih => simp only [leBytes, List.length_cons, ih]

theorem leValue_leBytes (k v : Nat) (h : v < 256 ^ k) : leValue (leBytes k v) = v := by
  induction k generalizing v with
  | zero =>
      simp only [Nat.pow_zero] at h
      simp only [leBytes, leValue]
      omega
  | succ k ih =>
      have hdiv : v / 256 < 256 ^ k := by
        rw [Nat.div_lt_iff_lt_mul (by decide)]
        rw [Nat.pow_succ] at h
        exact h
      have hbyte : (UInt8.ofNat (v % 256)).toNat = v % 256 := by
        rw [UInt8.toNat_ofNat']
        omega
      simp only [leBytes, leValue]
      rw [ih (v / 256) hdiv, hbyte]
      omega

/-- The base-128 form of `v`, written into an array with `room` free bytes;
    `none` when the array overflows. -/
def encode128 : Nat → Nat → Option (List UInt8)
  | 0, _ => none
  | room + 1, v =>
    if 0x80 ≤ v then
      match encode128 room (v >>> 7) with
      | none => none
      | some bs => some (UInt8.ofNat ((v &&& 0x7F) ||| 0x80) :: bs)
    else some [UInt8.ofNat v]

/-- Read a base-128 integer: at most `n` bytes, the bits of each put in at
    position `i` of a result of `w` bits. Answers the result and the bytes not
    looked at, or `none` when the bytes run out first. -/
def decode128 (w : Nat) : Nat → Nat → Nat → List UInt8 → Option (Nat × List UInt8)
  | 0, _, result, bs => some (result, bs)
  | _ + 1, _, _, [] => none
  | n + 1, i, result, b :: bs =>
    if b < 0x80 then some (result ||| (b.toNat <<< i) % 2 ^ w, bs)
    else decode128 w n (i + 7) (result ||| ((b &&& 0x7f).toNat <<< i) % 2 ^ w) bs

theorem and_0x7F (v : Nat) : v &&& 0x7F = v % 128 :=
  Nat.and_two_pow_sub_one_eq_mod v 7

/-- The low seven bits with the continuation bit on top. -/
theorem or_0x80 (m : Nat) (h : m < 128) : m ||| 0x80 = m + 128 := by
  have hor := Nat.two_pow_add_eq_or_of_lt (show m < 2 ^ 7 by omega) 1
  simp only [Nat.mul_one] at hor
  rw [Nat.lor_comm, ← hor]
  omega

/-- A value put in above the bits already there. -/
theorem or_shiftLeft (r v i w : Nat) (hr : r < 2 ^ i) (hv : v * 2 ^ i < 2 ^ w) :
    r ||| (v <<< i) % 2 ^ w = r + v * 2 ^ i := by
  have hor := Nat.two_pow_add_eq_or_of_lt hr v
  rw [Nat.shiftLeft_eq, Nat.mod_eq_of_lt hv, Nat.lor_comm, Nat.mul_comm v, ← hor]
  omega

theorem encode128_isSome (room v : Nat) (h : v < 128 ^ (room + 1)) :
    (encode128 (room + 1) v).isSome := by
  induction room generalizing v with
  | zero =>
      have hlt : ¬ 0x80 ≤ v := by omega
      rw [encode128, if_neg hlt]
      rfl
  | succ room ih =>
      by_cases hlt : 0x80 ≤ v
      · have hdiv : v >>> 7 < 128 ^ (room + 1) := by
          rw [Nat.shiftRight_eq_div_pow, Nat.div_lt_iff_lt_mul (by decide)]
          rw [Nat.pow_succ] at h
          exact h
        rcases Option.isSome_iff_exists.mp (ih (v >>> 7) hdiv) with ⟨bs, hbs⟩
        rw [encode128, if_pos hlt, hbs]
        rfl
      · rw [encode128, if_neg hlt]
        rfl

theorem encode128_length (room v : Nat) (bs : List UInt8) (h : encode128 room v = some bs) :
    1 ≤ bs.length ∧ bs.length ≤ room := by
  induction room generalizing v bs with
  | zero => simp only [encode128, reduceCtorEq] at h
  | succ room ih =>
      rw [encode128] at h
      by_cases hlt : 0x80 ≤ v
      · rw [if_pos hlt] at h
        rcases hrec : encode128 room (v >>> 7) with _ | cs
        · simp only [hrec, reduceCtorEq] at h
        · simp only [hrec, Option.some.injEq] at h
          have hcs := ih (v >>> 7) cs hrec
          rw [← h, List.length_cons]
          omega
      · rw [if_neg hlt, Option.some.injEq] at h
        rw [← h, List.length_singleton]
        omega

/-- A byte that is not the last: the low seven bits and the continuation bit. -/
theorem toNat_continuation (v : Nat) :
    (UInt8.ofNat ((v &&& 0x7F) ||| 0x80)).toNat = v % 128 + 128 := by
  rw [and_0x7F, or_0x80 _ (by omega), UInt8.toNat_ofNat']
  omega

theorem not_continuation_lt (v : Nat) : ¬ UInt8.ofNat ((v &&& 0x7F) ||| 0x80) < 0x80 := by
  rw [UInt8.lt_iff_toNat_lt, toNat_continuation]
  simp only [UInt8.reduceToNat]
  omega

/-- Masking the continuation bit off leaves the low seven bits. -/
theorem toNat_continuation_and (v : Nat) :
    (UInt8.ofNat ((v &&& 0x7F) ||| 0x80) &&& 0x7f).toNat = v % 128 := by
  have hmask : (0x7f : UInt8).toNat = 0x7F := rfl
  rw [UInt8.toNat_and, toNat_continuation, hmask, and_0x7F]
  omega

/-- The low seven bits at a shift and the rest seven further up. -/
theorem split_shift (v i : Nat) : v % 128 * 2 ^ i + v / 128 * 2 ^ (i + 7) = v * 2 ^ i := by
  have hpow : (2 : Nat) ^ (i + 7) = 128 * 2 ^ i := by
    rw [Nat.pow_add]
    ring
  rw [hpow, ← Nat.mul_assoc, ← Nat.add_mul]
  congr 1
  omega

/-- The bits read so far stay below the next shift. -/
theorem add_low_lt (r v i : Nat) (hr : r < 2 ^ i) : r + v % 128 * 2 ^ i < 2 ^ (i + 7) := by
  have hle : (v % 128 + 1) * 2 ^ i ≤ 128 * 2 ^ i := Nat.mul_le_mul_right _ (by omega)
  rw [Nat.add_mul] at hle
  rw [Nat.pow_add]
  omega

/-- The variable length form reads back, whatever follows it. The induction is
    on the room of the scratch array; `i` and `r` are the shift and the bits
    already read. -/
theorem decode128_encode128 (w room v i r : Nat) (bs rest : List UInt8)
    (henc : encode128 room v = some bs) (hr : r < 2 ^ i) (hv : v * 2 ^ i < 2 ^ w) :
    decode128 w room i r (bs ++ rest) = some (r + v * 2 ^ i, rest) := by
  induction room generalizing v i r bs with
  | zero => simp only [encode128, reduceCtorEq] at henc
  | succ room ih =>
      rw [encode128] at henc
      by_cases hlt : 0x80 ≤ v
      · rw [if_pos hlt] at henc
        rcases hrec : encode128 room (v >>> 7) with _ | cs
        · simp only [hrec, reduceCtorEq] at henc
        · simp only [hrec, Option.some.injEq] at henc
          -- The reader takes the low seven bits and goes on seven bits further up.
          have hshift : v >>> 7 = v / 128 := Nat.shiftRight_eq_div_pow v 7
          have hsum := split_shift v i
          have hr' := add_low_lt r v i hr
          rw [← henc, List.cons_append, decode128, if_neg (not_continuation_lt v),
            toNat_continuation_and, or_shiftLeft r (v % 128) i w hr (by omega),
            ih (v >>> 7) (i + 7) (r + v % 128 * 2 ^ i) cs hrec hr' (by rw [hshift]; omega),
            hshift]
          simp only [Option.some.injEq, Prod.mk.injEq, and_true]
          omega
      · -- The last byte has no continuation bit and ends the reading.
        rw [if_neg hlt, Option.some.injEq] at henc
        have hbyte : (UInt8.ofNat v).toNat = v := by
          rw [UInt8.toNat_ofNat']
          omega
        have hsmall : UInt8.ofNat v < 0x80 := by
          rw [UInt8.lt_iff_toNat_lt, hbyte]
          simp only [UInt8.reduceToNat]
          omega
        rw [← henc, List.singleton_append, decode128, if_pos hsmall, hbyte,
          or_shiftLeft r v i w hr hv]

/-! ## Masked bytes -/

/-- Some bytes, the first of them at place `i`, each combined with the byte of the
    key at its place. -/
def xorKey (key : Nat → UInt8) : Nat → List UInt8 → List UInt8
  | _, [] => []
  | i, b :: bs => (b ^^^ key i) :: xorKey key (i + 1) bs

theorem length_xorKey (key : Nat → UInt8) (i : Nat) (bs : List UInt8) :
    (xorKey key i bs).length = bs.length := by
  induction bs generalizing i with
  | nil => rfl
  | cons b bs ih => rw [xorKey, List.length_cons, List.length_cons, ih]

theorem xorKey_twice (key : Nat → UInt8) (i : Nat) (bs : List UInt8) :
    xorKey key i (xorKey key i bs) = bs := by
  induction bs generalizing i with
  | nil => rfl
  | cons b bs ih =>
      rw [xorKey, xorKey, ih, UInt8.xor_assoc, UInt8.xor_self, UInt8.xor_zero]

/-- Masking changes nothing exactly if the bytes of the key that are used are zero. -/
theorem xorKey_eq_self_iff (key : Nat → UInt8) (i : Nat) (bs : List UInt8) :
    xorKey key i bs = bs ↔ ∀ j < bs.length, key (i + j) = 0 := by
  induction bs generalizing i with
  | nil => exact ⟨fun _ j hj => absurd hj (Nat.not_lt_zero j), fun _ => rfl⟩
  | cons b bs ih =>
      have hbyte : b ^^^ key i = b ↔ key i = 0 := by
        have hinj := UInt8.xor_right_inj (a := key i) (b := 0) b
        rw [UInt8.xor_zero] at hinj
        exact hinj
      rw [xorKey, List.cons.injEq, hbyte, ih]
      constructor
      · rintro ⟨hfirst, hrest⟩ j hj
        cases j with
        | zero => exact hfirst
        | succ j =>
            rw [Nat.add_comm j 1, ← Nat.add_assoc]
            exact hrest j (Nat.lt_of_succ_lt_succ hj)
      · intro hall
        refine ⟨hall 0 (Nat.succ_pos _), fun j hj => ?_⟩
        rw [Nat.add_assoc, Nat.add_comm 1 j]
        exact hall (j + 1) (Nat.succ_lt_succ hj)

end Lib
