import Mathlib.Data.List.GetD
import Mathlib.Data.List.Nodup

/-!
# Base 64

The text form of byte strings of RFC 4648, over any alphabet and padding
character.

Three bytes are one number of 24 bits, and that number is four characters of six
bits each. One or two bytes at the end are filled up with zero bits to two or
three characters, and padding makes a group of four of them. The reader takes
nothing else: a text is a list of groups of four, only the last of them can be
padded, and the bits filled in have to be zero.

## Main definitions

* `base64Alphabet`: The standard alphabet.
* `sextet`: The number a character stands for.
* `encode64`: The text of a byte string.
* `decode64`: Reading a text.

## Theorems

* `length_encode64`: Four characters for every group of three bytes.
* `encode64_body`: Characters of the alphabet and the padding after them.
* `decode64_encode64`: A text reads back.
-/

namespace Lib

/-- `A` to `Z`, `a` to `z`, `0` to `9`, `+` and `/`. -/
def base64Alphabet : List UInt8 :=
  (List.range 26).map (fun i => UInt8.ofNat (65 + i))
    ++ (List.range 26).map (fun i => UInt8.ofNat (97 + i))
    ++ (List.range 10).map (fun i => UInt8.ofNat (48 + i))
    ++ [43, 47]

/-- The character of six bits. -/
def letter (alphabet : List UInt8) (n : Nat) : UInt8 := alphabet.getD n 0

/-- The six bits of a character. -/
def sextet (alphabet : List UInt8) (c : UInt8) : Option Nat :=
  if c ∈ alphabet then some (alphabet.idxOf c) else none

/-- The text of a byte string. -/
def encode64 (alphabet : List UInt8) (pad : UInt8) : List UInt8 → List UInt8
  | a :: b :: c :: bs =>
    let n := a.toNat * 65536 + b.toNat * 256 + c.toNat
    letter alphabet (n / 262144) :: letter alphabet (n / 4096 % 64)
      :: letter alphabet (n / 64 % 64) :: letter alphabet (n % 64) :: encode64 alphabet pad bs
  | [a, b] =>
    let n := (a.toNat * 256 + b.toNat) * 4
    [letter alphabet (n / 4096), letter alphabet (n / 64 % 64), letter alphabet (n % 64), pad]
  | [a] =>
    let n := a.toNat * 16
    [letter alphabet (n / 64), letter alphabet (n % 64), pad, pad]
  | [] => []

/-- The bytes of a full group. -/
def group64 (alphabet : List UInt8) (x y z w : UInt8) : Option (List UInt8) := do
  let s ← sextet alphabet x
  let t ← sextet alphabet y
  let u ← sextet alphabet z
  let v ← sextet alphabet w
  let n := s * 262144 + t * 4096 + u * 64 + v
  return [UInt8.ofNat (n / 65536), UInt8.ofNat (n / 256 % 256), UInt8.ofNat (n % 256)]

/-- The bytes of the last group, which can be padded. -/
def lastGroup64 (alphabet : List UInt8) (pad x y z w : UInt8) : Option (List UInt8) := do
  if w = pad then
    let s ← sextet alphabet x
    let t ← sextet alphabet y
    if z = pad then
      let n := s * 64 + t
      if n % 16 = 0 then return [UInt8.ofNat (n / 16)] else none
    else
      let u ← sextet alphabet z
      let n := s * 4096 + t * 64 + u
      if n % 4 = 0 then return [UInt8.ofNat (n / 4 / 256), UInt8.ofNat (n / 4 % 256)] else none
  else group64 alphabet x y z w

/-- The bytes of a text, `none` if it is the text of none. -/
def decode64 (alphabet : List UInt8) (pad : UInt8) : List UInt8 → Option (List UInt8)
  | [] => some []
  | [x, y, z, w] => lastGroup64 alphabet pad x y z w
  | x :: y :: z :: w :: cs => do
    let bs ← group64 alphabet x y z w
    let rest ← decode64 alphabet pad cs
    return bs ++ rest
  | _ => none

section

variable (alphabet : List UInt8) (pad : UInt8)

theorem length_encode64 (bs : List UInt8) :
    (encode64 alphabet pad bs).length = 4 * ((bs.length + 2) / 3) := by
  induction bs using encode64.induct with
  | case1 a b c bs ih =>
      simp only [encode64, List.length_cons, ih]
      omega
  | case2 a b =>
      simp only [encode64, List.length_cons, List.length_nil, Nat.reduceAdd, Nat.reduceDiv]
  | case3 a =>
      simp only [encode64, List.length_cons, List.length_nil, Nat.reduceAdd, Nat.reduceDiv]
  | case4 => rfl

variable (hlen : alphabet.length = 64)
include hlen

theorem letter_mem (n : Nat) (hn : n < 64) : letter alphabet n ∈ alphabet := by
  have hlt : n < alphabet.length := by omega
  rw [letter, List.getD_eq_getElem _ _ hlt]
  exact List.getElem_mem hlt

/-- Characters of the alphabet, and as much padding as there are bytes missing in
    the last group. -/
theorem encode64_body (bs : List UInt8) :
    ∃ body, encode64 alphabet pad bs = body ++ List.replicate ((3 - bs.length % 3) % 3) pad
      ∧ ∀ c ∈ body, c ∈ alphabet := by
  induction bs using encode64.induct with
  | case1 a b c bs ih =>
      rcases ih with ⟨body, hbody, hmem⟩
      have ha := a.toNat_lt
      have hb := b.toNat_lt
      have hc := c.toNat_lt
      have hmod : (bs.length + 1 + 1 + 1) % 3 = bs.length % 3 := by omega
      simp only [encode64, hbody, List.length_cons, hmod]
      refine ⟨_ :: _ :: _ :: _ :: body, rfl, fun x hx => ?_⟩
      simp only [List.mem_cons] at hx
      rcases hx with rfl | rfl | rfl | rfl | hx
      · exact letter_mem alphabet hlen _ (by omega)
      · exact letter_mem alphabet hlen _ (by omega)
      · exact letter_mem alphabet hlen _ (by omega)
      · exact letter_mem alphabet hlen _ (by omega)
      · exact hmem x hx
  | case2 a b =>
      have ha := a.toNat_lt
      have hb := b.toNat_lt
      refine ⟨[_, _, _], rfl, fun x hx => ?_⟩
      simp only [List.mem_cons, List.not_mem_nil, or_false] at hx
      rcases hx with rfl | rfl | rfl
      · exact letter_mem alphabet hlen _ (by omega)
      · exact letter_mem alphabet hlen _ (by omega)
      · exact letter_mem alphabet hlen _ (by omega)
  | case3 a =>
      have ha := a.toNat_lt
      refine ⟨[_, _], rfl, fun x hx => ?_⟩
      simp only [List.mem_cons, List.not_mem_nil, or_false] at hx
      rcases hx with rfl | rfl
      · exact letter_mem alphabet hlen _ (by omega)
      · exact letter_mem alphabet hlen _ (by omega)
  | case4 => exact ⟨[], rfl, fun x hx => absurd hx List.not_mem_nil⟩

theorem letter_ne_pad (hpad : pad ∉ alphabet) (n : Nat) (hn : n < 64) :
    letter alphabet n ≠ pad := by
  intro heq
  exact hpad (heq ▸ letter_mem alphabet hlen n hn)

variable (hnodup : alphabet.Nodup)
include hnodup

theorem sextet_letter (n : Nat) (hn : n < 64) :
    sextet alphabet (letter alphabet n) = some n := by
  have hlt : n < alphabet.length := by omega
  rw [sextet, if_pos (letter_mem alphabet hlen n hn), letter, List.getD_eq_getElem _ _ hlt,
    hnodup.idxOf_getElem n hlt]

/-- The four characters of three bytes are these bytes again. -/
theorem group64_letters (a b c : UInt8) (n : Nat)
    (hn : n = a.toNat * 65536 + b.toNat * 256 + c.toNat) :
    group64 alphabet (letter alphabet (n / 262144)) (letter alphabet (n / 4096 % 64))
      (letter alphabet (n / 64 % 64)) (letter alphabet (n % 64)) = some [a, b, c] := by
  have ha := a.toNat_lt
  have hb := b.toNat_lt
  have hc := c.toNat_lt
  have hsum : n / 262144 * 262144 + n / 4096 % 64 * 4096 + n / 64 % 64 * 64 + n % 64 = n := by
    omega
  have hfirst : n / 65536 = a.toNat := by omega
  have hsecond : n / 256 % 256 = b.toNat := by omega
  have hthird : n % 256 = c.toNat := by omega
  rw [group64, sextet_letter alphabet hlen hnodup (n / 262144) (by omega),
    sextet_letter alphabet hlen hnodup (n / 4096 % 64) (by omega),
    sextet_letter alphabet hlen hnodup (n / 64 % 64) (by omega),
    sextet_letter alphabet hlen hnodup (n % 64) (by omega)]
  simp only [Option.bind_eq_bind, Option.bind_some, Option.pure_def, hsum, hfirst, hsecond,
    hthird, UInt8.ofNat_toNat]

variable (hpad : pad ∉ alphabet)
include hpad

/-- A text reads back. -/
theorem decode64_encode64 (bs : List UInt8) :
    decode64 alphabet pad (encode64 alphabet pad bs) = some bs := by
  induction bs using encode64.induct with
  | case1 a b c bs ih =>
      have hgroup := group64_letters alphabet hlen hnodup a b c _ rfl
      rcases hrest : encode64 alphabet pad bs with _ | ⟨x, cs⟩
      · -- The last group of the text is a full one.
        rw [hrest, decode64, Option.some.injEq] at ih
        simp only [encode64, hrest, decode64, lastGroup64]
        rw [if_neg (letter_ne_pad alphabet pad hlen hpad _ (by omega)), ← ih]
        exact hgroup
      · rw [hrest] at ih
        simp only [encode64, hrest, decode64]
        rw [hgroup, ih]
        rfl
  | case2 a b =>
      have ha := a.toNat_lt
      have hb := b.toNat_lt
      simp only [encode64, decode64, lastGroup64, if_true]
      rw [sextet_letter alphabet hlen hnodup _ (by omega),
        sextet_letter alphabet hlen hnodup _ (by omega),
        sextet_letter alphabet hlen hnodup _ (by omega)]
      simp only [Option.bind_eq_bind, Option.bind_some, Option.pure_def]
      rw [if_neg (letter_ne_pad alphabet pad hlen hpad _ (by omega))]
      have hsum : (a.toNat * 256 + b.toNat) * 4 / 4096 * 4096
          + (a.toNat * 256 + b.toNat) * 4 / 64 % 64 * 64
          + (a.toNat * 256 + b.toNat) * 4 % 64 = (a.toNat * 256 + b.toNat) * 4 := by omega
      have hfirst : (a.toNat * 256 + b.toNat) * 4 / 4 / 256 = a.toNat := by omega
      have hsecond : (a.toNat * 256 + b.toNat) * 4 / 4 % 256 = b.toNat := by omega
      rw [hsum, if_pos (by omega), hfirst, hsecond, UInt8.ofNat_toNat, UInt8.ofNat_toNat]
  | case3 a =>
      have ha := a.toNat_lt
      simp only [encode64, decode64, lastGroup64, if_true]
      rw [sextet_letter alphabet hlen hnodup _ (by omega),
        sextet_letter alphabet hlen hnodup _ (by omega)]
      simp only [Option.bind_eq_bind, Option.bind_some, Option.pure_def]
      have hsum : a.toNat * 16 / 64 * 64 + a.toNat * 16 % 64 = a.toNat * 16 := by omega
      have hfirst : a.toNat * 16 / 16 = a.toNat := by omega
      rw [hsum, if_pos (by omega), hfirst, UInt8.ofNat_toNat]
  | case4 => rfl

end

end Lib
