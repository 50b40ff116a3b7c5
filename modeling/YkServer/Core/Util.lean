import Mathlib.Data.List.TakeWhile
import YkServer.Core.HttpGrammar

/-!
# Texts

`base64encode` of `yk/util.cc`, and what C functions see of a string.

The loop of `base64encode` takes up to three bytes a round into an `unsigned int`. What is missing
in the last round is shifted in as zero bytes, and the characters that stand for
nothing else are not written.

## Main definitions

* `cStr`: A string as a C function reads it.
* `base64encode`: The text of a byte string.
-/

namespace YkServer

/-- `c_str()` as a C function reads it, up to the first NUL. -/
def cStr (s : List UInt8) : List UInt8 := s.takeWhile (fun c => c != 0)

theorem cStr_eq_self_iff (s : List UInt8) : cStr s = s ↔ 0 ∉ s := by
  rw [cStr, List.takeWhile_eq_self_iff]
  exact ⟨fun h hzero => absurd (h 0 hzero) (by simp),
    fun h c hc => bne_iff_ne.2 (fun heq => h (heq ▸ hc))⟩

/-- The table of characters. -/
def base64 : List UInt8 :=
  ascii "ABCDEFGHIJKLMNOPQRSTUVWXYZabcdefghijklmnopqrstuvwxyz0123456789+/"

/-- A character of the table. -/
def base64Char (i : UInt32) : UInt8 := base64.getD i.toNat 0

/-- A round of the loop: the bytes of `ptr` that it takes, at most three. -/
def base64Round (ptr : List UInt8) : List UInt8 :=
  let i := ptr.length
  let packed := ptr.foldl (fun (packed : UInt32) b => (packed <<< 8) ||| b.toUInt32) 0
  let padding := if i = 2 then 1 else if i = 1 then 2 else 0
  let packed := (List.range (3 - i)).foldl (fun (packed : UInt32) _ => packed <<< 8) packed
  [base64Char (packed >>> 18), base64Char ((packed >>> 12) &&& 0x3f)]
    ++ (if padding ≠ 2 then [base64Char ((packed >>> 6) &&& 0x3f)] else [])
    ++ (if padding = 0 then [base64Char (packed &&& 0x3f)] else [])
    ++ List.replicate padding 61

/-- `base64encode`. -/
def base64encode : List UInt8 → List UInt8
  | a :: b :: c :: data => base64Round [a, b, c] ++ base64encode data
  | [a, b] => base64Round [a, b]
  | [a] => base64Round [a]
  | [] => []

end YkServer
