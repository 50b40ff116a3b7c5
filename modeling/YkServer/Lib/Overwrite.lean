import Mathlib.Data.List.Basic
import Mathlib.Tactic.Ring

/-!
# Overwriting a Range, and Memory in Blocks

A byte memory is a list, and storing into it replaces a range. `overwrite` is
that operation, and the lemmas here are what a store that is carried out piece
by piece needs: a store into the right half of a concatenation touches only
that half, and a store that crosses the boundary is one store into each half.

The second half is about memory kept as a list of blocks of one size. The
blocks laid end to end are the memory, and address `a` lies in block `a / b`
at offset `a % b`. Dropping whole blocks drops their bytes, which is all that
is needed to move between a walk along the blocks and a range of the memory.

## Main definitions

* `overwrite`: Replace a range of a list.

## Theorems

* `length_overwrite`: A store inside the memory keeps its length.
* `overwrite_append_left`, `overwrite_append_right`: Stores into one half.
* `overwrite_across`: A store across a boundary.
* `overwrite_twice`: A store right behind another one.
* `take_drop_overwrite`: The stored range reads back.
* `take_drop_overwrite_behind`: So does one with what was stored in front of it.
* `getElem?_overwrite_of_lt`, `getElem?_overwrite_of_ge`: Everything else is
  untouched.
* `length_flatten_blocks`: The size of a memory in blocks.
* `drop_flatten_blocks`: Dropping blocks drops their bytes.
-/

namespace Lib

variable {α : Type}

/-- The list with the range that starts at `pos` replaced by `xs`. -/
def overwrite (l : List α) (pos : Nat) (xs : List α) : List α :=
  l.take pos ++ xs ++ l.drop (pos + xs.length)

theorem length_overwrite (l : List α) (pos : Nat) (xs : List α)
    (h : pos + xs.length ≤ l.length) : (overwrite l pos xs).length = l.length := by
  simp only [overwrite, List.length_append, List.length_take, List.length_drop]
  omega

theorem overwrite_nil (l : List α) (pos : Nat) : overwrite l pos [] = l := by
  simp only [overwrite, List.append_nil, List.length_nil, Nat.add_zero, List.take_append_drop]

/-- A store over everything. -/
theorem overwrite_all (l xs : List α) (h : l.length = xs.length) : overwrite l 0 xs = xs := by
  rw [overwrite, List.take_zero, List.nil_append, List.drop_of_length_le (by omega),
    List.append_nil]

/-- A store that fits in the left half leaves the right half alone. -/
theorem overwrite_append_left (l r : List α) (pos : Nat) (xs : List α)
    (h : pos + xs.length ≤ l.length) :
    overwrite (l ++ r) pos xs = overwrite l pos xs ++ r := by
  simp only [overwrite]
  rw [List.take_append_of_le_length (by omega), List.drop_append_of_le_length h]
  simp only [List.append_assoc]

/-- A store past the left half is a store into the right half. -/
theorem overwrite_append_right (l r : List α) (pos : Nat) (xs : List α) :
    overwrite (l ++ r) (l.length + pos) xs = l ++ overwrite r pos xs := by
  simp only [overwrite]
  rw [List.take_length_add_append, Nat.add_assoc, List.drop_length_add_append]
  simp only [List.append_assoc]

/-- A store across the boundary fills the left half up and goes on at the
    start of the right one. -/
theorem overwrite_across (l r : List α) (pos : Nat) (xs ys : List α)
    (h : pos + xs.length = l.length) :
    overwrite (l ++ r) pos (xs ++ ys) = overwrite l pos xs ++ overwrite r 0 ys := by
  simp only [overwrite, List.length_append, List.take_zero, List.nil_append, Nat.zero_add]
  -- The range ends where the left half does, so nothing of it survives the drop.
  have hdrop : pos + (xs.length + ys.length) = l.length + ys.length := by omega
  rw [hdrop, List.drop_length_add_append, List.take_append_of_le_length (by omega),
    List.drop_of_length_le (by omega : l.length ≤ pos + xs.length)]
  simp only [List.append_assoc, List.nil_append]

theorem take_drop_overwrite (l : List α) (pos : Nat) (xs : List α) (h : pos ≤ l.length) :
    ((overwrite l pos xs).drop pos).take xs.length = xs := by
  have hlen : (l.take pos).length = pos := by
    rw [List.length_take]
    omega
  simp only [overwrite, List.append_assoc]
  rw [List.drop_append, hlen, Nat.sub_self, List.drop_of_length_le (by omega), List.nil_append,
    List.drop_zero, List.take_append_of_le_length (le_refl _), List.take_length]

/-- A store leaves everything before its range alone. -/
theorem getElem?_overwrite_of_lt (l : List α) (pos i : Nat) (xs : List α)
    (hpos : pos ≤ l.length) (hi : i < pos) : (overwrite l pos xs)[i]? = l[i]? := by
  have hlen : i < (l.take pos).length := by
    rw [List.length_take]
    omega
  simp only [overwrite, List.append_assoc]
  rw [List.getElem?_append_left hlen, List.getElem?_take_of_lt hi]

/-- A store leaves everything past its range alone. -/
theorem getElem?_overwrite_of_ge (l : List α) (pos i : Nat) (xs : List α)
    (hpos : pos ≤ l.length) (hi : pos + xs.length ≤ i) :
    (overwrite l pos xs)[i]? = l[i]? := by
  -- The kept prefix and the stored bytes end exactly where the range does.
  have hlen : (l.take pos ++ xs).length = pos + xs.length := by
    rw [List.length_append, List.length_take]
    omega
  simp only [overwrite]
  rw [List.getElem?_append_right (by omega), hlen, List.getElem?_drop]
  congr 1
  omega

/-- The part before the store and the stored bytes, read together. -/
theorem take_overwrite (l : List α) (pos : Nat) (xs : List α) (h : pos ≤ l.length) :
    (overwrite l pos xs).take (pos + xs.length) = l.take pos ++ xs := by
  have hlen : (l.take pos ++ xs).length = pos + xs.length := by
    rw [List.length_append, List.length_take]
    omega
  simp only [overwrite]
  rw [List.take_append_of_le_length (by omega), ← hlen, List.take_length]

/-- A store right behind another one. -/
theorem overwrite_twice (l : List α) (pos : Nat) (xs ys : List α) (h : pos ≤ l.length) :
    overwrite (overwrite l pos xs) (pos + xs.length) ys = overwrite l pos (xs ++ ys) := by
  have hlen : (l.take pos ++ xs).length = pos + xs.length := by
    rw [List.length_append, List.length_take]
    omega
  have hdrop : (overwrite l pos xs).drop (pos + xs.length + ys.length) =
      l.drop (pos + (xs.length + ys.length)) := by
    rw [overwrite, ← hlen, List.drop_length_add_append, List.drop_drop, hlen, Nat.add_assoc]
  rw [overwrite, take_overwrite l pos xs h, hdrop, overwrite, List.length_append]
  simp only [List.append_assoc]

/-- A store right behind bytes that are known leaves both readable as one range. -/
theorem take_drop_overwrite_behind (l : List α) (p : Nat) (bs xs : List α)
    (hp : p + bs.length ≤ l.length) (h : (l.drop p).take bs.length = bs) :
    ((overwrite l (p + bs.length) xs).drop p).take (bs ++ xs).length = bs ++ xs := by
  have hlen : p ≤ (l.take (p + bs.length)).length := by
    rw [List.length_take]
    omega
  -- The range is what the memory up to the end of the store holds from `p` on.
  rw [List.take_drop, List.length_append, ← Nat.add_assoc, take_overwrite l _ xs hp,
    List.drop_append_of_le_length hlen, List.drop_take, Nat.add_sub_cancel_left, h]

/-! ## Blocks of one size -/

theorem length_flatten_blocks (b : Nat) (bs : List (List α)) (h : ∀ x ∈ bs, x.length = b) :
    bs.flatten.length = bs.length * b := by
  induction bs with
  | nil => simp only [List.flatten_nil, List.length_nil, Nat.zero_mul]
  | cons x xs ih =>
      -- Each block adds its own size.
      have hx : x.length = b := h x List.mem_cons_self
      have hxs := ih (fun y hy => h y (List.mem_cons_of_mem x hy))
      rw [List.flatten_cons, List.length_append, hx, hxs, List.length_cons]
      ring

/-- Dropping whole blocks drops their bytes. -/
theorem drop_flatten_blocks (b : Nat) (bs : List (List α)) (h : ∀ x ∈ bs, x.length = b)
    (i : Nat) (hi : i ≤ bs.length) : (bs.drop i).flatten = bs.flatten.drop (i * b) := by
  have htake : (bs.take i).flatten.length = i * b := by
    rw [length_flatten_blocks b _ (fun x hx => h x (List.mem_of_mem_take hx)), List.length_take,
      Nat.min_eq_left hi]
  -- The dropped blocks are a prefix of the bytes, of `i * b` of them.
  have hsplit : bs.flatten = (bs.take i).flatten ++ (bs.drop i).flatten := by
    rw [← List.flatten_append, List.take_append_drop]
  rw [hsplit, ← htake, List.drop_left]

end Lib
