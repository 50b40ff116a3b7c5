import Mathlib.Algebra.Order.BigOperators.Group.List
import Mathlib.Algebra.Order.Ring.Nat

/-!
# Weights of Parties

The parties of a system as a list, and what they hold of some resource as a number for
each. A conservation law says that what is free and the sum of what is held stays the
same. `sum_set` is what the step of one party does to that sum, and the other lemmas
say what the sum has to do with single parties.

## Theorems

* `sum_set`, `sum_concat`: A party changes, a party comes.
* `le_sum`, `add_le_sum`: What one party holds, or two.
* `sum_le_except`: Two ways to count, and one party that makes the difference.
* `sum_toNat`, `countP_le_sum`: Parties that hold one, or at least one.
* `flatMap_set`, `flatMap_alone`: What the parties have in their hands.
-/

namespace Lib

variable {α β : Type}

/-- One party goes from holding `f a` to holding `f b`. -/
theorem sum_set (f : α → Nat) (l : List α) (i : Nat) (a b : α) (h : l[i]? = some a) :
    ((l.set i b).map f).sum + f a = (l.map f).sum + f b := by
  induction l generalizing i with
  | nil => cases h
  | cons c cs ih =>
      cases i with
      | zero =>
          rw [List.getElem?_cons_zero, Option.some.injEq] at h
          rw [List.set_cons_zero, List.map_cons, List.map_cons, List.sum_cons, List.sum_cons, h]
          omega
      | succ i =>
          rw [List.getElem?_cons_succ] at h
          have hrest := ih i h
          rw [List.set_cons_succ, List.map_cons, List.map_cons, List.sum_cons, List.sum_cons]
          omega

theorem sum_concat (f : α → Nat) (l : List α) (a : α) :
    ((l ++ [a]).map f).sum = (l.map f).sum + f a := by
  rw [List.map_append, List.sum_append, List.map_singleton, List.sum_singleton]

theorem le_sum (f : α → Nat) (l : List α) (a : α) (h : a ∈ l) : f a ≤ (l.map f).sum :=
  List.le_sum_of_mem (List.mem_map_of_mem h)

/-- Two parties that are not the same. -/
theorem add_le_sum (f : α → Nat) (l : List α) (a b : α) (ha : a ∈ l) (hb : b ∈ l) (hne : a ≠ b) :
    f a + f b ≤ (l.map f).sum := by
  induction l with
  | nil => exact absurd ha List.not_mem_nil
  | cons c cs ih =>
      rw [List.map_cons, List.sum_cons]
      rcases List.mem_cons.1 ha with rfl | hacs
      · rcases List.mem_cons.1 hb with rfl | hbcs
        · exact absurd rfl hne
        · have hle := le_sum f cs b hbcs
          omega
      · rcases List.mem_cons.1 hb with rfl | hbcs
        · have hle := le_sum f cs a hacs
          omega
        · have hle := ih hacs hbcs
          omega

/-- Every party counts at most for `g`, and one of them for less. -/
theorem sum_le_except (f g : α → Nat) (l : List α) (i : Nat) (a : α) (h : l[i]? = some a)
    (hle : ∀ x, f x ≤ g x) : (l.map f).sum + g a ≤ (l.map g).sum + f a := by
  induction l generalizing i with
  | nil => cases h
  | cons c cs ih =>
      rw [List.map_cons, List.map_cons, List.sum_cons, List.sum_cons]
      cases i with
      | zero =>
          rw [List.getElem?_cons_zero, Option.some.injEq] at h
          have hrest : (cs.map f).sum ≤ (cs.map g).sum :=
            List.sum_le_sum (fun x _ => hle x)
          rw [h]
          omega
      | succ i =>
          rw [List.getElem?_cons_succ] at h
          have hrest := ih i h
          have hc := hle c
          omega

/-- Parties that count for one or for nothing. -/
theorem sum_toNat (p : α → Bool) (l : List α) :
    (l.map (fun x => (p x).toNat)).sum = l.countP p := by
  induction l with
  | nil => rfl
  | cons c cs ih =>
      rw [List.map_cons, List.sum_cons, List.countP_cons, ih]
      cases p c
      · exact Nat.zero_add _
      · exact Nat.add_comm _ _

theorem countP_le_sum (p : α → Bool) (f : α → Nat) (l : List α)
    (h : ∀ x, p x = true → 1 ≤ f x) : l.countP p ≤ (l.map f).sum := by
  induction l with
  | nil => exact Nat.le_refl 0
  | cons c cs ih =>
      rw [List.countP_cons, List.map_cons, List.sum_cons]
      by_cases hc : p c = true
      · have hone := h c hc
        rw [if_pos hc]
        omega
      · rw [if_neg hc]
        omega

/-! ## What parties have in their hands -/

/-- A party goes on with the same things. -/
theorem flatMap_set (g : α → List β) (l : List α) (i : Nat) (a b : α) (h : l[i]? = some a)
    (hg : g b = g a) : (l.set i b).flatMap g = l.flatMap g := by
  induction l generalizing i with
  | nil => cases h
  | cons c cs ih =>
      cases i with
      | zero =>
          rw [List.getElem?_cons_zero, Option.some.injEq] at h
          rw [List.set_cons_zero, List.flatMap_cons, List.flatMap_cons, hg, h]
      | succ i =>
          rw [List.getElem?_cons_succ] at h
          rw [List.set_cons_succ, List.flatMap_cons, List.flatMap_cons, ih i h]

theorem flatMap_nil_of_sum (f : α → Nat) (g : α → List β) (hnone : ∀ x, f x = 0 → g x = [])
    (l : List α) (h : (l.map f).sum = 0) : l.flatMap g = [] := by
  rw [List.flatMap_eq_nil_iff]
  intro x hx
  have hle := le_sum f l x hx
  exact hnone x (by omega)

/-- Only one party has anything. -/
theorem flatMap_alone (f : α → Nat) (g : α → List β) (hnone : ∀ x, f x = 0 → g x = [])
    (l : List α) (i : Nat) (a : α) (h : l[i]? = some a) (hsum : (l.map f).sum ≤ f a) :
    l.flatMap g = g a := by
  induction l generalizing i with
  | nil => cases h
  | cons c cs ih =>
      rw [List.map_cons, List.sum_cons] at hsum
      rw [List.flatMap_cons]
      cases i with
      | zero =>
          rw [List.getElem?_cons_zero, Option.some.injEq] at h
          rw [h] at hsum ⊢
          rw [flatMap_nil_of_sum f g hnone cs (by omega), List.append_nil]
      | succ i =>
          rw [List.getElem?_cons_succ] at h
          have hle := le_sum f cs a (List.mem_of_getElem? h)
          -- The party is further behind, so the first one weighs nothing.
          rw [ih i h (by omega), hnone c (by omega), List.nil_append]

end Lib
