import Mathlib.Data.List.Basic
import Mathlib.Data.List.Perm.Basic

/-!
# Tables of Parties

The parties of a system as a list, each known by its place, and what a step may do to
such a table: a new party comes at the end, the entry of one party is replaced, or
one entry goes away. A view is what an invariant looks at in an entry; a step that
leaves the view of the entry it replaces leaves the view of the table.

## Theorems

* `getElem?_update`, `update_cases`, `cases_update`: Replacing an entry.
* `getElem?_concat_eq_some`: A new party.
* `at_or_mem_eraseIdx`, `at_or_mem_set`: Every entry but the one at a place stays.
* `count_eraseIdx`: Counting the others.
* `view_update`: Views.
-/

namespace Lib

variable {α β : Type}

/-- The entry of one party is replaced. -/
theorem getElem?_update (l : List α) (i : Nat) (a a' : α) (h : l[i]? = some a) (j : Nat) :
    (l.set i a')[j]? = if j = i then some a' else l[j]? := by
  rw [List.getElem?_set]
  by_cases hj : j = i
  · rw [if_pos hj, if_pos hj.symm, if_pos (List.getElem?_eq_some_iff.1 h).1]
  · rw [if_neg hj, if_neg (fun heq => hj heq.symm)]

/-- An entry behind the update is the new one or was there before. -/
theorem update_cases (l : List α) (i : Nat) (a a' : α) (h : l[i]? = some a) (j : Nat) (b : α)
    (hb : (l.set i a')[j]? = some b) : j = i ∧ b = a' ∨ j ≠ i ∧ l[j]? = some b := by
  rw [getElem?_update l i a a' h] at hb
  by_cases hj : j = i
  · rw [if_pos hj, Option.some.injEq] at hb
    exact Or.inl ⟨hj, hb.symm⟩
  · rw [if_neg hj] at hb
    exact Or.inr ⟨hj, hb⟩

/-- An entry from before is the one that is replaced or is still there. -/
theorem cases_update (l : List α) (i : Nat) (a a' : α) (h : l[i]? = some a) (j : Nat) (b : α)
    (hb : l[j]? = some b) :
    b = a ∧ (l.set i a')[j]? = some a' ∨ j ≠ i ∧ (l.set i a')[j]? = some b := by
  rw [getElem?_update l i a a' h]
  by_cases hj : j = i
  · rw [hj, h, Option.some.injEq] at hb
    exact Or.inl ⟨hb.symm, if_pos hj⟩
  · exact Or.inr ⟨hj, (if_neg hj).trans hb⟩

/-- A new party comes at the end. -/
theorem getElem?_concat_eq_some (l : List α) (a b : α) (j : Nat) (h : (l ++ [a])[j]? = some b) :
    l[j]? = some b ∨ j = l.length ∧ b = a := by
  rw [List.getElem?_append] at h
  split at h
  · exact Or.inl h
  · right
    -- There is only one place behind the table.
    rcases hj : j - l.length with _ | n
    · rw [hj, List.getElem?_cons_zero, Option.some.injEq] at h
      exact ⟨by omega, h.symm⟩
    · rw [hj] at h
      cases h

/-- The parties that were there stay where they are. -/
theorem getElem?_concat_of_some (l : List α) (a b : α) (j : Nat) (h : l[j]? = some b) :
    (l ++ [a])[j]? = some b := by
  rw [List.getElem?_append_left (List.getElem?_eq_some_iff.1 h).1]
  exact h

/-- What is in a table is at a place or stays when the entry there goes away. -/
theorem at_or_mem_eraseIdx (l : List α) (k : Nat) (x : α) (h : x ∈ l) :
    l[k]? = some x ∨ x ∈ l.eraseIdx k := by
  rcases List.mem_iff_getElem?.1 h with ⟨n, hn⟩
  by_cases hnk : n = k
  · rw [← hnk]
    exact Or.inl hn
  · exact Or.inr (List.mem_eraseIdx_iff_getElem?.2 ⟨n, hnk, hn⟩)

/-- How often a view occurs when an entry goes away. -/
theorem count_eraseIdx [DecidableEq β] (view : α → β) (l : List α) (k : Nat) (x : α)
    (h : l[k]? = some x) (b : β) :
    (l.map view).count b = ((l.eraseIdx k).map view).count b + if view x = b then 1 else 0 := by
  rcases List.getElem?_eq_some_iff.1 h with ⟨hk, hx⟩
  have hperm := ((List.getElem_cons_eraseIdx_perm hk).map view).count_eq b
  rw [hx, List.map_cons, List.count_cons] at hperm
  rw [← hperm]
  simp only [beq_iff_eq]

/-- The same when the entry there is replaced. -/
theorem at_or_mem_set (l : List α) (k : Nat) (x y : α) (h : x ∈ l) :
    l[k]? = some x ∨ x ∈ l.set k y := by
  rcases List.mem_iff_getElem?.1 h with ⟨n, hn⟩
  by_cases hnk : n = k
  · rw [← hnk]
    exact Or.inl hn
  · refine Or.inr (List.mem_iff_getElem?.2 ⟨n, ?_⟩)
    rw [List.getElem?_set_ne (fun heq => hnk heq.symm)]
    exact hn

/-- The new entry is in the table. -/
theorem mem_set_self (l : List α) (k : Nat) (x y : α) (h : l[k]? = some x) : y ∈ l.set k y :=
  List.mem_iff_getElem?.2 ⟨k, List.getElem?_set_self (List.getElem?_eq_some_iff.1 h).1⟩

/-- A view that the new entry shares with the old one. -/
theorem view_update (view : α → β) (l : List α) (i : Nat) (a a' : α) (h : l[i]? = some a)
    (hview : view a' = view a) (j : Nat) : (l.set i a')[j]?.map view = l[j]?.map view := by
  rw [getElem?_update l i a a' h]
  by_cases hj : j = i
  · rw [if_pos hj, hj, h, Option.map_some, Option.map_some, hview]
  · rw [if_neg hj]

/-- An entry with a view that was there before. -/
theorem exists_of_view (view : α → β) (l l' : List α) (j : Nat) (b : α)
    (hview : l'[j]?.map view = l[j]?.map view) (h : l'[j]? = some b) :
    ∃ a, l[j]? = some a ∧ view a = view b := by
  rw [h, Option.map_some] at hview
  exact Option.map_eq_some_iff.1 hview.symm

end Lib
