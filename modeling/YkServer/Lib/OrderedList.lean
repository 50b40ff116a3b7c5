import Mathlib.Order.Lattice
import Mathlib.Data.List.Basic

/-!
# Lists Ordered by a Key

A list whose elements have strictly increasing keys, as the elements of a set that
is searched by key. The place of a key is the number of elements in front of it,
which is where a search for the key ends.

## Main definitions

* `Ordered`: The keys increase.
* `place`: How many elements are in front of a key.

## Theorems

* `scan_prefix`: A scan for as long as a test holds.
* `getElem?_place`: An element is found at its place.
* `place_absent`: What is found at the place of a key that no element has.
* `ordered_insertIdx`: An element is inserted at its place.
* `mem_eraseIdx_place`: An element is erased at its place.
-/

namespace Lib

variable {α κ : Type} [LinearOrder κ]

/-- The keys of the elements increase. -/
def Ordered (key : α → κ) (l : List α) : Prop := l.Pairwise (fun a b => key a < key b)

/-- A test that, in a list, holds of an element only if it holds of those in front of
    it: the elements it holds of are the ones a scan takes. -/
theorem scan_prefix (P : α → Bool) (l : List α)
    (hmono : l.Pairwise (fun a b => P b = true → P a = true)) :
    (∀ a ∈ l.take (l.takeWhile P).length, P a = true) ∧
      ∀ a ∈ l.drop (l.takeWhile P).length, P a = false := by
  induction l with
  | nil => exact ⟨fun a ha => absurd ha List.not_mem_nil, fun a ha => absurd ha List.not_mem_nil⟩
  | cons x l ih =>
      rcases List.pairwise_cons.1 hmono with ⟨hhead, htail⟩
      by_cases hx : P x = true
      · rw [List.takeWhile_cons_of_pos hx, List.length_cons, List.take_succ_cons,
          List.drop_succ_cons]
        refine ⟨?_, (ih htail).2⟩
        intro a ha
        rcases List.mem_cons.1 ha with rfl | hmem
        · exact hx
        · exact (ih htail).1 a hmem
      · -- The scan stops at the first element, and the test holds of none behind it.
        rw [List.takeWhile_cons_of_neg hx, List.length_nil, List.take_zero, List.drop_zero]
        refine ⟨fun a ha => absurd ha List.not_mem_nil, ?_⟩
        intro a ha
        rcases List.mem_cons.1 ha with rfl | hmem
        · exact Bool.eq_false_iff.2 hx
        · exact Bool.eq_false_iff.2 (fun hP => hx (hhead a hmem hP))

/-- How many elements are in front of a key. -/
def place (key : α → κ) (k : κ) (l : List α) : Nat :=
  (l.takeWhile (fun a => decide (key a < k))).length

theorem place_cons_of_lt (key : α → κ) (k : κ) (a : α) (l : List α) (h : key a < k) :
    place key k (a :: l) = place key k l + 1 := by
  unfold place
  rw [List.takeWhile_cons_of_pos (by rw [decide_eq_true_eq]; exact h), List.length_cons]

theorem place_cons_of_ge (key : α → κ) (k : κ) (a : α) (l : List α) (h : ¬key a < k) :
    place key k (a :: l) = 0 := by
  unfold place
  rw [List.takeWhile_cons_of_neg (by rw [decide_eq_true_eq]; exact h), List.length_nil]

theorem place_le_length (key : α → κ) (k : κ) (l : List α) : place key k l ≤ l.length := by
  unfold place
  exact (List.takeWhile_sublist _).length_le

/-- The order depends on the keys of the elements only. -/
theorem ordered_congr (key key' : α → κ) (l : List α) (h : ∀ a ∈ l, key a = key' a) :
    Ordered key l ↔ Ordered key' l := by
  unfold Ordered
  constructor
  · intro hl
    refine hl.imp_of_mem ?_
    intro a b ha hb hlt
    rw [← h a ha, ← h b hb]
    exact hlt
  · intro hl
    refine hl.imp_of_mem ?_
    intro a b ha hb hlt
    rw [h a ha, h b hb]
    exact hlt

theorem Ordered.nodup {key : α → κ} {l : List α} (h : Ordered key l) : l.Nodup := by
  refine List.Pairwise.imp ?_ h
  intro a b hlt heq
  rw [heq] at hlt
  exact lt_irrefl _ hlt

/-- An element is found at its place. -/
theorem getElem?_place (key : α → κ) (l : List α) (h : Ordered key l) (x : α) (hx : x ∈ l) :
    l[place key (key x) l]? = some x := by
  induction l with
  | nil => exact absurd hx List.not_mem_nil
  | cons a l ih =>
      rcases List.pairwise_cons.1 h with ⟨hhead, htail⟩
      rcases List.mem_cons.1 hx with rfl | hmem
      · rw [place_cons_of_ge key _ x l (lt_irrefl _)]
        rfl
      · -- What stands before the element has a smaller key, and is skipped.
        rw [place_cons_of_lt key _ a l (hhead x hmem), List.getElem?_cons_succ]
        exact ih htail hmem

/-- Behind the place of a key that no element has, the keys are greater. -/
theorem place_absent (key : α → κ) (k : κ) (l : List α) (habs : ∀ a ∈ l, key a ≠ k) (q : α)
    (hq : l[place key k l]? = some q) : k < key q := by
  induction l with
  | nil => cases hq
  | cons a l ih =>
      by_cases hlt : key a < k
      · rw [place_cons_of_lt key k a l hlt, List.getElem?_cons_succ] at hq
        exact ih (fun b hb => habs b (List.mem_cons_of_mem _ hb)) hq
      · rw [place_cons_of_ge key k a l hlt, List.getElem?_cons_zero, Option.some.injEq] at hq
        rw [← hq]
        exact lt_of_le_of_ne (not_lt.1 hlt) (Ne.symm (habs a List.mem_cons_self))

/-- An element with a new key is inserted at its place. -/
theorem ordered_insertIdx (key : α → κ) (l : List α) (h : Ordered key l) (x : α)
    (habs : ∀ a ∈ l, key a ≠ key x) : Ordered key (l.insertIdx (place key (key x) l) x) := by
  induction l with
  | nil => exact List.pairwise_singleton _ x
  | cons a l ih =>
      rcases List.pairwise_cons.1 h with ⟨hhead, htail⟩
      have habs' : ∀ b ∈ l, key b ≠ key x := fun b hb => habs b (List.mem_cons_of_mem _ hb)
      by_cases hlt : key a < key x
      · rw [place_cons_of_lt key _ a l hlt, List.insertIdx_succ_cons]
        refine List.pairwise_cons.2 ⟨?_, ih htail habs'⟩
        intro b hb
        rcases (List.mem_insertIdx (place_le_length key _ l)).1 hb with rfl | hmem
        · exact hlt
        · exact hhead b hmem
      · -- The first key that is not smaller: the element comes in front of it and all behind it.
        rw [place_cons_of_ge key _ a l hlt, List.insertIdx_zero]
        refine List.pairwise_cons.2 ⟨?_, h⟩
        have hxa : key x < key a :=
          lt_of_le_of_ne (not_lt.1 hlt) (Ne.symm (habs a List.mem_cons_self))
        intro b hb
        rcases List.mem_cons.1 hb with rfl | hmem
        · exact hxa
        · exact lt_trans hxa (hhead b hmem)

/-- The place of a key is the front exactly if no element is in front of it. -/
theorem place_eq_zero (key : α → κ) (k : κ) (l : List α) (h : Ordered key l) :
    place key k l = 0 ↔ ∀ a ∈ l, ¬key a < k := by
  cases l with
  | nil =>
      refine ⟨fun _ a ha => absurd ha List.not_mem_nil, fun _ => rfl⟩
  | cons a l =>
      by_cases hlt : key a < k
      · rw [place_cons_of_lt key k a l hlt]
        refine ⟨fun hno => absurd hno (Nat.succ_ne_zero _), fun hall => ?_⟩
        exact absurd hlt (hall a List.mem_cons_self)
      · rw [place_cons_of_ge key k a l hlt]
        refine ⟨fun _ b hb => ?_, fun _ => rfl⟩
        rcases List.mem_cons.1 hb with rfl | hmem
        · exact hlt
        · exact fun hb' => hlt (lt_trans ((List.pairwise_cons.1 h).1 b hmem) hb')

/-- Erasing at the place of an element takes that element out and no other. -/
theorem mem_eraseIdx_place (key : α → κ) (l : List α) (h : Ordered key l) (x : α) (hx : x ∈ l)
    (y : α) : y ∈ l.eraseIdx (place key (key x) l) ↔ y ∈ l ∧ y ≠ x := by
  induction l with
  | nil => exact absurd hx List.not_mem_nil
  | cons a l ih =>
      rcases List.pairwise_cons.1 h with ⟨hhead, htail⟩
      rcases List.mem_cons.1 hx with rfl | hmem
      · rw [place_cons_of_ge key _ x l (lt_irrefl _), List.eraseIdx_cons_zero]
        -- The keys increase, so the element is in the list once.
        have hnot : x ∉ l := fun hno => lt_irrefl _ (hhead x hno)
        constructor
        · intro hy
          exact ⟨List.mem_cons_of_mem _ hy, fun heq => hnot (heq ▸ hy)⟩
        · rintro ⟨hy, hne⟩
          exact (List.mem_cons.1 hy).resolve_left hne
      · rw [place_cons_of_lt key _ a l (hhead x hmem), List.eraseIdx_cons_succ, List.mem_cons,
          ih htail hmem, List.mem_cons]
        have hax : a ≠ x := fun heq => lt_irrefl _ (heq ▸ hhead x hmem)
        constructor
        · rintro (rfl | ⟨hy, hne⟩)
          · exact ⟨Or.inl rfl, hax⟩
          · exact ⟨Or.inr hy, hne⟩
        · rintro ⟨rfl | hy, hne⟩
          · exact Or.inl rfl
          · exact Or.inr ⟨hy, hne⟩

end Lib
