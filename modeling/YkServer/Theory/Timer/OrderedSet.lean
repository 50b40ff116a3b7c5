import YkServer.Core.Timer
import YkServer.Lib.OrderedList
import Mathlib.Data.Prod.Lex

/-!
# The Set of Timers

What searching, erasing, inserting and writing do to a set that is in order. The
comparator orders timers by deadline and then by address, which is the
lexicographic order of pairs of numbers, so the set is a list ordered by a key.

## Main definitions

* `TimerManager.rank`: Deadline and address of a timer.
* `TimerManager.Sorted`: The set is in order.

## Theorems

* `find_mem`: Searching.
* `erase_found`: Searching a timer and erasing it.
* `insert_spec`: Inserting one.
* `store_in`, `store_out`: Writing one.
-/

namespace YkServer

open Lib

/-- A key of the comparator as a pair of numbers in lexicographic order. -/
def rankOf (k : UInt64 × Nat) : ℕ ×ₗ ℕ := toLex (k.1.toNat, k.2)

theorem comparator_eq (a b : UInt64 × Nat) : comparator a b = decide (rankOf a < rankOf b) := by
  have hlex : rankOf a < rankOf b ↔ a.1 < b.1 ∨ a.1 = b.1 ∧ a.2 < b.2 := by
    rw [rankOf, rankOf, Prod.Lex.toLex_lt_toLex, UInt64.lt_iff_toNat_lt, ← UInt64.toNat_inj]
  unfold comparator
  by_cases hlt : a.1 < b.1
  · rw [if_pos hlt, eq_comm, decide_eq_true_eq, hlex]
    exact Or.inl hlt
  · -- Equal deadlines: the comparator goes on to the addresses.
    rw [if_neg hlt]
    by_cases hgt : b.1 < a.1
    · rw [if_pos hgt, eq_comm, decide_eq_false_iff_not, hlex]
      rintro (hno | ⟨heq, -⟩)
      · exact hlt hno
      · rw [heq] at hgt
        exact UInt64.lt_irrefl _ hgt
    · rw [if_neg hgt, decide_eq_decide, hlex]
      have heq : a.1 = b.1 := UInt64.le_antisymm (UInt64.not_lt.1 hgt) (UInt64.not_lt.1 hlt)
      exact ⟨fun h => Or.inr ⟨heq, h⟩, fun h => (h.resolve_left hlt).2⟩

namespace TimerManager

/-- Deadline and address of a timer. -/
def rank (s : TimerManager) (p : Nat) : ℕ ×ₗ ℕ := rankOf (s.key p)

/-- The set is strictly ordered. -/
def Sorted (s : TimerManager) : Prop := Ordered s.rank s.timers

theorem lowerBound_eq (s : TimerManager) (k : UInt64 × Nat) :
    s.lowerBound k = place s.rank (rankOf k) s.timers := by
  unfold lowerBound place rank
  simp only [comparator_eq]

/-- Timers are told apart by their addresses. -/
theorem rank_injective (s : TimerManager) (p q : Nat) (h : s.rank p = s.rank q) : p = q :=
  congrArg (fun r => (ofLex r).2) h

/-- Different timers have different keys. -/
theorem rank_absent (s : TimerManager) (p : Nat) (hp : p ∉ s.timers) :
    ∀ q ∈ s.timers, s.rank q ≠ s.rank p := by
  intro q hq heq
  rw [s.rank_injective q p heq] at hq
  exact hp hq

/-- What the comparator sees depends on the object alone. -/
theorem rank_congr (s s' : TimerManager) (p : Nat) (h : s'.heap p = s.heap p) :
    s'.rank p = s.rank p := by
  simp only [rank, key, h]

/-! ## Searching -/

theorem find_mem (s : TimerManager) (h : s.Sorted) (p : Nat) (hp : p ∈ s.timers) :
    find p s = .ok (some (place s.rank (s.rank p) s.timers)) s := by
  have hat : s.timers[s.lowerBound (s.key p)]? = some p := by
    rw [lowerBound_eq]
    exact getElem?_place s.rank s.timers h p hp
  -- What stands at the lower bound is the timer itself, which is not above its own key.
  have hself : comparator (s.key p) (s.key p) = false := by
    rw [comparator_eq, decide_eq_false_iff_not]
    exact lt_irrefl _
  simp only [find, hat, hself, Bool.false_eq_true, if_false]
  rw [lowerBound_eq, rank]

/-- The set without a timer. -/
def without (s : TimerManager) (p : Nat) : TimerManager :=
  { s with timers := s.timers.eraseIdx (place s.rank (s.rank p) s.timers) }

theorem sorted_without (s : TimerManager) (h : s.Sorted) (p : Nat) : (s.without p).Sorted :=
  List.Pairwise.sublist (List.eraseIdx_sublist _ _) h

theorem mem_without (s : TimerManager) (h : s.Sorted) (p : Nat) (hp : p ∈ s.timers) (q : Nat) :
    q ∈ (s.without p).timers ↔ q ∈ s.timers ∧ q ≠ p :=
  mem_eraseIdx_place s.rank s.timers h p hp q

theorem erase_found (s : TimerManager) (p : Nat) :
    erase (some (place s.rank (s.rank p) s.timers)) s = .ok () (s.without p) := rfl

/-! ## Writing -/

/-- The heap with another object at an address. -/
def withTimer (s : TimerManager) (p : Nat) (t : Timer) : TimerManager :=
  { s with heap := Function.update s.heap p (some t) }

theorem heap_withTimer (s : TimerManager) (p q : Nat) (t : Timer) :
    (s.withTimer p t).heap q = if q = p then some t else s.heap q := by
  exact Function.update_apply s.heap p (some t) q

/-- Writing a timer that is not in the set keeps the order. -/
theorem sorted_withTimer (s : TimerManager) (h : s.Sorted) (p : Nat) (t : Timer)
    (hp : p ∉ s.timers) : (s.withTimer p t).Sorted := by
  refine (ordered_congr s.rank (s.withTimer p t).rank s.timers ?_).1 h
  intro q hq
  refine (rank_congr s (s.withTimer p t) q ?_).symm
  rw [heap_withTimer, if_neg]
  rintro rfl
  exact hp hq

theorem store_out (s : TimerManager) (p : Nat) (t t' : Timer) (hheap : s.heap p = some t')
    (hp : p ∉ s.timers) : store p t s = .ok () (s.withTimer p t) := by
  simp only [store, hheap, hp, false_and, if_false]
  rfl

/-- A timer in the set may be written if its deadline stays. -/
theorem store_in (s : TimerManager) (p : Nat) (t t' : Timer) (hheap : s.heap p = some t')
    (hnext : t.next = t'.next) : store p t s = .ok () (s.withTimer p t) := by
  simp only [store, hheap, hnext, ne_eq, not_true_eq_false, and_false, if_false]
  rfl

/-- The keys are the same after that. -/
theorem rank_withTimer (s : TimerManager) (p : Nat) (t t' : Timer) (hheap : s.heap p = some t')
    (hnext : t.next = t'.next) : (s.withTimer p t).rank = s.rank := by
  funext q
  by_cases hq : q = p
  · subst hq
    simp only [rank, key, heap_withTimer, if_true, hheap, hnext]
  · refine rank_congr s (s.withTimer p t) q ?_
    rw [heap_withTimer, if_neg hq]

theorem load_some (s : TimerManager) (p : Nat) (t : Timer) (h : s.heap p = some t) :
    load p s = .ok t s := by
  simp only [load, h]

/-! ## Inserting -/

/-- The set with a timer. -/
def plus (s : TimerManager) (p : Nat) : TimerManager :=
  { s with timers := s.timers.insertIdx (place s.rank (s.rank p) s.timers) p }

theorem insert_spec (s : TimerManager) (p : Nat) (hp : p ∉ s.timers) :
    insert p s = .ok (place s.rank (s.rank p) s.timers) (s.plus p) := by
  rcases hat : s.timers[s.lowerBound (s.key p)]? with _ | q
  · simp only [insert, hat, Bool.false_eq_true, if_false]
    rw [lowerBound_eq]
    rfl
  · -- What is found at the place of the timer is another one, behind it.
    have hgt : comparator (s.key p) (s.key q) = true := by
      rw [lowerBound_eq] at hat
      rw [comparator_eq, decide_eq_true_eq]
      exact place_absent s.rank (s.rank p) s.timers (s.rank_absent p hp) q hat
    simp only [insert, hat, hgt, Bool.not_true, Bool.false_eq_true, if_false]
    rw [lowerBound_eq]
    rfl

theorem mem_plus (s : TimerManager) (p q : Nat) :
    q ∈ (s.plus p).timers ↔ q = p ∨ q ∈ s.timers :=
  List.mem_insertIdx (place_le_length s.rank _ s.timers)

theorem sorted_plus (s : TimerManager) (h : s.Sorted) (p : Nat) (hp : p ∉ s.timers) :
    (s.plus p).Sorted :=
  ordered_insertIdx s.rank s.timers h p (s.rank_absent p hp)

end TimerManager

end YkServer
