import YkServer.Lib.Table
import Mathlib.Data.List.Nodup

/-!
# Parties that Wait

The parties of a system as a list, and a queue of the places of those that wait. Who is
in the queue is there once, and does nothing but wait. A party leaves that state when
it is at the front of the queue and is woken.

## Main definitions

* `Queued`: Who is in a queue waits.

## Theorems

* `queued_set`, `queued_concat`: A party goes on, a party comes.
* `queued_join`: A party queues.
* `queued_wake`: The first in the queue is woken.
-/

namespace Lib

variable {α : Type}

/-- Who is in the queue waits, and is there once. -/
structure Queued (Waits : α → Prop) (l : List α) (queue : List Nat) : Prop where
  nodup : queue.Nodup
  waits : ∀ k ∈ queue, ∃ a, l[k]? = some a ∧ Waits a

variable {Waits : α → Prop}

theorem queued_nil (l : List α) : Queued Waits l [] := by
  refine ⟨List.nodup_nil, ?_⟩
  intro k hk
  exact absurd hk List.not_mem_nil

theorem Queued.not_mem {l : List α} {queue : List Nat} (h : Queued Waits l queue) (i : Nat) (a : α)
    (hi : l[i]? = some a) (ha : ¬Waits a) : i ∉ queue := by
  intro hin
  rcases h.waits i hin with ⟨b, hb, hwaits⟩
  rw [hi, Option.some.injEq] at hb
  rw [hb] at ha
  exact ha hwaits

/-- Somebody who is not in the queue goes on. -/
theorem queued_set (l : List α) (queue : List Nat) (h : Queued Waits l queue) (i : Nat) (a b : α)
    (hi : l[i]? = some a) (hout : i ∉ queue) : Queued Waits (l.set i b) queue := by
  refine ⟨h.nodup, ?_⟩
  intro k hk
  rcases h.waits k hk with ⟨c, hc, hwaits⟩
  refine ⟨c, ?_, hwaits⟩
  rw [getElem?_update l i a b hi, if_neg]
  · exact hc
  · rintro rfl
    exact hout hk

theorem queued_concat (l : List α) (queue : List Nat) (h : Queued Waits l queue) (a : α) :
    Queued Waits (l ++ [a]) queue := by
  refine ⟨h.nodup, ?_⟩
  intro k hk
  rcases h.waits k hk with ⟨b, hb, hwaits⟩
  exact ⟨b, getElem?_concat_of_some l a b k hb, hwaits⟩

/-- Somebody who does not wait queues. -/
theorem queued_join (l : List α) (queue : List Nat) (h : Queued Waits l queue) (i : Nat) (a b : α)
    (hi : l[i]? = some a) (ha : ¬Waits a) (hb : Waits b) :
    Queued Waits (l.set i b) (queue ++ [i]) := by
  have hout := h.not_mem i a hi ha
  have hset := queued_set l queue h i a b hi hout
  refine ⟨?_, ?_⟩
  · rw [← List.concat_eq_append, List.nodup_concat]
    exact ⟨hout, h.nodup⟩
  · intro k hk
    rcases List.mem_append.1 hk with hold | hnew
    · exact hset.waits k hold
    · rw [List.mem_singleton] at hnew
      rw [hnew]
      exact ⟨b, (getElem?_update l i a b hi i).trans (if_pos rfl), hb⟩

/-- The first in the queue goes on, and the others still wait. -/
theorem queued_wake (l : List α) (k : Nat) (queue : List Nat) (h : Queued Waits l (k :: queue))
    (woken : α → α) : ∃ a, l[k]? = some a ∧ Waits a ∧ l.modify k woken = l.set k (woken a) ∧
      Queued Waits (l.set k (woken a)) queue := by
  rcases h.waits k List.mem_cons_self with ⟨a, ha, hwaits⟩
  have hnodup := List.nodup_cons.1 h.nodup
  -- The one that is woken is in the queue once, so it is not among the others.
  have hrest : Queued Waits l queue :=
    ⟨hnodup.2, fun q hq => h.waits q (List.mem_cons_of_mem _ hq)⟩
  refine ⟨a, ha, hwaits, ?_, queued_set l queue hrest k a (woken a) ha hnodup.1⟩
  rw [List.modify_eq_set_getElem?, ha]
  rfl

end Lib
