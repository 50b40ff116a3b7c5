import YkServer.Theory.Timer.Lifetime

/-!
# Callbacks of Timers

What the users of one-shot timers have to know about them: which callback a timer
still has. Arming a timer gives it one, `cancel` takes it away, and `listExpiredCb`
takes away those that it hands out. The set holds exactly the timers that have one.

## Main definitions

* `TimerManager.OneShot`: No timer recurs.

## Theorems

* `addTimer_heap`, `listExpiredCb_heap`: What two of the operations write.
* `addTimer_cbOf`, `cancel_cbOf`, `listExpiredCb_cbOf`: Which timers have a callback.
-/

namespace YkServer

open Lib

namespace TimerManager

/-- No timer recurs. -/
def OneShot (s : TimerManager) : Prop := ∀ p t, s.heap p = some t → t.recurring = false

/-- The timers in the set are those that have a callback. -/
theorem Inv.mem_cbOf {s : TimerManager} (h : s.Inv) (p : Nat) :
    p ∈ s.timers ↔ (s.cbOf p).isSome = true := by
  rw [h.mem, live_eq_cbOf]

/-- Writing one timer. -/
theorem cbOf_heap (s s' : TimerManager) (p : Nat) (t : Timer)
    (h : ∀ q, s'.heap q = if q = p then some t else s.heap q) (q : Nat) :
    s'.cbOf q = if q = p then t.cb else s.cbOf q := by
  rw [cbOf, h]
  by_cases hq : q = p
  · rw [if_pos hq, if_pos hq, Option.bind_some]
  · rw [if_neg hq, if_neg hq, cbOf]

theorem oneShot_heap (s s' : TimerManager) (p : Nat) (t : Timer)
    (h : ∀ q, s'.heap q = if q = p then some t else s.heap q) (hs : s.OneShot)
    (ht : t.recurring = false) : s'.OneShot := by
  intro q u hq
  rw [h] at hq
  by_cases hqp : q = p
  · rw [if_pos hqp, Option.some.injEq] at hq
    rw [← hq]
    exact ht
  · rw [if_neg hqp] at hq
    exact hs q u hq

theorem isSome_heap (s s' : TimerManager) (p : Nat) (t : Timer)
    (h : ∀ q, s'.heap q = if q = p then some t else s.heap q) (q : Nat) :
    (s'.heap q).isSome = ((s.heap q).isSome || decide (q = p)) := by
  rw [h]
  by_cases hqp : q = p
  · rw [if_pos hqp, decide_eq_true hqp, Bool.or_true]
    rfl
  · rw [if_neg hqp, decide_eq_false hqp, Bool.or_false]

/-! ## Arming and cancelling -/

/-- A new timer gets free memory. -/
theorem addTimer_heap (s s' : TimerManager) (h : s.Inv) (p : Nat) (ms : UInt64) (cb : Nat)
    (recurring : Bool) (now : UInt64) (a : Bool)
    (hrun : addTimer p ms cb recurring now s = .ok a s') :
    s.heap p = none ∧
      ∀ q, s'.heap q = if q = p then some ⟨recurring, ms, now + ms, some cb⟩ else s.heap q := by
  have hfree : s.heap p = none := by
    rcases hp : s.heap p with _ | t
    · rfl
    · rcases bind_eq_ok _ _ _ _ _ hrun with ⟨_, _, hnew, _⟩
      simp only [construct, hp] at hnew
      cases hnew
  refine ⟨hfree, ?_⟩
  rw [addTimer_spec s h p ms cb recurring now hfree _ rfl] at hrun
  cases hrun
  exact fun q => heap_withTimer s p q _

/-- It has the callback. -/
theorem addTimer_cbOf (s s' : TimerManager) (h : s.Inv) (hs : s.OneShot) (p : Nat) (ms : UInt64)
    (cb : Nat) (now : UInt64) (a : Bool)
    (hrun : addTimer p ms cb false now s = .ok a s') :
    s'.Inv ∧ s'.OneShot ∧ s.heap p = none ∧
      (∀ q, (s'.heap q).isSome = ((s.heap q).isSome || decide (q = p))) ∧
      ∀ q, s'.cbOf q = if q = p then some cb else s.cbOf q := by
  rcases addTimer_heap s s' h p ms cb false now a hrun with ⟨hfree, hheap⟩
  rcases addTimer_effect s h p ms cb false now hfree with ⟨a', s'', hrun', heff⟩
  rw [hrun] at hrun'
  cases hrun'
  exact ⟨heff.inv, oneShot_heap s s' p _ hheap hs rfl, hfree, isSome_heap s s' p _ hheap,
    cbOf_heap s s' p _ hheap⟩

/-- A cancelled timer has no callback. -/
theorem cancel_cbOf (s s' : TimerManager) (h : s.Inv) (hs : s.OneShot) (p : Nat) (a : Bool)
    (hrun : cancel p s = .ok a s') :
    s'.Inv ∧ s'.OneShot ∧ (∀ q, (s'.heap q).isSome = (s.heap q).isSome) ∧
      ∀ q, s'.cbOf q = if q = p then none else s.cbOf q := by
  rcases hp : s.heap p with _ | t
  · rcases bind_eq_ok _ _ _ _ _ hrun with ⟨_, _, hload, _⟩
    simp only [load, hp] at hload
    cases hload
  · rcases cancel_effect s h p t hp with ⟨a', s'', hrun', heff, _⟩
    have hsame := hrun'
    rw [hrun] at hsame
    cases hsame
    have hknown : ∀ q, ((s.heap q).isSome || decide (q = p)) = (s.heap q).isSome := by
      intro q
      by_cases hq : q = p
      · rw [hq, hp]
        rfl
      · rw [decide_eq_false hq, Bool.or_false]
    by_cases hcb : t.cb.isSome = true
    · have hmem : p ∈ s.timers := by
        rw [h.mem, live_some s p t hp]
        exact hcb
      rw [cancel_live s h.sorted p t hp hcb hmem] at hrun
      cases hrun
      have hheap := fun q => heap_withTimer (s.without p) p q { t with cb := none }
      refine ⟨heff.inv, oneShot_heap s _ p _ hheap hs (hs p t hp), ?_, cbOf_heap s _ p _ hheap⟩
      intro q
      exact (isSome_heap s _ p _ hheap q).trans (hknown q)
    · rw [cancel_dead s p t hp hcb] at hrun
      cases hrun
      refine ⟨h, hs, fun _ => rfl, ?_⟩
      intro q
      by_cases hq : q = p
      · rw [if_pos hq, hq, cbOf_some s p t hp]
        exact Option.not_isSome_iff_eq_none.1 hcb
      · rw [if_neg hq]

/-! ## Expiry -/

/-- What is handed out has expired. -/
theorem listExpiredCb_heap (s s' : TimerManager) (h : s.Inv) (now : UInt64) (nowTimer : Nat)
    (cbs : List (Nat × Option Nat)) (hrun : listExpiredCb now nowTimer s = .ok cbs s') (q : Nat) :
    s'.heap q =
      if q ∈ cbs.map Prod.fst then (s.heap q).map (Timer.expire now) else s.heap q := by
  rcases listExpiredCb_collect s h now nowTimer with ⟨it, s₀, hheap₀, hapart, heq, -⟩
  rcases collect_exact now _ s₀ hapart with ⟨s'', hcollect, hinv, hheap⟩
  rw [heq, hcollect] at hrun
  cases hrun
  rw [map_fst_callbacks, hheap, hheap₀]

/-- Expired timers have lost their callbacks, which were handed out. -/
theorem listExpiredCb_cbOf (s s' : TimerManager) (h : s.Inv) (hs : s.OneShot) (now : UInt64)
    (nowTimer : Nat) (cbs : List (Nat × Option Nat))
    (hrun : listExpiredCb now nowTimer s = .ok cbs s') :
    s'.Inv ∧ s'.OneShot ∧ (∀ q, (s'.heap q).isSome = (s.heap q).isSome) ∧
      (cbs.map Prod.fst).Nodup ∧
      (∀ x ∈ cbs, x.2 = s.cbOf x.1 ∧ x.2.isSome = true) ∧
      ∀ q, s'.cbOf q = if q ∈ cbs.map Prod.fst then none else s.cbOf q := by
  rcases listExpiredCb_collect s h now nowTimer with ⟨it, s₀, hheap₀, hapart, heq, -⟩
  rcases collect_exact now _ s₀ hapart with ⟨s'', hcollect, hinv, hheap⟩
  rw [heq, hcollect] at hrun
  cases hrun
  have hcb₀ : ∀ q, s₀.cbOf q = s.cbOf q := by
    intro q
    rw [cbOf, hheap₀, cbOf]
  rw [hheap₀] at hheap
  rw [map_fst_callbacks]
  refine ⟨hinv, ?_, ?_, hapart.nodup, ?_, ?_⟩
  · intro q t hq
    rw [hheap] at hq
    split at hq
    · rcases Option.map_eq_some_iff.1 hq with ⟨u, hu, rfl⟩
      rw [Timer.expire, if_neg (by rw [hs q u hu]; decide)]
      exact hs q u hu
    · exact hs q t hq
  · intro q
    rw [hheap]
    split
    · rw [Option.isSome_map]
    · rfl
  · intro x hx
    rcases List.mem_map.1 hx with ⟨p, hp, rfl⟩
    have hlive := (hapart.mem p).1 (Or.inr hp)
    rw [live_eq_cbOf] at hlive
    exact ⟨hcb₀ p, hlive⟩
  · intro q
    rw [cbOf, hheap]
    split
    · -- A one-shot timer that expires loses its callback.
      rcases hq : s.heap q with _ | t
      · rfl
      · rw [Option.map_some, Option.bind_some, Timer.expire, if_neg (by rw [hs q t hq]; decide)]
    · rfl

end TimerManager

end YkServer
