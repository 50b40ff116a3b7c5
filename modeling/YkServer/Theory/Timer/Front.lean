import YkServer.Theory.Timer.Lifetime

/-!
# Timers at the Front

When a timer becomes the first of the set, a thread that sleeps until the deadline
it was told by `getNextTimer` has to be woken. The flag `tickled` keeps the
notifications down: it is cleared by every `getNextTimer`, also by one that no
sleeper asked for, and while it is set nobody is notified.

What makes this right is one relation between an earlier and a later state. Either
a notification was started in between, or the flag is as it was and no deadline is
earlier than all there were before. `refresh` never notifies, but no timer was started in
the future, so a timer that is refreshed only moves back.

## Main definitions

* `TimerManager.deadline`: The deadline of a timer.
* `TimerManager.Covered`: No deadline is earlier than all there were.
* `TimerWorld.started`: How many notifications were started.
* `TimerWorld.Heard`: What holds between two states of a run.

## Theorems

* `TimerWorld.step_heard`, `TimerWorld.run_heard`: A step, and a run.
* `front_notified`: A timer that is earlier than all others is made known.
-/

namespace YkServer

open Lib

namespace TimerManager

/-- The deadline of a timer. -/
def deadline (s : TimerManager) (p : Nat) : Nat := (s.key p).1.toNat

/-- No deadline is earlier than all there were. -/
def Covered (s s' : TimerManager) : Prop :=
  ∀ q ∈ s'.timers, ∃ r ∈ s.timers, s.deadline r ≤ s'.deadline q

/-- No timer was started in the future. -/
def Timely (s : TimerManager) (clock : Nat) : Prop :=
  ∀ p t, s.heap p = some t → t.ms.toNat ≤ t.next.toNat ∧ t.next.toNat - t.ms.toNat ≤ clock

/-- An operation notifies, or it leaves the flag down and nothing earlier behind. -/
def Quiet (s s' : TimerManager) (atFront : Bool) : Prop :=
  atFront = true ∨ (s.tickled = false → s'.tickled = false ∧ s.Covered s')

theorem deadline_some (s : TimerManager) (p : Nat) (t : Timer) (h : s.heap p = some t) :
    s.deadline p = t.next.toNat := by
  simp only [deadline, key, h]

theorem deadline_withTimer (s : TimerManager) (p q : Nat) (t : Timer) :
    (s.withTimer p t).deadline q = if q = p then t.next.toNat else s.deadline q := by
  by_cases hq : q = p
  · rw [if_pos hq]
    refine deadline_some _ q t ?_
    rw [heap_withTimer, if_pos hq]
  · rw [if_neg hq]
    simp only [deadline, key, heap_withTimer, if_neg hq]

/-! ## Covering -/

/-- Timers that stay and do not move forward. -/
theorem covered_of_le (s s' : TimerManager)
    (h : ∀ q ∈ s'.timers, q ∈ s.timers ∧ s.deadline q ≤ s'.deadline q) : s.Covered s' :=
  fun q hq => ⟨q, (h q hq).1, (h q hq).2⟩

theorem covered_refl (s : TimerManager) : s.Covered s :=
  covered_of_le s s (fun _ hq => ⟨hq, Nat.le_refl _⟩)

theorem covered_trans (s₁ s₂ s₃ : TimerManager) (h₁₂ : s₁.Covered s₂) (h₂₃ : s₂.Covered s₃) :
    s₁.Covered s₃ := by
  intro q hq
  rcases h₂₃ q hq with ⟨r, hr, hle⟩
  rcases h₁₂ r hr with ⟨r', hr', hle'⟩
  exact ⟨r', hr', hle'.trans hle⟩

/-- A smaller rank is no later. -/
theorem deadline_le_of_rank_lt (s : TimerManager) (p q : Nat) (h : s.rank p < s.rank q) :
    s.deadline p ≤ s.deadline q := by
  rw [rank, rank, rankOf, rankOf, Prod.Lex.toLex_lt_toLex] at h
  rcases h with hlt | ⟨heq, -⟩
  · exact Nat.le_of_lt hlt
  · exact Nat.le_of_eq heq

/-- Inserting a timer behind another. -/
theorem covered_plus (s : TimerManager) (h : s.Sorted) (p : Nat)
    (hplace : place s.rank (s.rank p) s.timers ≠ 0) : s.Covered (s.plus p) := by
  intro q hq
  rcases (mem_plus s p q).1 hq with rfl | hmem
  · -- The new timer is not at the front, so one with a smaller rank is before it.
    rw [ne_eq, place_eq_zero s.rank _ _ h] at hplace
    push Not at hplace
    rcases hplace with ⟨r, hr, hlt⟩
    exact ⟨r, hr, deadline_le_of_rank_lt s r q hlt⟩
  · exact ⟨q, hmem, Nat.le_refl _⟩

/-- `addTimer(val, lock)` in a set that the timer is not in. -/
theorem quiet_plus (s : TimerManager) (h : s.Sorted) (p : Nat) :
    s.Quiet { s.plus p with tickled := s.tickled || s.atFront p } (s.atFront p) := by
  by_cases hfront : s.atFront p = true
  · exact Or.inl hfront
  · refine Or.inr (fun hdown => ?_)
    rw [Bool.not_eq_true] at hfront
    have hplace : place s.rank (s.rank p) s.timers ≠ 0 := by
      intro hzero
      simp only [atFront, hzero, hdown, decide_true, Bool.not_false, Bool.and_self] at hfront
      cases hfront
    refine ⟨?_, covered_plus s h p hplace⟩
    simp only [hdown, hfront, Bool.or_self]

/-- A timer that is taken out and written leaves the others where they are. -/
theorem covered_takenOut (s : TimerManager) (h : s.Sorted) (p : Nat) (hp : p ∈ s.timers)
    (t : Timer) : s.Covered ((s.without p).withTimer p t) := by
  refine covered_of_le s _ (fun q hq => ?_)
  rcases (mem_without s h p hp q).1 hq with ⟨hmem, hne⟩
  refine ⟨hmem, ?_⟩
  rw [deadline_withTimer, if_neg hne]
  exact Nat.le_refl _

/-- It is then inserted like a new one. -/
theorem quiet_moved (s : TimerManager) (h : s.Sorted) (p : Nat) (hp : p ∈ s.timers) (t : Timer) :
    s.Quiet
      { ((s.without p).withTimer p t).plus p with
        tickled := s.tickled || ((s.without p).withTimer p t).atFront p }
      (((s.without p).withTimer p t).atFront p) := by
  have hsorted := sorted_withTimer _ (sorted_without s h p) p t (not_mem_without s h p hp)
  rcases quiet_plus _ hsorted p with hfront | hquiet
  · exact Or.inl hfront
  · refine Or.inr (fun hdown => ?_)
    rcases hquiet hdown with ⟨hdown', hcover⟩
    exact ⟨hdown', covered_trans _ _ _ (covered_takenOut s h p hp t) hcover⟩

/-- A timer that moves back. -/
theorem covered_moved (s : TimerManager) (h : s.Sorted) (p : Nat) (hp : p ∈ s.timers)
    (t : Timer) (hle : s.deadline p ≤ t.next.toNat) :
    s.Covered (((s.without p).withTimer p t).plus p) := by
  refine covered_of_le s _ (fun q hq => ?_)
  have hdeadline : (((s.without p).withTimer p t).plus p).deadline q =
      if q = p then t.next.toNat else s.deadline q := deadline_withTimer (s.without p) p q t
  rw [hdeadline]
  rcases (mem_plus _ p q).1 hq with rfl | hmem
  · rw [if_pos rfl]
    exact ⟨hp, hle⟩
  · rcases (mem_without s h p hp q).1 hmem with ⟨hmem', hne⟩
    rw [if_neg hne]
    exact ⟨hmem', Nat.le_refl _⟩

/-! ## The clock -/

theorem timely_withTimer (s : TimerManager) (clock : Nat) (h : s.Timely clock) (p : Nat)
    (t : Timer) (hle : t.ms.toNat ≤ t.next.toNat) (hstart : t.next.toNat - t.ms.toNat ≤ clock) :
    (s.withTimer p t).Timely clock := by
  intro q u hq
  rw [heap_withTimer] at hq
  by_cases hqp : q = p
  · rw [if_pos hqp, Option.some.injEq] at hq
    subst hq
    exact ⟨hle, hstart⟩
  · rw [if_neg hqp] at hq
    exact h q u hq

/-- A timer that is started at some time of the past. -/
theorem started_at (start ms : UInt64) (hwrap : start.toNat + ms.toNat < 2 ^ 64) :
    (start + ms).toNat = start.toNat + ms.toNat := by
  rw [UInt64.toNat_add, Nat.mod_eq_of_lt hwrap]

theorem timely_started (s : TimerManager) (clock : Nat) (h : s.Timely clock) (p : Nat)
    (t : Timer) (start : UInt64) (hnext : t.next = start + t.ms)
    (hwrap : start.toNat + t.ms.toNat < 2 ^ 64) (hstart : start.toNat ≤ clock) :
    (s.withTimer p t).Timely clock := by
  have hsum := started_at start t.ms hwrap
  rw [← hnext] at hsum
  exact timely_withTimer s clock h p t (by omega) (by omega)

/-- When a timer was started. -/
theorem start_le (s : TimerManager) (clock : Nat) (h : s.Timely clock) (p : Nat) (t : Timer)
    (hp : s.heap p = some t) : (t.next - t.ms).toNat ≤ clock := by
  rcases h p t hp with ⟨hle, hstart⟩
  rw [UInt64.toNat_sub_of_le _ _ (UInt64.le_iff_toNat_le.2 hle)]
  exact hstart

end TimerManager

/-! ## Threads -/

namespace TimerWorld

open TimerManager

/-- The deadlines are in order, only the new timers are out of the set, and no timer
    was started in the future. -/
structure Inv (w : TimerWorld) : Prop where
  apart : w.manager.Apart w.constructed
  timely : w.manager.Timely w.clock.toNat

/-- How many notifications were started: those made, and those that a thread which
    has released the lock is about to make. -/
def started (w : TimerWorld) : Nat := w.notified + w.notifying

/-- Between two states of a run a notification was started, or no deadline came in
    that is earlier than all there were. -/
def Heard (w w' : TimerWorld) : Prop :=
  w.started < w'.started ∨ w'.started = w.started ∧
    (w.manager.tickled = false → w'.manager.tickled = false ∧ w.manager.Covered w'.manager)

theorem inv_new (now : UInt64) : (new now).Inv :=
  ⟨(TimerManager.inv_new now).apart, fun _ _ hp => by cases hp⟩

theorem heard_refl (w : TimerWorld) : w.Heard w :=
  Or.inr ⟨rfl, fun hdown => ⟨hdown, covered_refl _⟩⟩

theorem heard_trans (w₁ w₂ w₃ : TimerWorld) (h₁₂ : w₁.Heard w₂) (h₂₃ : w₂.Heard w₃) :
    w₁.Heard w₃ := by
  rcases h₁₂ with hlt | ⟨heq, hquiet⟩
  · rcases h₂₃ with hlt' | ⟨heq', -⟩
    · exact Or.inl (hlt.trans hlt')
    · exact Or.inl (by omega)
  · rcases h₂₃ with hlt' | ⟨heq', hquiet'⟩
    · exact Or.inl (by omega)
    · refine Or.inr ⟨heq'.trans heq, fun hdown => ?_⟩
      rcases hquiet hdown with ⟨hdown₂, hcover⟩
      rcases hquiet' hdown₂ with ⟨hdown₃, hcover'⟩
      exact ⟨hdown₃, covered_trans _ _ _ hcover hcover'⟩

/-- An operation that is quiet, and the notification it may start. -/
theorem heard_of_quiet (w w' : TimerWorld) (atFront : Bool)
    (h : w.manager.Quiet w'.manager atFront) (hnotified : w'.notified = w.notified)
    (hnotifying : w'.notifying = w.notifying + if atFront then 1 else 0) : w.Heard w' := by
  unfold Heard started
  rw [hnotified, hnotifying]
  cases atFront with
  | true => exact Or.inl (Nat.lt_succ_self _)
  | false => exact Or.inr ⟨rfl, h.resolve_left (by decide)⟩

/-- An operation under the lock. -/
theorem locked_heard (w w' : TimerWorld) (m : Prog Empty TimerManager Bool)
    (hstep : locked w m = some w') (atFront : Bool) (s : TimerManager)
    (hm : m w.manager = .ok atFront s) (hapart : s.Apart w.constructed)
    (htimely : s.Timely w.clock.toNat) (hquiet : w.manager.Quiet s atFront) :
    w'.Inv ∧ w.Heard w' := by
  simp only [locked, hm, Option.some.injEq] at hstep
  subst hstep
  exact ⟨⟨hapart, htimely⟩, heard_of_quiet w _ atFront hquiet rfl rfl⟩

/-- An operation that finds no timer. -/
theorem locked_missing {α : Type} (w : TimerWorld) (f : Timer → Prog Empty TimerManager α)
    (g : α → Prog Empty TimerManager Bool) (p : Nat) (hp : w.manager.heap p = none) :
    locked w ((load p >>= f) >>= g) = none := by
  have hload : load p w.manager = .fault := by simp only [load, hp]
  rw [locked, bind_fault _ _ _ (bind_fault _ _ _ hload)]

/-- The invariant does not look at the flag. -/
theorem apart_tickled (s : TimerManager) (rest : List Nat) (h : s.Apart rest) (b : Bool) :
    ({ s with tickled := b } : TimerManager).Apart rest := ⟨h.sorted, h.nodup, h.out, h.mem⟩

/-- A timer that has its callback and is not new is in the set. -/
theorem mem_of_live (w : TimerWorld) (h : w.Inv) (p : Nat) (t : Timer)
    (hp : w.manager.heap p = some t) (hcb : t.cb.isSome = true) (hold : p ∉ w.constructed) :
    p ∈ w.manager.timers := by
  have hlive : w.manager.live p = true := by
    rw [live_some _ p t hp]
    exact hcb
  exact ((h.apart.mem p).2 hlive).resolve_right hold

/-! ## The steps -/

theorem construct_heard (w w' : TimerWorld) (h : w.Inv) (p : Nat) (ms : UInt64) (cb : Nat)
    (recurring : Bool) (hwrap : w.clock.toNat + ms.toNat < 2 ^ 64)
    (hstep : step (.construct p ms cb recurring) w = some w') : w'.Inv ∧ w.Heard w' := by
  rcases hfree : w.manager.heap p with _ | t
  · have hnew : construct p ms cb recurring w.clock w.manager =
        .ok () (w.manager.withTimer p ⟨recurring, ms, w.clock + ms, some cb⟩) := by
      simp only [construct, hfree]
      rfl
    simp only [step, hnew, Option.some.injEq] at hstep
    subst hstep
    have hapart := apart_construct _ _ h.apart p ⟨recurring, ms, w.clock + ms, some cb⟩ hfree rfl
    refine ⟨⟨hapart, timely_started _ _ h.timely p _ w.clock rfl hwrap (Nat.le_refl _)⟩, ?_⟩
    -- The object is new and not in the set yet: nothing has changed there.
    refine Or.inr ⟨rfl, fun hdown => ⟨hdown, covered_of_le _ _ (fun q hq => ⟨hq, ?_⟩)⟩⟩
    have hne : q ≠ p := by
      rintro rfl
      exact hapart.out q List.mem_cons_self hq
    exact Nat.le_of_eq ((deadline_withTimer w.manager p q _).trans (if_neg hne)).symm
  · have hfault : construct p ms cb recurring w.clock w.manager = .fault := by
      simp only [construct, hfree]
    simp only [step, hfault] at hstep
    cases hstep

theorem step_insert (w w' : TimerWorld) (h : w.Inv) (p : Nat)
    (hstep : step (.insert p) w = some w') :
    p ∈ w.constructed ∧ w' = { w with
      manager := { w.manager.plus p with tickled := w.manager.tickled || w.manager.atFront p }
      constructed := w.constructed.erase p
      notifying := w.notifying + if w.manager.atFront p then 1 else 0 } := by
  by_cases hp : p ∈ w.constructed
  · have hlock : step (.insert p) w =
        locked { w with constructed := w.constructed.erase p } (addTimerLocked p) := if_pos hp
    rw [hlock] at hstep
    simp only [locked, addTimerLocked_spec w.manager p (h.apart.out p hp),
      Option.some.injEq] at hstep
    exact ⟨hp, hstep.symm⟩
  · rw [show step (.insert p) w = none from if_neg hp] at hstep
    cases hstep

theorem insert_heard (w w' : TimerWorld) (h : w.Inv) (p : Nat)
    (hstep : step (.insert p) w = some w') : w'.Inv ∧ w.Heard w' := by
  rcases step_insert w w' h p hstep with ⟨hp, rfl⟩
  refine ⟨⟨apart_tickled _ _ (apart_plus _ _ h.apart p hp) _, h.timely⟩, ?_⟩
  exact heard_of_quiet w _ _ (quiet_plus _ h.apart.sorted p) rfl rfl

theorem refresh_heard (w w' : TimerWorld) (h : w.Inv) (p : Nat)
    (hsteady : Steady w (.refresh p)) (hstep : step (.refresh p) w = some w') :
    w'.Inv ∧ w.Heard w' := by
  by_cases hnew : p ∈ w.constructed
  · rw [show step (.refresh p) w = none from if_pos hnew] at hstep
    cases hstep
  · rw [show step (.refresh p) w = locked w (do
      let _ ← TimerManager.refresh p w.clock
      pure false) from if_neg hnew] at hstep
    rcases hp : w.manager.heap p with _ | t
    · rw [TimerManager.refresh, locked_missing w _ _ p hp] at hstep
      cases hstep
    · by_cases hcb : t.cb.isNone = true
      · -- A timer that was cancelled or has expired is left alone.
        exact locked_heard w w' _ hstep false w.manager
          (bind_ok _ _ _ _ _ (refresh_dead w.manager p t w.clock hp hcb)) h.apart h.timely
          (Or.inr fun hdown => ⟨hdown, covered_refl _⟩)
      · have hsome : t.cb.isSome = true := by
          rw [← Option.not_isNone, Bool.not_eq_true']
          exact Bool.eq_false_iff.2 hcb
        have hmem := mem_of_live w h p t hp hsome hnew
        have hwrap := hsteady t hp
        -- It was started before now, so its deadline moves back.
        have hlater : w.manager.deadline p ≤ (w.clock + t.ms).toNat := by
          rcases h.timely p t hp with ⟨hle, hstart⟩
          rw [deadline_some _ p t hp, started_at _ _ hwrap]
          omega
        exact locked_heard w w' _ hstep false _
          (bind_ok _ _ _ _ _ (refresh_live w.manager h.apart.sorted p t w.clock hp hcb hmem))
          (apart_moved _ _ h.apart p { t with next := w.clock + t.ms } hmem hsome)
          (timely_started _ _ h.timely p _ w.clock rfl hwrap (Nat.le_refl _))
          (Or.inr fun hdown => ⟨hdown, covered_moved _ h.apart.sorted p hmem _ hlater⟩)

theorem step_reset (w w' : TimerWorld) (h : w.Inv) (p : Nat) (ms : UInt64) (fromNow : Bool)
    (hstep : step (.reset p ms fromNow) w = some w') :
    (p ∉ w.manager.timers ∧ w' = w) ∨
      ∃ t s₁, w.manager.heap p = some t ∧ t.cb.isSome = true ∧ p ∈ w.manager.timers ∧
        s₁ = (w.manager.without p).withTimer p (resetTo t ms fromNow w.clock) ∧
        w' = { w with
          manager := { s₁.plus p with tickled := s₁.tickled || s₁.atFront p }
          notifying := w.notifying + if s₁.atFront p then 1 else 0 } := by
  by_cases hnew : p ∈ w.constructed
  · rw [show step (.reset p ms fromNow) w = none from if_pos hnew] at hstep
    cases hstep
  · rw [show step (.reset p ms fromNow) w = locked w _ from if_neg hnew] at hstep
    rcases hp : w.manager.heap p with _ | t
    · rw [TimerManager.resetLocked, locked_missing w _ _ p hp] at hstep
      cases hstep
    · by_cases hcb : t.cb.isNone = true
      · refine Or.inl ⟨fun hmem => ?_, ?_⟩
        · have hlive := (h.apart.mem p).1 (Or.inl hmem)
          rw [live_some _ p t hp, Option.isNone_iff_eq_none.1 hcb] at hlive
          cases hlive
        · rw [locked, bind_ok _ _ _ _ _
            (resetLocked_dead w.manager p t ms fromNow w.clock hp hcb)] at hstep
          exact (Option.some.inj hstep).symm
      · have hsome : t.cb.isSome = true := by
          rw [← Option.not_isNone, Bool.not_eq_true']
          exact Bool.eq_false_iff.2 hcb
        have hmem := mem_of_live w h p t hp hsome hnew
        refine Or.inr ⟨t, _, rfl, hsome, hmem, rfl, ?_⟩
        rw [locked, bind_ok _ _ _ _ _
          (resetLocked_live w.manager h.apart.sorted p t ms fromNow w.clock hp hcb hmem _ rfl)]
          at hstep
        exact (Option.some.inj hstep).symm

theorem reset_heard (w w' : TimerWorld) (h : w.Inv) (p : Nat) (ms : UInt64) (fromNow : Bool)
    (hsteady : Steady w (.reset p ms fromNow)) (hstep : step (.reset p ms fromNow) w = some w') :
    w'.Inv ∧ w.Heard w' := by
  rcases step_reset w w' h p ms fromNow hstep with
    ⟨-, rfl⟩ | ⟨t, s₁, hp, hsome, hmem, rfl, rfl⟩
  · exact ⟨h, heard_refl w'⟩
  · -- `reset` counts from now or from when the timer was started.
    have hpast : (if fromNow then w.clock else t.next - t.ms).toNat ≤ w.clock.toNat := by
      cases fromNow with
      | true => exact Nat.le_refl _
      | false => exact start_le _ _ h.timely p t hp
    refine ⟨⟨apart_tickled _ _ (apart_moved _ _ h.apart p (resetTo t ms fromNow w.clock) hmem
      hsome) _, timely_started _ _ h.timely p _ _ rfl (hsteady t hp) hpast⟩, ?_⟩
    exact heard_of_quiet w _ _ (quiet_moved _ h.apart.sorted p hmem _) rfl rfl

theorem cancel_heard (w w' : TimerWorld) (h : w.Inv) (p : Nat)
    (hstep : step (.cancel p) w = some w') : w'.Inv ∧ w.Heard w' := by
  by_cases hnew : p ∈ w.constructed
  · rw [show step (.cancel p) w = none from if_pos hnew] at hstep
    cases hstep
  · rw [show step (.cancel p) w = locked w (do
      let _ ← TimerManager.cancel p
      pure false) from if_neg hnew] at hstep
    rcases hp : w.manager.heap p with _ | t
    · rw [TimerManager.cancel, locked_missing w _ _ p hp] at hstep
      cases hstep
    · by_cases hcb : t.cb.isSome = true
      · have hmem := mem_of_live w h p t hp hcb hnew
        -- Taking a timer out moves no deadline forward.
        refine locked_heard w w' _ hstep false _
          (bind_ok _ _ _ _ _ (cancel_live w.manager h.apart.sorted p t hp hcb hmem))
          (apart_kill _ _ p { t with cb := none } (apart_without _ _ h.apart p hmem) rfl) ?_
          (Or.inr fun hdown => ⟨hdown, covered_takenOut _ h.apart.sorted p hmem _⟩)
        rcases h.timely p t hp with ⟨hle, hstart⟩
        exact timely_withTimer _ _ h.timely p _ hle hstart
      · exact locked_heard w w' _ hstep false w.manager
          (bind_ok _ _ _ _ _ (cancel_dead w.manager p t hp hcb)) h.apart h.timely
          (Or.inr fun hdown => ⟨hdown, covered_refl _⟩)

/-- All that it changes is the flag. -/
theorem step_getNextTimer (w w' : TimerWorld) (h : w.Inv)
    (hstep : step .getNextTimer w = some w') :
    w' = { w with manager := { w.manager with tickled := false } } := by
  -- The first timer is looked at, and it exists.
  have hfront : ∀ p ps, w.manager.timers = p :: ps → ∃ t, w.manager.heap p = some t := by
    intro p ps htimers
    refine heap_of_live w.manager p ((h.apart.mem p).1 (Or.inl ?_))
    rw [htimers]
    exact List.mem_cons_self
  rcases getNextTimer_spec w.manager hfront w.clock with ⟨a, hnext, -⟩
  rw [step, locked, bind_ok _ _ _ _ _ hnext] at hstep
  exact (Option.some.inj hstep).symm

theorem getNextTimer_heard (w w' : TimerWorld) (h : w.Inv)
    (hstep : step .getNextTimer w = some w') : w'.Inv ∧ w.Heard w' := by
  rw [step_getNextTimer w w' h hstep]
  exact ⟨⟨apart_tickled _ _ h.apart false, h.timely⟩,
    Or.inr ⟨rfl, fun _ => ⟨rfl, covered_refl _⟩⟩⟩

/-- Every step keeps the invariant and is heard. -/
theorem step_heard (w : TimerWorld) (a : Action) (w' : TimerWorld) (h : w.Inv)
    (hsteady : Steady w a) (hstep : step a w = some w') : w'.Inv ∧ w.Heard w' := by
  cases a with
  | tick now =>
      simp only [step, Option.some.injEq] at hstep
      subst hstep
      refine ⟨⟨h.apart, fun p t hp => ?_⟩, heard_refl w⟩
      rcases h.timely p t hp with ⟨hle, hstart⟩
      exact ⟨hle, hstart.trans (UInt64.le_iff_toNat_le.1 hsteady)⟩
  | construct p ms cb recurring => exact construct_heard w w' h p ms cb recurring hsteady hstep
  | insert p => exact insert_heard w w' h p hstep
  | refresh p => exact refresh_heard w w' h p hsteady hstep
  | reset p ms fromNow => exact reset_heard w w' h p ms fromNow hsteady hstep
  | cancel p => exact cancel_heard w w' h p hstep
  | getNextTimer => exact getNextTimer_heard w w' h hstep
  | notify =>
      by_cases hnone : w.notifying = 0
      · rw [show step .notify w = none from if_pos hnone] at hstep
        cases hstep
      · rw [show step .notify w = some { w with
            notifying := w.notifying - 1, notified := w.notified + 1 } from if_neg hnone,
          Option.some.injEq] at hstep
        subst hstep
        refine ⟨⟨h.apart, h.timely⟩, Or.inr ⟨?_, fun hdown => ⟨hdown, covered_refl _⟩⟩⟩
        simp only [started]
        omega

/-- Every run of steady actions. -/
theorem run_heard (as : List Action) (w w' : TimerWorld) (h : w.Inv)
    (hsteady : Along step Steady as w) (hrun : run step as w = some w') :
    w'.Inv ∧ w.Heard w' :=
  run_related Inv Heard heard_refl heard_trans step_heard as w w' h hsteady hrun

/-- `addTimer` and `reset` set the flag or find it set when the timer is earlier than
    all others. -/
theorem atFront_of_earliest (s : TimerManager) (h : s.Sorted) (p : Nat)
    (hearly : ∀ r ∈ s.timers, s.deadline p < s.deadline r) (hdown : s.tickled = false) :
    s.atFront p = true := by
  have hplace : place s.rank (s.rank p) s.timers = 0 := by
    rw [place_eq_zero s.rank _ _ h]
    intro r hr hlt
    exact absurd (deadline_le_of_rank_lt s r p hlt) (Nat.not_le.2 (hearly r hr))
  simp only [atFront, hplace, hdown, decide_true, Bool.not_false, Bool.and_self]

/-- The actions that end in `addTimer(val, lock)`. -/
def Inserts (p : Nat) (a : Action) : Prop := a = .insert p ∨ ∃ ms fromNow, a = .reset p ms fromNow

/-- They notify whenever the flag is down and the timer is earlier than all others. -/
theorem inserts_notifies (w w' : TimerWorld) (h : w.Inv) (p : Nat) (a : Action)
    (ha : Inserts p a) (hstep : step a w = some w') (hp : p ∈ w'.manager.timers)
    (hearly : ∀ r ∈ w'.manager.timers, r ≠ p → w'.manager.deadline p < w'.manager.deadline r)
    (hdown : w.manager.tickled = false) : w.started < w'.started := by
  rcases ha with rfl | ⟨ms, fromNow, rfl⟩
  · rcases step_insert w w' h p hstep with ⟨hnew, rfl⟩
    have hout := h.apart.out p hnew
    -- Nothing is below the new timer, so it comes to the front.
    have hfront : w.manager.atFront p = true := by
      refine atFront_of_earliest _ h.apart.sorted p (fun r hr => ?_) hdown
      refine hearly r ((mem_plus _ p r).2 (Or.inr hr)) ?_
      rintro rfl
      exact hout hr
    simp only [started, hfront, if_true]
    omega
  · rcases step_reset w w' h p ms fromNow hstep with
      ⟨hnot, rfl⟩ | ⟨t, s₁, -, -, hmem, rfl, rfl⟩
    · exact absurd hp hnot
    · -- `reset` has taken the timer out before, so it is compared with the others only.
      have hout := not_mem_without _ h.apart.sorted p hmem
      have hsorted := sorted_withTimer _ (sorted_without _ h.apart.sorted p) p
        (resetTo t ms fromNow w.clock) hout
      have hfront := atFront_of_earliest _ hsorted p (fun r hr => by
        refine hearly r ((mem_plus _ p r).2 (Or.inr hr)) ?_
        rintro rfl
        exact hout hr) hdown
      simp only [started, hfront, if_true]
      omega

/-- Any run, with a `getNextTimer` somewhere and anything after it, by any number of
    threads. Until a notification is started no deadline is earlier than the first
    one was then, so the thread that asked does not sleep too long. And a timer that
    comes in with a deadline before all of the set, now or then, is made known:
    the notification was made since, or is about to be made. For `addTimer` and
    `reset`, which take a timer out before they put it in, the others are enough. -/
theorem front_notified (now : UInt64) (xs ys : List Action) (w w₀ w₁ : TimerWorld)
    (hxs : run step xs (new now) = some w) (hnext : step .getNextTimer w = some w₀)
    (hys : run step ys w₀ = some w₁) (hsteady : Along step Steady xs (new now))
    (hsteady' : Along step Steady ys w₀) :
    (w₀.started < w₁.started ∨ w₁.manager.tickled = false ∧
      ∀ q ∈ w₁.manager.timers, ∃ r ∈ w₀.manager.timers,
        w₀.manager.deadline r ≤ w₁.manager.deadline q) ∧
    ∀ a w₂ p, Steady w₁ a → step a w₁ = some w₂ → p ∈ w₂.manager.timers →
      ((∀ r ∈ w₁.manager.timers, w₂.manager.deadline p < w₁.manager.deadline r) ∨
        (∀ r ∈ w₀.manager.timers, w₂.manager.deadline p < w₀.manager.deadline r) ∨
        (Inserts p a ∧ ∀ r ∈ w₂.manager.timers, r ≠ p →
          w₂.manager.deadline p < w₂.manager.deadline r)) →
      w₀.started < w₂.started ∧ (w₀.notified < w₂.notified ∨ 0 < w₂.notifying) := by
  have hinv := (run_heard xs _ w (inv_new now) hsteady hxs).1
  have hinv₀ := (getNextTimer_heard w w₀ hinv hnext).1
  have hdown₀ : w₀.manager.tickled = false := by rw [step_getNextTimer w w₀ hinv hnext]
  rcases run_heard ys w₀ w₁ hinv₀ hsteady' hys with ⟨hinv₁, hheard⟩
  refine ⟨hheard.imp_right (fun hquiet => hquiet.2 hdown₀), ?_⟩
  intro a w₂ p hsteadya hstep hp hearly
  have hheard₁₂ := (step_heard w₁ a w₂ hinv₁ hsteadya hstep).2
  have hlouder : w₀.started < w₂.started := by
    -- Otherwise the flag was down all the time, and each timer now has one before it.
    rcases heard_trans _ _ _ hheard hheard₁₂ with hlt | ⟨heq, hquiet⟩
    · exact hlt
    · have hsame : w₁.started = w₀.started ∧ w₂.started = w₁.started := by
        rcases hheard with hlt | ⟨heq₁, -⟩
        · rcases hheard₁₂ with hlt' | ⟨heq', -⟩ <;> omega
        · exact ⟨heq₁, heq.trans heq₁.symm⟩
      have hdown₁ := ((hheard.resolve_left (by omega)).2 hdown₀).1
      rcases hearly with hbefore | hbefore | ⟨hins, hbefore⟩
      · rcases (((hheard₁₂.resolve_left (by omega)).2 hdown₁).2 p hp) with ⟨r, hr, hle⟩
        exact absurd (hbefore r hr) (Nat.not_lt.2 hle)
      · rcases (hquiet hdown₀).2 p hp with ⟨r, hr, hle⟩
        exact absurd (hbefore r hr) (Nat.not_lt.2 hle)
      · exact absurd (inserts_notifies w₁ w₂ hinv₁ p a hins hstep hp hbefore hdown₁) (by omega)
  refine ⟨hlouder, ?_⟩
  unfold started at hlouder
  omega

/-- A timer due at 100 is in the set when a thread asks, and one due at 50 comes. -/
theorem front_notified_earlier :
    ∃ w w₀ w₁ w₂, run step [.construct 1 100 7 false, .insert 1, .notify] (new 0) = some w ∧
      step .getNextTimer w = some w₀ ∧ run step [.construct 2 50 8 false] w₀ = some w₁ ∧
      step (.insert 2) w₁ = some w₂ ∧ 2 ∈ w₂.manager.timers ∧
      (w₀.notified < w₂.notified ∨ 0 < w₂.notifying) := by
  let one : Nat → Option Timer := Function.update (fun _ => none) 1 (some ⟨false, 100, 100, some 7⟩)
  let two : Nat → Option Timer := Function.update one 2 (some ⟨false, 50, 50, some 8⟩)
  have hxs : run step [.construct 1 100 7 false, .insert 1, .notify] (new 0) =
      some ⟨⟨one, [1], 0, true⟩, 0, [], 0, 1⟩ := rfl
  have hnext : step .getNextTimer ⟨⟨one, [1], 0, true⟩, 0, [], 0, 1⟩ =
      some ⟨⟨one, [1], 0, false⟩, 0, [], 0, 1⟩ := rfl
  have hys : run step [.construct 2 50 8 false] ⟨⟨one, [1], 0, false⟩, 0, [], 0, 1⟩ =
      some ⟨⟨two, [1], 0, false⟩, 0, [2], 0, 1⟩ := rfl
  have hinsert : step (.insert 2) ⟨⟨two, [1], 0, false⟩, 0, [2], 0, 1⟩ =
      some ⟨⟨two, [2, 1], 0, true⟩, 0, [], 1, 1⟩ := rfl
  refine ⟨_, _, _, _, hxs, hnext, hys, hinsert, List.mem_cons_self, ?_⟩
  have hfits : (0 : UInt64).toNat + (100 : UInt64).toNat < 2 ^ 64 := by decide
  have hfits' : (0 : UInt64).toNat + (50 : UInt64).toNat < 2 ^ 64 := by decide
  refine ((front_notified 0 _ _ _ _ _ hxs hnext hys ⟨hfits, trivial, trivial, trivial⟩
    ⟨hfits', trivial⟩).2 (.insert 2) _ 2 trivial hinsert List.mem_cons_self (Or.inl ?_)).2
  intro r hr
  rw [List.mem_singleton.1 hr]
  decide

end TimerWorld

end YkServer
