import YkServer.Theory.Timer.Expiry

/-!
# Periods of Timers

No timer fires early. A period starts at a clock reading: when the timer is made, when
it is refreshed or reset to now, and when a recurring timer is handed out. It is over when
the milliseconds of the timer have passed since.

The code keeps deadlines only. It computes them with 64-bit words, and a sum that is too
large makes a deadline that is long past; timeouts that were negative numbers before
are of that size. As long as every sum fits, the deadline of a timer is the start of
its period and its length, also where `reset` takes the old length off again.

The readings of `listExpiredCb` do not go back, so no change of the clock is detected.
Those of the other operations may have been taken before or after.

## Main definitions

* `TimerManager.rewrites`: What an operation makes of a timer.
* `Firing`, `TimerPeriods`: What is handed out, and the start of every period.
* `TimerPeriods.Fits`: The sums that an operation computes fit.

## Theorems

* `perform_rewrites`: Every operation, from any state with the invariant.
* `inv_step`: A step whose sums fit.
* `never_early`: Every run of such steps.
* `fired_early`: A sum that does not fit.
-/

namespace YkServer

open Lib

namespace TimerManager

/-- What an operation that hands out `out` makes of a timer. -/
def rewrites (out : List Nat) (q : Nat) (t : Timer) : Op → Timer
  | .cancel p => if q = p then { t with cb := none } else t
  | .refresh p now => if q = p ∧ t.cb.isSome = true then { t with next := now + t.ms } else t
  | .reset p ms fromNow now =>
    if q = p ∧ t.cb.isSome = true then resetTo t ms fromNow now else t
  | .listExpiredCb now _ => if q ∈ out then t.expire now else t
  | _ => t

/-- What is behind an address where nothing was. -/
def appears (q : Nat) : Op → Option Timer
  | .addTimer p ms cb recurring now =>
    if q = p then some ⟨recurring, ms, now + ms, some cb⟩ else none
  | _ => none

/-- The heap after an operation. -/
def Rewritten (s s' : TimerManager) (out : List Nat) (op : Op) : Prop :=
  ∀ q, s'.heap q =
    match s.heap q with
    | some t => some (rewrites out q t op)
    | none => appears q op

/-- An operation that writes one timer at most. -/
theorem rewritten_one (s s' : TimerManager) (op : Op) (p : Nat) (t t' : Timer)
    (hp : s.heap p = some t) (hheap : ∀ q, s'.heap q = if q = p then some t' else s.heap q)
    (hself : rewrites [] p t op = t') (hother : ∀ q u, q ≠ p → rewrites [] q u op = u)
    (hnew : ∀ q, appears q op = none) : Rewritten s s' [] op := by
  intro q
  by_cases hq : q = p
  · subst hq
    simp only [hheap, hp, if_true, hself]
  · rw [hheap, if_neg hq]
    rcases hs : s.heap q with _ | u
    · simp only [hnew]
    · simp only [hother q u hq]

/-- An operation that writes none. -/
theorem rewritten_same (s s' : TimerManager) (op : Op) (hheap : s'.heap = s.heap)
    (hkeep : ∀ q t, s.heap q = some t → rewrites [] q t op = t)
    (hnew : ∀ q, appears q op = none) : Rewritten s s' [] op := by
  intro q
  rw [hheap]
  rcases hs : s.heap q with _ | t
  · simp only [hnew]
  · simp only [hkeep q t hs]

/-- Only a timer at the address is written. -/
theorem rewrites_other (p q : Nat) (u t : Timer) (hq : q ≠ p) (c : Prop) [Decidable c] :
    (if q = p ∧ c then t else u) = u := if_neg (fun h => hq h.1)

/-- A timer without a callback is neither refreshed nor reset. -/
theorem not_both (s : TimerManager) (p q : Nat) (t u : Timer) (hp : s.heap p = some t)
    (hq : s.heap q = some u) (hcb : t.cb.isNone = true) : ¬(q = p ∧ u.cb.isSome = true) := by
  rintro ⟨rfl, hsome⟩
  rw [hp, Option.some.injEq] at hq
  rw [hq, ← Option.not_isSome, hsome] at hcb
  cases hcb

theorem addTimer_rewrites (s s' : TimerManager) (h : s.Inv) (p : Nat) (ms : UInt64) (cb : Nat)
    (recurring : Bool) (now : UInt64) (a : Bool)
    (hrun : addTimer p ms cb recurring now s = .ok a s') :
    Rewritten s s' [] (.addTimer p ms cb recurring now) := by
  rcases addTimer_heap s s' h p ms cb recurring now a hrun with ⟨hfree, hheap⟩
  intro q
  rw [hheap]
  by_cases hq : q = p
  · subst hq
    simp only [hfree, appears, if_true]
  · rw [if_neg hq]
    rcases hs : s.heap q with _ | t
    · simp only [appears, if_neg hq]
    · rfl

theorem cancel_rewrites (s s' : TimerManager) (h : s.Inv) (p : Nat) (t : Timer) (a : Bool)
    (hp : s.heap p = some t) (hrun : cancel p s = .ok a s') : Rewritten s s' [] (.cancel p) := by
  by_cases hcb : t.cb.isSome = true
  · have hmem : p ∈ s.timers := by
      rw [h.mem, live_some s p t hp]
      exact hcb
    rw [cancel_live s h.sorted p t hp hcb hmem] at hrun
    cases hrun
    exact rewritten_one s _ _ p t _ hp (fun q => heap_withTimer (s.without p) p q _) (if_pos rfl)
      (fun q u hq => if_neg hq) (fun _ => rfl)
  · rw [cancel_dead s p t hp hcb] at hrun
    cases hrun
    refine rewritten_same s s _ rfl (fun q u hq => ?_) (fun _ => rfl)
    by_cases hqp : q = p
    · -- The callback was gone before.
      rw [hqp, hp, Option.some.injEq] at hq
      rw [rewrites, if_pos hqp, ← hq, ← Option.not_isSome_iff_eq_none.1 hcb]
    · exact if_neg hqp

theorem refresh_rewrites (s s' : TimerManager) (h : s.Inv) (p : Nat) (t : Timer) (now : UInt64)
    (a : Bool) (hp : s.heap p = some t) (hrun : refresh p now s = .ok a s') :
    Rewritten s s' [] (.refresh p now) := by
  by_cases hcb : t.cb.isNone = true
  · rw [refresh_dead s p t now hp hcb] at hrun
    cases hrun
    exact rewritten_same s s _ rfl (fun q u hq => if_neg (s.not_both p q t u hp hq hcb))
      (fun _ => rfl)
  · have hsome : t.cb.isSome = true := by
      rw [← Option.not_isNone, Bool.not_eq_true']
      exact Bool.eq_false_iff.2 hcb
    rw [refresh_live s h.sorted p t now hp hcb (mem_of_cb s h p t hp hcb)] at hrun
    cases hrun
    exact rewritten_one s _ _ p t _ hp (fun q => heap_withTimer (s.without p) p q _)
      (if_pos ⟨rfl, hsome⟩) (fun q u hq => rewrites_other p q u _ hq _) (fun _ => rfl)

/-- Where `reset` returns at once, writing the timer would change nothing. -/
theorem resetTo_same (t : Timer) (now : UInt64) : resetTo t t.ms false now = t := by
  rw [resetTo, if_neg Bool.false_ne_true, UInt64.sub_add_cancel]

theorem reset_rewrites (s s' : TimerManager) (h : s.Inv) (p : Nat) (t : Timer) (ms : UInt64)
    (fromNow : Bool) (now : UInt64) (a : Bool × Bool) (hp : s.heap p = some t)
    (hrun : reset p ms fromNow now s = .ok a s') :
    Rewritten s s' [] (.reset p ms fromNow now) := by
  rw [reset, bind_ok _ _ _ _ _ (load_some s p t hp)] at hrun
  by_cases hsame : (decide (ms = t.ms) && !fromNow) = true
  · rw [if_pos hsame, pure_apply] at hrun
    cases hrun
    rw [Bool.and_eq_true, decide_eq_true_eq, Bool.not_eq_true'] at hsame
    refine rewritten_same s s _ rfl (fun q u hq => ?_) (fun _ => rfl)
    rw [rewrites]
    by_cases hqp : q = p ∧ u.cb.isSome = true
    · rw [hqp.1, hp, Option.some.injEq] at hq
      rw [if_pos hqp, hsame.1, hsame.2, hq, resetTo_same]
    · exact if_neg hqp
  · rw [if_neg hsame] at hrun
    by_cases hcb : t.cb.isNone = true
    · rw [resetLocked_dead s p t ms fromNow now hp hcb] at hrun
      cases hrun
      exact rewritten_same s s _ rfl (fun q u hq => if_neg (s.not_both p q t u hp hq hcb))
        (fun _ => rfl)
    · have hsome : t.cb.isSome = true := by
        rw [← Option.not_isNone, Bool.not_eq_true']
        exact Bool.eq_false_iff.2 hcb
      rw [resetLocked_live s h.sorted p t ms fromNow now hp hcb (mem_of_cb s h p t hp hcb) _ rfl]
        at hrun
      cases hrun
      exact rewritten_one s _ _ p t _ hp (fun q => heap_withTimer (s.without p) p q _)
        (if_pos ⟨rfl, hsome⟩) (fun q u hq => rewrites_other p q u _ hq _) (fun _ => rfl)

/-- Without a change of the clock the timers that are handed out are due. -/
theorem listExpiredCb_rewrites (s s' : TimerManager) (h : s.Inv) (now : UInt64) (nowTimer : Nat)
    (cbs : List (Nat × Option Nat)) (hclock : s.previouseTime ≤ now)
    (hrun : listExpiredCb now nowTimer s = .ok cbs s') :
    Rewritten s s' (cbs.map Prod.fst) (.listExpiredCb now nowTimer) ∧
      ∀ p ∈ cbs.map Prod.fst, p ∈ s.timers ∧ s.deadline p ≤ now.toNat := by
  have hback : s.rolledBack now = false := by
    rw [rolledBack, decide_eq_false (UInt64.not_lt.2 hclock), Bool.false_and]
  rcases s.listExpiredCb_eq h now nowTimer with ⟨s₀, hheap₀, hapart, heq⟩
  rcases collect_exact now _ s₀ hapart with ⟨s'', hcollect, -, hheap⟩
  rw [heq, hcollect] at hrun
  cases hrun
  rw [map_fst_callbacks, hback]
  rw [hback, hheap₀] at hheap
  refine ⟨fun q => ?_, fun p hp => ⟨List.mem_of_mem_take hp,
    (s.expiredCount_due h.sorted now nowTimer).1 p hp⟩⟩
  rw [hheap]
  rcases hs : s.heap q with _ | t
  · simp only [Option.map_none, ite_self, appears]
  · rw [Option.map_some]
    exact (apply_ite some _ _ _).symm

/-- Every operation returns, and what it writes is known. -/
theorem perform_rewrites (s : TimerManager) (h : s.Inv) (op : Op)
    (hvalid : TimerHistory.Valid ⟨s, []⟩ op)
    (hclock : ∀ now nowTimer, op = .listExpiredCb now nowTimer → s.previouseTime ≤ now) :
    ∃ out s', perform op s = .ok out s' ∧ s'.Inv ∧ Rewritten s s' out op ∧
      ∀ p ∈ out, p ∈ s.timers ∧ ∃ now nowTimer, op = .listExpiredCb now nowTimer ∧
        s.deadline p ≤ now.toNat := by
  rcases perform_effect ⟨s, []⟩ h op hvalid with ⟨out, s', hrun, heff⟩
  refine ⟨out, s', hrun, heff.inv, ?_⟩
  -- What is not handed out by `listExpiredCb` is not handed out.
  have hnone : ∀ {α : Type} (m : Prog Empty TimerManager α),
      perform.nothing m s = .ok out s' → out = [] ∧ ∃ a, m s = .ok a s' := by
    intro α m hm
    rcases bind_eq_ok _ _ _ _ _ hm with ⟨a, s₁, ha, hpure⟩
    cases hpure
    exact ⟨rfl, a, ha⟩
  cases op with
  | addTimer p ms cb recurring now =>
      rcases hnone _ hrun with ⟨rfl, a, ha⟩
      exact ⟨addTimer_rewrites s s' h p ms cb recurring now a ha,
        fun q hq => absurd hq List.not_mem_nil⟩
  | cancel p =>
      rcases hnone _ hrun with ⟨rfl, a, ha⟩
      rcases Option.isSome_iff_exists.1 hvalid with ⟨t, hp⟩
      exact ⟨cancel_rewrites s s' h p t a hp ha, fun q hq => absurd hq List.not_mem_nil⟩
  | refresh p now =>
      rcases hnone _ hrun with ⟨rfl, a, ha⟩
      rcases Option.isSome_iff_exists.1 hvalid with ⟨t, hp⟩
      exact ⟨refresh_rewrites s s' h p t now a hp ha, fun q hq => absurd hq List.not_mem_nil⟩
  | reset p ms fromNow now =>
      rcases hnone _ hrun with ⟨rfl, a, ha⟩
      rcases Option.isSome_iff_exists.1 hvalid with ⟨t, hp⟩
      exact ⟨reset_rewrites s s' h p t ms fromNow now a hp ha,
        fun q hq => absurd hq List.not_mem_nil⟩
  | getNextTimer now =>
      rcases hnone _ hrun with ⟨rfl, a, ha⟩
      rcases getNextTimer_spec s (fun p ps => h.front p ps) now with ⟨a', ha', -⟩
      rw [ha'] at ha
      cases ha
      exact ⟨rewritten_same s _ _ rfl (fun _ _ _ => rfl) (fun _ => rfl),
        fun q hq => absurd hq List.not_mem_nil⟩
  | listExpiredCb now nowTimer =>
      rcases bind_eq_ok _ _ _ _ _ hrun with ⟨cbs, s₁, hcbs, hpure⟩
      cases hpure
      rcases listExpiredCb_rewrites s s' h now nowTimer cbs (hclock now nowTimer rfl) hcbs with
        ⟨hheap, hdue⟩
      exact ⟨hheap, fun p hp => ⟨(hdue p hp).1, now, nowTimer, rfl, (hdue p hp).2⟩⟩

end TimerManager

/-- A callback that is handed out at a reading, with the period of its timer. -/
structure Firing where
  timer : Nat
  started : UInt64
  ms : UInt64
  now : UInt64
  deriving DecidableEq, Repr

/-- Not before the period is over. -/
def Firing.Due (f : Firing) : Prop := f.started.toNat + f.ms.toNat ≤ f.now.toNat

/-- A manager, the reading at which the current period of each timer was started, and what
    has been handed out. -/
structure TimerPeriods where
  manager : TimerManager
  started : Nat → UInt64
  fired : List Firing

namespace TimerPeriods

open TimerManager

def new (now : UInt64) : TimerPeriods := ⟨TimerManager.new now, fun _ => now, []⟩

/-- The starts of the periods after an operation. -/
def restarted (w : TimerPeriods) (out : List Nat) : Op → Nat → UInt64
  | .addTimer p _ _ _ now => Function.update w.started p now
  | .refresh p now => Function.update w.started p now
  | .reset p _ fromNow now => if fromNow then Function.update w.started p now else w.started
  | .listExpiredCb now _ => fun q => if q ∈ out then now else w.started q
  | _ => w.started

/-- What an operation hands out. -/
def firings (w : TimerPeriods) (out : List Nat) : Op → List Firing
  | .listExpiredCb now _ => out.filterMap fun p =>
    (w.manager.heap p).map fun t => ⟨p, w.started p, t.ms, now⟩
  | _ => []

def step (op : Op) (w : TimerPeriods) : Option TimerPeriods :=
  match perform op w.manager with
  | .ok out s => some ⟨s, w.restarted out op, w.fired ++ w.firings out op⟩
  | _ => none

/-- The calls are valid, and the readings of `listExpiredCb` do not go back. -/
def Valid (w : TimerPeriods) (op : Op) : Prop :=
  TimerHistory.Valid ⟨w.manager, []⟩ op ∧
    ∀ now nowTimer, op = .listExpiredCb now nowTimer → w.manager.previouseTime ≤ now

/-- Where an operation starts a period, or gives one another length, it ends before the
    largest word. -/
def Fits (w : TimerPeriods) : Op → Prop
  | .addTimer _ ms _ _ now => now.toNat + ms.toNat < 2 ^ 64
  | .refresh p now => ∀ t, w.manager.heap p = some t → t.cb.isSome = true →
    now.toNat + t.ms.toNat < 2 ^ 64
  | .reset p ms fromNow now => ∀ t, w.manager.heap p = some t → t.cb.isSome = true →
    (if fromNow then now else w.started p).toNat + ms.toNat < 2 ^ 64
  | .listExpiredCb now _ => ∀ p ∈ w.manager.timers, ∀ t, w.manager.heap p = some t →
    t.recurring = true → t.next ≤ now → now.toNat + t.ms.toNat < 2 ^ 64
  | _ => True

/-- The deadline of a timer that has a callback is the end of its period. -/
structure Inv (w : TimerPeriods) : Prop where
  manager : w.manager.Inv
  ends : ∀ p t, w.manager.heap p = some t → t.cb.isSome = true →
    t.next.toNat = (w.started p).toNat + t.ms.toNat
  due : ∀ f ∈ w.fired, f.Due

theorem inv_new (now : UInt64) : (new now).Inv :=
  ⟨TimerManager.inv_new now, fun _ _ hp => (by cases hp), fun _ hf => absurd hf List.not_mem_nil⟩

/-- A deadline that fits. -/
theorem ends_at (start ms : UInt64) (h : start.toNat + ms.toNat < 2 ^ 64) :
    (start + ms).toNat = start.toNat + ms.toNat := by
  rw [UInt64.toNat_add, Nat.mod_eq_of_lt h]

/-- Without its length, the end of a period is its start. -/
theorem starts_at (next start ms : UInt64) (h : next.toNat = start.toNat + ms.toNat) :
    next - ms = start := by
  rw [← UInt64.toNat_inj, UInt64.toNat_sub_of_le _ _ (UInt64.le_iff_toNat_le.2 (by omega)), h,
    Nat.add_sub_cancel]

/-- What an operation makes of a timer whose deadline is the end of its period. -/
theorem ends_rewrites (w : TimerPeriods) (h : w.Inv) (op : Op) (out : List Nat)
    (hvalid : w.Valid op) (hfits : w.Fits op)
    (hout : ∀ p ∈ out, p ∈ w.manager.timers ∧ ∃ now nowTimer, op = .listExpiredCb now nowTimer ∧
      w.manager.deadline p ≤ now.toNat)
    (q : Nat) (t : Timer) (hq : w.manager.heap q = some t)
    (hcb : (rewrites out q t op).cb.isSome = true) :
    (rewrites out q t op).next.toNat =
      (w.restarted out op q).toNat + (rewrites out q t op).ms.toNat := by
  have hends := h.ends q t hq
  cases op with
  | addTimer p ms cb recurring now =>
      have hqp : q ≠ p := by
        rintro rfl
        have hfree : w.manager.heap q = none := hvalid.1
        rw [hq] at hfree
        cases hfree
      simp only [rewrites, restarted, Function.update_of_ne hqp] at hcb ⊢
      exact hends hcb
  | cancel p =>
      simp only [rewrites, restarted] at hcb ⊢
      by_cases hqp : q = p
      · rw [if_pos hqp] at hcb
        cases hcb
      · rw [if_neg hqp] at hcb ⊢
        exact hends hcb
  | refresh p now =>
      simp only [rewrites, restarted] at hcb ⊢
      by_cases hqp : q = p
      · by_cases hsome : t.cb.isSome = true
        · subst hqp
          rw [if_pos ⟨rfl, hsome⟩, Function.update_self]
          exact ends_at now t.ms (hfits t hq hsome)
        · rw [if_neg (fun hboth => hsome hboth.2)] at hcb
          exact absurd hcb hsome
      · rw [rewrites_other p q t _ hqp] at hcb ⊢
        rw [Function.update_of_ne hqp]
        exact hends hcb
  | reset p ms fromNow now =>
      simp only [rewrites, restarted] at hcb ⊢
      by_cases hqp : q = p
      · by_cases hsome : t.cb.isSome = true
        · subst hqp
          have hfit := hfits t hq hsome
          rw [if_pos ⟨rfl, hsome⟩, resetTo]
          cases fromNow with
          | true =>
              simp only [if_true, Function.update_self] at hfit ⊢
              exact ends_at now ms hfit
          | false =>
              -- The old length comes off the old deadline.
              simp only [Bool.false_eq_true, if_false] at hfit ⊢
              rw [starts_at t.next (w.started q) t.ms (hends hsome)]
              exact ends_at (w.started q) ms hfit
        · rw [if_neg (fun hboth => hsome hboth.2)] at hcb
          exact absurd hcb hsome
      · rw [rewrites_other p q t _ hqp] at hcb ⊢
        cases fromNow with
        | true =>
            simp only [if_true, Function.update_of_ne hqp]
            exact hends hcb
        | false =>
            simp only [Bool.false_eq_true, if_false]
            exact hends hcb
  | getNextTimer now => exact hends hcb
  | listExpiredCb now nowTimer =>
      simp only [rewrites, restarted] at hcb ⊢
      by_cases hmem : q ∈ out
      · rcases hout q hmem with ⟨htimer, now', nowTimer', heq, hdue⟩
        cases heq
        rw [if_pos hmem] at hcb ⊢
        rw [if_pos hmem, Timer.expire]
        rw [Timer.expire] at hcb
        by_cases hrec : t.recurring = true
        · rw [deadline_some _ q t hq] at hdue
          rw [if_pos hrec]
          exact ends_at now t.ms
            (hfits q htimer t hq hrec (UInt64.le_iff_toNat_le.2 hdue))
        · rw [if_neg hrec] at hcb
          cases hcb
      · rw [if_neg hmem] at hcb ⊢
        rw [if_neg hmem]
        exact hends hcb

/-- A new timer. -/
theorem ends_appears (w : TimerPeriods) (op : Op) (out : List Nat) (hfits : w.Fits op) (q : Nat)
    (t : Timer) (hq : appears q op = some t) :
    t.next.toNat = (w.restarted out op q).toNat + t.ms.toNat := by
  cases op with
  | addTimer p ms cb recurring now =>
      simp only [appears, restarted] at hq ⊢
      by_cases hqp : q = p
      · rw [if_pos hqp, Option.some.injEq] at hq
        rw [← hq, hqp, Function.update_self]
        exact ends_at now ms hfits
      · rw [if_neg hqp] at hq
        cases hq
  | cancel p => cases hq
  | refresh p now => cases hq
  | reset p ms fromNow now => cases hq
  | getNextTimer now => cases hq
  | listExpiredCb now nowTimer => cases hq

/-- What is handed out is due: its deadline is past, and that is the end of its period. -/
theorem due_firings (w : TimerPeriods) (h : w.Inv) (op : Op) (out : List Nat)
    (hout : ∀ p ∈ out, p ∈ w.manager.timers ∧ ∃ now nowTimer, op = .listExpiredCb now nowTimer ∧
      w.manager.deadline p ≤ now.toNat) :
    ∀ f ∈ w.firings out op, f.Due := by
  cases op with
  | listExpiredCb now nowTimer =>
      intro f hf
      rcases List.mem_filterMap.1 hf with ⟨p, hp, hmap⟩
      rcases Option.map_eq_some_iff.1 hmap with ⟨t, ht, rfl⟩
      rcases hout p hp with ⟨htimer, now', nowTimer', heq, hdue⟩
      cases heq
      have hlive : t.cb.isSome = true := by
        rw [← live_some _ p t ht, ← h.manager.mem]
        exact htimer
      rw [deadline_some _ p t ht, h.ends p t ht hlive] at hdue
      exact hdue
  | addTimer p ms cb recurring now => exact fun f hf => absurd hf List.not_mem_nil
  | cancel p => exact fun f hf => absurd hf List.not_mem_nil
  | refresh p now => exact fun f hf => absurd hf List.not_mem_nil
  | reset p ms fromNow now => exact fun f hf => absurd hf List.not_mem_nil
  | getNextTimer now => exact fun f hf => absurd hf List.not_mem_nil

/-- A valid operation returns, and where its sums fit the invariant is kept. -/
theorem inv_step (w : TimerPeriods) (h : w.Inv) (op : Op) (hvalid : w.Valid op)
    (hfits : w.Fits op) : ∃ w', step op w = some w' ∧ w'.Inv := by
  rcases perform_rewrites w.manager h.manager op hvalid.1 hvalid.2 with
    ⟨out, s', hrun, hinv, hheap, hout⟩
  refine ⟨⟨s', w.restarted out op, w.fired ++ w.firings out op⟩, by simp only [step, hrun],
    hinv, ?_, ?_⟩
  · intro q t' hq hcb
    have hafter := hheap q
    rw [hq] at hafter
    rcases hs : w.manager.heap q with _ | t
    · rw [hs] at hafter
      exact ends_appears w op out hfits q t' hafter.symm
    · rw [hs] at hafter
      cases hafter
      exact ends_rewrites w h op out hvalid hfits hout q t hs hcb
  · intro f hf
    rcases List.mem_append.1 hf with hold | hnew
    · exact h.due f hold
    · exact due_firings w h op out hout f hnew

/-- Every run of valid operations whose sums fit goes through, and no timer is handed out
    before its period is over. -/
theorem never_early (start : UInt64) (ops : List Op)
    (h : Along step (fun w op => w.Valid op ∧ w.Fits op) ops (new start)) :
    ∃ w, run step ops (new start) = some w ∧
      ∀ f ∈ w.fired, f.started.toNat + f.ms.toNat ≤ f.now.toNat := by
  rcases run_goes Inv (fun w op hinv hboth => inv_step w hinv op hboth.1 hboth.2) ops (new start)
    (inv_new start) h with ⟨w, hrun, hinv⟩
  exact ⟨w, hrun, hinv.due⟩

/-- A recurring timer that is handed out. -/
theorem never_early_recurring :
    ∃ w, run step [.addTimer 1 10 7 true 4000000, .listExpiredCb 4000012 2] (new 4000000) =
        some w ∧
      ∀ f ∈ w.fired, f.started.toNat + f.ms.toNat ≤ f.now.toNat := by
  have hfit : (4000000 : UInt64).toNat + (10 : UInt64).toNat < 2 ^ 64 := by decide
  refine never_early 4000000 _ ⟨⟨⟨rfl, ?_⟩, hfit⟩, ⟨⟨trivial, ?_⟩, ?_⟩, trivial⟩
  · rintro now nowTimer heq
    cases heq
  · rintro now nowTimer heq
    cases heq
    decide
  · intro p hp t ht _ _
    have hone : p ∈ [1] := hp
    rw [List.mem_singleton] at hone
    subst hone
    cases ht
    decide

/-- A timeout of a second less than nothing: the timer is due at once. -/
theorem fired_early :
    Along step Valid [.addTimer 1 (0 - 1000) 7 false 4000000, .listExpiredCb 4000000 2]
        (new 4000000) ∧
      ∃ w, run step [.addTimer 1 (0 - 1000) 7 false 4000000, .listExpiredCb 4000000 2]
          (new 4000000) = some w ∧
        ¬∀ f ∈ w.fired, f.started.toNat + f.ms.toNat ≤ f.now.toNat := by
  refine ⟨⟨⟨rfl, ?_⟩, ⟨trivial, ?_⟩, trivial⟩, _, rfl, ?_⟩
  · rintro now nowTimer heq
    cases heq
  · rintro now nowTimer heq
    cases heq
    decide
  · intro hall
    have hfired : (⟨1, 4000000, 0 - 1000, 4000000⟩ : Firing) ∈
        [(⟨1, 4000000, 0 - 1000, 4000000⟩ : Firing)] := List.mem_singleton_self _
    exact absurd (hall _ hfired) (by decide)

end TimerPeriods

end YkServer
