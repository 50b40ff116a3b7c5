import YkServer.Lib.Interleaving
import YkServer.Theory.Hook.Waits
import YkServer.Theory.Timer.Callbacks

/-!
# Waking a Parked Fiber

Whether a fiber that is parked in a hooked call can be sure to be woken. Its event is
registered as long as nothing has scheduled it; and its timer would do the rest, if
its callback were not over by then. The timer is armed before the event exists, so
the callback may look for the event too early. It may also leave without looking,
when the callback of an earlier round has set `cancelled` before it.

Where neither happens the timer of an open call is armed, or its callback is still to
run. A call is open from when its timer is armed until its fiber is scheduled.

## Main definitions

* `HookWorld.Expiring`: A timer is armed, or its callback still to run.
* `HookWorld.Timed`: The timers and the calls agree.

## Theorems

* `step_timed`: Every timely step keeps the agreement.
* `parked_wakes`: Parked fibers have an event and a timer, and are scheduled once.
* `parked_lost`: A fiber that is parked for good.
-/

namespace YkServer

open Lib

namespace HookWorld

/-- The timer of the call is armed, or its callback has not come to its end. -/
def Expiring (w : HookWorld) (i p : Nat) : Prop :=
  (w.timers.cbOf p).isSome = true ∨ (p, i) ∈ w.pending ∨
    ∃ b ∈ w.running, b.timer = p ∧ b.call = i

/-- A timer belongs to one call, and that of an open call is expiring. -/
structure Timed (w : HookWorld) : Prop where
  timers : w.timers.Inv
  oneShot : w.timers.OneShot
  known : ∀ (i : Nat) (c : HookCall) (p : Nat), w.calls[i]? = some c → c.timer = some p →
    (w.timers.heap p).isSome = true ∧ (w.timers.cbOf p = none ∨ w.timers.cbOf p = some i)
  due : ∀ (i : Nat) (c : HookCall), w.calls[i]? = some c → w.Open c → c.timeout ≠ noTimeout →
    ∃ p, c.timer = some p ∧ w.Expiring i p

theorem timed_new (now : UInt64) : Timed (new now) := by
  refine ⟨TimerManager.inv_new now, ?_, ?_, ?_⟩
  · intro p t hp
    cases hp
  · intro i c p hc
    cases hc
  · intro i c hc
    cases hc

theorem open_iff (w : HookWorld) (c : HookCall) :
    w.Open c ↔ c.pos = .armed ∨
      (c.waiting = true ∧ w.scheduled c.fiber = w.resumed.count c.fiber) := by
  rw [Open, unscheduled, decide_eq_true_iff]

theorem active_of_open (w : HookWorld) (c : HookCall) (h : w.Open c) : c.active = true := by
  rcases h with hpos | ⟨hwait, _⟩
  · rw [HookCall.active, hpos]
  · exact c.active_of_waiting hwait

/-! ## What a step does to one call -/

/-- A call after a step, and the timer it had before: there is none, it is new, or it is
    the old one and no worse off. -/
def Kept (w w' : HookWorld) (j : Nat) (d' : HookCall) : Prop :=
  (d'.timer = none ∧ ¬w'.Open d') ∨
  (∃ p, d'.timer = some p ∧ (w'.timers.heap p).isSome = true ∧ w'.timers.cbOf p = some j) ∨
  ∃ d : HookCall, w.calls[j]? = some d ∧ d'.timer = d.timer ∧ d'.timeout = d.timeout ∧
    (w'.Open d' → d.timeout ≠ noTimeout → w.Open d) ∧
    ∀ p, d.timer = some p → (w'.timers.heap p).isSome = true ∧
      (w'.timers.cbOf p = none ∨ w'.timers.cbOf p = w.timers.cbOf p) ∧
      (w'.Open d' → w.Open d → w.Expiring j p → w'.Expiring j p)

theorem timed_kept (w w' : HookWorld) (h : Timed w) (hinv : w'.timers.Inv)
    (hshot : w'.timers.OneShot)
    (hkept : ∀ (j : Nat) (d' : HookCall), w'.calls[j]? = some d' → Kept w w' j d') :
    Timed w' := by
  refine ⟨hinv, hshot, ?_, ?_⟩
  · intro j d' p hd' hp
    rcases hkept j d' hd' with ⟨hnone, _⟩ | ⟨q, hq, hheap, hcb⟩ | ⟨d, hd, htimer, _, _, hold⟩
    · rw [hnone] at hp
      cases hp
    · rw [hq, Option.some.injEq] at hp
      subst hp
      exact ⟨hheap, Or.inr hcb⟩
    · rw [htimer] at hp
      rcases hold p hp with ⟨hheap, hcb, _⟩
      refine ⟨hheap, ?_⟩
      rcases hcb with hcb | hcb
      · exact Or.inl hcb
      · rw [hcb]
        exact (h.known j d p hd hp).2
  · intro j d' hd' hopen hto
    rcases hkept j d' hd' with ⟨_, hno⟩ | ⟨q, hq, _, hcb⟩ | ⟨d, hd, htimer, htimeout, hopened, hold⟩
    · exact absurd hopen hno
    · exact ⟨q, hq, Or.inl (by rw [hcb]; rfl)⟩
    · rw [htimeout] at hto
      have hopen' := hopened hopen hto
      rcases h.due j d hd hopen' hto with ⟨p, hp, hexp⟩
      exact ⟨p, htimer.trans hp, (hold p hp).2.2 hopen hopen' hexp⟩

/-- The timers and the callbacks are as they were. -/
theorem kept_quiet (w w' : HookWorld) (h : Timed w) (htimers : w'.timers = w.timers)
    (hpending : w'.pending = w.pending)
    (hrunning : ∀ b ∈ w.running, ∃ b' ∈ w'.running, b'.timer = b.timer ∧ b'.call = b.call)
    (j : Nat) (d d' : HookCall) (hd : w.calls[j]? = some d) (htimer : d'.timer = d.timer)
    (htimeout : d'.timeout = d.timeout)
    (hopen : w'.Open d' → d.timeout ≠ noTimeout → w.Open d) : Kept w w' j d' := by
  refine Or.inr (Or.inr ⟨d, hd, htimer, htimeout, hopen, ?_⟩)
  intro p hp
  rw [htimers]
  refine ⟨(h.known j d p hd hp).1, Or.inr rfl, ?_⟩
  rintro - - (hcb | hmem | ⟨b, hb, hbt, hbc⟩)
  · exact Or.inl (by rw [htimers]; exact hcb)
  · exact Or.inr (Or.inl (by rw [hpending]; exact hmem))
  · rcases hrunning b hb with ⟨b', hb', hbt', hbc'⟩
    exact Or.inr (Or.inr ⟨b', hb', hbt'.trans hbt, hbc'.trans hbc⟩)

/-- One call has moved. The others are open only if they were. -/
theorem timed_set (w w' : HookWorld) (h : Timed w) (i : Nat) (c c' : HookCall)
    (hc : w.calls[i]? = some c) (hcalls : w'.calls = w.calls.set i c') (hinv : w'.timers.Inv)
    (hshot : w'.timers.OneShot) (hself : Kept w w' i c')
    (hothers : ∀ (j : Nat) (d : HookCall), j ≠ i → w.calls[j]? = some d → Kept w w' j d) :
    Timed w' := by
  refine timed_kept w w' h hinv hshot ?_
  intro j d hj
  rw [hcalls] at hj
  rcases update_cases w.calls i c c' hc j d hj with ⟨rfl, rfl⟩ | ⟨hji, hold⟩
  · exact hself
  · exact hothers j d hji hold

/-- One call has moved, and the timers and the callbacks are as they were. -/
theorem timed_moves (w w' : HookWorld) (h : Timed w) (i : Nat) (c c' : HookCall)
    (hc : w.calls[i]? = some c) (hcalls : w'.calls = w.calls.set i c')
    (htimers : w'.timers = w.timers) (hpending : w'.pending = w.pending)
    (hrunning : ∀ b ∈ w.running, ∃ b' ∈ w'.running, b'.timer = b.timer ∧ b'.call = b.call)
    (hself : Kept w w' i c')
    (hopen : ∀ (j : Nat) (d : HookCall), j ≠ i → w.calls[j]? = some d → w'.Open d → w.Open d) :
    Timed w' := by
  refine timed_set w w' h i c c' hc hcalls (by rw [htimers]; exact h.timers)
    (by rw [htimers]; exact h.oneShot) hself ?_
  intro j d hji hd
  exact kept_quiet w w' h htimers hpending hrunning j d d hd rfl rfl
    (fun hd' _ => hopen j d hji hd hd')

/-- A call that is not open afterwards. -/
theorem kept_closed (w w' : HookWorld) (h : Timed w) (htimers : w'.timers = w.timers)
    (j : Nat) (d d' : HookCall) (hd : w.calls[j]? = some d) (htimer : d'.timer = d.timer)
    (htimeout : d'.timeout = d.timeout) (hopen : ¬w'.Open d') : Kept w w' j d' := by
  refine Or.inr (Or.inr ⟨d, hd, htimer, htimeout, fun hno => absurd hno hopen, ?_⟩)
  intro p hp
  rw [htimers]
  exact ⟨(h.known j d p hd hp).1, Or.inr rfl, fun hno => absurd hno hopen⟩

theorem not_open (w : HookWorld) (c : HookCall) (harmed : c.pos ≠ .armed)
    (hwait : c.waiting = false) : ¬w.Open c := by
  rintro (hpos | ⟨hno, _⟩)
  · exact harmed hpos
  · rw [hwait] at hno
    cases hno

/-! ## Timers -/

/-- The timer of a call that is no longer open is cancelled. -/
theorem timed_cancels (w : HookWorld) (h : Timed w) (i : Nat) (c c' : HookCall)
    (s : TimerManager) (hc : w.calls[i]? = some c) (htimer : c'.timer = c.timer)
    (htimeout : c'.timeout = c.timeout) (harmed : c'.pos ≠ .armed) (hwait : c'.waiting = false)
    (hcancel : (c.timer = none ∧ s = w.timers) ∨ ∃ p a, c.timer = some p ∧
      TimerManager.cancel p w.timers = .ok a s) :
    Timed (setCall { w with timers := s } i c') := by
  have hclosed := fun w' : HookWorld => not_open w' c' harmed hwait
  rcases hcancel with ⟨_, rfl⟩ | ⟨p, a, hp, hrun⟩
  · exact timed_moves w _ h i c c' hc rfl rfl rfl (fun b hb => ⟨b, hb, rfl, rfl⟩)
      (kept_closed w _ h rfl i c c' hc htimer htimeout (hclosed _)) (fun _ _ _ _ hopen => hopen)
  · rcases TimerManager.cancel_cbOf w.timers s h.timers h.oneShot p a hrun
      with ⟨hinv, hshot, hheap, hcbOf⟩
    -- A timer keeps its callback, or it is the one that was cancelled.
    have hcb : ∀ q, s.cbOf q = none ∨ s.cbOf q = w.timers.cbOf q := by
      intro q
      rw [hcbOf]
      by_cases hq : q = p
      · exact Or.inl (if_pos hq)
      · exact Or.inr (if_neg hq)
    refine timed_set w _ h i c c' hc rfl hinv hshot ?_ ?_
    · refine Or.inr (Or.inr ⟨c, hc, htimer, htimeout, fun hno => absurd hno (hclosed _), ?_⟩)
      intro q hq
      refine ⟨(hheap q).trans (h.known i c q hc hq).1, hcb q, fun hno => absurd hno (hclosed _)⟩
    · intro j d hji hd
      refine Or.inr (Or.inr ⟨d, hd, rfl, rfl, fun hopen _ => hopen, ?_⟩)
      intro q hq
      rcases h.known j d q hd hq with ⟨hknown, hown⟩
      refine ⟨(hheap q).trans hknown, hcb q, ?_⟩
      rintro - - (hlive | hrest)
      · left
        -- A live timer has one owner, so it is not the one that was cancelled.
        have hne : q ≠ p := by
          rintro rfl
          rcases hown with hnone | hj
          · rw [hnone] at hlive
            cases hlive
          · rcases (h.known i c q hc hp).2 with hnone | hi
            · rw [hnone] at hlive
              cases hlive
            · rw [hj, Option.some.injEq] at hi
              exact hji hi
        have hkeep : s.cbOf q = w.timers.cbOf q := (hcbOf q).trans (if_neg hne)
        exact (congrArg Option.isSome hkeep).trans hlive
      · exact Or.inr hrest

/-- A new timer is armed. -/
theorem timed_arms (w : HookWorld) (h : Timed w) (i p : Nat) (now : UInt64) (c : HookCall)
    (a : Bool) (s : TimerManager) (hc : w.calls[i]? = some c)
    (hrun : TimerManager.addTimer p c.timeout i false now w.timers = .ok a s) :
    Timed (setCall { w with timers := s } i { c with timer := some p, pos := .armed }) := by
  rcases TimerManager.addTimer_cbOf w.timers s h.timers h.oneShot p c.timeout i now a hrun
    with ⟨hinv, hshot, hfree, hheap, hcbOf⟩
  refine timed_set w _ h i c _ hc rfl hinv hshot ?_ ?_
  · refine Or.inr (Or.inl ⟨p, rfl, ?_, (hcbOf p).trans (if_pos rfl)⟩)
    have hself := hheap p
    rw [decide_eq_true rfl, Bool.or_true] at hself
    exact hself
  · intro j d hji hd
    refine Or.inr (Or.inr ⟨d, hd, rfl, rfl, fun hopen _ => hopen, ?_⟩)
    intro q hq
    rcases h.known j d q hd hq with ⟨hknown, _⟩
    -- The memory of the new timer was free.
    have hne : q ≠ p := by
      rintro rfl
      rw [hfree] at hknown
      cases hknown
    have hkeep : s.cbOf q = w.timers.cbOf q := (hcbOf q).trans (if_neg hne)
    refine ⟨?_, Or.inr hkeep, ?_⟩
    · have hold := hheap q
      rw [hknown, Bool.true_or] at hold
      exact hold
    · rintro - - (hlive | hrest)
      · exact Or.inl ((congrArg Option.isSome hkeep).trans hlive)
      · exact Or.inr hrest

/-- Expired timers have become callbacks to run. -/
theorem timed_expires (w : HookWorld) (h : Timed w) (now : UInt64) (nowTimer : Nat)
    (cbs : List (Nat × Option Nat)) (s : TimerManager)
    (hrun : TimerManager.listExpiredCb now nowTimer w.timers = .ok cbs s) :
    Timed { w with
      timers := s
      pending := w.pending ++ cbs.filterMap (fun x => x.2.map (fun i => (x.1, i))) } := by
  rcases TimerManager.listExpiredCb_cbOf w.timers s h.timers h.oneShot now nowTimer cbs hrun
    with ⟨hinv, hshot, hheap, _, hhanded, hcbOf⟩
  refine timed_kept w _ h hinv hshot ?_
  intro j d hd
  refine Or.inr (Or.inr ⟨d, hd, rfl, rfl, fun hopen _ => hopen, ?_⟩)
  intro q hq
  rcases h.known j d q hd hq with ⟨hknown, hown⟩
  by_cases hout : q ∈ cbs.map Prod.fst
  · refine ⟨(hheap q).trans hknown, Or.inl ((hcbOf q).trans (if_pos hout)), ?_⟩
    rintro - - (hlive | hmem | hrunning)
    · right
      left
      rcases List.mem_map.1 hout with ⟨x, hx, rfl⟩
      rcases hhanded x hx with ⟨hcb, hsome⟩
      have hj : x.2 = some j := by
        rw [hcb]
        refine hown.resolve_left (fun hnone => ?_)
        rw [hnone] at hlive
        cases hlive
      refine List.mem_append_right _ (List.mem_filterMap.2 ⟨x, hx, ?_⟩)
      rw [hj, Option.map_some]
    · exact Or.inr (Or.inl (List.mem_append_left _ hmem))
    · exact Or.inr (Or.inr hrunning)
  · have hkeep : s.cbOf q = w.timers.cbOf q := (hcbOf q).trans (if_neg hout)
    refine ⟨(hheap q).trans hknown, Or.inr hkeep, ?_⟩
    rintro - - (hlive | hmem | hrunning)
    · exact Or.inl ((congrArg Option.isSome hkeep).trans hlive)
    · exact Or.inr (Or.inl (List.mem_append_left _ hmem))
    · exact Or.inr (Or.inr hrunning)

/-! ## Callbacks -/

/-- A callback starts. That of an open call goes on behind its test. -/
theorem timed_enter (w : HookWorld) (h : Timed w) (k p j : Nat) (c : HookCall) (bs : List Expiry)
    (hpending : w.pending[k]? = some (p, j)) (hc : w.calls[j]? = some c)
    (hgoes : c.active = true → c.cancelled = 0 → bs = [⟨p, j, false⟩])
    (htimely : Timely w (.enter k)) :
    Timed { w with pending := w.pending.eraseIdx k, running := w.running ++ bs } := by
  refine timed_kept w _ h h.timers h.oneShot ?_
  intro i d hd
  refine Or.inr (Or.inr ⟨d, hd, rfl, rfl, fun hopen _ => hopen, ?_⟩)
  intro q hq
  refine ⟨(h.known i d q hd hq).1, Or.inr rfl, ?_⟩
  rintro - hopen (hlive | hmem | ⟨b, hb, hbt, hbc⟩)
  · exact Or.inl hlive
  · rcases at_or_mem_eraseIdx w.pending k (q, i) hmem with hat | hleft
    · rw [hpending, Option.some.injEq, Prod.mk.injEq] at hat
      rcases hat with ⟨rfl, rfl⟩
      rw [hc, Option.some.injEq] at hd
      subst hd
      have hbs := hgoes (active_of_open w c hopen) (htimely p j c hpending hc hq hopen)
      refine Or.inr (Or.inr ⟨⟨p, j, false⟩, List.mem_append_right _ ?_, rfl, rfl⟩)
      rw [hbs]
      exact List.mem_singleton_self _
    · exact Or.inr (Or.inl hleft)
  · exact Or.inr (Or.inr ⟨b, List.mem_append_left _ hb, hbt, hbc⟩)

/-- Removing events only closes calls. -/
theorem open_removes (w w' : HookWorld) (h : Waits w) (fd : Nat) (gone : Event → Bool)
    (hres : w'.resumed = w.resumed) (hrem : w.manager.Removes fd gone w'.manager) (i : Nat)
    (c : HookCall) (hc : w.calls[i]? = some c) (hopen : w'.Open c) : w.Open c := by
  rw [open_iff] at hopen ⊢
  rcases hopen with hpos | ⟨hwait, hcnt⟩
  · exact Or.inl hpos
  · refine Or.inr ⟨hwait, ?_⟩
    rw [scheduled_removes w w' fd gone hrem, hres] at hcnt
    rcases h.waiting i c hc hwait with ⟨_, hcnt'⟩ | hcnt'
    · exact hcnt'
    · omega

/-- A waiting call whose event is removed is not open. -/
theorem closed_removes (w w' : HookWorld) (h : Waits w) (gone : Event → Bool)
    (hres : w'.resumed = w.resumed) (i : Nat) (c : HookCall)
    (hrem : w.manager.Removes c.fd gone w'.manager) (hc : w.calls[i]? = some c)
    (hopen : w.Open c) (harmed : c.pos ≠ .armed)
    (hgone : w.manager.registered c.fd c.event = true → gone c.event = true) : ¬w'.Open c := by
  rw [open_iff] at hopen ⊢
  rcases hopen.resolve_left harmed with ⟨hwait, hcnt⟩
  have hholds : w.Holds c := by
    rcases h.waiting i c hc hwait with ⟨hholds, _⟩ | hcnt'
    · exact hholds
    · omega
  rintro (hpos | ⟨_, hcnt'⟩)
  · exact harmed hpos
  · rw [scheduled_removes w w' c.fd gone hrem, hres,
      woke_total w h c.fd gone hrem.was i c hc hwait hholds,
      if_pos ⟨rfl, hgone hholds.1⟩] at hcnt'
    omega

/-- A callback ends. That of an open call has closed it. -/
theorem timed_cancelEvent (w : HookWorld) (hw : Waits w) (h : Timed w) (k : Nat)
    (garbage : UInt32) (ok : Bool) (b : Expiry) (c : HookCall) (a : Bool) (s : IOManager)
    (hb : w.running[k]? = some b) (hc : w.calls[b.call]? = some c)
    (hrun : IOManager.cancelEvent c.fd c.event garbage ok w.manager = .ok a s)
    (htimely : Timely w (.cancelEvent k garbage ok)) :
    Timed { w with manager := s, running := w.running.eraseIdx k } := by
  rcases IOManager.cancelEvent_removes w.manager hw.manager c.fd c.event garbage ok
    with ⟨_, _, gone, hrun', hrem, hgone⟩
  rw [hrun] at hrun'
  cases hrun'
  refine timed_kept w _ h h.timers h.oneShot ?_
  intro i d hd
  have hopened := open_removes w { w with manager := s, running := w.running.eraseIdx k } hw c.fd
    gone rfl hrem i d hd
  refine Or.inr (Or.inr ⟨d, hd, rfl, rfl, fun hopen _ => hopened hopen, ?_⟩)
  intro q hq
  refine ⟨(h.known i d q hd hq).1, Or.inr rfl, ?_⟩
  rintro hopen' hopen (hlive | hmem | ⟨b', hb', rfl, rfl⟩)
  · exact Or.inl hlive
  · exact Or.inr (Or.inl hmem)
  · rcases at_or_mem_eraseIdx w.running k b' hb' with hat | hleft
    · -- This is the callback that ends, and it was in time.
      rw [hb, Option.some.injEq] at hat
      subst hat
      rw [hc, Option.some.injEq] at hd
      subst hd
      rcases htimely b c hb hc hq hopen with ⟨harmed, hok⟩
      exact absurd hopen' (closed_removes w
        { w with manager := s, running := w.running.eraseIdx k } hw gone rfl b.call c hrem hc hopen
        harmed (hgone hok))
    · exact Or.inr (Or.inr ⟨b', hleft, rfl, rfl⟩)

/-- A closed descriptor, and a report. -/
theorem timed_removes (w : HookWorld) (hw : Waits w) (h : Timed w) (fd : Nat)
    (gone : Event → Bool) (s : IOManager) (hrem : w.manager.Removes fd gone s) :
    Timed { w with manager := s } := by
  refine timed_kept w _ h h.timers h.oneShot ?_
  intro i d hd
  refine kept_quiet w { w with manager := s } h rfl rfl (fun b hb => ⟨b, hb, rfl, rfl⟩) i d d hd
    rfl rfl ?_
  intro hopen _
  exact open_removes w { w with manager := s } hw fd gone rfl hrem i d hd hopen

/-! ## Every step -/

theorem step_timed (w w' : HookWorld) (a : Action) (hw : Waits w) (h : Timed w)
    (htimely : Timely w a) (hstep : step a w = some w') : Timed w' := by
  have hsame : ∀ b ∈ w.running, ∃ b' ∈ w.running, b'.timer = b.timer ∧ b'.call = b.call :=
    fun b hb => ⟨b, hb, rfl, rfl⟩
  cases a with
  | call r =>
      rcases call_step hstep with ⟨_, rfl | ⟨timeout, rfl⟩⟩
      · exact h
      · refine timed_kept w _ h h.timers h.oneShot ?_
        intro j d hd
        rcases getElem?_concat_eq_some w.calls _ d j hd with hold | ⟨_, rfl⟩
        · exact kept_quiet w _ h rfl rfl hsame j d d hold rfl rfl (fun hopen _ => hopen)
        · -- The new call has not armed anything.
          exact Or.inl ⟨rfl, not_open _ _ (fun hno => by cases hno) rfl⟩
  | attempt i r =>
      rcases attempt_step hstep with ⟨c, pos, hc, hpos, hto, rfl | rfl⟩
      · exact h
      · refine timed_moves w _ h i c _ hc rfl rfl rfl hsame ?_ (fun _ _ _ _ hopen => hopen)
        refine kept_closed w _ h rfl i c _ hc rfl rfl (not_open _ _ ?_ ?_)
        · rcases hto with rfl | rfl <;> exact fun hno => by cases hno
        · rcases hto with rfl | rfl <;> rfl
  | arm i p now =>
      rcases arm_step hstep with ⟨c, hc, hpos, ⟨hto, rfl⟩ | ⟨b, s, hrun, rfl⟩⟩
      · refine timed_moves w _ h i c _ hc rfl rfl rfl hsame ?_ (fun _ _ _ _ hopen => hopen)
        exact kept_quiet w _ h rfl rfl hsame i c _ hc rfl rfl (fun _ hno => absurd hto hno)
      · exact timed_arms w h i p now c b s hc hrun
  | addEvent i ok =>
      rcases addEvent_step hstep with ⟨c, rt, s, hc, hpos, hrun, rfl⟩
      have hsched : s.scheduled = w.manager.scheduled := by
        rcases IOManager.addEvent_registers w.manager s hw.manager c.fd c.event c.caller ok rt hrun
          with ⟨_, hreg⟩ | ⟨_, _, hun⟩
        · exact hreg.scheduled
        · exact hun.scheduled
      have hopen : ∀ d : HookCall, Open (setCall { w with manager := s } i
          { c with pos := if rt = 0 then .added else .failed }) d → w.Open d := by
        intro d hd
        rw [open_iff] at hd ⊢
        unfold scheduled at hd ⊢
        rw [← hsched]
        exact hd
      refine timed_moves w _ h i c _ hc rfl rfl rfl hsame ?_ (fun _ d _ _ hd => hopen d hd)
      -- The call was open before, from arming the timer on.
      exact kept_quiet w (setCall { w with manager := s } i _) h rfl rfl hsame i c
        { c with pos := if rt = 0 then .added else .failed } hc rfl rfl (fun _ _ => Or.inl hpos)
  | giveUp i =>
      rcases cancels_step _ hstep with ⟨c, s, hc, _, hcancel, rfl⟩
      exact timed_cancels w h i c _ s hc rfl rfl (fun hno => by cases hno) rfl hcancel
  | yieldToHold i =>
      rcases yieldToHold_step hstep with ⟨c, hc, hpos, rfl⟩
      refine timed_moves w _ h i c _ hc rfl rfl rfl hsame ?_ (fun _ _ _ _ hopen => hopen)
      refine kept_quiet w (w.setCall i { c with pos := .parked }) h rfl rfl hsame i c
        { c with pos := .parked } hc rfl rfl ?_
      intro hopen _
      rw [open_iff] at hopen ⊢
      refine Or.inr ⟨?_, (hopen.resolve_left (fun hno => by cases hno)).2⟩
      rw [HookCall.waiting, hpos]
      rfl
  | resume i =>
      rcases resume_step hstep with ⟨c, hc, hpos, hqueued, rfl⟩
      have hwait : c.waiting = true := by
        rw [HookCall.waiting, hpos]
        rfl
      refine timed_moves w _ h i c _ hc rfl rfl rfl hsame ?_ ?_
      · refine kept_closed w
          { w.setCall i { c with pos := .woken } with resumed := c.fiber :: w.resumed } h rfl i c
          { c with pos := .woken } hc rfl rfl ?_
        exact not_open _ _ (fun hno => by cases hno) rfl
      · intro j d hji hd hopen
        rw [open_iff] at hopen ⊢
        rcases hopen with hpos' | ⟨hdwait, hcnt⟩
        · exact Or.inl hpos'
        · refine Or.inr ⟨hdwait, ?_⟩
          -- The fiber that was resumed is not that of another waiting call.
          have hne : c.fiber ≠ d.fiber := fun hf => hji (hw.solo j i d c hd hc
            (d.active_of_waiting hdwait) (c.active_of_waiting hwait) hf.symm)
          exact hcnt.trans (List.count_cons_of_ne hne)
  | cancelTimer i =>
      rcases cancels_step (fun _ => .checking) hstep with ⟨c, s, hc, _, hcancel, rfl⟩
      exact timed_cancels w h i c _ s hc rfl rfl (fun hno => by cases hno) rfl hcancel
  | check i =>
      rcases check_step hstep with ⟨c, timer, pos, hc, hpos, htimer, hto, rfl⟩
      refine timed_moves w _ h i c _ hc rfl rfl rfl hsame ?_ (fun _ _ _ _ hopen => hopen)
      have hclosed : ¬Open (w.setCall i { c with timer := timer, pos := pos })
          { c with timer := timer, pos := pos } := by
        refine not_open _ _ ?_ ?_
        · rcases hto with rfl | ⟨r, rfl⟩ <;> exact fun hno => by cases hno
        · rcases hto with rfl | ⟨r, rfl⟩ <;> rfl
      rcases htimer with rfl | rfl
      · exact kept_closed w _ h rfl i c _ hc rfl rfl hclosed
      · exact Or.inl ⟨rfl, hclosed⟩
  | listExpiredCb now nowTimer =>
      rcases listExpiredCb_step hstep with ⟨cbs, s, hrun, rfl⟩
      exact timed_expires w h now nowTimer cbs s hrun
  | enter k =>
      rcases enter_step hstep with ⟨p, j, c, bs, hpending, hc, rfl, hgoes⟩
      exact timed_enter w h k p j c bs hpending hc hgoes htimely
  | mark k =>
      rcases mark_step hstep with ⟨b, c, hb, hc, rfl⟩
      have hmarked : ∀ b' ∈ w.running, ∃ b'' ∈ w.running.set k { b with marked := true },
          b''.timer = b'.timer ∧ b''.call = b'.call := by
        intro b' hb'
        rcases at_or_mem_set w.running k b' { b with marked := true } hb' with hat | hstays
        · rw [hb, Option.some.injEq] at hat
          subst hat
          exact ⟨_, mem_set_self w.running k b _ hb, rfl, rfl⟩
        · exact ⟨b', hstays, rfl, rfl⟩
      refine timed_moves w _ h b.call c _ hc rfl rfl rfl hmarked ?_ (fun _ _ _ _ hopen => hopen)
      exact kept_quiet w { w.setCall b.call { c with cancelled := ETIMEDOUT } with
        running := w.running.set k { b with marked := true } } h rfl rfl hmarked b.call c
        { c with cancelled := ETIMEDOUT } hc rfl rfl (fun hopen _ => hopen)
  | cancelEvent k garbage ok =>
      rcases cancelEvent_step hstep with ⟨b, c, r, s, hb, hc, hrun, rfl⟩
      exact timed_cancelEvent w hw h k garbage ok b c r s hb hc hrun htimely
  | cancelAll fd ok =>
      rcases cancelAll_step hstep with ⟨r, s, hrun, rfl⟩
      rcases IOManager.cancelAll_removes w.manager hw.manager fd ok with ⟨_, _, gone, hrun', hrem⟩
      rw [hrun] at hrun'
      cases hrun'
      exact timed_removes w hw h fd gone s hrem
  | dispatch fd mask ok =>
      rcases dispatch_step hstep with ⟨s, hrun, rfl⟩
      rcases IOManager.dispatch_removes w.manager s hw.manager fd mask ok hrun with ⟨gone, hrem⟩
      exact timed_removes w hw h fd gone s hrem

/-! ## Runs -/

/-- In every run of timely steps a parked fiber that was not scheduled is registered, and
    its timer is armed or the callback of it still to run. A fiber is scheduled once
    for each `YieldToHold`. -/
theorem parked_wakes (now : UInt64) (acts : List Action) (w : HookWorld)
    (htimely : Along step Timely acts (new now)) (hrun : run step acts (new now) = some w) :
    (∀ (i : Nat) (c : HookCall), w.calls[i]? = some c → c.pos = .parked →
      c.timeout ≠ noTimeout → w.unscheduled c.fiber = true →
      w.manager.registered c.fd c.event = true ∧
      (w.manager.entry c.fd).getContext c.event = IOManager.newContext none c.caller ∧
      ∃ p, c.timer = some p ∧ (p ∈ w.timers.timers ∨ (p, i) ∈ w.pending ∨
        ∃ b ∈ w.running, b.timer = p ∧ b.call = i)) ∧
    ∀ f, w.scheduled f = w.resumed.count f ∨
      (w.scheduled f = w.resumed.count f + 1 ∧
        ∃ (i : Nat) (c : HookCall), w.calls[i]? = some c ∧ c.waiting = true ∧ c.fiber = f) := by
  have hinv : Waits w ∧ Timed w := by
    refine run_inv (fun w => Waits w ∧ Timed w) ?_ acts (new now) w
      ⟨waits_new now, timed_new now⟩ htimely hrun
    rintro w a w' ⟨hw, ht⟩ hP hstep
    exact ⟨step_waits w w' a hw hstep, step_timed w w' a hw ht hP hstep⟩
  rcases hinv with ⟨hw, ht⟩
  refine ⟨?_, ?_⟩
  · intro i c hc hpos hto hun
    have hwait : c.waiting = true := by
      rw [HookCall.waiting, hpos]
      rfl
    have hcnt : w.scheduled c.fiber = w.resumed.count c.fiber := by
      rw [unscheduled, decide_eq_true_iff] at hun
      exact hun
    have hholds : w.Holds c := by
      rcases hw.waiting i c hc hwait with ⟨hholds, _⟩ | hcnt'
      · exact hholds
      · omega
    rcases ht.due i c hc (Or.inr ⟨hwait, hun⟩) hto with ⟨p, hp, hexp⟩
    refine ⟨hholds.1, hholds.2, p, hp, ?_⟩
    rw [ht.timers.mem_cbOf]
    exact hexp
  · intro f
    by_cases hsome : ∃ (i : Nat) (c : HookCall), w.calls[i]? = some c ∧ c.waiting = true ∧
        c.fiber = f
    · rcases hsome with ⟨i, c, hc, hwait, rfl⟩
      rcases hw.waiting i c hc hwait with ⟨_, hcnt⟩ | hcnt
      · exact Or.inl hcnt
      · exact Or.inr ⟨hcnt, i, c, hc, hwait, rfl⟩
    · left
      refine hw.others f ?_
      intro i c hc hwait hf
      exact hsome ⟨i, c, hc, hwait, hf⟩

/-- Fiber 9 reads from a socket with a timeout of one millisecond. -/
def readRequest : HookRequest :=
  ⟨.doIo .READ .SO_RCVTIMEO, 5, true, some ⟨true, false, false, 1, 1⟩, ⟨0, 9⟩⟩

/-- The timer expires while the fiber is parked. Its callback has set `cancelled` and is
    about to cancel the event. -/
theorem parked_wakes_timeout :
    ∃ w c, Along step Timely ([.call readRequest, .attempt 0 .wouldBlock, .arm 0 64 100,
        .addEvent 0 true, .yieldToHold 0, .listExpiredCb 200 99] ++ [.enter 0, .mark 0]) (new 100) ∧
      run step ([.call readRequest, .attempt 0 .wouldBlock, .arm 0 64 100, .addEvent 0 true,
        .yieldToHold 0, .listExpiredCb 200 99] ++ [.enter 0, .mark 0]) (new 100) = some w ∧
      w.calls[0]? = some c ∧ c.pos = .parked ∧ c.cancelled = ETIMEDOUT ∧
      w.manager.registered c.fd c.event = true ∧
      ∃ p, c.timer = some p ∧ (p ∈ w.timers.timers ∨ (p, 0) ∈ w.pending ∨
        ∃ b ∈ w.running, b.timer = p ∧ b.call = 0) := by
  have hfirst : (run step [.call readRequest, .attempt 0 .wouldBlock, .arm 0 64 100,
      .addEvent 0 true, .yieldToHold 0, .listExpiredCb 200 99] (new 100)).map
        (fun w => (w.calls, w.pending)) =
      some ([⟨.doIo .READ .SO_RCVTIMEO, 5, ⟨0, 9⟩, 1, 0, some 64, .parked⟩], [(64, 0)]) := rfl
  rcases Option.map_eq_some_iff.1 hfirst with ⟨w₁, hrun₁, hw₁⟩
  rw [Prod.mk.injEq] at hw₁
  have hall : (run step ([.call readRequest, .attempt 0 .wouldBlock, .arm 0 64 100,
      .addEvent 0 true, .yieldToHold 0, .listExpiredCb 200 99] ++ [.enter 0, .mark 0])
        (new 100)).map (fun w => (w.calls, w.unscheduled 9)) =
      some ([⟨.doIo .READ .SO_RCVTIMEO, 5, ⟨0, 9⟩, 1, ETIMEDOUT, some 64, .parked⟩], true) := rfl
  rcases Option.map_eq_some_iff.1 hall with ⟨w, hrun, hw⟩
  rw [Prod.mk.injEq] at hw
  have htimely : Along step Timely ([.call readRequest, .attempt 0 .wouldBlock, .arm 0 64 100,
      .addEvent 0 true, .yieldToHold 0, .listExpiredCb 200 99] ++ [.enter 0, .mark 0])
        (new 100) := by
    rw [along_append _ _ _ _ hrun₁]
    refine ⟨⟨trivial, trivial, trivial, trivial, trivial, trivial, trivial⟩, ?_⟩
    have henter : Timely w₁ (.enter 0) := by
      intro p i c hp hc _ _
      rw [hw₁.2] at hp
      cases hp
      rw [hw₁.1] at hc
      cases hc
      rfl
    refine ⟨henter, ?_⟩
    rcases step (.enter 0) w₁ with _ | w₂
    · trivial
    · refine ⟨trivial, ?_⟩
      rcases step (.mark 0) w₂ with _ | w₃ <;> trivial
  have hc : w.calls[0]? = some ⟨.doIo .READ .SO_RCVTIMEO, 5, ⟨0, 9⟩, 1, ETIMEDOUT, some 64,
      .parked⟩ := by
    rw [hw.1]
    rfl
  rcases (parked_wakes 100 _ w htimely hrun).1 0 _ hc rfl (by decide) hw.2 with ⟨hreg, _, htimer⟩
  exact ⟨w, _, htimely, hrun, hc, rfl, rfl, hreg, htimer⟩

/-- The timer expires between `addConditionTimer` and `addEvent`. Its callback finds no
    event to cancel, and nothing is left that could wake the fiber when it parks. -/
theorem parked_lost :
    ∃ w c, run step [.call readRequest, .attempt 0 .wouldBlock, .arm 0 64 100,
      .listExpiredCb 200 99, .enter 0, .mark 0, .cancelEvent 0 0 true, .addEvent 0 true,
      .yieldToHold 0] (new 100) = some w ∧
      w.calls[0]? = some c ∧ c.pos = .parked ∧ c.timeout ≠ noTimeout ∧
      w.unscheduled c.fiber = true ∧
      ¬∃ p, c.timer = some p ∧ (p ∈ w.timers.timers ∨ (p, 0) ∈ w.pending ∨
        ∃ b ∈ w.running, b.timer = p ∧ b.call = 0) := by
  have hall : (run step [.call readRequest, .attempt 0 .wouldBlock, .arm 0 64 100,
      .listExpiredCb 200 99, .enter 0, .mark 0, .cancelEvent 0 0 true, .addEvent 0 true,
      .yieldToHold 0] (new 100)).map
        (fun w => (w.calls, w.unscheduled 9, w.timers.timers, w.pending, w.running)) =
      some ([⟨.doIo .READ .SO_RCVTIMEO, 5, ⟨0, 9⟩, 1, ETIMEDOUT, some 64, .parked⟩], true, [], [],
        []) := rfl
  rcases Option.map_eq_some_iff.1 hall with ⟨w, hrun, hw⟩
  simp only [Prod.mk.injEq] at hw
  rcases hw with ⟨hcalls, hun, htimers, hpending, hrunning⟩
  refine ⟨w, ⟨.doIo .READ .SO_RCVTIMEO, 5, ⟨0, 9⟩, 1, ETIMEDOUT, some 64, .parked⟩, hrun, ?_, rfl,
    by decide, hun, ?_⟩
  · rw [hcalls]
    rfl
  · rw [htimers, hpending, hrunning]
    rintro ⟨p, _, hmem | hmem | ⟨b, hb, _⟩⟩
    · exact List.not_mem_nil hmem
    · exact List.not_mem_nil hmem
    · exact List.not_mem_nil hb

end HookWorld

end YkServer
