import YkServer.Lib.Table
import YkServer.Theory.Hook.Steps
import YkServer.Theory.IOManager.Removal

/-!
# Waiting Calls

What ties the hooked calls to the event table, whatever the order of steps: the
registered events are those of the calls between `addEvent` and the return of
`YieldToHold` whose fiber was not scheduled, and a fiber is scheduled once for each
time that it waits.

## Main definitions

* `HookWorld.Holds`: The fiber of a call is registered for its event.
* `HookWorld.Waits`: The registered events and the waiting calls agree.

## Theorems

* `waits_related`, `waits_removes`, `waits_registers`, `waits_resume`: What steps do.
* `step_waits`: Every step keeps the agreement.
-/

namespace YkServer

open Lib

/-- Two states of one call. -/
structure HookCall.Same (c c' : HookCall) : Prop where
  fn : c'.fn = c.fn
  fd : c'.fd = c.fd
  caller : c'.caller = c.caller
  timeout : c'.timeout = c.timeout

theorem HookCall.same_refl (c : HookCall) : c.Same c := ⟨rfl, rfl, rfl, rfl⟩

theorem HookCall.Same.event {c c' : HookCall} (h : c.Same c') : c'.event = c.event := by
  rw [HookCall.event, h.fn, HookCall.event]

theorem HookCall.Same.fiber {c c' : HookCall} (h : c.Same c') : c'.fiber = c.fiber := by
  rw [HookCall.fiber, h.caller, HookCall.fiber]

theorem HookCall.active_of_waiting (c : HookCall) (h : c.waiting = true) : c.active = true := by
  unfold HookCall.waiting at h
  unfold HookCall.active
  rw [Bool.or_eq_true, decide_eq_true_iff, decide_eq_true_iff] at h
  rcases h with h | h
  · rw [h]
  · rw [h]

namespace HookWorld

/-- The fiber of the call is registered for its event. -/
def Holds (w : HookWorld) (c : HookCall) : Prop :=
  w.manager.registered c.fd c.event = true ∧
    (w.manager.entry c.fd).getContext c.event = IOManager.newContext none c.caller

/-- A fiber is in one call at a time. -/
def Solo (w : HookWorld) : Prop :=
  ∀ (i j : Nat) (c d : HookCall), w.calls[i]? = some c → w.calls[j]? = some d →
    c.active = true → d.active = true → c.fiber = d.fiber → i = j

/-- Registered events belong to waiting calls whose fiber was not scheduled, every other
    waiting call was scheduled once, and no fiber else. -/
structure Waits (w : HookWorld) : Prop where
  manager : w.manager.Inv
  solo : w.Solo
  owner : ∀ fd e, w.manager.registered fd e = true → ∃ (i : Nat) (c : HookCall),
    w.calls[i]? = some c ∧ c.waiting = true ∧ c.fd = fd ∧ c.event = e ∧ w.Holds c ∧
      w.scheduled c.fiber = w.resumed.count c.fiber
  waiting : ∀ (i : Nat) (c : HookCall), w.calls[i]? = some c → c.waiting = true →
    (w.Holds c ∧ w.scheduled c.fiber = w.resumed.count c.fiber) ∨
      w.scheduled c.fiber = w.resumed.count c.fiber + 1
  others : ∀ f,
    (∀ (i : Nat) (c : HookCall), w.calls[i]? = some c → c.waiting = true → c.fiber ≠ f) →
    w.scheduled f = w.resumed.count f

theorem waits_new (now : UInt64) : Waits (new now) := by
  refine ⟨IOManager.inv_new, ?_, ?_, ?_, fun _ _ => rfl⟩
  · intro i j c d hc
    cases hc
  · intro fd e hreg
    have hnone : IOManager.new.registered fd e = false := by
      rw [IOManager.registered, IOManager.new,
        IOManager.entry_contextResize 32 _ (Nat.zero_le _)]
      exact FdContext.registered_new fd e
    have hreg' : IOManager.new.registered fd e = true := hreg
    rw [hnone] at hreg'
    cases hreg'
  · intro i c hc
    cases hc

/-! ## Steps that leave the registrations -/

theorem holds_same (w w' : HookWorld) (c c' : HookCall) (hsame : c.Same c')
    (hentry : ∀ fd, w'.manager.entry fd = w.manager.entry fd) (h : w.Holds c) : w'.Holds c' := by
  unfold Holds IOManager.registered at h ⊢
  rw [hentry, hsame.fd, hsame.event, hsame.caller]
  exact h

/-- The same calls wait, for the same entries. -/
theorem waits_related (w w' : HookWorld) (h : Waits w) (hinv : w'.manager.Inv)
    (hentry : ∀ fd, w'.manager.entry fd = w.manager.entry fd)
    (hsched : w'.manager.scheduled = w.manager.scheduled) (hres : w'.resumed = w.resumed)
    (hsolo : w'.Solo)
    (hback : ∀ (i : Nat) (c' : HookCall), w'.calls[i]? = some c' → c'.waiting = true →
      ∃ c : HookCall, w.calls[i]? = some c ∧ c.Same c' ∧ c.waiting = true)
    (hforth : ∀ (i : Nat) (c : HookCall), w.calls[i]? = some c → c.waiting = true →
      ∃ c' : HookCall, w'.calls[i]? = some c' ∧ c.Same c' ∧ c'.waiting = true) : Waits w' := by
  have hcount : ∀ f, w'.scheduled f = w.scheduled f := by
    intro f
    unfold scheduled
    rw [hsched]
  refine ⟨hinv, hsolo, ?_, ?_, ?_⟩
  · intro fd e hreg
    rw [IOManager.registered, hentry] at hreg
    rcases h.owner fd e hreg with ⟨i, c, hc, hwait, hfd, he, hholds, hcnt⟩
    rcases hforth i c hc hwait with ⟨c', hc', hsame, hwait'⟩
    refine ⟨i, c', hc', hwait', hsame.fd.trans hfd, hsame.event.trans he,
      holds_same w w' c c' hsame hentry hholds, ?_⟩
    rw [hcount, hres, hsame.fiber]
    exact hcnt
  · intro i c' hc' hwait'
    rcases hback i c' hc' hwait' with ⟨c, hc, hsame, hwait⟩
    rw [hcount, hres, hsame.fiber]
    rcases h.waiting i c hc hwait with ⟨hholds, hcnt⟩ | hcnt
    · exact Or.inl ⟨holds_same w w' c c' hsame hentry hholds, hcnt⟩
    · exact Or.inr hcnt
  · intro f hnone
    rw [hcount, hres]
    refine h.others f ?_
    intro i c hc hwait heq
    rcases hforth i c hc hwait with ⟨c', hc', hsame, hwait'⟩
    exact hnone i c' hc' hwait' (hsame.fiber.trans heq)

/-- One call is at another place. -/
theorem solo_set (w w' : HookWorld) (h : w.Solo) (i : Nat) (c c' : HookCall)
    (hc : w.calls[i]? = some c)
    (hcalls : ∀ j, w'.calls[j]? = if j = i then some c' else w.calls[j]?) (hsame : c.Same c')
    (hactive : c'.active = true → c.active = true) : w'.Solo := by
  -- An active call was active before, with the same fiber.
  have hback : ∀ (j : Nat) (d : HookCall), w'.calls[j]? = some d → d.active = true →
      ∃ d₀ : HookCall, w.calls[j]? = some d₀ ∧ d₀.active = true ∧ d.fiber = d₀.fiber := by
    intro j d hj hd
    rw [hcalls] at hj
    by_cases hji : j = i
    · rw [if_pos hji, Option.some.injEq] at hj
      subst hj
      exact ⟨c, by rw [hji]; exact hc, hactive hd, hsame.fiber⟩
    · rw [if_neg hji] at hj
      exact ⟨d, hj, hd, rfl⟩
  intro j k d e hj hk hd he hf
  rcases hback j d hj hd with ⟨d₀, hj₀, hd₀, hdf⟩
  rcases hback k e hk he with ⟨e₀, hk₀, he₀, hef⟩
  exact h j k d₀ e₀ hj₀ hk₀ hd₀ he₀ (hdf.symm.trans (hf.trans hef))

/-- One call is at another place where it waits or does not, as before. -/
theorem waits_set (w w' : HookWorld) (h : Waits w) (i : Nat) (c c' : HookCall)
    (hinv : w'.manager.Inv) (hentry : ∀ fd, w'.manager.entry fd = w.manager.entry fd)
    (hsched : w'.manager.scheduled = w.manager.scheduled) (hres : w'.resumed = w.resumed)
    (hc : w.calls[i]? = some c) (hcalls : w'.calls = w.calls.set i c') (hsame : c.Same c')
    (hactive : c'.active = true → c.active = true) (hwait : c'.waiting = c.waiting) :
    Waits w' := by
  have hget : ∀ j, w'.calls[j]? = if j = i then some c' else w.calls[j]? := by
    intro j
    rw [hcalls]
    exact getElem?_update w.calls i c c' hc j
  refine waits_related w w' h hinv hentry hsched hres
    (solo_set w w' h.solo i c c' hc hget hsame hactive) ?_ ?_
  · intro j d hj hd
    rw [hcalls] at hj
    rcases update_cases w.calls i c c' hc j d hj with ⟨rfl, rfl⟩ | ⟨-, hold⟩
    · exact ⟨c, hc, hsame, hwait ▸ hd⟩
    · exact ⟨d, hold, d.same_refl, hd⟩
  · intro j d hj hd
    rw [hcalls]
    rcases cases_update w.calls i c c' hc j d hj with ⟨rfl, hnew⟩ | ⟨-, hstill⟩
    · exact ⟨c', hnew, hsame, hwait.trans hd⟩
    · exact ⟨d, hstill, d.same_refl, hd⟩

/-- A fiber starts a call. -/
theorem waits_append (w w' : HookWorld) (h : Waits w) (c : HookCall)
    (hmanager : w'.manager = w.manager) (hres : w'.resumed = w.resumed)
    (hcalls : w'.calls = w.calls ++ [c]) (hfree : w.busy c.fiber = false)
    (hwait : c.waiting = false) : Waits w' := by
  have hnew : ∀ (i : Nat) (d : HookCall), w'.calls[i]? = some d →
      w.calls[i]? = some d ∨ i = w.calls.length ∧ d = c := by
    intro i d hd
    rw [hcalls] at hd
    exact getElem?_concat_eq_some w.calls c d i hd
  -- The fiber that calls is in no other call.
  have hother : ∀ (i : Nat) (d : HookCall), w.calls[i]? = some d → d.active = true →
      d.fiber ≠ c.fiber := by
    intro i d hd hactive heq
    have hbusy : w.busy c.fiber = true := by
      refine List.any_eq_true.2 ⟨d, List.mem_of_getElem? hd, ?_⟩
      rw [hactive, Bool.true_and, decide_eq_true_iff]
      exact heq
    rw [hfree] at hbusy
    cases hbusy
  have hsolo : w'.Solo := by
    intro i j d e hi hj hd he hf
    rcases hnew i d hi with hi | ⟨rfl, rfl⟩ <;> rcases hnew j e hj with hj | ⟨rfl, rfl⟩
    · exact h.solo i j d e hi hj hd he hf
    · exact absurd hf (hother i d hi hd)
    · exact absurd hf.symm (hother j e hj he)
    · rfl
  refine waits_related w w' h (by rw [hmanager]; exact h.manager) (fun fd => by rw [hmanager])
    (by rw [hmanager]) hres hsolo ?_ ?_
  · intro i d hi hd
    rcases hnew i d hi with hi | ⟨rfl, rfl⟩
    · exact ⟨d, hi, d.same_refl, hd⟩
    · rw [hwait] at hd
      cases hd
  · intro i d hi hd
    exact ⟨d, by rw [hcalls]; exact getElem?_concat_of_some w.calls c d i hi, d.same_refl, hd⟩

/-! ## Removed events -/

/-- How often removing an event schedules the fiber. -/
def woke (w : HookWorld) (fd : Nat) (gone : Event → Bool) (f : Nat) (e : Event) : Nat :=
  if gone e then ((w.manager.entry fd).getContext e).waiter.countP (fun t => t.2 = .fiber f) else 0

theorem scheduled_removes (w w' : HookWorld) (fd : Nat) (gone : Event → Bool)
    (hrem : w.manager.Removes fd gone w'.manager) (f : Nat) :
    w'.scheduled f = w.scheduled f + (w.woke fd gone f .READ + w.woke fd gone f .WRITE) := by
  unfold scheduled woke
  rw [hrem.scheduled, List.countP_append, List.countP_append]
  congr 2
  · split <;> rfl
  · split <;> rfl

theorem countP_newContext (caller : Caller) (f : Nat) :
    (IOManager.newContext none caller).waiter.countP (fun t => t.2 = .fiber f) =
      if caller.fiber = f then 1 else 0 := by
  have hwaiter : (IOManager.newContext none caller).waiter =
      [(caller.scheduler, .fiber caller.fiber)] := rfl
  rw [hwaiter, List.countP_singleton]
  by_cases hf : caller.fiber = f
  · rw [if_pos hf, hf, decide_eq_true rfl, if_pos rfl]
  · rw [if_neg hf, decide_eq_false (fun h => hf (Task.fiber.inj h)), if_neg Bool.false_ne_true]

/-- A call that holds what is removed is scheduled once. -/
theorem woke_own (w : HookWorld) (gone : Event → Bool) (c : HookCall) (h : w.Holds c)
    (hgone : gone c.event = true) : w.woke c.fd gone c.fiber c.event = 1 := by
  rw [woke, if_pos hgone, h.2, countP_newContext]
  exact if_pos rfl

/-- Whoever is scheduled has a call that held what is removed. -/
theorem woke_owner (w : HookWorld) (h : Waits w) (fd : Nat) (gone : Event → Bool)
    (hwas : ∀ e, gone e = true → w.manager.registered fd e = true) (f : Nat) (e : Event)
    (hwoke : w.woke fd gone f e ≠ 0) :
    ∃ (i : Nat) (c : HookCall), w.calls[i]? = some c ∧ c.waiting = true ∧ c.fd = fd ∧
      c.event = e ∧ c.fiber = f ∧ gone e = true ∧ w.scheduled f = w.resumed.count f := by
  by_cases hgone : gone e = true
  · rcases h.owner fd e (hwas e hgone) with ⟨i, c, hc, hwait, rfl, rfl, hholds, hcnt⟩
    rw [woke, if_pos hgone, hholds.2, countP_newContext] at hwoke
    by_cases hf : c.caller.fiber = f
    · subst hf
      exact ⟨i, c, hc, hwait, rfl, rfl, rfl, hgone, hcnt⟩
    · rw [if_neg hf] at hwoke
      exact absurd rfl hwoke
  · rw [woke, if_neg hgone] at hwoke
    exact absurd rfl hwoke

/-- What removing events does to the fiber of a call that holds one. -/
theorem woke_total (w : HookWorld) (h : Waits w) (fd : Nat) (gone : Event → Bool)
    (hwas : ∀ e, gone e = true → w.manager.registered fd e = true) (i : Nat) (c : HookCall)
    (hc : w.calls[i]? = some c) (hwait : c.waiting = true) (hholds : w.Holds c) :
    w.woke fd gone c.fiber .READ + w.woke fd gone c.fiber .WRITE =
      if c.fd = fd ∧ gone c.event = true then 1 else 0 := by
  -- Only the event of the call itself can schedule its fiber.
  have honly : ∀ e, w.woke fd gone c.fiber e ≠ 0 →
      e = c.event ∧ c.fd = fd ∧ gone c.event = true := by
    intro e hwoke
    rcases woke_owner w h fd gone hwas c.fiber e hwoke
      with ⟨j, d, hd, hdwait, hfd, he, hfiber, hgone, _⟩
    -- The owner of the event has the same fiber, so it is this call.
    have hji := h.solo j i d c hd hc (d.active_of_waiting hdwait) (c.active_of_waiting hwait) hfiber
    subst hji
    rw [hc, Option.some.injEq] at hd
    subst hd
    exact ⟨he.symm, hfd, by rw [he]; exact hgone⟩
  have hzero : ∀ e, ¬(e = c.event ∧ c.fd = fd ∧ gone c.event = true) →
      w.woke fd gone c.fiber e = 0 := by
    intro e hno
    by_contra hwoke
    exact hno (honly e hwoke)
  by_cases hhit : c.fd = fd ∧ gone c.event = true
  · rw [if_pos hhit]
    have hown : w.woke fd gone c.fiber c.event = 1 := by
      rw [← hhit.1]
      exact woke_own w gone c hholds hhit.2
    -- One of the two events is that of the call, the other does not concern its fiber.
    rcases he : c.event with _ | _
    · rw [hzero .WRITE (fun hno => by rw [he] at hno; cases hno.1), ← he, hown]
    · rw [hzero .READ (fun hno => by rw [he] at hno; cases hno.1), ← he, hown]
  · rw [if_neg hhit, hzero .READ (fun hno => hhit hno.2), hzero .WRITE (fun hno => hhit hno.2)]

/-- Nobody else is scheduled. -/
theorem woke_none (w : HookWorld) (h : Waits w) (fd : Nat) (gone : Event → Bool)
    (hwas : ∀ e, gone e = true → w.manager.registered fd e = true) (f : Nat)
    (hnone : ∀ (i : Nat) (c : HookCall), w.calls[i]? = some c → c.waiting = true → c.fiber = f →
      w.scheduled f ≠ w.resumed.count f) :
    w.woke fd gone f .READ + w.woke fd gone f .WRITE = 0 := by
  have hzero : ∀ e, w.woke fd gone f e = 0 := by
    intro e
    by_contra hwoke
    rcases woke_owner w h fd gone hwas f e hwoke with ⟨i, c, hc, hwait, _, _, hf, _, hcnt⟩
    exact hnone i c hc hwait hf hcnt
  rw [hzero, hzero]

/-- Cancelled events and reports: calls that held what is removed are scheduled. -/
theorem waits_removes (w w' : HookWorld) (h : Waits w) (fd : Nat) (gone : Event → Bool)
    (hcalls : w'.calls = w.calls) (hres : w'.resumed = w.resumed)
    (hrem : w.manager.Removes fd gone w'.manager) : Waits w' := by
  have hcount := scheduled_removes w w' fd gone hrem
  -- What stays registered stays with its call.
  have hstays : ∀ (i : Nat) (c : HookCall), w.calls[i]? = some c → c.waiting = true → w.Holds c →
      w.scheduled c.fiber = w.resumed.count c.fiber → ¬(c.fd = fd ∧ gone c.event = true) →
      w'.Holds c ∧ w'.scheduled c.fiber = w'.resumed.count c.fiber := by
    intro i c hc hwait hholds hcnt hmiss
    have hreg : w'.manager.registered c.fd c.event = true := by
      rw [hrem.registered, hholds.1, Bool.true_and, Bool.not_eq_true', Bool.and_eq_false_iff,
        decide_eq_false_iff_not, ← Bool.not_eq_true, ← not_and_or]
      exact hmiss
    refine ⟨⟨hreg, ?_⟩, ?_⟩
    · rw [hrem.context c.fd c.event hreg]
      exact hholds.2
    · rw [hcount, woke_total w h fd gone hrem.was i c hc hwait hholds, if_neg hmiss, hres]
      exact hcnt
  refine ⟨hrem.inv, ?_, ?_, ?_, ?_⟩
  · intro i j c d hc hd
    rw [hcalls] at hc hd
    exact h.solo i j c d hc hd
  · intro fd' e hreg
    have hleft := hreg
    rw [hrem.registered, Bool.and_eq_true, Bool.not_eq_true', Bool.and_eq_false_iff,
      decide_eq_false_iff_not, ← Bool.not_eq_true, ← not_and_or] at hleft
    rcases h.owner fd' e hleft.1 with ⟨i, c, hc, hwait, rfl, rfl, hholds, hcnt⟩
    rcases hstays i c hc hwait hholds hcnt hleft.2 with ⟨hholds', hcnt'⟩
    exact ⟨i, c, by rw [hcalls]; exact hc, hwait, rfl, rfl, hholds', hcnt'⟩
  · intro i c hc hwait
    rw [hcalls] at hc
    rcases h.waiting i c hc hwait with ⟨hholds, hcnt⟩ | hcnt
    · by_cases hhit : c.fd = fd ∧ gone c.event = true
      · -- Its event is removed, and its fiber is in the queue now.
        right
        rw [hcount, woke_total w h fd gone hrem.was i c hc hwait hholds, if_pos hhit, hres, hcnt]
      · exact Or.inl (hstays i c hc hwait hholds hcnt hhit)
    · right
      -- It was scheduled already, so it has nothing registered.
      have hnone := woke_none w h fd gone hrem.was c.fiber (fun _ _ _ _ _ hno => by omega)
      rw [hcount, hnone, hres, hcnt]
  · intro f hnone
    rw [hcalls] at hnone
    rw [hcount, hres, woke_none w h fd gone hrem.was f
      (fun i c hc hwait hf => absurd hf (hnone i c hc hwait)), Nat.add_zero, h.others f hnone]

/-! ## Registering and resuming -/

/-- `addEvent` has registered the fiber of a call. -/
theorem waits_registers (w w' : HookWorld) (h : Waits w) (i : Nat) (c c' : HookCall)
    (hc : w.calls[i]? = some c) (hcalls : w'.calls = w.calls.set i c') (hsame : c.Same c')
    (hres : w'.resumed = w.resumed) (hactive : c.active = true) (hbefore : c.waiting = false)
    (hafter : c'.waiting = true)
    (hreg : w.manager.Registers c.fd c.event c.caller w'.manager) : Waits w' := by
  have hget : ∀ j, w'.calls[j]? = if j = i then some c' else w.calls[j]? := by
    intro j
    rw [hcalls]
    exact getElem?_update w.calls i c c' hc j
  have hcount : ∀ f, w'.scheduled f = w.scheduled f := by
    intro f
    unfold scheduled
    rw [hreg.scheduled]
  have hother : ∀ (j : Nat) (d : HookCall), w.calls[j]? = some d → d.waiting = true → j ≠ i := by
    rintro j d hd hdwait rfl
    rw [hc, Option.some.injEq] at hd
    subst hd
    rw [hbefore] at hdwait
    cases hdwait
  -- The fiber of the call waits nowhere else, so it is in no queue.
  have hquiet : w.scheduled c.fiber = w.resumed.count c.fiber := by
    refine h.others c.fiber ?_
    intro j d hd hdwait hf
    exact hother j d hd hdwait (h.solo j i d c hd hc (d.active_of_waiting hdwait) hactive hf)
  have hnew : w'.Holds c' := by
    unfold Holds
    rw [hsame.fd, hsame.event, hsame.caller]
    refine ⟨?_, hreg.own⟩
    rw [hreg.registered, decide_eq_true ⟨rfl, rfl⟩, Bool.or_true]
  -- What was registered before is registered for another event.
  have hkeeps : ∀ d : HookCall, w.Holds d → w'.Holds d := by
    intro d hd
    refine ⟨?_, ?_⟩
    · rw [hreg.registered, hd.1, Bool.true_or]
    · rw [hreg.context d.fd d.event ?_]
      · exact hd.2
      · rintro ⟨hfd, he⟩
        have hno := hd.1
        rw [hfd, he, hreg.was] at hno
        cases hno
  refine ⟨hreg.inv, solo_set w w' h.solo i c c' hc hget hsame (fun _ => hactive), ?_, ?_, ?_⟩
  · intro fd e hfde
    rw [hreg.registered, Bool.or_eq_true, decide_eq_true_iff] at hfde
    rcases hfde with hold | ⟨rfl, rfl⟩
    · rcases h.owner fd e hold with ⟨j, d, hd, hdwait, hfd, he, hholds, hcnt⟩
      refine ⟨j, d, ?_, hdwait, hfd, he, hkeeps d hholds, ?_⟩
      · rw [hget, if_neg (hother j d hd hdwait)]
        exact hd
      · rw [hcount, hres]
        exact hcnt
    · refine ⟨i, c', by rw [hget, if_pos rfl], hafter, hsame.fd, hsame.event, hnew, ?_⟩
      rw [hcount, hres, hsame.fiber]
      exact hquiet
  · intro j d hj hdwait
    rw [hget] at hj
    by_cases hji : j = i
    · rw [if_pos hji, Option.some.injEq] at hj
      subst hj
      left
      rw [hcount, hres, hsame.fiber]
      exact ⟨hnew, hquiet⟩
    · rw [if_neg hji] at hj
      rw [hcount, hres]
      rcases h.waiting j d hj hdwait with ⟨hholds, hcnt⟩ | hcnt
      · exact Or.inl ⟨hkeeps d hholds, hcnt⟩
      · exact Or.inr hcnt
  · intro f hnone
    rw [hcount, hres]
    refine h.others f ?_
    intro j d hd hdwait
    refine hnone j d ?_ hdwait
    rw [hget, if_neg (hother j d hd hdwait)]
    exact hd

/-- A scheduled fiber has left `YieldToHold`. -/
theorem waits_resume (w w' : HookWorld) (h : Waits w) (i : Nat) (c c' : HookCall)
    (hc : w.calls[i]? = some c) (hcalls : w'.calls = w.calls.set i c') (hsame : c.Same c')
    (hmanager : w'.manager = w.manager) (hres : w'.resumed = c.fiber :: w.resumed)
    (hbefore : c.waiting = true) (hafter : c'.waiting = false)
    (hqueued : w.scheduled c.fiber ≠ w.resumed.count c.fiber) : Waits w' := by
  have hget : ∀ j, w'.calls[j]? = if j = i then some c' else w.calls[j]? := by
    intro j
    rw [hcalls]
    exact getElem?_update w.calls i c c' hc j
  have hactive := c.active_of_waiting hbefore
  have hcount : ∀ f, w'.scheduled f = w.scheduled f := by
    intro f
    unfold scheduled
    rw [hmanager]
  -- It was in the queue once, and this run of the fiber takes it out.
  have honce : w.scheduled c.fiber = w.resumed.count c.fiber + 1 :=
    (h.waiting i c hc hbefore).resolve_left (fun hno => hqueued hno.2)
  have hfiber : ∀ (j : Nat) (d : HookCall), w.calls[j]? = some d → d.waiting = true → j ≠ i →
      d.fiber ≠ c.fiber := by
    intro j d hd hdwait hji hf
    exact hji (h.solo j i d c hd hc (d.active_of_waiting hdwait) hactive hf)
  have hcnt : ∀ f, f ≠ c.fiber → w'.resumed.count f = w.resumed.count f := by
    intro f hf
    rw [hres, List.count_cons_of_ne (fun heq => hf heq.symm)]
  have hholds : ∀ d : HookCall, w.Holds d → w'.Holds d := by
    intro d hd
    unfold Holds
    rw [hmanager]
    exact hd
  refine ⟨by rw [hmanager]; exact h.manager,
    solo_set w w' h.solo i c c' hc hget hsame (fun _ => hactive), ?_, ?_, ?_⟩
  · intro fd e hreg
    rw [hmanager] at hreg
    rcases h.owner fd e hreg with ⟨j, d, hd, hdwait, hfd, he, hdholds, hdcnt⟩
    -- Whoever owns a registered event was not scheduled.
    have hji : j ≠ i := by
      rintro rfl
      rw [hc, Option.some.injEq] at hd
      subst hd
      exact hqueued hdcnt
    refine ⟨j, d, by rw [hget, if_neg hji]; exact hd, hdwait, hfd, he, hholds d hdholds, ?_⟩
    rw [hcount, hcnt d.fiber (hfiber j d hd hdwait hji)]
    exact hdcnt
  · intro j d hj hdwait
    rw [hget] at hj
    by_cases hji : j = i
    · rw [if_pos hji, Option.some.injEq] at hj
      subst hj
      rw [hafter] at hdwait
      cases hdwait
    · rw [if_neg hji] at hj
      rw [hcount, hcnt d.fiber (hfiber j d hj hdwait hji)]
      rcases h.waiting j d hj hdwait with ⟨hdholds, hdcnt⟩ | hdcnt
      · exact Or.inl ⟨hholds d hdholds, hdcnt⟩
      · exact Or.inr hdcnt
  · intro f hnone
    rw [hcount]
    by_cases hf : f = c.fiber
    · rw [hf, honce, hres, List.count_cons_self]
    · rw [hcnt f hf]
      refine h.others f ?_
      intro j d hd hdwait
      by_cases hji : j = i
      · subst hji
        rw [hc, Option.some.injEq] at hd
        subst hd
        exact fun heq => hf heq.symm
      · refine hnone j d ?_ hdwait
        rw [hget, if_neg hji]
        exact hd

/-! ## Every step -/

/-- A call that is not in its wait, before and after. -/
theorem waits_moves (w w' : HookWorld) (h : Waits w) (i : Nat) (c c' : HookCall)
    (hmanager : w'.manager = w.manager) (hres : w'.resumed = w.resumed)
    (hc : w.calls[i]? = some c) (hcalls : w'.calls = w.calls.set i c') (hsame : c.Same c')
    (hactive : c.active = true) (hbefore : c.waiting = false) (hafter : c'.waiting = false) :
    Waits w' :=
  waits_set w w' h i c c' (by rw [hmanager]; exact h.manager) (fun _ => by rw [hmanager])
    (by rw [hmanager]) hres hc hcalls hsame (fun _ => hactive) (hafter.trans hbefore.symm)

theorem step_waits (w w' : HookWorld) (a : Action) (h : Waits w) (hstep : step a w = some w') :
    Waits w' := by
  cases a with
  | call r =>
      rcases call_step hstep with ⟨hfree, rfl | ⟨timeout, rfl⟩⟩
      · exact h
      · exact waits_append w _ h _ rfl rfl rfl hfree rfl
  | attempt i r =>
      rcases attempt_step hstep with ⟨c, pos, hc, hpos, hto, rfl | rfl⟩
      · exact h
      · refine waits_moves w _ h i c _ rfl rfl hc rfl ⟨rfl, rfl, rfl, rfl⟩ ?_ ?_ ?_
        · rw [HookCall.active, hpos]
        · rw [HookCall.waiting, hpos]
          rfl
        · rcases hto with rfl | rfl <;> rfl
  | arm i p now =>
      rcases arm_step hstep with ⟨c, hc, hpos, ⟨_, rfl⟩ | ⟨_, s, _, rfl⟩⟩
      all_goals
        refine waits_moves w _ h i c _ rfl rfl hc rfl ⟨rfl, rfl, rfl, rfl⟩ ?_ ?_ rfl
        · rw [HookCall.active, hpos]
        · rw [HookCall.waiting, hpos]
          rfl
  | addEvent i ok =>
      rcases addEvent_step hstep with ⟨c, rt, s, hc, hpos, hrun, rfl⟩
      have hactive : c.active = true := by rw [HookCall.active, hpos]
      have hbefore : c.waiting = false := by
        rw [HookCall.waiting, hpos]
        rfl
      -- `addEvent` registers the fiber, or fails and leaves the entries as they are.
      rcases IOManager.addEvent_registers w.manager s h.manager c.fd c.event c.caller ok rt hrun
        with ⟨rfl, hreg⟩ | ⟨hrt, hinv, hun⟩
      · exact waits_registers w _ h i c _ hc rfl ⟨rfl, rfl, rfl, rfl⟩ rfl hactive hbefore rfl hreg
      · rw [if_neg hrt]
        exact waits_set w _ h i c _ hinv hun.entries hun.scheduled rfl hc rfl
          ⟨rfl, rfl, rfl, rfl⟩ (fun _ => hactive) hbefore.symm
  | giveUp i =>
      rcases cancels_step _ hstep with ⟨c, s, hc, hpos, _, rfl⟩
      refine waits_moves w _ h i c _ rfl rfl hc rfl ⟨rfl, rfl, rfl, rfl⟩ ?_ ?_ rfl
      · rw [HookCall.active, hpos]
      · rw [HookCall.waiting, hpos]
        rfl
  | yieldToHold i =>
      rcases yieldToHold_step hstep with ⟨c, hc, hpos, rfl⟩
      refine waits_set w _ h i c _ h.manager (fun _ => rfl) rfl rfl hc rfl
        ⟨rfl, rfl, rfl, rfl⟩ ?_ ?_
      · rw [HookCall.active, HookCall.active, hpos]
        exact fun _ => rfl
      · rw [HookCall.waiting, HookCall.waiting, hpos]
        rfl
  | resume i =>
      rcases resume_step hstep with ⟨c, hc, hpos, hqueued, rfl⟩
      refine waits_resume w _ h i c _ hc rfl ⟨rfl, rfl, rfl, rfl⟩ rfl rfl ?_ rfl hqueued
      rw [HookCall.waiting, hpos]
      rfl
  | cancelTimer i =>
      rcases cancels_step (fun _ => .checking) hstep with ⟨c, s, hc, hpos, _, rfl⟩
      refine waits_moves w _ h i c _ rfl rfl hc rfl ⟨rfl, rfl, rfl, rfl⟩ ?_ ?_ rfl
      · rw [HookCall.active, hpos]
      · rw [HookCall.waiting, hpos]
        rfl
  | check i =>
      rcases check_step hstep with ⟨c, timer, pos, hc, hpos, _, hto, rfl⟩
      refine waits_moves w _ h i c _ rfl rfl hc rfl ⟨rfl, rfl, rfl, rfl⟩ ?_ ?_ ?_
      · rw [HookCall.active, hpos]
      · rw [HookCall.waiting, hpos]
        rfl
      · rcases hto with rfl | ⟨r, rfl⟩ <;> rfl
  | listExpiredCb now nowTimer =>
      rcases listExpiredCb_step hstep with ⟨cbs, s, _, rfl⟩
      exact waits_removes w _ h 0 _ rfl rfl (IOManager.removes_nothing _ h.manager 0)
  | enter k =>
      rcases enter_step hstep with ⟨p, j, c, bs, _, _, rfl, _⟩
      exact waits_removes w _ h 0 _ rfl rfl (IOManager.removes_nothing _ h.manager 0)
  | mark k =>
      rcases mark_step hstep with ⟨b, c, _, hc, rfl⟩
      exact waits_set w _ h b.call c _ h.manager (fun _ => rfl) rfl rfl hc rfl
        ⟨rfl, rfl, rfl, rfl⟩ (fun hactive => hactive) rfl
  | cancelEvent k garbage ok =>
      rcases cancelEvent_step hstep with ⟨b, c, a, s, _, _, hrun, rfl⟩
      rcases IOManager.cancelEvent_removes w.manager h.manager c.fd c.event garbage ok
        with ⟨_, _, gone, hrun', hrem, _⟩
      rw [hrun] at hrun'
      cases hrun'
      exact waits_removes w _ h c.fd gone rfl rfl hrem
  | cancelAll fd ok =>
      rcases cancelAll_step hstep with ⟨a, s, hrun, rfl⟩
      rcases IOManager.cancelAll_removes w.manager h.manager fd ok with ⟨_, _, gone, hrun', hrem⟩
      rw [hrun] at hrun'
      cases hrun'
      exact waits_removes w _ h fd gone rfl rfl hrem
  | dispatch fd mask ok =>
      rcases dispatch_step hstep with ⟨s, hrun, rfl⟩
      rcases IOManager.dispatch_removes w.manager s h.manager fd mask ok hrun with ⟨gone, hrem⟩
      exact waits_removes w _ h fd gone rfl rfl hrem

end HookWorld

end YkServer
