import YkServer.Core.IOManager

/-!
# Entries of the Event Table

What an entry of the table may look like, and what waking or withdrawing a
waiter does to it. A mask of registered events has no bit but the two of the
enumeration, so every mask is one of four and questions about bits are settled
by looking at all of them.

`FdContext.drop` is the entry without one event, whichever way it was lost: the
waiter withdrawn by `delEvent`, or handed to its scheduler by `triggerEvent`.
Dropping an event that is not registered changes nothing, so a whole mask can
be dropped bit by bit.

## Main definitions

* `hasBit`, `maskOf`: Masks as pairs of answers.
* `EventContext.Waiting`: Somebody waits, with a fiber or a callback.
* `EventContext.waiter`: What waking the context schedules.
* `FdContext.Good`: The bits and the contexts of an entry agree.
* `FdContext.registrations`: How many events are registered.
* `FdContext.drop`, `FdContext.remove`: The entry without an event, and without
  a mask of events.
* `FdContext.due`: What waking a mask of events schedules.

## Theorems

* `good_drop`, `good_remove`: An entry stays good.
* `triggerEvent_good`: Waking a registered event.
* `triggerIf_good`, `triggerIf_stale`: Waking by mask, and the assertion.
-/

namespace YkServer

open Lib

/-- The mask has the bit of the event. -/
def hasBit (m : UInt32) (e : Event) : Bool := decide (m &&& e.bit ≠ 0)

/-- The mask with the given bits. -/
def maskOf (r w : Bool) : UInt32 :=
  (if r then Event.READ.bit else 0) ||| (if w then Event.WRITE.bit else 0)

theorem hasBit_maskOf (r w : Bool) (e : Event) :
    hasBit (maskOf r w) e = match e with
      | .READ => r
      | .WRITE => w := by
  -- Eight closed equations between words.
  cases r <;> cases w <;> cases e <;> decide

theorem hasBit_false (m : UInt32) (e : Event) : hasBit m e = false ↔ m &&& e.bit = 0 := by
  unfold hasBit
  rw [decide_eq_false_iff_not, not_not]

theorem hasBit_true (m : UInt32) (e : Event) : hasBit m e = true ↔ m &&& e.bit ≠ 0 := by
  unfold hasBit
  rw [decide_eq_true_iff]

/-- Clearing a bit of a mask. -/
theorem maskOf_clear (r w : Bool) (e : Event) :
    maskOf r w &&& ~~~e.bit = match e with
      | .READ => maskOf false w
      | .WRITE => maskOf r false := by
  cases r <;> cases w <;> cases e <;> decide

/-- Setting a bit of a mask. -/
theorem maskOf_set (r w : Bool) (e : Event) :
    maskOf r w ||| e.bit = match e with
      | .READ => maskOf true w
      | .WRITE => maskOf r true := by
  cases r <;> cases w <;> cases e <;> decide

theorem maskOf_eq_zero (r w : Bool) : maskOf r w = 0 ↔ r = false ∧ w = false := by
  cases r <;> cases w <;> decide

namespace EventContext

/-- The context holds a scheduler and exactly one of a fiber and a callback. -/
def Waiting (ctx : EventContext) : Prop :=
  ctx.scheduler.isSome = true ∧ ctx.fiber.isSome ≠ ctx.cb.isSome

/-- What waking the context puts in a queue. -/
def waiter (ctx : EventContext) : List (Nat × Task) :=
  match ctx.scheduler, ctx.cb, ctx.fiber with
  | some p, some f, _ => [(p, .cb f)]
  | some p, none, some f => [(p, .fiber f)]
  | _, _, _ => []

theorem not_waiting_empty : ¬EventContext.empty.Waiting := by
  intro h
  exact Bool.false_ne_true h.1

theorem waiter_empty : EventContext.empty.waiter = [] := rfl

/-- A context somebody waits in schedules one thing. -/
theorem length_waiter (ctx : EventContext) (h : ctx.Waiting) : ctx.waiter.length = 1 := by
  -- Without a scheduler nobody waits; with one, exactly one of fiber and callback is there.
  rcases ctx with ⟨_ | p, f, cb⟩
  · exact absurd h.1 Bool.false_ne_true
  · rcases f with _ | f <;> rcases cb with _ | cb
    · exact absurd rfl h.2
    · rfl
    · rfl
    · exact absurd rfl h.2

end EventContext

namespace FdContext

/-- The event is registered. -/
def registered (c : FdContext) (e : Event) : Bool := hasBit c.events e

/-- The bits and the contexts agree: somebody waits for each registered event
    and the context of any other is empty. -/
structure Good (c : FdContext) : Prop where
  bits : c.events = maskOf (c.registered .READ) (c.registered .WRITE)
  waiting : ∀ e, c.registered e = true → (c.getContext e).Waiting
  empty : ∀ e, c.registered e = false → c.getContext e = .empty

/-- How many events are registered. -/
def registrations (c : FdContext) : Int :=
  (if c.registered .READ then 1 else 0) + (if c.registered .WRITE then 1 else 0)

/-- The entry without an event. -/
def drop (c : FdContext) (e : Event) : FdContext :=
  ({ c with events := c.events &&& ~~~e.bit }).setContext e .empty

/-- The entry without the event, if its bit is in the mask. -/
def dropIf (c : FdContext) (m : UInt32) (e : Event) : FdContext :=
  if hasBit m e then c.drop e else c

/-- The entry without the events of a mask. -/
def remove (c : FdContext) (m : UInt32) : FdContext := (c.dropIf m .READ).dropIf m .WRITE

/-- What waking the event schedules, if its bit is in the mask. -/
def dueIf (c : FdContext) (m : UInt32) (e : Event) : List (Nat × Task) :=
  if hasBit m e then (c.getContext e).waiter else []

/-- What waking the events of a mask schedules. -/
def due (c : FdContext) (m : UInt32) : List (Nat × Task) := c.dueIf m .READ ++ c.dueIf m .WRITE

theorem registered_new (fd : Nat) (e : Event) : (FdContext.new fd).registered e = false := by
  have hzero : hasBit 0 e = false := by cases e <;> decide
  exact hzero

theorem good_new (fd : Nat) : (FdContext.new fd).Good := by
  refine ⟨?_, ?_, ?_⟩
  · rw [registered_new, registered_new]
    rfl
  · intro e h
    rw [registered_new] at h
    exact absurd h Bool.false_ne_true
  · intro e _
    cases e <;> rfl

/-- A registered event is one somebody waits for. -/
theorem Good.registered_iff {c : FdContext} (h : c.Good) (e : Event) :
    c.registered e = true ↔ (c.getContext e).Waiting := by
  refine ⟨h.waiting e, ?_⟩
  intro hw
  rcases hreg : c.registered e
  -- Nobody waits in an empty context, so the bit cannot be clear.
  · rw [h.empty e hreg] at hw
    exact absurd hw EventContext.not_waiting_empty
  · rfl

/-- An event that is not registered is one whose context is empty. -/
theorem Good.clear_iff {c : FdContext} (h : c.Good) (e : Event) :
    c.registered e = false ↔ c.getContext e = .empty := by
  refine ⟨h.empty e, ?_⟩
  intro he
  rcases hreg : c.registered e
  · rfl
  · have hw := h.waiting e hreg
    rw [he] at hw
    exact absurd hw EventContext.not_waiting_empty

/-- Nothing is registered exactly when the mask is zero. -/
theorem Good.events_eq_zero {c : FdContext} (h : c.Good) :
    c.events = 0 ↔ ∀ e, c.registered e = false := by
  rw [h.bits, maskOf_eq_zero]
  constructor
  · intro hrw e
    cases e
    · exact hrw.1
    · exact hrw.2
  · intro hall
    exact ⟨hall .READ, hall .WRITE⟩

theorem getContext_setContext (c : FdContext) (e e' : Event) (ctx : EventContext) :
    (c.setContext e ctx).getContext e' = if e' = e then ctx else c.getContext e' := by
  cases e <;> cases e' <;> rfl

theorem events_setContext (c : FdContext) (e : Event) (ctx : EventContext) :
    (c.setContext e ctx).events = c.events := by
  cases e <;> rfl

theorem fd_setContext (c : FdContext) (e : Event) (ctx : EventContext) :
    (c.setContext e ctx).fd = c.fd := by
  cases e <;> rfl

theorem fd_drop (c : FdContext) (e : Event) : (c.drop e).fd = c.fd := by
  rw [drop, fd_setContext]

theorem events_drop (c : FdContext) (e : Event) : (c.drop e).events = c.events &&& ~~~e.bit := by
  rw [drop, events_setContext]

theorem getContext_drop (c : FdContext) (e e' : Event) :
    (c.drop e).getContext e' = if e' = e then .empty else c.getContext e' := by
  rw [drop, getContext_setContext]
  cases e' <;> rfl

/-- Dropping an event clears its bit and no other. -/
theorem Good.registered_drop {c : FdContext} (h : c.Good) (e e' : Event) :
    (c.drop e).registered e' = (c.registered e' && decide (e' ≠ e)) := by
  have hdrop : (c.drop e).registered e' = hasBit (c.events &&& ~~~e.bit) e' := by
    rw [registered, events_drop]
  rw [hdrop, h.bits, maskOf_clear]
  cases e <;> cases e' <;> rw [hasBit_maskOf] <;> simp

theorem good_drop {c : FdContext} (h : c.Good) (e : Event) : (c.drop e).Good := by
  refine ⟨?_, ?_, ?_⟩
  · rw [h.registered_drop, h.registered_drop, events_drop]
    rw [h.bits, maskOf_clear]
    cases e <;> simp
  · intro e' hreg
    rw [h.registered_drop, Bool.and_eq_true, decide_eq_true_iff] at hreg
    rw [getContext_drop, if_neg hreg.2]
    exact h.waiting e' hreg.1
  · intro e' hreg
    rw [h.registered_drop, Bool.and_eq_false_iff, decide_eq_false_iff_not, not_not] at hreg
    rw [getContext_drop]
    by_cases he : e' = e
    · rw [if_pos he]
    · rw [if_neg he]
      rcases hreg with hreg | hreg
      · exact h.empty e' hreg
      · exact absurd hreg he

theorem good_dropIf {c : FdContext} (h : c.Good) (m : UInt32) (e : Event) :
    (c.dropIf m e).Good := by
  unfold dropIf
  split
  · exact good_drop h e
  · exact h

theorem good_remove {c : FdContext} (h : c.Good) (m : UInt32) : (c.remove m).Good :=
  good_dropIf (good_dropIf h m .READ) m .WRITE

theorem fd_dropIf (c : FdContext) (m : UInt32) (e : Event) : (c.dropIf m e).fd = c.fd := by
  unfold dropIf
  split
  · exact fd_drop c e
  · rfl

theorem fd_remove (c : FdContext) (m : UInt32) : (c.remove m).fd = c.fd := by
  rw [remove, fd_dropIf, fd_dropIf]

theorem Good.registered_dropIf {c : FdContext} (h : c.Good) (m : UInt32) (e e' : Event) :
    (c.dropIf m e).registered e' = (c.registered e' && !(hasBit m e && decide (e' = e))) := by
  unfold dropIf
  rcases hasBit m e
  · simp
  · rw [if_pos rfl, h.registered_drop]
    simp

/-- Dropping a mask clears the bits of the mask. -/
theorem Good.registered_remove {c : FdContext} (h : c.Good) (m : UInt32) (e : Event) :
    (c.remove m).registered e = (c.registered e && !hasBit m e) := by
  rw [remove, (good_dropIf h m .READ).registered_dropIf, h.registered_dropIf]
  cases e <;> simp

/-- The mask that is left. -/
theorem Good.events_remove {c : FdContext} (h : c.Good) (a b : Bool) :
    (c.remove (maskOf a b)).events = c.events &&& ~~~maskOf a b := by
  rw [(good_remove h _).bits, h.registered_remove, h.registered_remove, hasBit_maskOf,
    hasBit_maskOf]
  rw [h.bits]
  -- Only the four bits matter, and there are sixteen cases of them.
  generalize c.registered .READ = r
  generalize c.registered .WRITE = w
  revert a b r w
  decide

/-- Dropping a registered event leaves one registration less. -/
theorem Good.registrations_drop {c : FdContext} (h : c.Good) (e : Event)
    (hreg : c.registered e = true) : (c.drop e).registrations = c.registrations - 1 := by
  unfold registrations
  rw [h.registered_drop, h.registered_drop]
  cases e with
  | READ | WRITE =>
      rw [hreg]
      simp only [Bool.true_and, ne_eq, not_true, reduceCtorEq, not_false_eq_true, decide_true,
        decide_false, Bool.and_true, if_true, Bool.false_eq_true, if_false]
      omega

/-- The same as a difference, which is what the counter moves by. -/
theorem Good.minus_one {c : FdContext} (h : c.Good) (e : Event) (hreg : c.registered e = true) :
    (-1 : Int) = (c.drop e).registrations - c.registrations := by
  rw [h.registrations_drop e hreg]
  omega

/-- Waking a registered event drops it and schedules its waiter. -/
theorem triggerEvent_good {c : FdContext} (h : c.Good) (e : Event)
    (hreg : c.registered e = true) (s : IOManager) :
    c.triggerEvent e s = .ok (c.drop e)
      { s with scheduled := s.scheduled ++ (c.getContext e).waiter } := by
  have hbit : ¬c.events &&& e.bit = 0 := (hasBit_true c.events e).1 hreg
  have hw := h.waiting e hreg
  -- The mask is cleared before the context is looked up, which does not touch it.
  have hctx : ({ c with events := c.events &&& ~~~e.bit }).getContext e = c.getContext e := by
    cases e <;> rfl
  rw [triggerEvent, if_neg hbit]
  simp only [hctx]
  rcases hget : c.getContext e with ⟨_ | p, f, cb⟩
  · rw [hget] at hw
    exact absurd hw.1 Bool.false_ne_true
  · rw [hget] at hw
    -- The callback goes first, but the two are never there together.
    rcases f with _ | f <;> rcases cb with _ | cb
    · exact absurd rfl hw.2
    · rfl
    · rfl
    · exact absurd rfl hw.2

/-- Waking an event that is not registered fails the assertion. -/
theorem triggerEvent_clear (c : FdContext) (e : Event) (hreg : c.registered e = false)
    (s : IOManager) : c.triggerEvent e s = .throw .registered s := by
  rw [triggerEvent, if_pos ((hasBit_false c.events e).1 hreg)]

end FdContext

namespace IOManager

/-- The state after some waiters were queued and as many events counted off. -/
def after (s : IOManager) (d : Int) (tasks : List (Nat × Task)) : IOManager :=
  { s with scheduled := s.scheduled ++ tasks, pendingEventCount := s.pendingEventCount + d }

theorem after_after (s : IOManager) (d d' : Int) (tasks tasks' : List (Nat × Task)) :
    (s.after d tasks).after d' tasks' = s.after (d + d') (tasks ++ tasks') := by
  unfold after
  rw [List.append_assoc, Int.add_assoc]

theorem after_nothing (s : IOManager) : s.after 0 [] = s := by
  unfold after
  rw [List.append_nil, Int.add_zero]

/-- Waking by mask, when the event is registered or not in the mask. -/
theorem triggerIf_good {c : FdContext} (h : c.Good) (m : UInt32) (e : Event)
    (hreg : hasBit m e = true → c.registered e = true) (s : IOManager) :
    triggerIf m e c s = .ok (c.dropIf m e)
      (s.after ((c.dropIf m e).registrations - c.registrations) (c.dueIf m e)) := by
  rcases hbit : hasBit m e
  · rw [triggerIf, if_pos ((hasBit_false m e).1 hbit), FdContext.dropIf, FdContext.dueIf, hbit,
      if_neg Bool.false_ne_true, if_neg Bool.false_ne_true, Int.sub_self, after_nothing]
    rfl
  · rw [triggerIf, if_neg ((hasBit_true m e).1 hbit), FdContext.dropIf, FdContext.dueIf, hbit,
      if_pos rfl, if_pos rfl, bind_ok _ _ _ _ _ (FdContext.triggerEvent_good h e (hreg hbit) s)]
    rw [← h.minus_one e (hreg hbit)]
    rfl

/-- Waking by mask an event nobody waits for. -/
theorem triggerIf_stale (c : FdContext) (m : UInt32) (e : Event) (hbit : hasBit m e = true)
    (hreg : c.registered e = false) (s : IOManager) :
    triggerIf m e c s = .throw .registered s := by
  rw [triggerIf, if_neg ((hasBit_true m e).1 hbit),
    bind_throw _ _ _ _ _ (FdContext.triggerEvent_clear c e hreg s)]

end IOManager

end YkServer
