import YkServer.Theory.IOManager.Table
import Mathlib.Algebra.BigOperators.Group.List.Lemmas
import Mathlib.Algebra.Ring.Int.Defs

/-!
# Steps of the Event Table

What each operation does to a state whose entries are good. Whatever the
operation, there are only two things it can do and still return: leave the
entries as they are, or settle one of them. Settling an entry replaces it by
another good one, moves the counter by the difference of their registrations,
tells the kernel something about its descriptor and queues some waiters. Every
operation below is brought into that form, and the invariant is proved for the
form, once.

The entry of a descriptor the table is too short for is the empty one, so that
growing the table changes no entry.

## Main definitions

* `IOManager.entry`: The entry of a descriptor.
* `IOManager.settle`: One entry replaced, with all that goes with it.
* `IOManager.Inv`: Every entry is good and the counter counts registrations.
* `FdContext.add`: An entry with one more event.
* `IOManager.withdrawn`: What the kernel is told by `delEvent` and `cancelEvent`.

## Theorems

* `inv_new`, `inv_ensure`, `inv_settle`: The invariant.
* `addEvent_fails`, `addEvent_clear`, `addEvent_twice`: The ways of `addEvent`.
* `delEvent_registered`, `cancelEvent_registered`, `cancelAll_some`: Removal.
* `dispatch_unrelated`, `dispatch_fresh`, `dispatch_stale`: The ways of a report.
-/

namespace YkServer

open Lib

/-- The entry with one more event, and who waits for it. -/
def FdContext.add (c : FdContext) (e : Event) (ctx : EventContext) : FdContext :=
  ({ c with events := c.events ||| e.bit }).setContext e ctx

namespace FdContext

theorem Good.registered_add {c : FdContext} (h : c.Good) (e e' : Event) (ctx : EventContext) :
    (c.add e ctx).registered e' = (c.registered e' || decide (e' = e)) := by
  have hadd : (c.add e ctx).registered e' = hasBit (c.events ||| e.bit) e' := by
    rw [registered, add, events_setContext]
  rw [hadd, h.bits, maskOf_set]
  cases e <;> cases e' <;> rw [hasBit_maskOf] <;> simp

theorem good_add {c : FdContext} (h : c.Good) (e : Event) (ctx : EventContext)
    (hctx : ctx.Waiting) : (c.add e ctx).Good := by
  have hget : ∀ e', (c.add e ctx).getContext e' = if e' = e then ctx else c.getContext e' := by
    intro e'
    rw [add, getContext_setContext]
    cases e' <;> rfl
  refine ⟨?_, ?_, ?_⟩
  · rw [h.registered_add, h.registered_add, add, events_setContext]
    rw [h.bits, maskOf_set]
    cases e <;> simp
  · intro e' hreg
    rw [hget]
    by_cases he : e' = e
    · rw [if_pos he]
      exact hctx
    · rw [if_neg he]
      rw [h.registered_add, Bool.or_eq_true, decide_eq_true_iff] at hreg
      exact h.waiting e' (hreg.resolve_right he)
  · intro e' hreg
    rw [h.registered_add, Bool.or_eq_false_iff, decide_eq_false_iff_not] at hreg
    rw [hget, if_neg hreg.2]
    exact h.empty e' hreg.1

/-- A new registration counts one. -/
theorem Good.registrations_add {c : FdContext} (h : c.Good) (e : Event) (ctx : EventContext)
    (hreg : c.registered e = false) : (c.add e ctx).registrations = c.registrations + 1 := by
  unfold registrations
  rw [h.registered_add, h.registered_add]
  cases e with
  | READ | WRITE =>
      rw [hreg]
      simp only [Bool.false_or, decide_true, if_true, reduceCtorEq, decide_false, Bool.or_false,
        Bool.false_eq_true, if_false]
      omega

/-- What the kernel should know about an entry. -/
def interest (c : FdContext) : Option EpollEvent :=
  if c.events = 0 then none else some ⟨EPOLLET ||| c.events, c.fd⟩

theorem registrations_new (fd : Nat) : (FdContext.new fd).registrations = 0 := by
  unfold registrations
  rw [registered_new, registered_new]
  rfl

theorem registrations_nonneg (c : FdContext) : 0 ≤ c.registrations := by
  unfold registrations
  split <;> split <;> omega

end FdContext

namespace IOManager

/-- The entry of a descriptor. -/
def entry (s : IOManager) (fd : Nat) : FdContext := (s.fdContexts[fd]?).getD (FdContext.new fd)

/-- The event is registered for the descriptor. -/
def registered (s : IOManager) (fd : Nat) (e : Event) : Bool := (s.entry fd).registered e

/-- The number of registered pairs of a descriptor and an event. -/
def registrations (s : IOManager) : Int := (s.fdContexts.map FdContext.registrations).sum

/-- One entry replaced: the counter moves by the difference, the kernel is told
    `i` and `tasks` are queued. -/
def settle (s : IOManager) (fd : Nat) (c : FdContext) (tasks : List (Nat × Task))
    (i : Option EpollEvent) : IOManager :=
  { fdContexts := s.fdContexts.set fd c,
    pendingEventCount :=
      s.pendingEventCount + (c.registrations - (s.entry fd).registrations),
    interest := Function.update s.interest fd i,
    scheduled := s.scheduled ++ tasks }

/-- Every entry is good and knows its descriptor, the counter is the number of
    registrations, and the kernel watches descriptors of the table only. -/
structure Inv (s : IOManager) : Prop where
  room : 32 ≤ s.fdContexts.length
  watched : ∀ fd ev, s.interest fd = some ev → fd < s.fdContexts.length
  good : ∀ fd, (s.entry fd).Good
  fds : ∀ fd, (s.entry fd).fd = fd
  pending : s.pendingEventCount = s.registrations

theorem lookup (s : IOManager) (fd : Nat) (h : fd < s.fdContexts.length) :
    s.fdContexts[fd]? = some (s.entry fd) := by
  rw [entry, List.getElem?_eq_getElem h, Option.getD_some]

theorem entry_short (s : IOManager) (fd : Nat) (h : s.fdContexts.length ≤ fd) :
    s.entry fd = FdContext.new fd := by
  rw [entry, List.getElem?_eq_none h, Option.getD_none]

/-- A registered event is in an entry of the table. -/
theorem lt_of_registered (s : IOManager) (fd : Nat) (e : Event)
    (h : s.registered fd e = true) : fd < s.fdContexts.length := by
  by_contra hge
  rw [registered, entry_short s fd (by omega), FdContext.registered_new] at h
  exact Bool.false_ne_true h

/-- So is one with a mask that is not zero. -/
theorem lt_of_events (s : IOManager) (fd : Nat) (h : (s.entry fd).events ≠ 0) :
    fd < s.fdContexts.length := by
  by_contra hge
  rw [entry_short s fd (by omega)] at h
  exact h rfl

/-! ## Growing the table -/

theorem length_contextResize (size : Nat) (s : IOManager) :
    (contextResize size s).fdContexts.length = size := by
  simp only [contextResize, List.length_append, List.length_take, List.length_map,
    List.length_range']
  omega

/-- Growing the table changes no entry. -/
theorem entry_contextResize (size : Nat) (s : IOManager) (h : s.fdContexts.length ≤ size)
    (fd : Nat) : (contextResize size s).entry fd = s.entry fd := by
  have htake : s.fdContexts.take size = s.fdContexts := List.take_of_length_le h
  -- An entry the table does not have yet is the one that a resize puts there.
  by_cases hlt : fd < s.fdContexts.length
  · simp only [entry, contextResize, htake, List.getElem?_append_left hlt]
  · rw [entry_short s fd (by omega)]
    simp only [entry, contextResize, htake, List.getElem?_append_right (Nat.le_of_not_lt hlt),
      List.getElem?_map]
    by_cases hin : fd - s.fdContexts.length < size - s.fdContexts.length
    · rw [List.getElem?_range' hin, Option.map_some, Option.getD_some]
      congr 1
      omega
    · rw [List.getElem?_eq_none (by rw [List.length_range']; omega), Option.map_none,
        Option.getD_none]

theorem registrations_contextResize (size : Nat) (s : IOManager)
    (h : s.fdContexts.length ≤ size) : (contextResize size s).registrations = s.registrations := by
  -- The new entries count nothing.
  have hzero : ∀ n k, ((List.range' n k).map FdContext.new).map FdContext.registrations =
      List.replicate k 0 := by
    intro n k
    rw [List.map_map, List.eq_replicate_iff]
    refine ⟨by rw [List.length_map, List.length_range'], ?_⟩
    intro b hb
    rcases List.mem_map.1 hb with ⟨fd, _, rfl⟩
    exact FdContext.registrations_new fd
  simp only [registrations, contextResize, List.take_of_length_le h, List.map_append, hzero,
    List.sum_append, List.sum_replicate, nsmul_zero, add_zero]

theorem inv_new : Inv new := by
  have hentry : ∀ fd, new.entry fd = FdContext.new fd := by
    intro fd
    rw [new, entry_contextResize 32 _ (Nat.zero_le _)]
    rfl
  refine ⟨by decide, ?_, ?_, ?_, ?_⟩
  · intro fd ev hev
    cases hev
  · intro fd
    rw [hentry]
    exact FdContext.good_new fd
  · intro fd
    rw [hentry]
    rfl
  · rw [new, registrations_contextResize 32 _ (Nat.zero_le _)]
    rfl

theorem ensure_fits (s : IOManager) (h : 32 ≤ s.fdContexts.length) (fd : Nat) :
    fd < (ensureContext fd s).fdContexts.length ∧
      s.fdContexts.length ≤ (ensureContext fd s).fdContexts.length := by
  unfold ensureContext
  split
  · exact ⟨by assumption, Nat.le_refl _⟩
  · -- The table has 32 entries at least, so half as many again is more than `fd`.
    rw [length_contextResize]
    omega

theorem entry_ensure (s : IOManager) (h : 32 ≤ s.fdContexts.length) (fd fd' : Nat) :
    (ensureContext fd s).entry fd' = s.entry fd' := by
  unfold ensureContext
  split
  · rfl
  · exact entry_contextResize _ s (by omega) fd'

theorem inv_ensure (s : IOManager) (h : Inv s) (fd : Nat) : Inv (ensureContext fd s) := by
  have hroom := h.room
  have hgrown := (ensure_fits s hroom fd).2
  have hint : (ensureContext fd s).interest = s.interest := by
    unfold ensureContext
    split <;> rfl
  refine ⟨Nat.le_trans hroom hgrown, ?_, ?_, ?_, ?_⟩
  · intro fd' ev hev
    rw [hint] at hev
    exact Nat.lt_of_lt_of_le (h.watched fd' ev hev) hgrown
  · intro fd'
    rw [entry_ensure s hroom]
    exact h.good fd'
  · intro fd'
    rw [entry_ensure s hroom]
    exact h.fds fd'
  · unfold ensureContext
    split
    · exact h.pending
    · rw [registrations_contextResize _ s (by omega)]
      exact h.pending

/-! ## Settling an entry -/

theorem entry_settle (s : IOManager) (fd fd' : Nat) (c : FdContext) (tasks : List (Nat × Task))
    (i : Option EpollEvent) (hfd : fd < s.fdContexts.length) :
    (s.settle fd c tasks i).entry fd' = if fd' = fd then c else s.entry fd' := by
  unfold entry settle
  by_cases heq : fd' = fd
  · rw [if_pos heq, heq, List.getElem?_set_self hfd, Option.getD_some]
  · rw [if_neg heq, List.getElem?_set_ne (fun h => heq h.symm)]

theorem registrations_settle (s : IOManager) (fd : Nat) (c : FdContext)
    (tasks : List (Nat × Task)) (i : Option EpollEvent) (hfd : fd < s.fdContexts.length) :
    (s.settle fd c tasks i).registrations =
      s.registrations + (c.registrations - (s.entry fd).registrations) := by
  have hlen : fd < (s.fdContexts.map FdContext.registrations).length := by
    rw [List.length_map]
    exact hfd
  have hold : (s.fdContexts.map FdContext.registrations)[fd] = (s.entry fd).registrations := by
    rw [List.getElem_map, entry, List.getElem?_eq_getElem hfd, Option.getD_some]
  rw [registrations, settle, List.map_set, List.sum_set', dif_pos hlen, hold, registrations]
  omega

theorem inv_settle (s : IOManager) (h : Inv s) (fd : Nat) (c : FdContext)
    (tasks : List (Nat × Task)) (i : Option EpollEvent) (hfd : fd < s.fdContexts.length)
    (hc : c.Good) (hcfd : c.fd = fd) : Inv (s.settle fd c tasks i) := by
  refine ⟨?_, ?_, ?_, ?_, ?_⟩
  · rw [settle, List.length_set]
    exact h.room
  · intro fd' ev hev
    rw [settle, List.length_set]
    -- Only the kernel's view of `fd` is new, and `fd` is in the table.
    by_cases heq : fd' = fd
    · rw [heq]
      exact hfd
    · rw [settle] at hev
      exact h.watched fd' ev ((Function.update_of_ne heq i s.interest).symm.trans hev)
  · intro fd'
    rw [entry_settle s fd fd' c tasks i hfd]
    split
    · exact hc
    · exact h.good fd'
  · intro fd'
    rw [entry_settle s fd fd' c tasks i hfd]
    split
    · rw [hcfd]
      exact Eq.symm (by assumption)
    · exact h.fds fd'
  · rw [registrations_settle s fd c tasks i hfd, settle, h.pending]

/-- The entry written back, after the kernel was told and some waiters queued. -/
theorem settle_eq (s : IOManager) (fd : Nat) (c : FdContext) (d : Int)
    (tasks : List (Nat × Task)) (i : Option EpollEvent)
    (hd : d = c.registrations - (s.entry fd).registrations) :
    setContext fd c (after { s with interest := Function.update s.interest fd i } d tasks) =
      s.settle fd c tasks i := by
  rw [settle, ← hd]
  rfl

/-! ## The operations -/

theorem addEvent_fails (s : IOManager) (h : Inv s) (fd : Nat) (e : Event) (cb : Option Nat)
    (caller : Caller) : addEvent fd e cb caller false s = .ok (-1) (ensureContext fd s) := by
  unfold addEvent
  simp only [lookup _ fd (ensure_fits s h.room fd).1]
  rfl

theorem waiting_newContext (cb : Option Nat) (caller : Caller) :
    (newContext cb caller).Waiting := by
  cases cb with
  | none => exact ⟨rfl, fun h => Bool.false_ne_true h.symm⟩
  | some f => exact ⟨rfl, Bool.false_ne_true⟩

/-- A new event is registered and the kernel is told of both. -/
theorem addEvent_clear (s : IOManager) (h : Inv s) (fd : Nat) (e : Event) (cb : Option Nat)
    (caller : Caller) (hreg : s.registered fd e = false) :
    addEvent fd e cb caller true s = .ok 0 ((ensureContext fd s).settle fd
      ((s.entry fd).add e (newContext cb caller)) []
      (some ⟨EPOLLET ||| ((s.entry fd).events ||| e.bit), fd⟩)) := by
  have hfit := (ensure_fits s h.room fd).1
  have hentry := entry_ensure s h.room fd fd
  -- Setting the bit leaves the contexts alone, and the one of a clear bit is empty.
  have hempty : ({ s.entry fd with events := (s.entry fd).events ||| e.bit } : FdContext).getContext
      e = .empty := by
    have hget := (h.good fd).empty e hreg
    cases e <;> exact hget
  have hd : (1 : Int) = ((s.entry fd).add e (newContext cb caller)).registrations -
      ((ensureContext fd s).entry fd).registrations := by
    rw [hentry, (h.good fd).registrations_add e _ hreg]
    omega
  have hmask : EPOLLET ||| (s.entry fd).events ||| e.bit =
      EPOLLET ||| ((s.entry fd).events ||| e.bit) := UInt32.or_assoc _ _ _
  unfold addEvent
  simp only [lookup _ fd hfit, hentry, epollCtl, if_true, hempty, hmask]
  rw [← settle_eq _ fd _ 1 [] _ hd]
  simp only [after, List.append_nil]
  split <;> rfl

/-- A second registration of an event fails the assertion on its context. -/
theorem addEvent_twice (s : IOManager) (h : Inv s) (fd : Nat) (e : Event) (cb : Option Nat)
    (caller : Caller) (hreg : s.registered fd e = true) :
    ∃ s', addEvent fd e cb caller true s = .throw .contextEmpty s' := by
  have hfit := (ensure_fits s h.room fd).1
  have hfull : ¬({ s.entry fd with events := (s.entry fd).events ||| e.bit } :
      FdContext).getContext e = .empty := by
    have hw := (h.good fd).waiting e hreg
    intro hget
    have hget' : (s.entry fd).getContext e = .empty := by cases e <;> exact hget
    rw [hget'] at hw
    exact EventContext.not_waiting_empty hw
  unfold addEvent
  simp only [lookup _ fd hfit, entry_ensure s h.room fd fd, epollCtl, if_true]
  rw [if_neg hfull]
  exact ⟨_, rfl⟩

/-- Nothing happens when the event to be removed is not registered. -/
theorem withdraw_clear (s : IOManager) (fd : Nat) (e : Event) (garbage : UInt32) (ok : Bool)
    (rest : FdContext → UInt32 → Prog Assertion IOManager Bool)
    (hreg : s.registered fd e = false) : withdraw fd e garbage ok rest s = .ok false s := by
  unfold withdraw
  by_cases hfd : s.fdContexts.length ≤ fd
  · rw [if_pos hfd]
  · rw [if_neg hfd, lookup s fd (by omega)]
    exact if_pos ((hasBit_false _ e).1 hreg)

/-- Nothing happens when the kernel refuses. -/
theorem withdraw_fails (s : IOManager) (fd : Nat) (e : Event) (garbage : UInt32)
    (rest : FdContext → UInt32 → Prog Assertion IOManager Bool) :
    withdraw fd e garbage false rest s = .ok false s := by
  rcases hreg : s.registered fd e
  · exact withdraw_clear s fd e garbage false rest hreg
  · have hfd := lt_of_registered s fd e hreg
    rw [withdraw, if_neg (by omega), lookup s fd hfd]
    exact if_neg ((hasBit_true _ e).1 hreg)

/-- What the kernel is told when an event is removed from an entry. -/
def withdrawn (c : FdContext) (e : Event) (garbage : UInt32) : Option EpollEvent :=
  if (c.drop e).events = 0 then none else some ⟨garbage, (c.drop e).fd⟩

/-- A registered event is withdrawn from the kernel, and the operation goes on. -/
theorem withdraw_registered (s : IOManager) (h : Inv s) (fd : Nat) (e : Event)
    (garbage : UInt32) (rest : FdContext → UInt32 → Prog Assertion IOManager Bool)
    (hreg : s.registered fd e = true) :
    withdraw fd e garbage true rest s = rest (s.entry fd) ((s.entry fd).events &&& ~~~e.bit)
      { s with interest :=
          Function.update s.interest fd (withdrawn (s.entry fd) e garbage) } := by
  have hfd := lt_of_registered s fd e hreg
  have htold : (if (s.entry fd).events &&& ~~~e.bit = 0 then EpollOp.del else EpollOp.mod).kept
      ⟨garbage, fd⟩ = withdrawn (s.entry fd) e garbage := by
    rw [withdrawn, FdContext.events_drop, FdContext.fd_drop, h.fds fd]
    split <;> rfl
  rw [withdraw, if_neg (by omega), lookup s fd hfd]
  refine (if_neg ((hasBit_true _ e).1 hreg)).trans ?_
  simp only [epollCtl, if_true, htold]

theorem delEvent_registered (s : IOManager) (h : Inv s) (fd : Nat) (e : Event)
    (garbage : UInt32) (hreg : s.registered fd e = true) :
    delEvent fd e garbage true s = .ok true (s.settle fd ((s.entry fd).drop e) []
      (withdrawn (s.entry fd) e garbage)) := by
  have hd := (h.good fd).minus_one e hreg
  rw [delEvent, withdraw_registered s h fd e garbage _ hreg, ← settle_eq s fd _ (-1) [] _ hd]
  simp only [after, List.append_nil]
  rfl

theorem cancelEvent_registered (s : IOManager) (h : Inv s) (fd : Nat) (e : Event)
    (garbage : UInt32) (hreg : s.registered fd e = true) :
    cancelEvent fd e garbage true s = .ok true (s.settle fd ((s.entry fd).drop e)
      ((s.entry fd).getContext e).waiter (withdrawn (s.entry fd) e garbage)) := by
  have hd := (h.good fd).minus_one e hreg
  rw [cancelEvent, withdraw_registered s h fd e garbage _ hreg,
    bind_ok _ _ _ _ _ (FdContext.triggerEvent_good (h.good fd) e hreg _),
    ← settle_eq s fd _ (-1) _ _ hd]
  rfl

theorem cancelAll_none (s : IOManager) (fd : Nat) (ok : Bool) (hz : (s.entry fd).events = 0) :
    cancelAll fd ok s = .ok false s := by
  unfold cancelAll
  by_cases hfd : s.fdContexts.length ≤ fd
  · rw [if_pos hfd]
  · rw [if_neg hfd, lookup s fd (by omega)]
    exact if_pos hz

theorem cancelAll_fails (s : IOManager) (fd : Nat) : cancelAll fd false s = .ok false s := by
  by_cases hz : (s.entry fd).events = 0
  · exact cancelAll_none s fd false hz
  · have hfd := lt_of_events s fd hz
    rw [cancelAll, if_neg (by omega), lookup s fd hfd]
    exact if_neg hz

/-- Waking a mask of events, each of them registered. The second look at the
    mask comes when the first event is gone. -/
theorem trigger_mask {α : Type} (c : FdContext) (h : c.Good) (m : UInt32)
    (look : FdContext → UInt32) (hreg : ∀ e, hasBit m e = true → c.registered e = true)
    (hlook : hasBit (look (c.dropIf m .READ)) .WRITE = hasBit m .WRITE)
    (k : FdContext → Prog Assertion IOManager α) (s : IOManager) :
    (triggerIf m .READ c >>= fun c' => triggerIf (look c') .WRITE c' >>= k) s =
      k (c.remove m) (s.after ((c.remove m).registrations - c.registrations) (c.due m)) := by
  have hdrop : (c.dropIf m .READ).dropIf (look (c.dropIf m .READ)) .WRITE = c.remove m := by
    rw [FdContext.remove]
    generalize c.dropIf m .READ = c' at hlook
    rw [FdContext.dropIf, FdContext.dropIf, hlook]
  have hdue : (c.dropIf m .READ).dueIf (look (c.dropIf m .READ)) .WRITE = c.dueIf m .WRITE := by
    have hget : (c.dropIf m .READ).getContext .WRITE = c.getContext .WRITE := by
      unfold FdContext.dropIf
      split <;> rfl
    rw [FdContext.dueIf, FdContext.dueIf, hlook, hget]
  -- READ is gone by now, and WRITE is where it was.
  have hnext : hasBit (look (c.dropIf m .READ)) .WRITE = true →
      (c.dropIf m .READ).registered .WRITE = true := by
    intro hbit
    rw [h.registered_dropIf, hreg .WRITE (hlook ▸ hbit)]
    simp
  rw [bind_ok _ _ _ _ _ (triggerIf_good h m .READ (hreg .READ) s),
    bind_ok _ _ _ _ _ (triggerIf_good (FdContext.good_dropIf h m .READ) _ .WRITE hnext _),
    after_after, hdrop, hdue, FdContext.due]
  congr 2
  omega

/-- Everything registered is dropped, and every waiter queued. -/
theorem cancelAll_some (s : IOManager) (h : Inv s) (fd : Nat)
    (hz : (s.entry fd).events ≠ 0) :
    cancelAll fd true s = .ok true (s.settle fd ((s.entry fd).remove (s.entry fd).events)
      ((s.entry fd).due (s.entry fd).events) none) := by
  have hfd := lt_of_events s fd hz
  have hgood := h.good fd
  -- What is registered is all removed, so the last assertion holds.
  have hzero : ((s.entry fd).remove (s.entry fd).events).events = 0 := by
    rw [(FdContext.good_remove hgood _).events_eq_zero]
    intro e
    rw [hgood.registered_remove, FdContext.registered, Bool.and_not_self]
  -- The mask is read again for WRITE, without the bit of READ.
  have hlook : hasBit ((s.entry fd).dropIf (s.entry fd).events .READ).events .WRITE =
      hasBit (s.entry fd).events .WRITE := by
    have hother := hgood.registered_dropIf (s.entry fd).events .READ .WRITE
    simp only [reduceCtorEq, decide_false, Bool.and_false, Bool.not_false, Bool.and_true] at hother
    exact hother
  unfold cancelAll
  rw [if_neg (by omega), lookup s fd hfd]
  refine (if_neg hz).trans ?_
  simp only [epollCtl, if_true]
  rw [trigger_mask (s.entry fd) hgood (s.entry fd).events (fun c => c.events)
    (fun e he => he) hlook, if_pos hzero, ← settle_eq s fd _ _ _ _ rfl]
  rfl

/-! ## Reports -/

/-- A report is about some set of events. -/
theorem realFor_maskOf (c : FdContext) (mask : UInt32) :
    realFor c mask = maskOf (hasBit (realFor c mask) .READ) (hasBit (realFor c mask) .WRITE) := by
  rw [realFor]
  generalize reported mask c.events = m
  by_cases hin : m &&& EPOLLIN = 0 <;> by_cases hout : m &&& EPOLLOUT = 0
  · rw [realEvents, if_pos hin, if_pos hout]
    decide
  · rw [realEvents, if_pos hin, if_neg hout]
    decide
  · rw [realEvents, if_neg hin, if_pos hout]
    decide
  · rw [realEvents, if_neg hin, if_neg hout]
    decide

/-- A report is about nothing that is registered. -/
theorem unrelated_iff {c : FdContext} (h : c.Good) (mask : UInt32) :
    c.events &&& realFor c mask = 0 ↔
      ∀ e, hasBit (realFor c mask) e = true → c.registered e = false := by
  have hand : ∀ r w a b : Bool, maskOf r w &&& maskOf a b = 0 ↔
      (a = true → r = false) ∧ (b = true → w = false) := by decide
  rw [h.bits, realFor_maskOf, hand, ← realFor_maskOf]
  constructor
  · intro hrw e
    cases e
    · exact hrw.1
    · exact hrw.2
  · intro hall
    exact ⟨hall .READ, hall .WRITE⟩

/-- A report that is about nothing registered is skipped. -/
theorem dispatch_unrelated (s : IOManager) (fd : Nat) (mask : UInt32) (ok : Bool)
    (hfd : fd < s.fdContexts.length)
    (hz : (s.entry fd).events &&& realFor (s.entry fd) mask = 0) :
    dispatch fd mask ok s = .ok () s := by
  unfold dispatch
  rw [lookup s fd hfd]
  exact if_pos hz

theorem dispatch_fails (s : IOManager) (fd : Nat) (mask : UInt32)
    (hfd : fd < s.fdContexts.length) : dispatch fd mask false s = .ok () s := by
  by_cases hz : (s.entry fd).events &&& realFor (s.entry fd) mask = 0
  · exact dispatch_unrelated s fd mask false hfd hz
  · unfold dispatch
    rw [lookup s fd hfd]
    exact if_neg hz

/-- A report about registered events only drops and wakes them all, and the
    kernel is told of the rest. -/
theorem dispatch_fresh (s : IOManager) (h : Inv s) (fd : Nat) (mask : UInt32)
    (hfd : fd < s.fdContexts.length)
    (hz : (s.entry fd).events &&& realFor (s.entry fd) mask ≠ 0)
    (hreg : ∀ e, hasBit (realFor (s.entry fd) mask) e = true → s.registered fd e = true) :
    dispatch fd mask true s = .ok () (s.settle fd
      ((s.entry fd).remove (realFor (s.entry fd) mask))
      ((s.entry fd).due (realFor (s.entry fd) mask))
      ((s.entry fd).remove (realFor (s.entry fd) mask)).interest) := by
  have hgood := h.good fd
  have hleft : ((s.entry fd).remove (realFor (s.entry fd) mask)).events =
      (s.entry fd).events &&& ~~~realFor (s.entry fd) mask := by
    rw [realFor_maskOf]
    exact hgood.events_remove _ _
  have htold : (if (s.entry fd).events &&& ~~~realFor (s.entry fd) mask = 0 then EpollOp.del
      else EpollOp.mod).kept
      ⟨EPOLLET ||| ((s.entry fd).events &&& ~~~realFor (s.entry fd) mask), fd⟩ =
      ((s.entry fd).remove (realFor (s.entry fd) mask)).interest := by
    rw [FdContext.interest, hleft, FdContext.fd_remove, h.fds fd]
    split <;> rfl
  unfold dispatch
  rw [lookup s fd hfd]
  refine (if_neg hz).trans ?_
  simp only [epollCtl, if_true, h.fds fd]
  refine (trigger_mask (s.entry fd) hgood (realFor (s.entry fd) mask)
    (fun _ => realFor (s.entry fd) mask) hreg rfl _ _).trans ?_
  rw [← htold, ← settle_eq s fd _ _ _ _ rfl]
  rfl

/-- A report about a registered event and about one that is not fails the
    assertion. -/
theorem dispatch_stale (s : IOManager) (h : Inv s) (fd : Nat) (mask : UInt32)
    (hfd : fd < s.fdContexts.length)
    (hz : (s.entry fd).events &&& realFor (s.entry fd) mask ≠ 0) (e : Event)
    (hbit : hasBit (realFor (s.entry fd) mask) e = true) (hreg : s.registered fd e = false) :
    ∃ s', dispatch fd mask true s = .throw .registered s' := by
  have hgood := h.good fd
  unfold dispatch
  simp only [lookup s fd hfd, epollCtl, if_true, h.fds fd]
  rw [if_neg hz]
  -- Whichever event comes first, the first that is not registered throws.
  by_cases hread : hasBit (realFor (s.entry fd) mask) .READ = true → s.registered fd .READ = true
  · have he : e = .WRITE := by
      cases e with
      | READ => exact absurd (hread hbit) (by rw [hreg]; exact Bool.false_ne_true)
      | WRITE => rfl
    rw [he] at hbit hreg
    have hnext : ((s.entry fd).dropIf (realFor (s.entry fd) mask) .READ).registered .WRITE =
        false := by
      rw [hgood.registered_dropIf, Bool.and_eq_false_iff]
      exact Or.inl hreg
    rw [bind_ok _ _ _ _ _ (triggerIf_good hgood _ .READ hread _)]
    exact ⟨_, bind_throw _ _ _ _ _ (triggerIf_stale _ _ .WRITE hbit hnext _)⟩
  · rw [Classical.not_imp, Bool.not_eq_true] at hread
    exact ⟨_, bind_throw _ _ _ _ _ (triggerIf_stale _ _ .READ hread.1 hread.2 _)⟩

end IOManager

end YkServer
