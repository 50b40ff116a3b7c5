import YkServer.Core.IOManager
import YkServer.Core.Timer

/-!
# Hooked Input and Output

The model of `do_io` and `connect_with_timeout` of `yk/hook.cc`. A call that would
block arms a timer, registers for the event, and lets its fiber go. It is woken by
a report for the descriptor, by `cancelAll`, or by the callback of the timer, which
sets `cancelled` in the `timer_info` of the call and cancels the event.

The calls share the event table of `YkServer.Core.IOManager` and the timers of
`YkServer.Core.Timer`. What these do is one step each, since they hold their locks
throughout; so is every access to `cancelled`. Between any two steps of a call or of
a callback other threads have their turn.

A call is the number of calls before it, and so is its `timer_info`. The closure
that its timers are given captures nothing but what belongs to the call, so its
number is that of the call too. `pending` are the callbacks that `listExpiredCb`
has handed out and no thread has started, each with its timer. `resumed` is not in
the code. It lists the fibers whose `YieldToHold` has returned, and the queue of
the table lists those that were scheduled.

## Main definitions

* `FdCtx`, `HookRequest.route`: Which calls may block.
* `HookCall`: A call, with its local variables.
* `HookWorld`: The calls, the tables and the callbacks.
* `HookWorld.step`: What can happen next.
* `HookWorld.Open`: A call is on its way to be woken.
-/

namespace YkServer

open Lib

def ETIMEDOUT : Nat := 110

/-- What `FdMgr` knows about a descriptor. -/
structure FdCtx where
  isSocket : Bool
  userNonblock : Bool
  isClose : Bool
  recvTimeout : UInt64
  sendTimeout : UInt64
  deriving DecidableEq, Repr

/-- The options that `getTimeout` tells apart. -/
inductive TimeoutType where
  | SO_RCVTIMEO
  | SO_SNDTIMEO
  deriving DecidableEq, Repr

def FdCtx.getTimeout (ctx : FdCtx) : TimeoutType → UInt64
  | .SO_RCVTIMEO => ctx.recvTimeout
  | .SO_SNDTIMEO => ctx.sendTimeout

/-- `(uint64_t)-1`. -/
def noTimeout : UInt64 := 0 - 1

/-- A call, and what it sees before it begins. -/
inductive HookFun where
  /-- `do_io` with its `event` and `timeout_so`. -/
  | doIo (event : Event) (timeoutSo : TimeoutType)
  /-- `connect_with_timeout` with its `timeout_ms`. -/
  | connect (timeoutMs : UInt64)
  deriving DecidableEq, Repr

/-- The event the call waits for. -/
def HookFun.event : HookFun → Event
  | .doIo event _ => event
  | .connect _ => .WRITE

structure HookRequest where
  fn : HookFun
  fd : Nat
  /-- `t_hook_enable`. -/
  hookEnable : Bool
  /-- `FdMgr::GetInstance()->get(fd)`. -/
  ctx : Option FdCtx
  caller : Caller
  deriving DecidableEq, Repr

/-- The way a call takes. -/
inductive Route where
  /-- The original function is called and that is all. -/
  | direct
  /-- `EBADF`. -/
  | refused
  /-- The call may block, for the given time. -/
  | managed (timeout : UInt64)
  deriving DecidableEq, Repr

def HookRequest.route (r : HookRequest) : Route :=
  if !r.hookEnable then .direct
  else
    match r.ctx, r.fn with
    | none, .doIo _ _ => .direct
    | none, .connect _ => .refused
    | some ctx, fn =>
      if ctx.isClose then .refused
      else if !ctx.isSocket || ctx.userNonblock then .direct
      else
        match fn with
        | .doIo _ timeoutSo => .managed (ctx.getTimeout timeoutSo)
        | .connect timeoutMs => .managed timeoutMs

/-- What the original function says. -/
inductive Attempt where
  /-- Anything the call returns as it is. -/
  | done
  /-- `EINTR`. -/
  | interrupted
  /-- `EAGAIN`, or `EINPROGRESS` from `connect`. -/
  | wouldBlock
  deriving DecidableEq, Repr

/-- What a call returns. -/
inductive HookResult where
  /-- The answer of the original function, or for `connect` that of `getsockopt`. -/
  | original
  /-- -1, after `addEvent` has failed. -/
  | notAdded
  /-- -1, with the given `errno`. -/
  | errno (e : Nat)
  deriving DecidableEq, Repr

/-- Where a call is. -/
inductive HookPos where
  /-- Before the original function. -/
  | trying
  /-- Before the timer is armed. -/
  | blocked
  /-- Before `addEvent`. -/
  | armed
  /-- `addEvent` has failed. -/
  | failed
  /-- Before `YieldToHold`. -/
  | added
  /-- In `YieldToHold`. -/
  | parked
  /-- Behind `YieldToHold`. -/
  | woken
  /-- The timer is cancelled, and `cancelled` not looked at. -/
  | checking
  | returned (r : HookResult)
  deriving DecidableEq, Repr

/-- A call with its `timer_info` and the timer of its current round. -/
structure HookCall where
  fn : HookFun
  fd : Nat
  caller : Caller
  timeout : UInt64
  cancelled : Nat
  timer : Option Nat
  pos : HookPos
  deriving DecidableEq, Repr

namespace HookCall

def event (c : HookCall) : Event := c.fn.event

def fiber (c : HookCall) : Nat := c.caller.fiber

/-- The call has not returned, so its `timer_info` is there. -/
def active (c : HookCall) : Bool :=
  match c.pos with
  | .returned _ => false
  | _ => true

/-- Behind `addEvent` and not behind `YieldToHold`. -/
def waiting (c : HookCall) : Bool := c.pos = .added || c.pos = .parked

end HookCall

/-- A callback that runs. It has found `cancelled` clear; `marked` says whether it has
    set it. -/
structure Expiry where
  timer : Nat
  call : Nat
  marked : Bool
  deriving DecidableEq, Repr

structure HookWorld where
  manager : IOManager
  timers : TimerManager
  calls : List HookCall
  pending : List (Nat × Nat)
  running : List Expiry
  resumed : List Nat

namespace HookWorld

def new (now : UInt64) : HookWorld := ⟨IOManager.new, TimerManager.new now, [], [], [], []⟩

/-- What can happen next, in any thread. `ok` is the kernel's answer and `garbage` what
    unset memory holds. -/
inductive Action where
  /-- A fiber calls a hooked function. -/
  | call (r : HookRequest)
  | attempt (i : Nat) (r : Attempt)
  /-- `addConditionTimer`, which gets memory at `p`. -/
  | arm (i p : Nat) (now : UInt64)
  | addEvent (i : Nat) (ok : Bool)
  /-- `timer->cancel()` and `return`, after `addEvent` has failed. -/
  | giveUp (i : Nat)
  | yieldToHold (i : Nat)
  /-- A worker has taken the fiber out of its queue and switches to it. -/
  | resume (i : Nat)
  /-- `timer->cancel()`. -/
  | cancelTimer (i : Nat)
  /-- `if(tinfo->cancelled)`. -/
  | check (i : Nat)
  | listExpiredCb (now : UInt64) (nowTimer : Nat)
  /-- A worker starts a callback: `winfo.lock()` and `t->cancelled`. -/
  | enter (k : Nat)
  /-- `t->cancelled = ETIMEDOUT`. -/
  | mark (k : Nat)
  /-- `iom->cancelEvent(fd, event)`, which ends the callback. -/
  | cancelEvent (k : Nat) (garbage : UInt32) (ok : Bool)
  /-- `close` in some thread. -/
  | cancelAll (fd : Nat) (ok : Bool)
  /-- `idle` handles a report. -/
  | dispatch (fd : Nat) (mask : UInt32) (ok : Bool)
  deriving DecidableEq, Repr

/-- The fiber is in a call. -/
def busy (w : HookWorld) (f : Nat) : Bool := w.calls.any (fun c => c.active && c.fiber = f)

/-- How often the fiber was put in a queue. -/
def scheduled (w : HookWorld) (f : Nat) : Nat :=
  w.manager.scheduled.countP (fun t => t.2 = .fiber f)

/-- The fiber is in no queue: each time it was put there it was resumed. -/
def unscheduled (w : HookWorld) (f : Nat) : Bool := w.scheduled f = w.resumed.count f

/-- From when the timer is armed until the fiber is scheduled. -/
def Open (w : HookWorld) (c : HookCall) : Prop :=
  c.pos = .armed ∨ (c.waiting = true ∧ w.unscheduled c.fiber = true)

/-- A call that is at the given place. -/
def callAt (w : HookWorld) (i : Nat) (pos : HookPos) : Option HookCall :=
  w.calls[i]?.filter (fun c => c.pos = pos)

def setCall (w : HookWorld) (i : Nat) (c : HookCall) : HookWorld :=
  { w with calls := w.calls.set i c }

/-- An operation on the event table. A failed assertion ends the process. -/
def onManager {α : Type} (m : Prog Assertion IOManager α) (w : HookWorld) :
    Option (α × HookWorld) :=
  match m w.manager with
  | .ok a s => some (a, { w with manager := s })
  | _ => none

/-- An operation on the timers. -/
def onTimers {α : Type} (m : Prog Empty TimerManager α) (w : HookWorld) :
    Option (α × HookWorld) :=
  match m w.timers with
  | .ok a s => some (a, { w with timers := s })
  | _ => none

/-- `if(timer) timer->cancel()`. -/
def cancelTimerOf (c : HookCall) (w : HookWorld) : Option HookWorld :=
  match c.timer with
  | some p => (onTimers (TimerManager.cancel p) w).map Prod.snd
  | none => some w

/-- The `timer_info` still exists: the call holds it, or a callback that runs. -/
def infoAlive (w : HookWorld) (i : Nat) (c : HookCall) : Bool :=
  c.active || w.running.any (fun b => b.call = i)

def step : Action → HookWorld → Option HookWorld
  | .call r, w =>
    if w.busy r.caller.fiber then none
    else
      match r.route with
      | .managed timeout =>
        some { w with calls := w.calls ++ [⟨r.fn, r.fd, r.caller, timeout, 0, none, .trying⟩] }
      -- The call does not wait.
      | _ => some w
  | .attempt i r, w => do
    let c ← w.callAt i .trying
    match r, c.fn with
    | .wouldBlock, _ => some (w.setCall i { c with pos := .blocked })
    -- `do_io` tries again, `connect` does not.
    | .interrupted, .doIo _ _ => some w
    | _, _ => some (w.setCall i { c with pos := .returned .original })
  | .arm i p now, w => do
    let c ← w.callAt i .blocked
    if c.timeout ≠ noTimeout then
      let (_, w) ← onTimers (TimerManager.addTimer p c.timeout i false now) w
      some (w.setCall i { c with timer := some p, pos := .armed })
    else some (w.setCall i { c with pos := .armed })
  | .addEvent i ok, w => do
    let c ← w.callAt i .armed
    let (rt, w) ← onManager (IOManager.addEvent c.fd c.event none c.caller ok) w
    some (w.setCall i { c with pos := if rt = 0 then .added else .failed })
  | .giveUp i, w => do
    let c ← w.callAt i .failed
    let w ← cancelTimerOf c w
    some (w.setCall i { c with pos := .returned (match c.fn with
                                                 | .doIo _ _ => .notAdded
                                                 | .connect _ => .original) })
  | .yieldToHold i, w => do
    let c ← w.callAt i .added
    some (w.setCall i { c with pos := .parked })
  | .resume i, w => do
    let c ← w.callAt i .parked
    if w.unscheduled c.fiber then none
    else
      some { w.setCall i { c with pos := .woken } with resumed := c.fiber :: w.resumed }
  | .cancelTimer i, w => do
    let c ← w.callAt i .woken
    let w ← cancelTimerOf c w
    some (w.setCall i { c with pos := .checking })
  | .check i, w => do
    let c ← w.callAt i .checking
    if c.cancelled ≠ 0 then
      some (w.setCall i { c with pos := .returned (.errno c.cancelled) })
    else
      match c.fn with
      -- `goto retry`, out of the scope of `timer`.
      | .doIo _ _ => some (w.setCall i { c with timer := none, pos := .trying })
      | .connect _ => some (w.setCall i { c with pos := .returned .original })
  | .listExpiredCb now nowTimer, w => do
    let (cbs, w) ← onTimers (TimerManager.listExpiredCb now nowTimer) w
    -- `schedule` does not queue a null function.
    some { w with pending := w.pending ++ cbs.filterMap (fun x => x.2.map (fun i => (x.1, i))) }
  | .enter k, w => do
    let (p, i) ← w.pending[k]?
    let c ← w.calls[i]?
    let w := { w with pending := w.pending.eraseIdx k }
    if w.infoAlive i c && c.cancelled = 0 then
      some { w with running := w.running ++ [⟨p, i, false⟩] }
    else some w
  | .mark k, w => do
    let b ← w.running[k]?
    let c ← w.calls[b.call]?
    if b.marked then none
    else
      some { w.setCall b.call { c with cancelled := ETIMEDOUT } with
        running := w.running.set k { b with marked := true } }
  | .cancelEvent k garbage ok, w => do
    let b ← w.running[k]?
    let c ← w.calls[b.call]?
    if b.marked then
      let (_, w) ← onManager (IOManager.cancelEvent c.fd c.event garbage ok) w
      some { w with running := w.running.eraseIdx k }
    else none
  | .cancelAll fd ok, w => (onManager (IOManager.cancelAll fd ok) w).map Prod.snd
  | .dispatch fd mask ok, w => (onManager (IOManager.dispatch fd mask ok) w).map Prod.snd

/-- The callback of the timer of an open call finds `cancelled` clear, and cancels the
    event when it is there and with the kernel's consent. -/
def Timely (w : HookWorld) : Action → Prop
  | .enter k => ∀ (p i : Nat) (c : HookCall), w.pending[k]? = some (p, i) → w.calls[i]? = some c →
    c.timer = some p → w.Open c → c.cancelled = 0
  | .cancelEvent k _ ok => ∀ (b : Expiry) (c : HookCall), w.running[k]? = some b →
    w.calls[b.call]? = some c → c.timer = some b.timer → w.Open c →
    c.pos ≠ .armed ∧ ok = true
  | _ => True

end HookWorld

end YkServer
