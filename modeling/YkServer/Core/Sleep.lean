import YkServer.Core.Timer
import YkServer.Lib.Word

/-!
# Hooked Sleeps

The model of `sleep`, `usleep` and `nanosleep` of `yk/hook.cc`. With the hook enabled a call
arms a timer whose callback schedules the calling fiber, and, except for `nanosleep`,
yields. What a fiber does between two calls is not in the model, nor does anything but
these timers schedule it.

The callback is armed with `IOManager::GetThis()`. The hook is enabled in the workers of
every scheduler, and in one that is not an `IOManager` that pointer is null. The call of
`addTimer` then ends the process, and with it the run.

The arguments are of three types. `unsigned int` arithmetic is done in 32 bits and only
then converted to the `uint64_t` of `addTimer`; `long` arithmetic must not overflow, and
its result goes through an `int`.

A call is the number of calls before it. `pending` are the callbacks that `listExpiredCb` has
handed out and no thread has run, each with its timer, and `queue` are the fibers that
were scheduled, with the timer whose callback did it. What a call keeps of its timers,
`armed` and `woken`, is not in the code.

## Main definitions

* `SleepFun`: The three functions and their arguments.
* `SleepFun.delay`: The milliseconds given to `addTimer`.
* `SleepCall`: A call.
* `SleepWorld`, `SleepWorld.act`, `SleepWorld.step`: The calls, the timers and the queue.
-/

namespace YkServer

open Lib

/-- A call. The fields of a `timespec` are 64-bit integers. -/
inductive SleepFun where
  | sleep (seconds : UInt32)
  | usleep (usec : UInt32)
  | nanosleep (sec nsec : Int)
  deriving DecidableEq, Repr

namespace SleepFun

/-- The number is a `long`. -/
def isLong (n : Int) : Bool := -2 ^ 63 ≤ n && n < 2 ^ 63

/-- What `addTimer` is given. There is nothing if a `long` overflows. -/
def delay : SleepFun → Option UInt64
  | .sleep seconds => some (seconds * 1000).toUInt64
  | .usleep usec => some (usec * 1000).toUInt64
  | .nanosleep sec nsec =>
    if isLong (sec * 1000) && isLong (sec * 1000 + nsec) then
      -- `int timeout_ms`
      some (UInt64.ofNat (wordOfInt (intOfWord ((sec * 1000 + nsec) % 2 ^ 32).toNat)))
    else none

end SleepFun

/-- Where a call is. -/
inductive SleepPos where
  /-- Before `addTimer`. -/
  | called
  /-- Before `YieldToHold`. -/
  | armed
  /-- In `YieldToHold`. -/
  | parked
  | returned (r : Int)
  deriving DecidableEq, Repr

/-- A call with the timers it has armed and those that have woken it. -/
structure SleepCall where
  fn : SleepFun
  fiber : Nat
  /-- `IOManager::GetThis()` is not null. -/
  iom : Bool
  armed : List Nat
  woken : List Nat
  pos : SleepPos
  deriving DecidableEq, Repr

/-- The call has not returned. -/
def SleepCall.active (c : SleepCall) : Bool :=
  match c.pos with
  | .returned _ => false
  | _ => true

structure SleepWorld where
  timers : TimerManager
  calls : List SleepCall
  pending : List (Nat × Nat)
  queue : List (Nat × Nat)
  crashed : Bool

namespace SleepWorld

def new (now : UInt64) : SleepWorld := ⟨TimerManager.new now, [], [], [], false⟩

/-- What can happen next, in any thread. -/
inductive Action where
  | call (fn : SleepFun) (fiber : Nat) (hookEnable iom : Bool)
  /-- `addTimer`, which gets memory at `p`. -/
  | arm (i p : Nat) (now : UInt64)
  | yieldToHold (i : Nat)
  /-- A worker takes an entry out of its queue and switches to the fiber, which is in a
      call. -/
  | resume (i k : Nat)
  /-- The same for a fiber that is in no call. -/
  | resumeElsewhere (k : Nat)
  | listExpiredCb (now : UInt64) (nowTimer : Nat)
  /-- A worker runs a callback: `iom->schedule(fiber)`. -/
  | runCallback (k : Nat)
  deriving DecidableEq, Repr

/-- The fiber is in a call. -/
def busy (w : SleepWorld) (f : Nat) : Bool := w.calls.any (fun c => c.active && c.fiber = f)

/-- A call that is at the given place. -/
def callAt (w : SleepWorld) (i : Nat) (pos : SleepPos) : Option SleepCall :=
  w.calls[i]?.filter (fun c => c.pos = pos)

def setCall (w : SleepWorld) (i : Nat) (c : SleepCall) : SleepWorld :=
  { w with calls := w.calls.set i c }

/-- An operation on the timers. -/
def onTimers {α : Type} (m : Prog Empty TimerManager α) (w : SleepWorld) :
    Option (α × SleepWorld) :=
  match m w.timers with
  | .ok a s => some (a, { w with timers := s })
  | _ => none

/-- Where a call goes when it has armed its timer: `nanosleep` returns. -/
def behindTimer : SleepFun → SleepPos
  | .nanosleep _ _ => .returned 0
  | _ => .armed

/-- What an action does. -/
def act : Action → SleepWorld → Option SleepWorld
  | .call fn fiber hookEnable iom, w =>
    if w.busy fiber then none
    -- `sleep_f` and the like.
    else if !hookEnable then some w
    else some { w with calls := w.calls ++ [⟨fn, fiber, iom, [], [], .called⟩] }
  | .arm i p now, w => do
    let c ← w.callAt i .called
    let ms ← c.fn.delay
    -- `addTimer` of a null pointer.
    if !c.iom then some { w with crashed := true }
    else do
      let (_, w) ← onTimers (TimerManager.addTimer p ms i false now) w
      some (w.setCall i { c with armed := c.armed ++ [p], pos := behindTimer c.fn })
  | .yieldToHold i, w => do
    let c ← w.callAt i .armed
    some (w.setCall i { c with pos := .parked })
  | .resume i k, w => do
    let c ← w.callAt i .parked
    let (p, f) ← w.queue[k]?
    if f = c.fiber then
      some { w.setCall i { c with woken := c.woken ++ [p], pos := .returned 0 } with
        queue := w.queue.eraseIdx k }
    else none
  | .resumeElsewhere k, w => do
    let (_, f) ← w.queue[k]?
    if w.busy f then none else some { w with queue := w.queue.eraseIdx k }
  | .listExpiredCb now nowTimer, w => do
    let (cbs, w) ← onTimers (TimerManager.listExpiredCb now nowTimer) w
    some { w with pending := w.pending ++ cbs.filterMap (fun x => x.2.map (fun i => (x.1, i))) }
  | .runCallback k, w => do
    let (p, i) ← w.pending[k]?
    let c ← w.calls[i]?
    some { w with pending := w.pending.eraseIdx k, queue := w.queue ++ [(p, c.fiber)] }

/-- An action of a process that has not crashed. -/
def step (a : Action) (w : SleepWorld) : Option SleepWorld :=
  if w.crashed then none else act a w

end SleepWorld

end YkServer
