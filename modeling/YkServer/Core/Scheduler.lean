import YkServer.Core.IOManager

/-!
# The Scheduler

The model of `yk/scheduler.cc`, with `Fiber::swapIn`, `YieldToReady`, `YieldToHold` and
`MainFunc` of `yk/fiber.cc`, and with `tickle` and `idle` as `yk/iomanager.cc`
overrides them. Worker threads run `Scheduler::run`, other threads call `schedule`,
`stop` and `tickle`.

What is done under `m_mutex` is one step, and so is every access to an atomic
counter, to the state of a fiber or to the pipe. A worker that has finished its
scan and one that has incremented the idle counter are therefore in different
places, with anything happening in between.

A fiber is the number of fibers made before it, a thread the number of workers
started before it. The counters are integers, so that a decrement below zero is
seen. `ticket`, `taken` and `executed` are not in the code. They number what goes
into the queue and record what came out of it.

A failed assertion ends the process, and with it the run. The idle fiber does not
throw, so of its states only `TERM` matters.

## Main definitions

* `FiberState`, `FiberAndThread`: Fibers and the items of the queue.
* `Pc`, `Worker`: Where a worker is.
* `Scheduler`: The queue, the counters and the workers.
* `Scheduler.scan`: The loop over the queue.
* `Scheduler.scheduleNoLock`, `Scheduler.stopping`, `Scheduler.go`: The code.
* `Scheduler.Action`, `Scheduler.step`: What can happen next.
-/

namespace YkServer

open Lib

/-- `Fiber::State`. -/
inductive FiberState where
  | INIT
  | HOLD
  | EXEC
  | TERM
  | READY
  | EXCEPT
  deriving DecidableEq, Repr

/-- An item of the queue. No thread stands for -1, and a ticket is given to each item
    that goes in. -/
structure FiberAndThread where
  task : Task
  thread : Option Nat
  ticket : Nat
  deriving DecidableEq, Repr

/-- What a worker does after `tickle`. -/
inductive Next where
  /-- Go on after the scan with the item it has taken. -/
  | picked (ft : Option FiberAndThread)
  /-- Go on with the next round of the loop. -/
  | top
  deriving DecidableEq, Repr

/-- Where a worker is in `run`. A fiber that runs a callback is `cb_fiber`. -/
inductive Pc where
  /-- Before the scan. -/
  | top
  /-- In `tickle`, before it looks at the idle counter. -/
  | tickling (next : Next)
  /-- In `tickle`, before it writes to the pipe. -/
  | poking (next : Next)
  /-- After the scan. -/
  | picked (ft : Option FiberAndThread)
  /-- Before `swapIn`. -/
  | entering (f : Nat) (isCb : Bool) (ticket : Nat)
  /-- The fiber runs. -/
  | running (f : Nat) (isCb : Bool)
  /-- The fiber has written its state and is about to switch. -/
  | leaving (f : Nat) (isCb : Bool)
  /-- `swapIn` has returned. -/
  | back (f : Nat) (isCb : Bool)
  /-- The active counter is decremented. -/
  | settling (f : Nat) (isCb : Bool)
  /-- Before the fiber is scheduled again. -/
  | requeueing (f : Nat) (isCb : Bool)
  /-- Before the state becomes `HOLD`. -/
  | holding (f : Nat) (isCb : Bool)
  /-- There was an item, but its fiber has ended. -/
  | dropping
  /-- In `idle`, before it asks whether to stop. -/
  | asking
  /-- In `epoll_wait`. -/
  | waiting
  /-- Behind `epoll_wait`. -/
  | handling
  /-- `idle` has switched out. -/
  | idleOut
  /-- The loop is left. -/
  | exited
  deriving DecidableEq, Repr

def Next.pc : Next → Pc
  | .picked ft => .picked ft
  | .top => .top

/-- A worker, with its local variables. `cbFiber` is the fiber that is kept for the
    next callback; the one that runs a callback is in `pc`. -/
structure Worker where
  pc : Pc
  cbFiber : Option Nat
  idleTerm : Bool
  deriving DecidableEq, Repr

/-- The scheduler. `ticklers` is the number of calls of `tickle` by other threads, or
    by fibers, that have not looked at the idle counter yet, and `pokers` the
    number of those that have and are going to write. -/
structure Scheduler where
  /-- Whether it is an `IOManager`. -/
  io : Bool
  fibers : List FiberAndThread
  activeThreadCount : Int
  idleThreadCount : Int
  isStopping : Bool
  autoStop : Bool
  states : List FiberState
  workers : List Worker
  ticklers : Nat
  pokers : Nat
  pipe : Nat
  tickets : Nat
  taken : List (FiberAndThread × Nat)
  executed : List Nat
  deriving DecidableEq, Repr

namespace Scheduler

/-- A scheduler that was started and has no workers in their loop yet. -/
def new (io : Bool) : Scheduler :=
  ⟨io, [], 0, 0, false, false, [], [], 0, 0, 0, 0, [], []⟩

/-! ## The queue -/

/-- The state of the fiber of an item. -/
def taskState (s : Scheduler) : Task → Option FiberState
  | .fiber f => s.states[f]?
  | .cb _ => none

/-- The scan of a worker: the item that it takes, what it leaves, and `tickle_me`. -/
def scan (s : Scheduler) (w : Nat) :
    List FiberAndThread → Option FiberAndThread × List FiberAndThread × Bool
  | [] => (none, [], false)
  | it :: rest =>
    if it.thread ≠ none ∧ it.thread ≠ some w then
      let (ft, left, _) := s.scan w rest
      (ft, it :: left, true)
    else if s.taskState it.task = some .EXEC then
      let (ft, left, tickleMe) := s.scan w rest
      (ft, it :: left, tickleMe)
    -- `it` is behind the item by now.
    else (some it, rest, !rest.isEmpty)

/-- The item is put in the queue unless it is null; the result is `need_tickle`. -/
def scheduleNoLock (fc : Option Task) (thread : Option Nat) (s : Scheduler) : Bool × Scheduler :=
  (s.fibers.isEmpty,
    match fc with
    | some task => { s with fibers := s.fibers ++ [⟨task, thread, s.tickets⟩]
                            tickets := s.tickets + 1 }
    | none => s)

/-- The loop of `schedule(begin, end)`. -/
def scheduleAll (thread : Option Nat) : List (Option Task) → Scheduler → Bool × Scheduler
  | [], s => (false, s)
  | fc :: fcs, s =>
    let (needTickle, s) := s.scheduleNoLock fc thread
    let (later, s) := s.scheduleAll thread fcs
    (later || needTickle, s)

/-- `Scheduler::stopping`. -/
def stopping (s : Scheduler) : Bool :=
  s.autoStop && s.isStopping && s.fibers.isEmpty && s.activeThreadCount = 0

/-! ## The workers -/

def goto (s : Scheduler) (w : Nat) (x : Worker) (pc : Pc) : Scheduler :=
  { s with workers := s.workers.set w { x with pc := pc } }

def setState (s : Scheduler) (f : Nat) (st : FiberState) : Scheduler :=
  { s with states := s.states.set f st }

/-- `Fiber::swapIn`, with its assertion. -/
def swapIn (f : Nat) (s : Scheduler) : Option Scheduler :=
  match s.states[f]? with
  | some .EXEC => none
  | some _ => some (s.setState f .EXEC)
  | none => none

/-- `cb_fiber->reset(cb)` or a new fiber. -/
def callbackFiber (x : Worker) (s : Scheduler) : Option (Nat × Scheduler) :=
  match x.cbFiber with
  | some g =>
    match s.states[g]? with
    | some .TERM => some (g, s.setState g .INIT)
    | some .EXCEPT => some (g, s.setState g .INIT)
    | some .INIT => some (g, s.setState g .INIT)
    | _ => none
  | none => some (s.states.length, { s with states := s.states ++ [.INIT] })

/-- The next step of a worker, where it does not depend on the fiber that runs or on
    the kernel. -/
def go (w : Nat) (x : Worker) (s : Scheduler) : Option Scheduler :=
  match x.pc with
  | .top =>
    match s.scan w s.fibers with
    | (some ft, left, tickleMe) =>
      some ({ s with
        fibers := left
        activeThreadCount := s.activeThreadCount + 1
        taken := (ft, w) :: s.taken }.goto w x
          (if tickleMe then .tickling (.picked (some ft)) else .picked (some ft)))
    | (none, _, tickleMe) =>
      some (s.goto w x (if tickleMe then .tickling (.picked none) else .picked none))
  | .tickling next =>
    -- The base class only writes a log entry.
    if s.io ∧ 0 < s.idleThreadCount then some (s.goto w x (.poking next))
    else some (s.goto w x next.pc)
  | .poking next => some ({ s with pipe := s.pipe + 1 }.goto w x next.pc)
  | .picked (some ⟨.fiber f, _, ticket⟩) =>
    match s.states[f]? with
    | some .TERM => some (s.goto w x .dropping)
    | some .EXCEPT => some (s.goto w x .dropping)
    | some _ => some (s.goto w x (.entering f false ticket))
    | none => none
  | .picked (some ⟨.cb _, _, ticket⟩) =>
    match s.callbackFiber x with
    | some (g, s) => some (s.goto w { x with cbFiber := none } (.entering g true ticket))
    | none => none
  | .picked none =>
    if x.idleTerm then some (s.goto w x .exited)
    else some ({ s with idleThreadCount := s.idleThreadCount + 1 }.goto w x .asking)
  | .entering f isCb ticket =>
    match s.swapIn f with
    | some s => some ({ s with executed := ticket :: s.executed }.goto w x (.running f isCb))
    | none => none
  | .leaving f isCb => some (s.goto w x (.back f isCb))
  | .back f isCb =>
    some ({ s with activeThreadCount := s.activeThreadCount - 1 }.goto w x (.settling f isCb))
  | .settling f isCb =>
    match s.states[f]? with
    | some .READY => some (s.goto w x (.requeueing f isCb))
    | some .TERM => some (ended w x f isCb s)
    | some .EXCEPT => some (ended w x f isCb s)
    | some _ => some (s.goto w x (.holding f isCb))
    | none => none
  | .requeueing f _ =>
    match s.scheduleNoLock (some (.fiber f)) none with
    | (needTickle, s) => some (s.goto w x (if needTickle then .tickling .top else .top))
  | .holding f _ => some ((s.setState f .HOLD).goto w x .top)
  | .dropping => some ({ s with activeThreadCount := s.activeThreadCount - 1 }.goto w x .top)
  | .handling => some (s.goto w x .idleOut)
  | .idleOut => some ({ s with idleThreadCount := s.idleThreadCount - 1 }.goto w x .top)
  | _ => none
where
  /-- A fiber that has ended is kept if it was made for a callback. -/
  ended (w : Nat) (x : Worker) (f : Nat) (isCb : Bool) (s : Scheduler) : Scheduler :=
    if isCb then (s.setState f .INIT).goto w { x with cbFiber := some f } .top
    else s.goto w x .top

/-- What can happen next. -/
inductive Action where
  /-- A thread enters `run`. -/
  | start
  /-- Somebody makes a fiber. -/
  | newFiber
  /-- `schedule`, for one item or for several, by a worker (that is, by the fiber it
      runs, or by its `idle` for a timer or an event) or by another thread. -/
  | schedule (caller : Option Nat) (fcs : List (Option Task)) (thread : Option Nat)
  /-- `stop` sets the flags. -/
  | stop
  /-- Somebody calls `tickle`, as `stop` does and as `onTimerInsertedAtFront` does. -/
  | tickle
  /-- Such a call looks at the idle counter. -/
  | test
  /-- Such a call writes to the pipe. -/
  | poke
  /-- A worker goes on. -/
  | go (w : Nat)
  /-- The fiber of a worker calls `YieldToReady`, up to the switch. -/
  | yieldToReady (w : Nat)
  /-- The fiber of a worker calls `YieldToHold`. -/
  | yieldToHold (w : Nat)
  /-- The fiber of a worker ends. -/
  | finish (w : Nat) (except : Bool)
  /-- `idle` asks whether to stop. An `IOManager` has conditions of its own. -/
  | ask (w : Nat) (quiet : Bool)
  /-- `epoll_wait` returns. -/
  | wake (w : Nat)
  /-- `idle` empties the pipe. -/
  | drain (w : Nat)
  deriving DecidableEq, Repr

/-- A call of `schedule` can come from this thread. -/
def mayCall (s : Scheduler) : Option Nat → Bool
  | none => true
  | some w =>
    match s.workers[w]? with
    | some ⟨.running _ _, _, _⟩ => true
    | some ⟨.handling, _, _⟩ => true
    | _ => false

/-- The fiber of a task exists. -/
def known (s : Scheduler) : Option Task → Bool
  | some (.fiber f) => f < s.states.length
  | _ => true

def step : Action → Scheduler → Option Scheduler
  | .start, s => some { s with workers := s.workers ++ [⟨.top, none, false⟩] }
  | .newFiber, s => some { s with states := s.states ++ [.INIT] }
  | .schedule caller fcs thread, s =>
    if s.mayCall caller && fcs.all s.known then
      match s.scheduleAll thread fcs with
      | (needTickle, s) => some { s with ticklers := s.ticklers + if needTickle then 1 else 0 }
    else none
  | .stop, s => some { s with autoStop := true, isStopping := true }
  | .tickle, s => some { s with ticklers := s.ticklers + 1 }
  | .test, s =>
    if s.ticklers = 0 then none
    else if s.io ∧ 0 < s.idleThreadCount then
      some { s with ticklers := s.ticklers - 1, pokers := s.pokers + 1 }
    else some { s with ticklers := s.ticklers - 1 }
  | .poke, s =>
    if s.pokers = 0 then none
    else some { s with pokers := s.pokers - 1, pipe := s.pipe + 1 }
  | .go w, s =>
    match s.workers[w]? with
    | some x => s.go w x
    | none => none
  | .yieldToReady w, s =>
    match s.workers[w]? with
    | some x =>
      match x.pc with
      | .running f isCb => some ((s.setState f .READY).goto w x (.leaving f isCb))
      | _ => none
    | none => none
  | .yieldToHold w, s =>
    match s.workers[w]? with
    | some x =>
      match x.pc with
      | .running f isCb => some (s.goto w x (.leaving f isCb))
      | _ => none
    | none => none
  | .finish w except, s =>
    match s.workers[w]? with
    | some x =>
      match x.pc with
      | .running f isCb =>
        some ((s.setState f (if except then .EXCEPT else .TERM)).goto w x (.leaving f isCb))
      | _ => none
    | none => none
  | .ask w quiet, s =>
    match s.workers[w]? with
    | some x =>
      match x.pc with
      | .asking =>
        if (quiet || !s.io) && s.stopping then some (s.goto w { x with idleTerm := true } .idleOut)
        else if s.io then some (s.goto w x .waiting)
        else some (s.goto w x .idleOut)
      | _ => none
    | none => none
  | .wake w, s =>
    match s.workers[w]? with
    | some x =>
      match x.pc with
      | .waiting => some (s.goto w x .handling)
      | _ => none
    | none => none
  | .drain w, s =>
    match s.workers[w]? with
    | some x =>
      match x.pc with
      | .handling => some { s with pipe := 0 }
      | _ => none
    | none => none

end Scheduler

end YkServer
