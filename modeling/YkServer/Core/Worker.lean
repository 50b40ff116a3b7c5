import Mathlib.Logic.Basic

/-!
# Fiber Semaphores and Worker Groups

The model of `FiberSemaphore` and `WorkerGroup` in `yk/worker.cc`. What a semaphore does
under its lock is one step. A waiter is a fiber with its scheduler; the semaphore only
hands it back, so what it is is a parameter.

A fiber that has queued itself goes on to `YieldToHold` behind the lock. It may be
handed a permit, and scheduled, before it gets there.

The first world is a semaphore with any number of fibers around it. `notified` and
`granted` count the calls of `notify` and the permits that were given out, at once or to a
waiter. `queued`, `scheduled` and `resumed` are the fibers that queued themselves, that
`notify` has scheduled and that have come back from `YieldToHold`, in order.

In the second one a thread is a call of `schedule` or `waitAll`, or a fiber that executes
`doWork`. An exception that leaves the callback leaves `doWork` too, and is caught in
`Fiber::MainFunc`. The destructor of the group is a call of `waitAll`. The test of
`m_finish` in `waitAll` and its assignment are one step here; in the code they are two
accesses that no lock protects.

## Main definitions

* `FiberSemaphore`: A counter and a queue.
* `FiberSemaphore.wait`, `FiberSemaphore.tryWait`, `FiberSemaphore.notify`: Its members.
* `SemWorld`, `SemWorld.step`: A semaphore and its fibers.
* `WorkerGroup`, `WorkerGroup.step`: A group, the calls and the callbacks.
-/

namespace YkServer

/-- `FiberSemaphore`. -/
structure FiberSemaphore (α : Type) where
  concurrency : UInt64
  waiters : List α
  deriving DecidableEq, Repr

namespace FiberSemaphore

variable {α : Type}

def new (initial : UInt64) : FiberSemaphore α := ⟨initial, []⟩

def tryWait (s : FiberSemaphore α) : Bool × FiberSemaphore α :=
  if 0 < s.concurrency then (true, { s with concurrency := s.concurrency - 1 })
  else (false, s)

/-- `wait`, up to `YieldToHold`: whether there was a permit. -/
def wait (s : FiberSemaphore α) (me : α) : Bool × FiberSemaphore α :=
  if 0 < s.concurrency then (true, { s with concurrency := s.concurrency - 1 })
  else (false, { s with waiters := s.waiters ++ [me] })

/-- `notify`, and whom it schedules. -/
def notify (s : FiberSemaphore α) : Option α × FiberSemaphore α :=
  match s.waiters with
  | next :: rest => (some next, { s with waiters := rest })
  | [] => (none, { s with concurrency := s.concurrency + 1 })

end FiberSemaphore

/-! ## A semaphore and its fibers -/

/-- Where a fiber is. -/
inductive SemPos where
  | running
  /-- In `m_waiters`, before `YieldToHold`. -/
  | queued
  /-- In `YieldToHold`. -/
  | held
  deriving DecidableEq, Repr

structure SemWorld where
  sem : FiberSemaphore Nat
  pos : Nat → SemPos
  notified : Nat
  granted : Nat
  queued : List Nat
  scheduled : List Nat
  resumed : List Nat

namespace SemWorld

def new (initial : UInt64) : SemWorld :=
  ⟨.new initial, fun _ => .running, 0, 0, [], [], []⟩

inductive Action where
  | wait (f : Nat)
  | tryWait (f : Nat)
  /-- Anybody calls `notify`. -/
  | notify
  | yieldToHold (f : Nat)
  /-- A worker takes the fiber out of the queue of its scheduler. -/
  | resume (f : Nat)
  deriving DecidableEq, Repr

def goto (w : SemWorld) (f : Nat) (pos : SemPos) : SemWorld :=
  { w with pos := fun g => if g = f then pos else w.pos g }

def step : Action → SemWorld → Option SemWorld
  | .wait f, w =>
    if w.pos f = .running then
      match w.sem.wait f with
      | (true, s) => some { w with sem := s, granted := w.granted + 1 }
      | (false, s) => some (goto { w with sem := s, queued := w.queued ++ [f] } f .queued)
    else none
  | .tryWait f, w =>
    if w.pos f = .running then
      match w.sem.tryWait with
      | (true, s) => some { w with sem := s, granted := w.granted + 1 }
      | (false, s) => some { w with sem := s }
    else none
  | .notify, w =>
    match w.sem.notify with
    | (some f, s) => some { w with
        sem := s
        notified := w.notified + 1
        granted := w.granted + 1
        scheduled := w.scheduled ++ [f] }
    | (none, s) => some { w with sem := s, notified := w.notified + 1 }
  | .yieldToHold f, w => if w.pos f = .queued then some (w.goto f .held) else none
  | .resume f, w =>
    if w.pos f = .held ∧ w.resumed.count f < w.scheduled.count f then
      some (goto { w with resumed := w.resumed ++ [f] } f .running)
    else none

end SemWorld

/-! ## Worker groups -/

/-- Where a thread is. -/
inductive GroupPos where
  /-- In `schedule`, before `m_sem.wait()`. -/
  | scheduleWait
  | scheduleQueued
  /-- In `schedule`, with a permit. -/
  | scheduling
  | scheduled
  /-- In `waitAll`, before it looks at `m_finish`. -/
  | waitAll
  /-- In the loop of `waitAll`, with `i` permits. -/
  | drain (i : Nat)
  | drainQueued (i : Nat)
  /-- The first `waitAll` has returned. -/
  | drained
  /-- Another `waitAll` has returned. -/
  | skipped
  /-- `doWork` is in the queue of the scheduler. -/
  | accepted
  /-- The callback runs. -/
  | running
  /-- The callback has returned, before `m_sem.notify()`. -/
  | finished
  | ended
  /-- The callback has thrown. -/
  | thrown
  deriving DecidableEq, Repr

/-- Where a thread goes on that was handed a permit. -/
def GroupPos.woken : GroupPos → GroupPos
  | .scheduleQueued => .scheduling
  | .drainQueued i => .drain (i + 1)
  | pos => pos

/-- `WorkerGroup`, and the threads that use it. -/
structure WorkerGroup where
  batchSize : UInt32
  finish : Bool
  sem : FiberSemaphore Nat
  threads : List GroupPos
  deriving DecidableEq, Repr

namespace WorkerGroup

def new (batchSize : UInt32) : WorkerGroup := ⟨batchSize, false, .new batchSize.toUInt64, []⟩

inductive Action where
  | schedule
  | waitAll
  /-- A thread takes its next step. -/
  | go (i : Nat)
  /-- The callback of a thread throws. -/
  | throw (i : Nat)
  deriving DecidableEq, Repr

def goto (g : WorkerGroup) (i : Nat) (pos : GroupPos) : WorkerGroup :=
  { g with threads := g.threads.set i pos }

/-- `m_sem.notify()`. -/
def notify (g : WorkerGroup) : WorkerGroup :=
  match g.sem.notify with
  | (some k, s) => { g with sem := s, threads := g.threads.modify k GroupPos.woken }
  | (none, s) => { g with sem := s }

/-- The next step of a thread. -/
def goOn (g : WorkerGroup) (i : Nat) : GroupPos → Option WorkerGroup
  | .scheduleWait =>
    match g.sem.wait i with
    | (true, s) => some (goto { g with sem := s } i .scheduling)
    | (false, s) => some (goto { g with sem := s } i .scheduleQueued)
  | .scheduling =>
    let g := g.goto i .scheduled
    some { g with threads := g.threads ++ [.accepted] }
  | .waitAll =>
    if g.finish then some (g.goto i .skipped)
    else some (goto { g with finish := true } i (.drain 0))
  | .drain n =>
    if n < g.batchSize.toNat then
      match g.sem.wait i with
      | (true, s) => some (goto { g with sem := s } i (.drain (n + 1)))
      | (false, s) => some (goto { g with sem := s } i (.drainQueued n))
    else some (g.goto i .drained)
  | .accepted => some (g.goto i .running)
  | .running => some (g.goto i .finished)
  | .finished => some (notify (g.goto i .ended))
  -- A thread that waits takes no step of its own, and the others are done.
  | _ => none

def step : Action → WorkerGroup → Option WorkerGroup
  | .schedule, g => some { g with threads := g.threads ++ [.scheduleWait] }
  | .waitAll, g => some { g with threads := g.threads ++ [.waitAll] }
  | .go i, g => g.threads[i]?.bind (g.goOn i)
  | .throw i, g => if g.threads[i]? = some .running then some (g.goto i .thrown) else none

end WorkerGroup

end YkServer
