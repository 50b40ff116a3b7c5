import YkServer.Core.Timer
import YkServer.Core.Worker

/-!
# The Loops of a Stream

The model of `start`, `doRead`, `doWrite`, `enqueue`, `innerClose` and `close` in
`streams/async_socket_stream.cc`: how a stream is connected, read, written, closed and
connected again. What becomes of the requests that wait for a response is in
`Core.AsyncSocketStream`, so `m_ctxs` is left out here.

A thread is a call of one of these functions. What a lock protects is one step, and so is
every other access to a member of the stream. `m_timer` is followed one step after it was
found not to be null, and a null pointer that is followed ends the process, and with it
the run. A context that is sent is a number. The connect callback of the user, `doRecv`
and `doSend` may throw, and the disconnect callback returns. `doRead` and `doWrite` catch
what is thrown in their loops, and `start` catches nothing. The outcome of what is not up
to the stream comes with the step.

All timers have the same closure, `start`. `pending` is the number of closures that
`listExpiredCb` has handed out and no thread has started. What comes after it is not in the
code: `pushed` and `sent` are the contexts that were queued and that were passed to
`doSend`, `broken` says that `doSend` has failed or that `innerClose` was called, and
`notified` and `reconnects` count the calls of `m_sem.notify()` and of `reconnect`.

## Main definitions

* `StartPos`, `ReadPos`, `WritePos`, `ClosePos`: Where a call is.
* `LoopThread`: A thread.
* `StreamLoops`: The stream and its threads.
* `StreamLoops.goOn`, `StreamLoops.step`: What can happen next.
-/

namespace YkServer

open Lib

/-- Where a call of `start` is. -/
inductive StartPos where
  /-- In `waitFiber`, before the first or the second `m_waitSem.wait()`. -/
  | wait (second : Bool)
  | queued (second : Bool)
  /-- `if(m_timer)`, which is there twice: before the connection and when it has failed. -/
  | ifTimer (failed : Bool)
  /-- `m_timer->cancel()`. -/
  | cancel (failed : Bool)
  /-- `m_timer = nullptr`. -/
  | clear (failed : Bool)
  /-- `if(!isConnected())`. -/
  | test
  | reconnect
  | connectCb
  | startRead
  | startWrite
  /-- The first or the second `m_waitSem.notify()`. -/
  | notify (second : Bool)
  /-- `if(m_autoConnect)`. -/
  | ifAuto
  | addTimer
  /-- `m_timer = ...`. -/
  | store (p : Nat)
  | returned (b : Bool)
  /-- An exception of the connect callback has left the call. -/
  | thrown
  deriving DecidableEq, Repr

/-- Where a call of `doRead` is. -/
inductive ReadPos where
  /-- `while(isConnected())`. -/
  | top
  | doRecv
  /-- `m_waitSem.notify()`. -/
  | notify
  | ifAuto
  | addTimer
  | ended
  deriving DecidableEq, Repr

/-- Where a call of `doWrite` is. -/
inductive WritePos where
  | top
  /-- `m_sem.wait()`. -/
  | wait
  | queued
  /-- `m_queue.swap(ctxs)`. -/
  | swap
  /-- In the loop over `ctxs`. -/
  | doSend (ctxs : List Nat)
  /-- `m_queue.clear()`. -/
  | clear
  | notify
  | ended
  deriving DecidableEq, Repr

/-- Where a thread is in `innerClose`. -/
inductive InnerClosePos where
  /-- `SocketStream::close()`. -/
  | shut
  /-- `m_sem.notify()`. -/
  | notify
  /-- `m_queue.clear()`. -/
  | clear
  deriving DecidableEq, Repr

/-- Who calls `innerClose`. -/
inductive InnerCloseCaller where
  | start
  | doRecv
  | doRead
  | doWrite
  deriving DecidableEq, Repr

/-- Where a call of `close` is. -/
inductive ClosePos where
  | ifTimer
  | cancel
  /-- `SocketStream::close()`. -/
  | shut
  | returned
  deriving DecidableEq, Repr

inductive LoopThread where
  | start (pos : StartPos)
  | read (pos : ReadPos)
  | write (pos : WritePos)
  | innerClose (caller : InnerCloseCaller) (pos : InnerClosePos)
  /-- A call of `enqueue` that has released the lock, and whether the queue was empty. -/
  | enqueue (empty : Bool)
  | close (pos : ClosePos)
  deriving DecidableEq, Repr

namespace LoopThread

/-- Where a thread goes on that was handed a permit. -/
def woken : LoopThread → LoopThread
  | .start (.queued false) => .start (.wait true)
  | .start (.queued true) => .start (.ifTimer false)
  | .write .queued => .write .swap
  | t => t

/-- Where a call of `start` goes on that has got rid of `m_timer`. -/
def afterTimer (failed : Bool) : LoopThread :=
  .start (if failed then .addTimer else .test)

end LoopThread

/-- Where a thread goes on when `innerClose` has returned. -/
def InnerCloseCaller.after : InnerCloseCaller → LoopThread
  | .start => .start (.notify false)
  | .doRecv => .read .top
  | .doRead => .read .notify
  | .doWrite => .write .top

/-- What happens to a call. -/
inductive LoopResult where
  | ok
  | fail
  | throw
  deriving DecidableEq, Repr

structure StreamLoops where
  connected : Bool
  autoConnect : Bool
  timer : Option Nat
  timers : TimerManager
  pending : Nat
  queue : List Nat
  sem : FiberSemaphore Nat
  waitSem : FiberSemaphore Nat
  threads : List LoopThread
  pushed : List Nat
  sent : List Nat
  broken : Bool
  notified : Nat
  reconnects : Nat

namespace StreamLoops

/-- A stream as the constructor leaves it, on a socket that is connected or is not. -/
def new (connected : Bool) (now : UInt64) : StreamLoops :=
  { connected := connected, autoConnect := false, timer := none, timers := .new now, pending := 0,
    queue := [], sem := .new 0, waitSem := .new 2, threads := [], pushed := [], sent := [],
    broken := false, notified := 0, reconnects := 0 }

inductive Action where
  /-- The socket is connected, not by `start`. -/
  | connect
  | setAutoConnect (b : Bool)
  /-- The user calls `start`. -/
  | start
  /-- A thread calls `enqueue`, up to `lock.unlock()`. -/
  | enqueue (x : Nat)
  /-- A thread calls `close`, up to `if(m_timer)`. -/
  | close
  | listExpiredCb (now : UInt64) (nowTimer : Nat)
  /-- A worker starts a callback that was handed out. -/
  | callback
  /-- A thread takes its next step. A timer it makes gets memory at `p`. -/
  | go (i : Nat) (result : LoopResult) (p : Nat) (now : UInt64)
  deriving DecidableEq, Repr

def goto (w : StreamLoops) (i : Nat) (t : LoopThread) : StreamLoops :=
  { w with threads := w.threads.set i t }

/-- A new thread, or a function that is scheduled. -/
def spawn (w : StreamLoops) (t : LoopThread) : StreamLoops :=
  { w with threads := w.threads ++ [t] }

/-- `m_sem.notify()`. -/
def notify (w : StreamLoops) : StreamLoops :=
  match w.sem.notify with
  | (some k, s) => { w with
      sem := s
      threads := w.threads.modify k LoopThread.woken
      notified := w.notified + 1 }
  | (none, s) => { w with sem := s, notified := w.notified + 1 }

/-- `m_waitSem.notify()`. -/
def notifyWait (w : StreamLoops) : StreamLoops :=
  match w.waitSem.notify with
  | (some k, s) => { w with waitSem := s, threads := w.threads.modify k LoopThread.woken }
  | (none, s) => { w with waitSem := s }

/-- `m_timer->cancel()`. -/
def cancel (w : StreamLoops) : Option StreamLoops :=
  match w.timer with
  | some p =>
    match TimerManager.cancel p w.timers with
    | .ok _ s => some { w with timers := s }
    | _ => none
  -- Another thread has cleared it in the meantime.
  | none => none

/-- `m_iomanager->addTimer(ms, start)`. -/
def addTimer (w : StreamLoops) (ms : UInt64) (p : Nat) (now : UInt64) : Option StreamLoops :=
  match TimerManager.addTimer p ms 0 false now w.timers with
  | .ok _ s => some { w with timers := s }
  | _ => none

/-- The next step of a call of `start`. -/
def goStart (w : StreamLoops) (i : Nat) (result : LoopResult) (p : Nat) (now : UInt64) :
    StartPos → Option StreamLoops
  | .wait second =>
    match w.waitSem.wait i with
    | (true, s) => some (goto { w with waitSem := s } i
        (.start (if second then .ifTimer false else .wait true)))
    | (false, s) => some (goto { w with waitSem := s } i (.start (.queued second)))
  | .ifTimer failed =>
    if w.timer.isSome then some (w.goto i (.start (.cancel failed)))
    else some (w.goto i (.afterTimer failed))
  | .cancel failed => do
    let w ← w.cancel
    some (w.goto i (.start (.clear failed)))
  | .clear failed => some (goto { w with timer := none } i (.afterTimer failed))
  | .test => some (w.goto i (.start (if w.connected then .connectCb else .reconnect)))
  | .reconnect =>
    let ok := result = .ok
    some (goto { w with connected := ok, reconnects := w.reconnects + 1 } i
      (if ok then .start .connectCb else .innerClose .start .shut))
  | .connectCb =>
    match result with
    | .ok => some (w.goto i (.start .startRead))
    | .fail => some (w.goto i (.innerClose .start .shut))
    -- There is no `try` in `start`.
    | .throw => some (w.goto i (.start .thrown))
  | .startRead => some ((w.goto i (.start .startWrite)).spawn (.read .top))
  | .startWrite => some ((w.goto i (.start (.returned true))).spawn (.write .top))
  | .notify second =>
    some (notifyWait (w.goto i (.start (if second then .ifAuto else .notify true))))
  | .ifAuto => some (w.goto i (.start (if w.autoConnect then .ifTimer true else .returned false)))
  | .addTimer => do
    let w ← w.addTimer 2000 p now
    some (w.goto i (.start (.store p)))
  | .store q => some (goto { w with timer := some q } i (.start (.returned false)))
  | .queued _ | .returned _ | .thrown => none

/-- The next step of a call of `doRead`. -/
def goRead (w : StreamLoops) (i : Nat) (result : LoopResult) (p : Nat) (now : UInt64) :
    ReadPos → Option StreamLoops
  | .top => some (w.goto i (if w.connected then .read .doRecv else .innerClose .doRead .shut))
  | .doRecv =>
    match result with
    | .ok => some (w.goto i (.read .top))
    | .fail => some (w.goto i (.innerClose .doRecv .shut))
    | .throw => some (w.goto i (.innerClose .doRead .shut))
  | .notify => some (notifyWait (w.goto i (.read .ifAuto)))
  | .ifAuto => some (w.goto i (.read (if w.autoConnect then .addTimer else .ended)))
  | .addTimer => do
    let w ← w.addTimer 10 p now
    some (w.goto i (.read .ended))
  | .ended => none

/-- The next step of a call of `doWrite`. -/
def goWrite (w : StreamLoops) (i : Nat) (result : LoopResult) : WritePos → Option StreamLoops
  | .top => some (w.goto i (.write (if w.connected then .wait else .clear)))
  | .wait =>
    match w.sem.wait i with
    | (true, s) => some (goto { w with sem := s } i (.write .swap))
    | (false, s) => some (goto { w with sem := s } i (.write .queued))
  | .swap => some (goto { w with queue := [] } i (.write (.doSend w.queue)))
  | .doSend [] => some (w.goto i (.write .top))
  | .doSend (x :: ctxs) =>
    let w := { w with sent := w.sent ++ [x] }
    match result with
    | .ok => some (w.goto i (.write (.doSend ctxs)))
    | .fail => some (goto { w with broken := true } i (.innerClose .doWrite .shut))
    | .throw => some (goto { w with broken := true } i (.write .clear))
  | .clear => some (goto { w with queue := [] } i (.write .notify))
  | .notify => some (notifyWait (w.goto i (.write .ended)))
  | .queued | .ended => none

/-- The next step of a thread in `innerClose`. -/
def goInnerClose (w : StreamLoops) (i : Nat) (caller : InnerCloseCaller) :
    InnerClosePos → Option StreamLoops
  | .shut =>
    some (goto { w with connected := false, broken := true } i (.innerClose caller .notify))
  | .notify => some (notify (w.goto i (.innerClose caller .clear)))
  | .clear => some (goto { w with queue := [] } i caller.after)

/-- The next step of a call of `close`. -/
def goClose (w : StreamLoops) (i : Nat) : ClosePos → Option StreamLoops
  | .ifTimer => some (w.goto i (.close (if w.timer.isSome then .cancel else .shut)))
  | .cancel => do
    let w ← w.cancel
    some (w.goto i (.close .shut))
  | .shut => some (goto { w with connected := false } i (.close .returned))
  | .returned => none

/-- The next step of a thread. -/
def goOn (w : StreamLoops) (i : Nat) (result : LoopResult) (p : Nat) (now : UInt64) :
    LoopThread → Option StreamLoops
  | .start pos => w.goStart i result p now pos
  | .read pos => w.goRead i result p now pos
  | .write pos => w.goWrite i result pos
  | .innerClose caller pos => w.goInnerClose i caller pos
  | .enqueue true => some (notify (w.goto i (.enqueue false)))
  | .enqueue false => none
  | .close pos => w.goClose i pos

def step : Action → StreamLoops → Option StreamLoops
  | .connect, w => some { w with connected := true }
  | .setAutoConnect b, w => some { w with autoConnect := b }
  | .start, w => some (w.spawn (.start (.wait false)))
  | .enqueue x, w =>
    some (spawn { w with queue := w.queue ++ [x], pushed := w.pushed ++ [x] }
      (.enqueue w.queue.isEmpty))
  | .close, w => some (spawn { w with autoConnect := false } (.close .ifTimer))
  | .listExpiredCb now nowTimer, w =>
    match TimerManager.listExpiredCb now nowTimer w.timers with
    | .ok cbs s => some { w with
        timers := s
        -- `schedule` does not queue a null function.
        pending := w.pending + (cbs.filterMap Prod.snd).length }
    | _ => none
  | .callback, w =>
    if 0 < w.pending then some (spawn { w with pending := w.pending - 1 } (.start (.wait false)))
    else none
  | .go i result p now, w => w.threads[i]?.bind (w.goOn i result p now)

end StreamLoops

end YkServer
