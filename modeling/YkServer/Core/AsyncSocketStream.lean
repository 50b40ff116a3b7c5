import YkServer.Core.IOManager
import YkServer.Core.Rock
import YkServer.Core.Timer
import Mathlib.Data.List.AList

/-!
# Requests over a Stream

The model of `streams/async_socket_stream.cc` and of `request` and `doRecv` in
`rock/rock_stream.cc`. A fiber that makes a request puts a context in `m_ctxs` under
the sequence number of the request, arms a timer and lets itself go. Three things
can resolve the request: a response, the timeout, and `innerClose`. None of them
holds a lock while it works on a context, so each of their accesses to it is a step
of its own, with other threads in between.

A `Job` is a thread that is working on a context. `innerClose` has more than one
context to work on, one after the other. What `m_mutex`, the lock of the timers or
that of the scheduler protects is one step.

A context is the number of requests made before it, and so is the closure its timer
is given. `pending` are the callbacks that `listExpiredCb` has handed out and no
thread has started. `scheduled` are the requests whose fiber was put in the queue of
its scheduler. `answered`, `closed` and `erased` are not in the code. They record for
which response a context was taken out of `m_ctxs`, which ones `innerClose` took, and
whose timeout has been at `m_ctxs`.

A null pointer that is followed ends the process, and with it the run. What the
peer sends is up to the peer.

## Main definitions

* `RockCtx`, `RockCall`: A context, and the call of `request` it belongs to.
* `Job`: A thread that resolves a request.
* `RockStream`: The stream.
* `RockStream.addCtx`, `RockStream.getAndDelCtx`, `RockStream.eraseCtx`: The map.
* `RockStream.go`, `RockStream.step`: What can happen next.
-/

namespace YkServer

open Lib

/-- `AsyncSocketStream::Error`, as `result` holds it. -/
def TIMEOUT : UInt32 := 0 - 1

def IO_ERROR : UInt32 := 0 - 2

namespace RockMessage

def getSn : RockMessage → Option UInt32
  | .request sn _ _ => some sn
  | .response sn _ _ _ _ => some sn
  | .notify _ _ => none

/-- `getResult`, of a response. -/
def getResult : RockMessage → Option UInt32
  | .response _ _ result _ _ => some result
  | _ => none

end RockMessage

/-- A context: `RockCtx` with what it has from `Ctx`. -/
structure RockCtx where
  sn : UInt32
  timeout : UInt32
  result : UInt32
  timed : Bool
  scheduler : Option Nat
  fiber : Option Nat
  timer : Option Nat
  response : Option RockMessage
  deriving DecidableEq, Repr

/-- Where a call of `request` is. -/
inductive RequestPos where
  /-- Before `addCtx`. -/
  | created
  /-- Before `addTimer`. -/
  | added
  /-- `addTimer` has returned, and its timer is not in the context yet. -/
  | armed
  /-- Before `enqueue`. -/
  | stored
  /-- Before `YieldToHold`. -/
  | queued
  /-- In `YieldToHold`. -/
  | yielded
  | returned (result : UInt32) (response : Option RockMessage)
  deriving DecidableEq, Repr

/-- A call of `request`. `armed` is what `addTimer` has returned. -/
structure RockCall where
  ctx : RockCtx
  pos : RequestPos
  armed : Option Nat
  deriving DecidableEq, Repr

/-- Where a thread is in `doRsp`. -/
inductive RspPos where
  /-- `if(!scd || !fiber)`. -/
  | test
  /-- `if(timer)`. -/
  | ifTimer
  /-- `timer->cancel()`. -/
  | cancel
  /-- `timer = nullptr`. -/
  | clear
  /-- `if(timed)`, and what it does. -/
  | mark
  /-- `scd->schedule(&fiber)`. -/
  | wake
  deriving DecidableEq, Repr

/-- What a thread does next to a context. -/
inductive JobPos where
  /-- `m_ctxs.erase(ctx->sn)`, in `onTimeOut`. -/
  | erase
  /-- `ctx->timed = true`, in `onTimeOut`. -/
  | setTimed
  /-- `result` is set, to that of a response or by `innerClose`. -/
  | setResult (result : UInt32) (rsp : Option RockMessage)
  /-- `ctx->response = rsp`, in `doRecv`. -/
  | setResponse (rsp : RockMessage)
  | doRsp (pos : RspPos)
  deriving DecidableEq, Repr

/-- A thread that works on a context. `rest` are the contexts that `innerClose` comes to
    when it is done with this one. -/
structure Job where
  ctx : Nat
  pos : JobPos
  rest : List Nat
  deriving DecidableEq, Repr

structure RockStream where
  connected : Bool
  ctxs : AList (fun _ : UInt32 => Nat)
  queue : List Nat
  timers : TimerManager
  calls : List RockCall
  pending : List (Nat × Nat)
  jobs : List Job
  scheduled : List Nat
  answered : List (Nat × RockMessage)
  closed : List Nat
  erased : List Nat

namespace RockStream

def new (now : UInt64) : RockStream :=
  ⟨false, ∅, [], TimerManager.new now, [], [], [], [], [], [], []⟩

/-! ## The map -/

/-- `m_ctxs.insert`, which keeps what is there. What `addCtx` returns is `true`. -/
def addCtx (sn : UInt32) (r : Nat) (w : RockStream) : RockStream :=
  { w with ctxs := if sn ∈ w.ctxs then w.ctxs else w.ctxs.insert sn r }

def eraseCtx (sn : UInt32) (w : RockStream) : RockStream := { w with ctxs := w.ctxs.erase sn }

def getAndDelCtx (sn : UInt32) (w : RockStream) : Option Nat × RockStream :=
  (w.ctxs.lookup sn, w.eraseCtx sn)

/-! ## Steps -/

/-- What can happen next, in any thread. -/
inductive Action where
  /-- The stream is connected. -/
  | connect
  /-- A fiber calls `request`, up to `addCtx`. -/
  | request (sn timeout : UInt32) (caller : Caller)
  | addCtx (r : Nat)
  /-- `addTimer`, which gets memory at `p`. -/
  | addTimer (r p : Nat) (now : UInt64)
  /-- `ctx->timer = ...`. -/
  | storeTimer (r : Nat)
  | enqueue (r : Nat)
  | yieldToHold (r : Nat)
  /-- A worker has taken the fiber out of its queue, and `request` returns. -/
  | resume (r : Nat)
  /-- `doWrite` takes what is queued. -/
  | doWrite
  /-- `doRecv` has read a message. -/
  | doRecv (m : RockMessage)
  | listExpiredCb (now : UInt64) (nowTimer : Nat)
  /-- A worker starts a callback, `onTimeOut`. -/
  | onTimeOut (k : Nat)
  /-- `innerClose`, which comes to the contexts in the given order. -/
  | innerClose (order : List (Σ _ : UInt32, Nat))
  /-- A thread takes its next step with a context. -/
  | go (k : Nat)

/-- A call that is at the given place. -/
def callAt (w : RockStream) (r : Nat) (pos : RequestPos) : Option RockCall :=
  w.calls[r]?.filter (fun c => c.pos = pos)

def setCall (w : RockStream) (r : Nat) (c : RockCall) : RockStream :=
  { w with calls := w.calls.set r c }

def setCtx (w : RockStream) (r : Nat) (c : RockCall) (ctx : RockCtx) : RockStream :=
  w.setCall r { c with ctx := ctx }

/-- The thread goes on with the same context. -/
def goto (w : RockStream) (k : Nat) (j : Job) (pos : JobPos) : RockStream :=
  { w with jobs := w.jobs.set k { j with pos := pos } }

/-- The thread is done with its context. -/
def finish (w : RockStream) (k : Nat) (j : Job) : RockStream :=
  match j.rest with
  | [] => { w with jobs := w.jobs.eraseIdx k }
  | r :: rest => { w with jobs := w.jobs.set k ⟨r, .setResult IO_ERROR none, rest⟩ }

/-- The next step of a thread with its context. -/
def goOn (w : RockStream) (k : Nat) (j : Job) (c : RockCall) : Option RockStream :=
  match j.pos with
  | .erase =>
    let w := w.eraseCtx c.ctx.sn
    some (goto { w with erased := j.ctx :: w.erased } k j .setTimed)
  | .setTimed =>
    some ((w.setCtx j.ctx c { c.ctx with timed := true }).goto k j (.doRsp .test))
  | .setResult result rsp =>
    some ((w.setCtx j.ctx c { c.ctx with result := result }).goto k j
      (match rsp with
        | some rsp => .setResponse rsp
        | none => .doRsp .test))
  | .setResponse rsp =>
    some ((w.setCtx j.ctx c { c.ctx with response := some rsp }).goto k j (.doRsp .test))
  | .doRsp .test =>
    if c.ctx.scheduler.isNone || c.ctx.fiber.isNone then some (w.finish k j)
    else some (w.goto k j (.doRsp .ifTimer))
  | .doRsp .ifTimer =>
    some (w.goto k j (.doRsp (if c.ctx.timer.isSome then .cancel else .mark)))
  | .doRsp .cancel =>
    match c.ctx.timer with
    | some p =>
      match TimerManager.cancel p w.timers with
      | .ok _ s => some (goto { w with timers := s } k j (.doRsp .clear))
      | _ => none
    -- Another thread has cleared it in the meantime.
    | none => none
  | .doRsp .clear =>
    some ((w.setCtx j.ctx c { c.ctx with timer := none }).goto k j (.doRsp .mark))
  | .doRsp .mark =>
    some ((if c.ctx.timed then w.setCtx j.ctx c { c.ctx with result := TIMEOUT } else w).goto k j
      (.doRsp .wake))
  | .doRsp .wake =>
    -- `schedule` swaps the fiber out of the context, and does not queue a null pointer.
    match c.ctx.fiber with
    | some _ =>
      some (finish { w.setCtx j.ctx c { c.ctx with fiber := none } with
        scheduled := j.ctx :: w.scheduled } k j)
    | none => some (w.finish k j)

def step : Action → RockStream → Option RockStream
  | .connect, w => some { w with connected := true }
  | .request sn timeout caller, w =>
    if w.connected then
      some { w with calls := w.calls ++
        [⟨⟨sn, timeout, 0, false, some caller.scheduler, some caller.fiber, none, none⟩, .created,
          none⟩] }
    -- `NOT_CONNECT`.
    else some w
  | .addCtx r, w => do
    let c ← w.callAt r .created
    some ((w.addCtx c.ctx.sn r).setCall r { c with pos := .added })
  | .addTimer r p now, w => do
    let c ← w.callAt r .added
    match TimerManager.addTimer p c.ctx.timeout.toUInt64 r false now w.timers with
    | .ok _ s => some (setCall { w with timers := s } r { c with pos := .armed, armed := some p })
    | _ => none
  | .storeTimer r, w => do
    let c ← w.callAt r .armed
    some (w.setCall r { c with ctx := { c.ctx with timer := c.armed }, pos := .stored })
  | .enqueue r, w => do
    let c ← w.callAt r .stored
    some (setCall { w with queue := w.queue ++ [r] } r { c with pos := .queued })
  | .yieldToHold r, w => do
    let c ← w.callAt r .queued
    some (w.setCall r { c with pos := .yielded })
  | .resume r, w => do
    let c ← w.callAt r .yielded
    if r ∈ w.scheduled then
      some (w.setCall r { c with pos := .returned c.ctx.result c.ctx.response })
    else none
  | .doWrite, w => some { w with queue := [] }
  | .doRecv m, w =>
    match m with
    | .response sn _ result _ _ =>
      match w.getAndDelCtx sn with
      | (some r, w) => some { w with
          jobs := w.jobs ++ [⟨r, .setResult result (some m), []⟩]
          answered := (r, m) :: w.answered }
      | (none, w) => some w
    -- Requests and notifications go to their handlers.
    | _ => some w
  | .listExpiredCb now nowTimer, w =>
    match TimerManager.listExpiredCb now nowTimer w.timers with
    | .ok cbs s => some { w with
        timers := s
        -- `schedule` does not queue a null function.
        pending := w.pending ++ cbs.filterMap (fun x => x.2.map (fun r => (x.1, r))) }
    | _ => none
  | .onTimeOut k, w => do
    let x ← w.pending[k]?
    some { w with
      pending := w.pending.eraseIdx k
      jobs := w.jobs ++ [⟨x.2, .erase, []⟩] }
  | .innerClose order, w =>
    if order.Perm w.ctxs.entries then
      let taken := order.map Sigma.snd
      let w := { w with
        connected := false
        ctxs := ∅
        queue := []
        closed := w.closed ++ taken }
      match taken with
      | [] => some w
      | r :: rest => some { w with jobs := w.jobs ++ [⟨r, .setResult IO_ERROR none, rest⟩] }
    else none
  | .go k, w => do
    let j ← w.jobs[k]?
    let c ← w.calls[j.ctx]?
    w.goOn k j c

end RockStream

end YkServer
