import YkServer.Lib.Prog
import Mathlib.Logic.Function.Basic

/-!
# The Event Table

The model of `yk/iomanager.cc`: which fibers and callbacks wait for which file
descriptor, what the kernel was told about it, and how a waiter is handed back
to its scheduler.

Each operation holds the mutex of the one `FdContext` it works on from before
its first look at it until it returns, so an interleaving of threads is an order
of whole operations, and an operation is a program over the whole table. Whether
`epoll_ctl` succeeds is up to the kernel, so every operation takes the answer it
is going to get. The two operations that leave `epevent.events` unset take the
value that happens to be in that memory as well.

A failed assertion ends the process. It is an exception here, which no operation
catches. Schedulers, fibers and callbacks are pointers, that is numbers. A fiber
is woken by putting it in the queue of its scheduler; `scheduled` is the order
in which that happened, over all schedulers. The counter is an integer, so that
a decrement below zero is seen and not wrapped.

The wake-up pipe of the constructor has no entry in the table, and reports for
it are drained and skipped, so it is left out.

## Main definitions

* `Event`, `EventContext`, `FdContext`: An entry of the table.
* `EpollEvent`, `IOManager.epollCtl`: The kernel's side.
* `FdContext.triggerEvent`: Waking the waiter of an event.
* `IOManager.addEvent`, `IOManager.delEvent`, `IOManager.cancelEvent`,
  `IOManager.cancelAll`: The public operations.
* `IOManager.dispatch`: The body of the loop of `idle` over the reports.
* `IOManager.Op`, `IOManager.perform`: The operations as one type.
* `World`, `World.perform`: The manager among threads, with reports in flight.
-/

namespace YkServer

open Lib

/-- The events of `IOManager::Event` that can be waited for. -/
inductive Event where
  | READ
  | WRITE
  deriving DecidableEq, Repr

/-- The value of the enumerator. -/
def Event.bit : Event → UInt32
  | .READ => 0x1
  | .WRITE => 0x4

def EPOLLIN : UInt32 := 0x001

def EPOLLOUT : UInt32 := 0x004

def EPOLLERR : UInt32 := 0x008

def EPOLLHUP : UInt32 := 0x010

def EPOLLET : UInt32 := 0x80000000

/-- The assertions of the event table. -/
inductive Assertion where
  /-- `events & event`, in `triggerEvent`. -/
  | registered
  /-- `!event_ctx.scheduler && !event_ctx.fiber && !event_ctx.cb`, in `addEvent`. -/
  | contextEmpty
  /-- `fd_ctx->events == 0`, in `cancelAll`. -/
  | noneLeft
  deriving DecidableEq, Repr

/-- Something that can be scheduled. -/
inductive Task where
  | fiber (p : Nat)
  | cb (p : Nat)
  deriving DecidableEq, Repr

/-- Who waits for an event. -/
structure EventContext where
  scheduler : Option Nat
  fiber : Option Nat
  cb : Option Nat
  deriving DecidableEq, Repr

/-- The context nobody waits in, which is also the one `resetContext` leaves. -/
def EventContext.empty : EventContext := ⟨none, none, none⟩

/-- An entry of the table. -/
structure FdContext where
  read : EventContext
  write : EventContext
  fd : Nat
  events : UInt32
  deriving DecidableEq, Repr

/-- `new FdContext` with its descriptor. -/
def FdContext.new (fd : Nat) : FdContext := ⟨.empty, .empty, fd, 0⟩

def FdContext.getContext (c : FdContext) : Event → EventContext
  | .READ => c.read
  | .WRITE => c.write

def FdContext.setContext (c : FdContext) (event : Event) (ctx : EventContext) : FdContext :=
  match event with
  | .READ => { c with read := ctx }
  | .WRITE => { c with write := ctx }

/-- The argument of `epoll_ctl`: the interest mask and the entry it belongs to. -/
structure EpollEvent where
  events : UInt32
  ptr : Nat
  deriving DecidableEq, Repr

inductive EpollOp where
  | add
  | mod
  | del
  deriving DecidableEq, Repr

/-- What the kernel keeps for a descriptor after a successful call. -/
def EpollOp.kept (op : EpollOp) (ev : EpollEvent) : Option EpollEvent :=
  match op with
  | .add => some ev
  | .mod => some ev
  | .del => none

/-- The thread that calls `addEvent`. It has to have a current scheduler, which `addEvent`
    takes from `Scheduler::GetThis()` without a test; a thread that got at the manager
    through `IOManager::GetThis()` has one. The fiber it is executing is in state `EXEC`. -/
structure Caller where
  scheduler : Nat
  fiber : Nat
  deriving DecidableEq, Repr

/-- The manager, with the interest list of its `epoll` instance. -/
structure IOManager where
  fdContexts : List FdContext
  pendingEventCount : Int
  interest : Nat → Option EpollEvent
  scheduled : List (Nat × Task)

/-- The waiter of an event is put in its scheduler's queue and the event is no
    longer registered. `schedule` swaps the callback or the fiber out of the
    context; a pair of null pointers is not queued. -/
def FdContext.triggerEvent (c : FdContext) (event : Event) :
    Prog Assertion IOManager FdContext := fun s =>
  if c.events &&& event.bit = 0 then .throw .registered s
  else
    let c := { c with events := c.events &&& ~~~event.bit }
    let ctx := c.getContext event
    match ctx.scheduler with
    | none => .fault
    | some sched =>
      -- `schedule` takes the callback or the fiber by pointer and swaps it out, so the
      -- context keeps the other one.
      match ctx.cb with
      | some f =>
        .ok (c.setContext event { ctx with cb := none, scheduler := none })
          { s with scheduled := s.scheduled ++ [(sched, .cb f)] }
      | none =>
        .ok (c.setContext event { ctx with fiber := none, scheduler := none })
          { s with scheduled := s.scheduled ++ (match ctx.fiber with
                                                | some f => [(sched, .fiber f)]
                                                | none => []) }

namespace IOManager

/-- `m_fdContexts.resize(size)` and a new entry wherever one is missing. -/
def contextResize (size : Nat) (s : IOManager) : IOManager :=
  { s with fdContexts := s.fdContexts.take size ++
      (List.range' s.fdContexts.length (size - s.fdContexts.length)).map FdContext.new }

/-- A manager as the constructor leaves it. -/
def new : IOManager :=
  contextResize 32 { fdContexts := [], pendingEventCount := 0, interest := fun _ => none,
                     scheduled := [] }

/-- The kernel's answer to `epoll_ctl`, and what it remembers. -/
def epollCtl (op : EpollOp) (fd : Nat) (ev : EpollEvent) (ok : Bool) (s : IOManager) :
    Bool × IOManager :=
  if ok then
    (true, { s with interest := Function.update s.interest fd (op.kept ev) })
  else (false, s)

/-- Write an entry back. -/
def setContext (fd : Nat) (c : FdContext) (s : IOManager) : IOManager :=
  { s with fdContexts := s.fdContexts.set fd c }

/-- Add to the counter. -/
def count (d : Int) (s : IOManager) : IOManager :=
  { s with pendingEventCount := s.pendingEventCount + d }

/-- The entry of a descriptor: `addEvent` makes the table large enough first. -/
def ensureContext (fd : Nat) (s : IOManager) : IOManager :=
  if fd < s.fdContexts.length then s else contextResize (fd * 3 / 2) s

/-- Who waits after `addEvent`: the callback if there is one, the calling fiber
    otherwise. -/
def newContext (cb : Option Nat) (caller : Caller) : EventContext :=
  match cb with
  | some f => ⟨some caller.scheduler, none, some f⟩
  | none => ⟨some caller.scheduler, some caller.fiber, none⟩

def addEvent (fd : Nat) (event : Event) (cb : Option Nat) (caller : Caller) (ok : Bool) :
    Prog Assertion IOManager Int := fun s =>
  let s := ensureContext fd s
  match s.fdContexts[fd]? with
  | none => .fault
  | some c =>
    -- An event that is already registered is only logged, and the call goes on.
    let op : EpollOp := if c.events = 0 then .add else .mod
    match epollCtl op fd ⟨EPOLLET ||| c.events ||| event.bit, fd⟩ ok s with
    | (false, s) => .ok (-1) s
    | (true, s) =>
      let s := count 1 s
      let c := { c with events := c.events ||| event.bit }
      if c.getContext event = .empty then
        .ok 0 (setContext fd (c.setContext event (newContext cb caller)) s)
      -- The counter and the mask are changed by now.
      else .throw .contextEmpty (setContext fd c s)

/-- The common opening of `delEvent` and `cancelEvent`: look the entry up, leave
    if the event is not registered, and tell the kernel. `epevent.events` is
    not set, so `garbage` is handed over. -/
def withdraw (fd : Nat) (event : Event) (garbage : UInt32) (ok : Bool)
    (rest : FdContext → UInt32 → Prog Assertion IOManager Bool) :
    Prog Assertion IOManager Bool := fun s =>
  if s.fdContexts.length ≤ fd then .ok false s
  else
    match s.fdContexts[fd]? with
    | none => .fault
    | some c =>
      if c.events &&& event.bit = 0 then .ok false s
      else
        let newEvents := c.events &&& ~~~event.bit
        let op : EpollOp := if newEvents = 0 then .del else .mod
        match epollCtl op fd ⟨garbage, fd⟩ ok s with
        | (false, s) => .ok false s
        | (true, s) => rest c newEvents s

def delEvent (fd : Nat) (event : Event) (garbage : UInt32) (ok : Bool) :
    Prog Assertion IOManager Bool :=
  withdraw fd event garbage ok fun c newEvents => do
    Prog.modify (count (-1))
    let c := { c with events := newEvents }
    Prog.modify (setContext fd (c.setContext event .empty))
    pure true

def cancelEvent (fd : Nat) (event : Event) (garbage : UInt32) (ok : Bool) :
    Prog Assertion IOManager Bool :=
  withdraw fd event garbage ok fun c _ => do
    let c ← c.triggerEvent event
    Prog.modify (setContext fd c)
    Prog.modify (count (-1))
    pure true

/-- Wake the waiter of an event if its bit is in the mask, and count it. -/
def triggerIf (mask : UInt32) (event : Event) (c : FdContext) :
    Prog Assertion IOManager FdContext :=
  if mask &&& event.bit = 0 then pure c
  else do
    let c ← c.triggerEvent event
    Prog.modify (count (-1))
    pure c

def cancelAll (fd : Nat) (ok : Bool) : Prog Assertion IOManager Bool := fun s =>
  if s.fdContexts.length ≤ fd then .ok false s
  else
    match s.fdContexts[fd]? with
    | none => .fault
    | some c =>
      if c.events = 0 then .ok false s
      else
        match epollCtl .del fd ⟨0, fd⟩ ok s with
        | (false, s) => .ok false s
        | (true, s) =>
          (do
            let c ← triggerIf c.events .READ c
            -- The mask is read again, after READ has been taken out of it.
            let c ← triggerIf c.events .WRITE c
            Prog.modify (setContext fd c)
            if c.events = 0 then pure true else Prog.raise .noneLeft) s

/-- An error or a hang-up counts as every event somebody waits for. -/
def reported (mask events : UInt32) : UInt32 :=
  if mask &&& (EPOLLERR ||| EPOLLHUP) = 0 then mask
  else mask ||| ((EPOLLIN ||| EPOLLOUT) &&& events)

/-- The bits of `real_events`. -/
def realEvents (mask : UInt32) : UInt32 :=
  (if mask &&& EPOLLIN = 0 then 0 else Event.READ.bit) |||
    (if mask &&& EPOLLOUT = 0 then 0 else Event.WRITE.bit)

/-- The events a report is about, for an entry. -/
def realFor (c : FdContext) (mask : UInt32) : UInt32 := realEvents (reported mask c.events)

/-- One round of the loop of `idle` over what `epoll_wait` returned: the report
    `mask` for the entry of `fd`. -/
def dispatch (fd : Nat) (mask : UInt32) (ok : Bool) : Prog Assertion IOManager Unit := fun s =>
  match s.fdContexts[fd]? with
  | none => .fault
  | some c =>
    let real := realFor c mask
    -- Nothing of what was reported is registered any more.
    if c.events &&& real = 0 then .ok () s
    else
      let left := c.events &&& ~~~real
      let op : EpollOp := if left = 0 then .del else .mod
      match epollCtl op c.fd ⟨EPOLLET ||| left, fd⟩ ok s with
      | (false, s) => .ok () s
      | (true, s) =>
        (do
          -- Both tests are on what was reported, not on what is registered.
          let c ← triggerIf real .READ c
          let c ← triggerIf real .WRITE c
          Prog.modify (setContext fd c)) s

/-- The operations of the table, each with the kernel's answer and with what
    unset memory holds. -/
inductive Op where
  | addEvent (fd : Nat) (event : Event) (cb : Option Nat) (caller : Caller) (ok : Bool)
  | delEvent (fd : Nat) (event : Event) (garbage : UInt32) (ok : Bool)
  | cancelEvent (fd : Nat) (event : Event) (garbage : UInt32) (ok : Bool)
  | cancelAll (fd : Nat) (ok : Bool)
  | dispatch (fd : Nat) (mask : UInt32) (ok : Bool)
  deriving DecidableEq, Repr

/-- Carry out an operation. What it returns is dropped. -/
def perform (op : Op) : Prog Assertion IOManager Unit := fun s =>
  match op with
  | .addEvent fd event cb caller ok => drop (IOManager.addEvent fd event cb caller ok) s
  | .delEvent fd event garbage ok => drop (IOManager.delEvent fd event garbage ok) s
  | .cancelEvent fd event garbage ok => drop (IOManager.cancelEvent fd event garbage ok) s
  | .cancelAll fd ok => drop (IOManager.cancelAll fd ok) s
  | .dispatch fd mask ok => IOManager.dispatch fd mask ok s
where
  drop {α : Type} (m : Prog Assertion IOManager α) : Prog Assertion IOManager Unit := do
    let _ ← m
    pure ()

/-- The public operations, as against the handling of a report. -/
def Op.isCall : Op → Bool
  | .dispatch _ _ _ => false
  | _ => true

end IOManager

/-! ## Reports in flight -/

/-- The manager, and the reports that `epoll_wait` has returned to some thread
    whose `idle` has not locked their entry yet. -/
structure World where
  manager : IOManager
  inFlight : List (Nat × UInt32)

namespace World

/-- What can happen next, in any thread. -/
inductive Step where
  /-- `epoll_wait` returns a report. -/
  | report (fd : Nat) (mask : UInt32)
  /-- Some thread runs a public operation. -/
  | call (op : IOManager.Op) (h : op.isCall = true)
  /-- `idle` locks the entry of a report and handles it. -/
  | handle (i : Nat) (ok : Bool)

def new : World := ⟨IOManager.new, []⟩

/-- An operation on the manager. -/
def onManager (op : IOManager.Op) : Prog Assertion World Unit := fun w =>
  match IOManager.perform op w.manager with
  | .ok _ s => .ok () { w with manager := s }
  | .throw a s => .throw a { w with manager := s }
  | .fault => .fault
  | .hang => .hang

/-- The kernel reports events it was asked for, errors and hang-ups; it has
    nothing to say about a descriptor it does not watch. -/
def perform : Step → Prog Assertion World Unit
  | .report fd mask => fun w =>
    match w.manager.interest fd with
    | none => .ok () w
    | some ev =>
      -- Errors and hang-ups are reported whether they were asked for or not.
      if mask &&& ~~~(ev.events ||| EPOLLERR ||| EPOLLHUP) = 0 then
        .ok () { w with inFlight := w.inFlight ++ [(fd, mask)] }
      else .ok () w
  | .call op _ => onManager op
  | .handle i ok => fun w =>
    match w.inFlight[i]? with
    | none => .ok () w
    | some (fd, mask) =>
      onManager (.dispatch fd mask ok) { w with inFlight := w.inFlight.eraseIdx i }

end World

end YkServer
