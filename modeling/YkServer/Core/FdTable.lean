import YkServer.Core.IOManager

/-!
# The Table among Threads

The vector `m_fdContexts` of `yk/iomanager.cc` itself. It holds pointers, and
`addEvent` looks into it under a read lock, releases that, and takes a write lock
if the table has to grow. In between other threads have their turn, so the two are
steps of their own here, and so is what comes after, under the mutex of the entry
alone.

Entries are objects on a heap that nothing frees while the manager lives; a pointer
is the number of objects made before. Growing the table makes objects where a
pointer is missing, and `resize` to a smaller size drops the pointers that do
not fit.

Which waiters are woken, and what the kernel is told, is the matter of
`YkServer.Core.IOManager` and not repeated. An access outside of the table and a
failed assertion end the run.

## Main definitions

* `FdContext.addLocked`, `FdContext.cancelLocked`: What `addEvent` and `cancelEvent`
  do under the mutex of the entry.
* `FdTable`: The table, the objects and the threads.
* `FdTable.contextResize`: Growing, and shrinking.
* `FdTable.step`: What a thread does next.
-/

namespace YkServer

open Lib

/-- The entry after the locked part of `addEvent`, and whether it returns 0. -/
def FdContext.addLocked (c : FdContext) (event : Event) (cb : Option Nat) (caller : Caller)
    (ok : Bool) : Option (FdContext × Bool) :=
  if !ok then some (c, false)
  else
    let c := { c with events := c.events ||| event.bit }
    if c.getContext event = .empty then
      some (c.setContext event (IOManager.newContext cb caller), true)
    else none

/-- The entry after the locked part of `cancelEvent`, and what it returns. -/
def FdContext.cancelLocked (c : FdContext) (event : Event) (ok : Bool) :
    Option (FdContext × Bool) :=
  if c.events &&& event.bit = 0 then some (c, false)
  else if !ok then some (c, false)
  else
    match c.triggerEvent event IOManager.new with
    | .ok c _ => some (c, true)
    | _ => none

/-- Where a thread is. -/
inductive TablePc where
  | idle
  /-- `addEvent` has found the table too small and released the read lock. -/
  | grow (fd : Nat) (event : Event) (cb : Option Nat)
  /-- `addEvent` has its `fd_ctx`. -/
  | adding (fd : Nat) (event : Event) (cb : Option Nat) (p : Nat)
  /-- `cancelEvent` has its `fd_ctx`. -/
  | cancelling (fd : Nat) (event : Event) (p : Nat)
  deriving DecidableEq, Repr

/-- An event that is registered: `addEvent` has returned 0 for it, and the entry it
    used. -/
structure Registration where
  fd : Nat
  event : Event
  p : Nat
  deriving DecidableEq, Repr

/-- The objects, the table of pointers to them, and the threads. `returned` are the
    events for which `addEvent` has returned 0 and that were not cancelled since. -/
structure FdTable where
  objects : List FdContext
  fdContexts : List Nat
  threads : Nat → TablePc
  returned : List Registration

namespace FdTable

/-- `m_fdContexts.resize(size)`, and a new entry wherever one is missing. -/
def contextResize (size : Nat) (s : FdTable) : FdTable :=
  let missing := size - s.fdContexts.length
  { s with
    fdContexts := s.fdContexts.take size ++ List.range' s.objects.length missing
    objects := s.objects ++ (List.range' s.fdContexts.length missing).map FdContext.new }

/-- The table as the constructor leaves it. -/
def new : FdTable := contextResize 32 ⟨[], [], fun _ => .idle, []⟩

/-- What a thread can do. `ok` is the answer of `epoll_ctl`. -/
inductive Action where
  /-- Start `addEvent`, up to the end of the read lock. -/
  | addEvent (t fd : Nat) (event : Event) (cb : Option Nat)
  /-- The write lock of `addEvent`. -/
  | resize (t : Nat)
  /-- The rest of `addEvent`. -/
  | add (t : Nat) (caller : Caller) (ok : Bool)
  /-- Start `cancelEvent`, up to the end of the read lock. -/
  | cancelEvent (t fd : Nat) (event : Event)
  /-- The rest of `cancelEvent`. -/
  | cancel (t : Nat) (ok : Bool)
  deriving DecidableEq, Repr

/-- Where a thread goes on. -/
def goto (s : FdTable) (t : Nat) (pc : TablePc) : FdTable :=
  { s with threads := Function.update s.threads t pc }

def step : Action → FdTable → Option FdTable
  | .addEvent t fd event cb, s =>
    if s.threads t = .idle then
      if s.fdContexts.length > fd then
        match s.fdContexts[fd]? with
        | some p => some (s.goto t (.adding fd event cb p))
        | none => none
      else some (s.goto t (.grow fd event cb))
    else none
  | .resize t, s =>
    match s.threads t with
    | .grow fd event cb =>
      -- The size is not looked at again.
      let s := s.contextResize (fd * 3 / 2)
      match s.fdContexts[fd]? with
      | some p => some (s.goto t (.adding fd event cb p))
      | none => none
    | _ => none
  | .add t caller ok, s =>
    match s.threads t with
    | .adding fd event cb p =>
      match s.objects[p]? with
      | some c =>
        match c.addLocked event cb caller ok with
        | some (c, true) =>
          some ({ s with objects := s.objects.set p c
                         returned := ⟨fd, event, p⟩ :: s.returned }.goto t .idle)
        | some (_, false) => some (s.goto t .idle)
        | none => none
      | none => none
    | _ => none
  | .cancelEvent t fd event, s =>
    if s.threads t = .idle then
      if s.fdContexts.length ≤ fd then some s
      else
        match s.fdContexts[fd]? with
        | some p => some (s.goto t (.cancelling fd event p))
        | none => none
    else none
  | .cancel t ok, s =>
    match s.threads t with
    | .cancelling _ event p =>
      match s.objects[p]? with
      | some c =>
        match c.cancelLocked event ok with
        | some (c, true) =>
          some ({ s with
            objects := s.objects.set p c
            returned := s.returned.filter (fun r => ¬(r.p = p ∧ r.event = event)) }.goto t .idle)
        | some (_, false) => some (s.goto t .idle)
        | none => none
      | none => none
    | _ => none

end FdTable

end YkServer
