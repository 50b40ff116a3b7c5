import YkServer.Lib.Prog
import Mathlib.Algebra.Order.Ring.Nat
import Mathlib.Logic.Function.Basic

/-!
# Timers

The model of `yk/timer.cc`. Timers are objects on a heap, and the set `m_timers`
holds pointers to them, ordered by a comparator that looks into the objects. A
pointer is an address, that is a number; which address a new timer gets is up to
the allocator. The null pointers that the comparator provides for are never in
the set and are left out.

Two things the standard library leaves undefined are undefined here as well: to
change the deadline of a timer while the set holds it, since the set would not be
ordered any more, and to erase the end of the set. Deadlines are 64-bit words and
wrap. Every operation takes the clock readings it is going to get.

`onTimerInsertedAtFront` is called when the lock has been released, so the
operations return whether it is going to be.

## Main definitions

* `Timer`, `TimerManager`: The objects and the set.
* `TimerManager.insert`, `TimerManager.find`, `TimerManager.erase`: `std::set`.
* `TimerManager.addTimer`, `TimerManager.cancel`, `TimerManager.refresh`,
  `TimerManager.reset`, `TimerManager.getNextTimer`, `TimerManager.listExpiredCb`:
  The operations.
* `TimerHistory`: A manager with what it has handed out.
* `TimerWorld`: A manager among threads.
-/

namespace YkServer

open Lib

/-- A timer object. -/
structure Timer where
  recurring : Bool
  ms : UInt64
  next : UInt64
  cb : Option Nat
  deriving DecidableEq, Repr

/-- The manager with the heap its timers are on. -/
structure TimerManager where
  heap : Nat → Option Timer
  timers : List Nat
  previouseTime : UInt64
  tickled : Bool

/-- `Timer::Comparator`, on the deadline and the address of two timers. -/
def comparator (lhs rhs : UInt64 × Nat) : Bool :=
  if lhs.1 < rhs.1 then true
  else if rhs.1 < lhs.1 then false
  else decide (lhs.2 < rhs.2)

namespace TimerManager

/-- A manager as the constructor leaves it. -/
def new (now : UInt64) : TimerManager := ⟨fun _ => none, [], now, false⟩

/-! ## The set -/

/-- What the comparator sees of a timer. -/
def key (s : TimerManager) (p : Nat) : UInt64 × Nat :=
  (match s.heap p with
    | some t => t.next
    | none => 0, p)

/-- `m_timers.lower_bound`: how many timers are before the key. -/
def lowerBound (s : TimerManager) (k : UInt64 × Nat) : Nat :=
  (s.timers.takeWhile (fun q => comparator (s.key q) k)).length

/-- `m_timers.find`: the position of a timer, or the end. -/
def find (p : Nat) : Prog Empty TimerManager (Option Nat) := fun s =>
  match s.timers[s.lowerBound (s.key p)]? with
  | some q => .ok (if comparator (s.key p) (s.key q) then none
                   else some (s.lowerBound (s.key p))) s
  | none => .ok none s

/-- `m_timers.erase(it)`. -/
def erase (it : Option Nat) : Prog Empty TimerManager Unit := fun s =>
  match it with
  | some i => .ok () { s with timers := s.timers.eraseIdx i }
  | none => .fault

/-- `m_timers.insert(val).first`. A timer that is there already is not inserted
    again. -/
def insert (p : Nat) : Prog Empty TimerManager Nat := fun s =>
  let it := s.lowerBound (s.key p)
  let there := match s.timers[it]? with
    | some q => !comparator (s.key p) (s.key q)
    | none => false
  .ok it (if there then s else { s with timers := s.timers.insertIdx it p })

/-! ## The objects -/

/-- Read a timer. -/
def load (p : Nat) : Prog Empty TimerManager Timer := fun s =>
  match s.heap p with
  | some t => .ok t s
  | none => .fault

/-- Write a timer. The deadline is not to change while the set holds it. -/
def store (p : Nat) (t : Timer) : Prog Empty TimerManager Unit := fun s =>
  match s.heap p with
  | some t' =>
    if p ∈ s.timers ∧ t'.next ≠ t.next then .fault
    else .ok () { s with heap := Function.update s.heap p (some t) }
  | none => .fault

/-- `new Timer(ms, cb, recurring, this)` at an address, with the clock at `now`. -/
def construct (p : Nat) (ms : UInt64) (cb : Nat) (recurring : Bool) (now : UInt64) :
    Prog Empty TimerManager Unit := fun s =>
  match s.heap p with
  | some _ => .fault
  | none =>
    .ok () { s with heap := Function.update s.heap p (some ⟨recurring, ms, now + ms, some cb⟩) }

/-! ## The operations -/

/-- `addTimer(val, lock)`: whether `onTimerInsertedAtFront` is called after it. -/
def addTimerLocked (p : Nat) : Prog Empty TimerManager Bool := do
  let it ← insert p
  let s ← Prog.get
  let atFront := it = 0 && !s.tickled
  if atFront then Prog.modify (fun s => { s with tickled := true })
  pure atFront

def addTimer (p : Nat) (ms : UInt64) (cb : Nat) (recurring : Bool) (now : UInt64) :
    Prog Empty TimerManager Bool := do
  construct p ms cb recurring now
  addTimerLocked p

def cancel (p : Nat) : Prog Empty TimerManager Bool := do
  let t ← load p
  if t.cb.isSome then do
    store p { t with cb := none }
    let it ← find p
    -- Whether it was found is not looked at.
    erase it
    pure true
  else pure false

def refresh (p : Nat) (now : UInt64) : Prog Empty TimerManager Bool := do
  let t ← load p
  if t.cb.isNone then pure false
  else do
    match ← find p with
    | none => pure false
    | some it => do
      erase (some it)
      store p { t with next := now + t.ms }
      let _ ← insert p
      pure true

/-- The part of `reset` that holds the lock: what it returns, and whether
    `onTimerInsertedAtFront` is called. -/
def resetLocked (p : Nat) (ms : UInt64) (fromNow : Bool) (now : UInt64) :
    Prog Empty TimerManager (Bool × Bool) := do
  let t ← load p
  if t.cb.isNone then pure (false, false)
  else do
    match ← find p with
    | none => pure (false, false)
    | some it => do
      erase (some it)
      let start := if fromNow then now else t.next - t.ms
      store p { t with ms := ms, next := start + ms }
      let atFront ← addTimerLocked p
      pure (true, atFront)

def reset (p : Nat) (ms : UInt64) (fromNow : Bool) (now : UInt64) :
    Prog Empty TimerManager (Bool × Bool) := do
  let t ← load p
  if ms = t.ms && !fromNow then pure (true, false)
  else resetLocked p ms fromNow now

/-- The time until the first deadline, or the largest number if there is none. -/
def getNextTimer (now : UInt64) : Prog Empty TimerManager UInt64 := do
  Prog.modify (fun s => { s with tickled := false })
  let s ← Prog.get
  match s.timers with
  | [] => pure (0 - 1)
  | p :: _ => do
    let next ← load p
    if now ≥ next.next then pure 0 else pure (next.next - now)

def detectClockRollover (now : UInt64) : Prog Empty TimerManager Bool := do
  let s ← Prog.get
  let rollover := now < s.previouseTime && now < s.previouseTime - 60 * 60 * 1000
  Prog.modify (fun s => { s with previouseTime := now })
  pure rollover

/-- The loop over the expired timers: their callbacks are collected, and the
    recurring ones go back into the set. -/
def collect (now : UInt64) : List Nat → Prog Empty TimerManager (List (Nat × Option Nat))
  | [] => pure []
  | p :: expired => do
    let t ← load p
    if t.recurring then do
      store p { t with next := now + t.ms }
      let _ ← insert p
    else store p { t with cb := none }
    let cbs ← collect now expired
    pure ((p, t.cb) :: cbs)

/-- How many timers have expired: all of them after a change of the clock, else
    those before `now_timer` and those behind it that are due right now. -/
def expiredCount (s : TimerManager) (rollover : Bool) (now : UInt64) (nowTimer : Nat) : Nat :=
  if rollover then s.timers.length
  else
    let it := s.lowerBound (now, nowTimer)
    it + ((s.timers.drop it).takeWhile (fun q => (s.key q).1 = now)).length

/-- The callbacks that are handed out, each with its timer. `nowTimer` is the
    address of `now_timer`. -/
def listExpiredCb (now : UInt64) (nowTimer : Nat) :
    Prog Empty TimerManager (List (Nat × Option Nat)) := do
  let s ← Prog.get
  match s.timers with
  | [] => pure []
  | p :: _ => do
    let rollover ← detectClockRollover now
    let front ← load p
    if !rollover && front.next > now then pure []
    else do
      let it := s.expiredCount rollover now nowTimer
      Prog.modify (fun s => { s with timers := s.timers.drop it })
      collect now (s.timers.take it)

/-- The operations as one type. A callback is not null. -/
inductive Op where
  | addTimer (p : Nat) (ms : UInt64) (cb : Nat) (recurring : Bool) (now : UInt64)
  | cancel (p : Nat)
  | refresh (p : Nat) (now : UInt64)
  | reset (p : Nat) (ms : UInt64) (fromNow : Bool) (now : UInt64)
  | getNextTimer (now : UInt64)
  | listExpiredCb (now : UInt64) (nowTimer : Nat)
  deriving DecidableEq, Repr

/-- Carry out an operation: the timers whose callbacks it hands out. -/
def perform : Op → Prog Empty TimerManager (List Nat)
  | .addTimer p ms cb recurring now => nothing (addTimer p ms cb recurring now)
  | .cancel p => nothing (TimerManager.cancel p)
  | .refresh p now => nothing (TimerManager.refresh p now)
  | .reset p ms fromNow now => nothing (TimerManager.reset p ms fromNow now)
  | .getNextTimer now => nothing (TimerManager.getNextTimer now)
  | .listExpiredCb now nowTimer => do
    let cbs ← TimerManager.listExpiredCb now nowTimer
    pure (cbs.map Prod.fst)
where
  nothing {α : Type} (m : Prog Empty TimerManager α) : Prog Empty TimerManager (List Nat) := do
    let _ ← m
    pure []

end TimerManager

/-- A manager and the timers whose callbacks it has handed out, in order. -/
structure TimerHistory where
  manager : TimerManager
  handed : List Nat

namespace TimerHistory

def new (now : UInt64) : TimerHistory := ⟨TimerManager.new now, []⟩

/-- An operation, if it returns. -/
def step (op : TimerManager.Op) (h : TimerHistory) : Option TimerHistory :=
  match TimerManager.perform op h.manager with
  | .ok out s => some ⟨s, h.handed ++ out⟩
  | _ => none

/-- A new timer gets memory that is free, and the other operations are called on
    timers that exist. -/
def Valid (h : TimerHistory) : TimerManager.Op → Prop
  | .addTimer p _ _ _ _ => h.manager.heap p = none
  | .cancel p => (h.manager.heap p).isSome = true
  | .refresh p _ => (h.manager.heap p).isSome = true
  | .reset p _ _ _ => (h.manager.heap p).isSome = true
  | .getNextTimer _ => True
  | .listExpiredCb _ _ => True

end TimerHistory

/-! ## Threads -/

/-- The manager among threads. `constructed` are the timers that some `addTimer` has
    made and not inserted yet, `notifying` is the number of threads that have
    released the lock and are about to call `onTimerInsertedAtFront`, and
    `notified` the number of calls of it so far. -/
structure TimerWorld where
  manager : TimerManager
  clock : UInt64
  constructed : List Nat
  notifying : Nat
  notified : Nat

namespace TimerWorld

/-- What can happen next, in any thread. Where an operation holds the lock it is one
    action. `addTimer` reads the clock before it takes the lock, and `reset` looks
    at the period before; so what is left of `reset` may find any period. -/
inductive Action where
  | tick (now : UInt64)
  | construct (p : Nat) (ms : UInt64) (cb : Nat) (recurring : Bool)
  | insert (p : Nat)
  | refresh (p : Nat)
  | reset (p : Nat) (ms : UInt64) (fromNow : Bool)
  | cancel (p : Nat)
  | getNextTimer
  | notify
  deriving DecidableEq, Repr

def new (now : UInt64) : TimerWorld := ⟨TimerManager.new now, now, [], 0, 0⟩

/-- An operation that may be followed by a notification. -/
def locked (w : TimerWorld) (m : Prog Empty TimerManager Bool) : Option TimerWorld :=
  match m w.manager with
  | .ok atFront s =>
    some { w with manager := s, notifying := w.notifying + if atFront then 1 else 0 }
  | _ => none

/-- Nobody but the `addTimer` that made it has a timer before it is inserted. -/
def step : Action → TimerWorld → Option TimerWorld
  | .tick now, w => some { w with clock := now }
  | .construct p ms cb recurring, w =>
    match TimerManager.construct p ms cb recurring w.clock w.manager with
    | .ok _ s => some { w with manager := s, constructed := p :: w.constructed }
    | _ => none
  | .insert p, w =>
    if p ∈ w.constructed then
      locked { w with constructed := w.constructed.erase p } (TimerManager.addTimerLocked p)
    else none
  | .refresh p, w =>
    if p ∈ w.constructed then none
    else locked w (do
      let _ ← TimerManager.refresh p w.clock
      pure false)
  | .reset p ms fromNow, w =>
    if p ∈ w.constructed then none
    else locked w (do
      let (_, atFront) ← TimerManager.resetLocked p ms fromNow w.clock
      pure atFront)
  | .cancel p, w =>
    if p ∈ w.constructed then none
    else locked w (do
      let _ ← TimerManager.cancel p
      pure false)
  | .getNextTimer, w => locked w (do
      let _ ← TimerManager.getNextTimer w.clock
      pure false)
  | .notify, w =>
    if w.notifying = 0 then none
    else some { w with notifying := w.notifying - 1, notified := w.notified + 1 }

/-- The clock does not go back, and no deadline is too large for 64 bits. -/
def Steady (w : TimerWorld) : Action → Prop
  | .tick now => w.clock ≤ now
  | .construct _ ms _ _ => w.clock.toNat + ms.toNat < 2 ^ 64
  | .refresh p => ∀ t, w.manager.heap p = some t → w.clock.toNat + t.ms.toNat < 2 ^ 64
  | .reset p ms fromNow => ∀ t, w.manager.heap p = some t →
    (if fromNow then w.clock else t.next - t.ms).toNat + ms.toNat < 2 ^ 64
  | _ => True

end TimerWorld

end YkServer
