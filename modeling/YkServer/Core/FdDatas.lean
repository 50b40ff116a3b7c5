import YkServer.Core.FdManager
import YkServer.Lib.Word

/-!
# The Contexts among Threads

The vector `m_datas` of `FdManager` in `yk/fdmanager.cc` itself. `get` looks for a
context under a read lock, and releases that. If it has to make one it takes a write lock
and stores it, without another look. In between other threads have their turn, so the two
are steps of their own here. `del` is one step.

A context is an object with a number of its own, and `m_datas` holds numbers, or null. What
`init` does to the file is in `YkServer.Core.FdManager` and not repeated. Memory is always
to be had.

Two parts of the state are not in the code: whether `m_datas` has only been indexed
where it has entries, and what `get` has returned for a descriptor since it was last
deleted.

## Main definitions

* `FdDatas`: The vector, the objects and the threads.
* `FdDatas.createLocked`: What `get` does under the write lock.
* `FdDatas.step`: What a thread does next.
-/

namespace YkServer

open Lib

/-- Where a thread is. -/
inductive GetPc where
  | idle
  /-- `get` has found no context and released the read lock. -/
  | creating (fd : Nat)
  deriving DecidableEq, Repr

structure FdDatas where
  objects : List HookedFd
  datas : List (Option Nat)
  threads : Nat → GetPc
  inRange : Bool
  returned : Nat → List Nat

namespace FdDatas

/-- The constructor. -/
def new : FdDatas := ⟨[], List.replicate 64 none, fun _ => .idle, true, fun _ => []⟩

/-- `(int)m_datas.size() <= fd`. -/
def Beyond (s : FdDatas) (fd : Nat) : Prop := intOfWord s.datas.length ≤ fd

instance (s : FdDatas) (fd : Nat) : Decidable (s.Beyond fd) :=
  inferInstanceAs (Decidable (intOfWord s.datas.length ≤ fd))

/-- `m_datas[fd]` is used. -/
def index (s : FdDatas) (fd : Nat) : FdDatas :=
  { s with inRange := s.inRange && decide (fd < s.datas.length) }

/-- `m_datas.resize(size)`. -/
def resize (s : FdDatas) (size : Nat) : FdDatas :=
  { s with datas := s.datas.take size ++ List.replicate (size - s.datas.length) none }

/-- Store a pointer in `m_datas[fd]`. -/
def store (s : FdDatas) (fd : Nat) (p : Option Nat) : FdDatas :=
  { s.index fd with datas := s.datas.set fd p }

/-- `get(fd)` returns a context. -/
def returns (s : FdDatas) (fd p : Nat) : FdDatas :=
  { s with returned := Function.update s.returned fd (p :: s.returned fd) }

/-- Where a thread goes on. -/
def goto (s : FdDatas) (t : Nat) (pc : GetPc) : FdDatas :=
  { s with threads := Function.update s.threads t pc }

/-- The end of `get`. `file` is what `fstat` finds. -/
def createLocked (s : FdDatas) (fd : Nat) (file : Option OpenFile) : FdDatas :=
  let p := s.objects.length
  let s := { s with objects := s.objects ++ [(HookedFd.init file).1] }
  let s := if s.Beyond fd then s.resize (fd * 3 / 2) else s
  (s.store fd (some p)).returns fd p

/-- What a thread can do. -/
inductive Action where
  /-- `get(fd, auto_create)`, up to the end of the read lock. -/
  | get (t fd : Nat) (autoCreate : Bool)
  /-- The write lock of `get`. -/
  | create (t : Nat) (file : Option OpenFile)
  /-- `del(fd)`. -/
  | del (t fd : Nat)
  deriving DecidableEq, Repr

/-- A descriptor is a non-negative `int`. -/
def step : Action → FdDatas → Option FdDatas
  | .get t fd autoCreate, s =>
    if s.threads t = .idle ∧ fd < 2 ^ 31 then
      if s.Beyond fd then
        some (if autoCreate then s.goto t (.creating fd) else s)
      else
        match s.datas.getD fd none with
        | some p => some ((s.index fd).returns fd p)
        | none => some (if autoCreate then (s.index fd).goto t (.creating fd) else s.index fd)
    else none
  | .create t file, s =>
    match s.threads t with
    | .creating fd => some ((s.createLocked fd file).goto t .idle)
    | .idle => none
  | .del t fd, s =>
    if s.threads t = .idle ∧ fd < 2 ^ 31 then
      let s := { s with returned := Function.update s.returned fd [] }
      some (if s.Beyond fd then s else s.store fd none)
    else none

end FdDatas

end YkServer
