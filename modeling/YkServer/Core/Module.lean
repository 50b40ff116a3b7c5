import YkServer.Core.HttpGrammar
import YkServer.Lib.Grouping

/-!
# Modules

The model of `add`, `del`, `delAll` and `listByType` of `ModuleManager` in `yk/module.cc`.
A call of the first three is a thread. What happens under the lock is one step; `onUnload` is
called without it, and `add` takes it twice. Between any two steps other threads have
their turn.

A module is known by a number that stands for the pointer to it, and the heap, which is a
parameter, says what is there. `unloads` counts the calls of `onUnload`, `removed` how often a
module went out of `m_modules`, deleted or replaced by another one, and `inserted` how often it
came in. `removed` and `inserted` are not in the code.

## Main definitions

* `Module`: A module.
* `Rest`, `ModulePos`: Where a call is.
* `ModuleManager.erase`, `ModuleManager.insert`: What happens under the lock.
* `ModuleManager.step`: What a thread does next.
-/

namespace YkServer

open Lib

structure Module where
  name : List UInt8
  version : List UInt8
  type : UInt32
  deriving DecidableEq, Repr

/-- `m_id`. -/
def Module.id (m : Module) : List UInt8 := m.name ++ ascii "/" ++ m.version

/-- What a call does when its `del` is over. -/
inductive Rest where
  /-- The second half of `add`. -/
  | insert (m : Nat)
  /-- The loop of `delAll`. -/
  | sweep (names : List (List UInt8))
  | nothing
  deriving DecidableEq, Repr

/-- Where a call is. -/
inductive ModulePos where
  /-- Before the lock of `del`. -/
  | deleting (name : List UInt8) (rest : Rest)
  /-- Before `onUnload`. -/
  | unloading (m : Nat) (rest : Rest)
  /-- Before the lock of `add`. -/
  | inserting (m : Nat)
  /-- Before the lock of `delAll`. -/
  | copying
  | returned
  deriving DecidableEq, Repr

/-- Where a call is when its `del` is over. -/
def Rest.pos : Rest → ModulePos
  | .insert m => .inserting m
  | .sweep [] => .returned
  | .sweep (name :: names) => .deleting name (.sweep names)
  | .nothing => .returned

structure ModuleManager where
  modules : Finmap (fun _ : List UInt8 => Nat)
  type2Modules : Finmap (fun _ : UInt32 => Finmap (fun _ : List UInt8 => Nat))
  calls : List ModulePos
  unloads : Nat → Nat
  removed : Nat → Nat
  inserted : Nat → Nat

namespace ModuleManager

def new : ModuleManager := ⟨∅, ∅, [], fun _ => 0, fun _ => 0, fun _ => 0⟩

/-- `listByType`, in the order of the map. -/
def listByType (w : ModuleManager) (type : UInt32) : Multiset Nat :=
  (group w.type2Modules type).entries.map Sigma.snd

/-- A count of modules goes up for one of them. -/
def bump (f : Nat → Nat) (m x : Nat) : Nat := if x = m then f x + 1 else f x

def goto (w : ModuleManager) (i : Nat) (pos : ModulePos) : ModuleManager :=
  { w with calls := w.calls.set i pos }

variable (heap : Nat → Module)

/-- `del` under the lock, when the module is found. -/
def erase (w : ModuleManager) (name : List UInt8) (m : Nat) : ModuleManager :=
  { w with
    modules := w.modules.erase name
    type2Modules := dropFrom w.type2Modules (heap m).type (heap m).id
    removed := bump w.removed m }

/-- The second half of `add`, under the lock. -/
def insert (w : ModuleManager) (m : Nat) : ModuleManager :=
  { w with
    modules := w.modules.insert (heap m).id m
    type2Modules := putIn w.type2Modules (heap m).type (heap m).id m
    inserted := bump w.inserted m
    removed :=
      match w.modules.lookup (heap m).id with
      | some old => if old = m then w.removed else bump w.removed old
      | none => w.removed }

/-- The next step of a call. -/
def goOn (w : ModuleManager) (i : Nat) : ModulePos → Option ModuleManager
  | .deleting name rest =>
    match w.modules.lookup name with
    | some m => some ((w.erase heap name m).goto i (.unloading m rest))
    | none => some (w.goto i rest.pos)
  | .unloading m rest => some (goto { w with unloads := bump w.unloads m } i rest.pos)
  | .inserting m => some ((w.insert heap m).goto i .returned)
  | .copying | .returned => none

inductive Action where
  | add (m : Nat)
  | del (name : List UInt8)
  | delAll
  /-- The lock of `delAll`, and the order in which the copy of the map has its names. -/
  | copy (i : Nat) (names : List (List UInt8))
  | go (i : Nat)
  deriving DecidableEq, Repr

def step : Action → ModuleManager → Option ModuleManager
  | .add m, w => some { w with calls := w.calls ++ [.deleting (heap m).id (.insert m)] }
  | .del name, w => some { w with calls := w.calls ++ [.deleting name .nothing] }
  | .delAll, w => some { w with calls := w.calls ++ [.copying] }
  | .copy i names, w =>
    if w.calls[i]? = some .copying ∧ (names : Multiset (List UInt8)) = w.modules.keys.val then
      some (w.goto i (Rest.sweep names).pos)
    else none
  | .go i, w => w.calls[i]?.bind (w.goOn heap i)

end ModuleManager

end YkServer
