import YkServer.Lib.Prog

/-!
# Database Connections

The pool of `mysql/conn_pool.cc`.

Connections are numbered in the order they are made. `getConn`, a round of either thread
and the deleter of the pointers that are handed out hold the lock of the pool. `addConn`
does not take it itself: the two that call it hold it. Nor does `init`, which is called
before there are any threads. So a run is a sequence of methods and deleters. Whether a
connection is valid, how long it has not been used and whether a new one can be made is up to
the database. `front` of a list that is empty is undefined behaviour.

So is what `recycleConn` does: `conn` refers to the pointer in a node of the list, and
`delete conn` reads it when `erase` has freed that node. Here the node still holds the pointer,
as freed memory does as long as nobody has got it again, and the connection is deleted.

## Main definitions

* `ConnPool`: The pool, the connections it has handed out and the deleted ones.
* `ConnPool.addConn`, `ConnPool.getConn`, `ConnPool.deleter`: Making, taking and putting
  back.
* `ConnPool.produceConn`, `ConnPool.recycleConn`: The rounds of the two threads.
* `ConnPool.perform`: The operations as one type.
-/

namespace YkServer

open Lib

/-- The pool. `taken` are the connections that somebody has a pointer to, and
    `made` is the number of connections made so far. -/
structure ConnPool where
  m_minSize : Nat
  m_timeout : UInt64
  m_conns : List Nat
  m_status : Bool
  taken : List Nat
  deleted : List Nat
  made : Nat
  deriving DecidableEq, Repr

namespace ConnPool

/-- A pool with what its configuration says. -/
def new (m_minSize : Nat) (m_timeout : UInt64) : ConnPool :=
  ⟨m_minSize, m_timeout, [], false, [], [], 0⟩

/-- `init`, which gets the driver or an exception. -/
def init (driver : Bool) : Prog Unit ConnPool Nat := do
  let p ← Prog.get
  if p.m_status then return 0
  else if !driver then
    Prog.modify (fun p => { p with m_status := false })
    return 1
  else
    Prog.modify (fun p => { p with m_status := true })
    return 0

/-- `addConn`, where `connect` says whether the database lets it in or it throws. -/
def addConn (connect : Bool) : Prog Unit ConnPool Nat := do
  let p ← Prog.get
  if !p.m_status then return 1
  else if !connect then return 1
  else
    Prog.modify (fun p => { p with m_conns := p.m_conns ++ [p.made], made := p.made + 1 })
    return 0

/-- The rounds of the loop of `getConn`: the connections it deletes, and the list it leaves. -/
def prune (valid : Nat → Bool) : List Nat → List Nat × List Nat
  | [] => ([], [])
  | conn :: m_conns =>
    if !valid conn then (conn :: (prune valid m_conns).1, (prune valid m_conns).2)
    else ([], conn :: m_conns)

/-- The loop of `getConn`. -/
def dropInvalid (valid : Nat → Bool) : Prog Unit ConnPool Unit :=
  Prog.modify (fun p => { p with
    m_conns := (prune valid p.m_conns).2
    deleted := p.deleted ++ (prune valid p.m_conns).1 })

/-- The branch of `getConn` for an empty list. -/
def addIfEmpty (connect : Bool) : Prog Unit ConnPool Nat := do
  let p ← Prog.get
  if p.m_conns.isEmpty then addConn connect
  else return 0

/-- The end of `getConn`. The pointer it returns has the first connection of the
    list. -/
def takeFront : Prog Unit ConnPool (Option Nat) := do
  let p ← Prog.get
  match p.m_conns with
  | [] => Prog.undef
  | conn :: m_conns =>
    Prog.modify (fun p => { p with m_conns := m_conns, taken := conn :: p.taken })
    return some conn

/-- `getConn`, which does not look at what `addConn` returns. -/
def getConn (valid : Nat → Bool) (connect : Bool) : Prog Unit ConnPool (Option Nat) := do
  dropInvalid valid
  let _ ← addIfEmpty connect
  takeFront

/-- The deleter of a pointer, which runs when its last copy goes away. -/
def deleter (conn : Nat) : Prog Unit ConnPool Unit :=
  Prog.modify (fun p => { p with
    m_conns := p.m_conns ++ [conn], taken := p.taken.erase conn })

/-- The inner loop of `produceConn`, which has `n` connections to make. -/
def produce (connect : Nat → Bool) : Nat → Prog Unit ConnPool Unit
  | 0 => pure ()
  | n + 1 => do
    let ret ← addConn (connect n)
    if ret ≠ 0 then return ()
    else produce connect n

/-- A round of `produceConn`. -/
def produceConn (connect : Nat → Bool) : Prog Unit ConnPool Unit := do
  let p ← Prog.get
  -- `while (m_conns.size() <= m_minSize)`
  produce connect (p.m_minSize + 1 - p.m_conns.length)

/-- The inner loop of `recycleConn`: the connections it leaves and the ones it
    deletes, if a node that was freed still holds its pointer. -/
def recycle (m_minSize : Nat) (m_timeout : UInt64) (idle : Nat → UInt64) :
    Nat → List Nat → List Nat × List Nat
  | _, [] => ([], [])
  | size, conn :: it =>
    if size ≤ m_minSize then (conn :: it, [])
    else if m_timeout < idle conn then
      let rest := recycle m_minSize m_timeout idle (size - 1) it
      (rest.1, conn :: rest.2)
    else
      let rest := recycle m_minSize m_timeout idle size it
      (conn :: rest.1, rest.2)

/-- A round of `recycleConn`. -/
def recycleConn (idle : Nat → UInt64) : Prog Unit ConnPool Unit :=
  Prog.modify (fun p =>
    let rest := recycle p.m_minSize p.m_timeout idle p.m_conns.length p.m_conns
    { p with m_conns := rest.1, deleted := p.deleted ++ rest.2 })

/-- What can happen to a pool. -/
inductive Op where
  | init (driver : Bool)
  | addConn (connect : Bool)
  | getConn (valid : Nat → Bool) (connect : Bool)
  | deleter (conn : Nat)
  | produceConn (connect : Nat → Bool)
  | recycleConn (idle : Nat → UInt64)

def perform : Op → Prog Unit ConnPool Unit
  | .init driver => do let _ ← init driver
  | .addConn connect => do let _ ← addConn connect
  | .getConn valid connect => do let _ ← getConn valid connect
  | .deleter conn => deleter conn
  | .produceConn connect => produceConn connect
  | .recycleConn idle => recycleConn idle

/-- A deleter runs for a pointer that is still there. -/
def Allowed (p : ConnPool) : Op → Prop
  | .deleter conn => conn ∈ p.taken
  | _ => True

end ConnPool

end YkServer
