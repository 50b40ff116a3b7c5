import Mathlib.Logic.Basic

/-!
# Pools of Connections

The model of `getConnection` and `ReleasePtr` of `HttpConnectionPool` in
`http/http_connection.cc`. A thread is a call of one of them. What happens under the mutex of
the list is one step, and so is every access to `m_total`, which is atomic; between any two
steps other threads have their turn.

Connections are objects on a heap, and a pointer is the number of objects before. `handed` are
the pointers that `getConnection` has returned and whose last copy is still there. When that
goes away, `ReleasePtr` is called. `deletes` counts how often an object is deleted and is not
in the code, where the second time is undefined behaviour. Whether a connection is connected,
what time it is, and whether a host is found and can be connected to is up to the
environment.

`AgingPool` adds when each connection was made. That is not in the code, where nothing
sets `m_createTime`.

## Main definitions

* `HttpConn`: A connection.
* `PoolPos`: Where a call is.
* `HttpConnectionPool`: The list, the counter, the connections and the calls.
* `HttpConnectionPool.takeConn`: The loop of `getConnection`.
* `HttpConnectionPool.step`: What a thread does next.
* `AgingPool`: A pool whose connections have an age.
-/

namespace YkServer

/-- `HttpConnection`. -/
structure HttpConn where
  createTime : UInt64
  request : UInt64
  deletes : Nat
  deriving DecidableEq, Repr

/-- Where a call is. -/
inductive PoolPos where
  /-- In `getConnection`, which has read the clock. -/
  | getting (nowMs : UInt64)
  /-- Behind the mutex: what is left of `invalid_conns`, how many there were, and `ptr`. -/
  | clearing (invalid : List Nat) (size : Nat) (ptr : Option Nat)
  /-- There was no connection in the list. -/
  | connecting
  /-- With a new connection, before `++m_total`. -/
  | made (ptr : Nat)
  /-- Before the return. -/
  | got (ptr : Nat)
  | returned (ptr : Option Nat)
  /-- In `ReleasePtr`. -/
  | releasing (ptr : Nat)
  | deleting (ptr : Nat)
  /-- Before `--m_total`. -/
  | deleted
  /-- Before the mutex. -/
  | recycling (ptr : Nat)
  | released
  deriving DecidableEq, Repr

structure HttpConnectionPool where
  maxAliveTime : UInt64
  maxRequest : UInt64
  conns : List Nat
  total : Int32
  objects : List HttpConn
  handed : List Nat
  threads : List PoolPos
  deriving DecidableEq, Repr

namespace HttpConnectionPool

def new (maxAliveTime maxRequest : UInt64) : HttpConnectionPool :=
  ⟨maxAliveTime, maxRequest, [], 0, [], [], []⟩

def createTime (p : HttpConnectionPool) (c : Nat) : UInt64 :=
  match p.objects[c]? with
  | some o => o.createTime
  | none => 0

def requestCount (p : HttpConnectionPool) (c : Nat) : UInt64 :=
  match p.objects[c]? with
  | some o => o.request
  | none => 0

/-- The loop of `getConnection` over `m_conns`: `invalid_conns`, `ptr` and what is left of the
    list. -/
def takeConn (p : HttpConnectionPool) (nowMs : UInt64) (connected : List Nat) :
    List Nat → List Nat × Option Nat × List Nat
  | [] => ([], none, [])
  | c :: cs =>
    if c ∉ connected ∨ p.createTime c + p.maxAliveTime > nowMs then
      let (invalid, ptr, rest) := p.takeConn nowMs connected cs
      (c :: invalid, ptr, rest)
    else ([], some c, cs)

def goto (p : HttpConnectionPool) (i : Nat) (pos : PoolPos) : HttpConnectionPool :=
  { p with threads := p.threads.set i pos }

/-- `delete`. -/
def delete (p : HttpConnectionPool) (c : Nat) : HttpConnectionPool :=
  { p with objects := p.objects.modify c (fun o => { o with deletes := o.deletes + 1 }) }

/-- The next step of a call that needs no answer of the environment. -/
def goOn (p : HttpConnectionPool) (i : Nat) : PoolPos → Option HttpConnectionPool
  | .clearing (c :: rest) size ptr => some ((p.delete c).goto i (.clearing rest size ptr))
  | .clearing [] size ptr =>
    some (goto { p with total := p.total - Int32.ofNat size } i
      (match ptr with
        | some c => .got c
        | none => .connecting))
  | .made c => some (goto { p with total := p.total + 1 } i (.got c))
  | .got c => some (goto { p with handed := p.handed ++ [c] } i (.returned (some c)))
  | .deleting c => some ((p.delete c).goto i .deleted)
  | .deleted => some (goto { p with total := p.total - 1 } i .released)
  | .recycling c => some (goto { p with conns := p.conns ++ [c] } i .released)
  | _ => none

inductive Action where
  | getConnection (nowMs : UInt64)
  /-- The mutex of `getConnection`, and which connections are connected. -/
  | lock (i : Nat) (connected : List Nat)
  /-- The lookup of the host, `CreateTCP` and `connect`, and whether all of them succeed. -/
  | connect (i : Nat) (ok : Bool)
  /-- The last copy of a pointer goes away. -/
  | release (c : Nat)
  /-- The first half of `ReleasePtr`. -/
  | check (i : Nat) (connected : Bool) (nowMs : UInt64)
  | go (i : Nat)
  deriving DecidableEq, Repr

def step : Action → HttpConnectionPool → Option HttpConnectionPool
  | .getConnection nowMs, p => some { p with threads := p.threads ++ [.getting nowMs] }
  | .lock i connected, p =>
    match p.threads[i]? with
    | some (.getting nowMs) =>
      let (invalid, ptr, rest) := p.takeConn nowMs connected p.conns
      some (goto { p with conns := rest } i (.clearing invalid invalid.length ptr))
    | _ => none
  | .connect i ok, p =>
    match p.threads[i]? with
    | some .connecting =>
      if ok then
        some (goto { p with objects := p.objects ++ [⟨0, 0, 0⟩] } i (.made p.objects.length))
      else some (p.goto i (.returned none))
    | _ => none
  | .release c, p =>
    if c ∈ p.handed then
      some { p with handed := p.handed.erase c, threads := p.threads ++ [.releasing c] }
    else none
  | .check i connected nowMs, p =>
    match p.threads[i]? with
    | some (.releasing c) =>
      let p := { p with objects := p.objects.modify c (fun o => { o with request := o.request + 1 }) }
      if !connected || p.createTime c + p.maxAliveTime ≥ nowMs || p.requestCount c ≥ p.maxRequest then
        some (p.goto i (.deleting c))
      else some (p.goto i (.recycling c))
    | _ => none
  | .go i, p => p.threads[i]?.bind (p.goOn i)

end HttpConnectionPool

/-- A pool, and what the clock said when its connections were made. -/
structure AgingPool where
  pool : HttpConnectionPool
  born : List UInt64
  deriving DecidableEq, Repr

namespace AgingPool

def new (maxAliveTime maxRequest : UInt64) : AgingPool := ⟨.new maxAliveTime maxRequest, []⟩

/-- An action, at some time. -/
def step (a : HttpConnectionPool.Action × UInt64) (w : AgingPool) : Option AgingPool :=
  (HttpConnectionPool.step a.1 w.pool).map (fun p =>
    match a.1 with
    | .connect _ true => ⟨p, w.born ++ [a.2]⟩
    | _ => ⟨p, w.born⟩)

/-- When a connection was made. -/
def bornAt (w : AgingPool) (c : Nat) : UInt64 := w.born.getD c 0

end AgingPool

end YkServer
