import Mathlib.Logic.Function.Basic

/-!
# Managers of Streams

The model of the part of `AsyncSocketStreamManager` in `streams/async_socket_stream.cc` that
changes its list, and of `get`, which goes round in it. Streams are objects that the caller has pointers to as well; a pointer
is a number, and `streams` is what is behind it. A callback is a number too, and an empty
`std::function` is `none`.

Of a stream there is what the manager looks at or changes. `close` clears `m_autoConnect`
and closes the socket. In `get` streams may come and go; what `isConnected` of a stream says
there depends on how many streams the call has looked at before. The counter `m_idx` has
an argument of its own.

## Main definitions

* `ManagedStream`: A stream.
* `StreamManager`: A manager, and the streams there are.
* `StreamManager.add`, `StreamManager.clear`, `StreamManager.setConnection`,
  `StreamManager.setConnectCb`, `StreamManager.setDisconnectCb`: The operations.
* `StreamManager.get`: Round robin.
-/

namespace YkServer

/-- `AsyncSocketStream`. -/
structure ManagedStream where
  connectCb : Option Nat
  disconnectCb : Option Nat
  autoConnect : Bool
  isConnected : Bool
  deriving DecidableEq, Repr

def ManagedStream.close (s : ManagedStream) : ManagedStream :=
  { s with autoConnect := false, isConnected := false }

/-- `AsyncSocketStreamManager`. -/
structure StreamManager where
  size : UInt32
  datas : List Nat
  connectCb : Option Nat
  disconnectCb : Option Nat
  streams : Nat → ManagedStream

namespace StreamManager

def new (streams : Nat → ManagedStream) : StreamManager := ⟨0, [], none, none, streams⟩

/-- Something is done to the stream behind a pointer. -/
def modify (m : StreamManager) (p : Nat) (f : ManagedStream → ManagedStream) : StreamManager :=
  { m with streams := Function.update m.streams p (f (m.streams p)) }

/-- `for(auto& i : ps)`. -/
def modifyAll (m : StreamManager) (ps : List Nat) (f : ManagedStream → ManagedStream) :
    StreamManager :=
  ps.foldl (fun m p => m.modify p f) m

def add (m : StreamManager) (p : Nat) : StreamManager :=
  let m := { m with datas := m.datas ++ [p], size := m.size + 1 }
  let m := if m.connectCb.isSome then m.modify p ({ · with connectCb := m.connectCb }) else m
  if m.disconnectCb.isSome then m.modify p ({ · with disconnectCb := m.disconnectCb }) else m

def clear (m : StreamManager) : StreamManager :=
  { m.modifyAll m.datas ManagedStream.close with datas := [], size := 0 }

/-- What the loop of `setConnection` does to a stream. -/
def setCbs (connectCb disconnectCb : Option Nat) (s : ManagedStream) : ManagedStream :=
  let s := if connectCb.isSome then { s with connectCb := connectCb } else s
  -- The second test is about the connect callback too.
  if connectCb.isSome then { s with disconnectCb := disconnectCb } else s

def setConnection (m : StreamManager) (ps : List Nat) : StreamManager :=
  let cs := m.datas
  let m := { m with datas := ps, size := UInt32.ofNat ps.length }
  let m :=
    if m.connectCb.isSome || m.disconnectCb.isSome then
      m.modifyAll ps (setCbs m.connectCb m.disconnectCb)
    else m
  m.modifyAll cs ManagedStream.close

def setConnectCb (m : StreamManager) (v : Option Nat) : StreamManager :=
  let m := { m with connectCb := v }
  m.modifyAll m.datas ({ · with connectCb := v })

def setDisconnectCb (m : StreamManager) (v : Option Nat) : StreamManager :=
  let m := { m with disconnectCb := v }
  m.modifyAll m.datas ({ · with disconnectCb := v })

inductive Action where
  | add (p : Nat)
  | clear
  | setConnection (ps : List Nat)
  | setConnectCb (v : Option Nat)
  | setDisconnectCb (v : Option Nat)
  deriving DecidableEq, Repr

def step : Action → StreamManager → Option StreamManager
  | .add p, m => some (m.add p)
  | .clear, m => some m.clear
  | .setConnection ps, m => some (m.setConnection ps)
  | .setConnectCb v, m => some (m.setConnectCb v)
  | .setDisconnectCb v, m => some (m.setDisconnectCb v)

/-- `k` streams have been looked at, and `rounds` are left. The result is there unless the
    vector is read out of range, and has the new value of the counter. -/
def getLoop (m : StreamManager) (isConnected : Nat → Nat → Bool) :
    Nat → Nat → UInt32 → Option (Option Nat × UInt32)
  | 0, _, idx => some (none, idx)
  | rounds + 1, k, idx => do
    let p ← m.datas[(idx % m.size).toNat]?
    if isConnected k p then some (some p, idx + 1)
    else getLoop m isConnected rounds (k + 1) (idx + 1)

def get (m : StreamManager) (isConnected : Nat → Nat → Bool) (idx : UInt32) :
    Option (Option Nat × UInt32) :=
  getLoop m isConnected m.size.toNat 0 idx

end StreamManager

end YkServer
