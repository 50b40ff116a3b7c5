import YkServer.Core.HttpGrammar
import Mathlib.Data.Finmap

/-!
# The Chat

The model of `chat/chat_servlet.cc` under `WSServer::handleClient` of `http/ws_server.cc`.
Each session has its own fiber, which receives messages, handles them, and calls `onClose`
when one of them was not understood or could not be answered, or there are no more of
them. What happens under the lock of `m_sessions` is one step, and so is every message that is
sent; between any two steps other sessions have their turn.

The name of a session is the header `$id` of the request of its handshake. It is whatever the
client sent, or empty, until a login sets it. Nobody but the fiber of the session reads it, so
`setHeader` is in the step of `session_add`.

Parsing is code of another library: `Received` is what `ChatMessage::Create` makes of a
message. When it throws, the fiber ends without `onClose`, and the session is there as long as
`m_sessions` has it. Whether a message can be sent is up to the environment.

`inbox` are the messages a session was sent, and `removals` says for each entry that was
removed from `m_sessions` who did it and whose it was. Neither is in the code.

## Main definitions

* `ChatMessage`: The fields of a message.
* `ChatPos`: Where a session is.
* `ChatSession.handle`: What a session does with a message.
* `ChatWorld.step`: What happens next.
-/

namespace YkServer

/-- `ChatMessage`. -/
abbrev ChatMessage := Finmap (fun _ : List UInt8 => List UInt8)

namespace ChatMessage

def get (m : ChatMessage) (name : List UInt8) : List UInt8 := (m.lookup name).getD []

def set (m : ChatMessage) (name val : List UInt8) : ChatMessage := m.insert name val

/-- `rsp`. -/
def response (type result msg : String) : ChatMessage :=
  set (set (set ∅ (ascii "type") (ascii type)) (ascii "result") (ascii result)) (ascii "msg")
    (ascii msg)

/-- `nty`. -/
def notice (type : String) (time name : List UInt8) : ChatMessage :=
  set (set (set ∅ (ascii "type") (ascii type)) (ascii "time") time) (ascii "name") name

end ChatMessage

/-- What a session does when a notice is sent. -/
inductive ChatNext where
  | answer (rsp : ChatMessage)
  /-- In `onClose`. -/
  | close
  deriving DecidableEq

/-- Where a session is. -/
inductive ChatPos where
  | receiving
  /-- A login, before `session_exists`. -/
  | checking (name time : List UInt8)
  /-- A login, before `session_add`. -/
  | entering (name time : List UInt8)
  /-- In `session_notify`, before the lock. -/
  | notifying (nty : ChatMessage) (session : Option Nat) (next : ChatNext)
  /-- In `session_notify`: who is still to be told. -/
  | telling (nty : ChatMessage) (sessions : List Nat) (next : ChatNext)
  /-- Before the response is sent. -/
  | answering (rsp : ChatMessage)
  /-- With a message that is none, before the lock. -/
  | erasing
  /-- Before `onClose`. -/
  | leaving (time : List UInt8)
  /-- Behind `onClose`. -/
  | closing
  | closed
  /-- The fiber has ended with an exception. -/
  | thrown
  deriving DecidableEq

/-- Where a session is when a notice is sent. -/
def ChatNext.pos : ChatNext → ChatPos
  | .answer rsp => .answering rsp
  | .close => .closing

structure ChatSession where
  /-- The header `$id`. -/
  id : List UInt8
  pos : ChatPos
  inbox : List ChatMessage
  deriving DecidableEq

/-- What comes of `recvMessage` and `ChatMessage::Create`. -/
inductive Received where
  /-- There is no message. -/
  | nothing
  /-- `Create` returns a null pointer. -/
  | malformed
  /-- `Create` throws. -/
  | throws
  | message (msg : ChatMessage)
  deriving DecidableEq

/-- What a session does with a message: `handle` up to the first lock or answer. -/
def ChatSession.handle (s : ChatSession) (time : List UInt8) : Received → ChatPos
  | .nothing => .leaving time
  | .malformed => if s.id = [] then .leaving time else .erasing
  | .throws => .thrown
  | .message msg =>
    if msg.get (ascii "type") = ascii "login_request" then
      if msg.get (ascii "name") = [] then
        .answering (.response "login_response" "400" "name is null")
      else if s.id ≠ [] then .answering (.response "login_response" "401" "logined")
      else .checking (msg.get (ascii "name")) time
    else if msg.get (ascii "type") = ascii "send_request" then
      if msg.get (ascii "msg") = [] then
        .answering (.response "send_response" "500" "msg is null")
      else if s.id = [] then .answering (.response "send_response" "501" "not login")
      else
        .notifying ((ChatMessage.notice "msg" time s.id).set (ascii "msg") (msg.get (ascii "msg")))
          none (.answer (.response "send_response" "200" "ok"))
    else .receiving

structure ChatWorld where
  sessions : List ChatSession
  /-- `m_sessions`. -/
  table : Finmap (fun _ : List UInt8 => Nat)
  removals : List (Nat × Nat)

namespace ChatWorld

def new : ChatWorld := ⟨[], ∅, []⟩

def put (w : ChatWorld) (i : Nat) (s : ChatSession) : ChatWorld :=
  { w with sessions := w.sessions.set i s }

/-- `session_exists`. -/
def sessionExists (w : ChatWorld) (id : List UInt8) : Bool := (w.table.lookup id).isSome

/-- `session_add`. -/
def sessionAdd (w : ChatWorld) (id : List UInt8) (session : Nat) : ChatWorld :=
  { w with table := w.table.insert id session }

/-- `session_del`, called by a session. -/
def sessionDel (w : ChatWorld) (i : Nat) (id : List UInt8) : ChatWorld :=
  { w with
    table := w.table.erase id
    removals :=
      match w.table.lookup id with
      | some j => w.removals ++ [(i, j)]
      | none => w.removals }

/-- A message is sent to a session, or not. -/
def deliver (w : ChatWorld) (ok : Bool) (j : Nat) (m : ChatMessage) : ChatWorld :=
  if ok then
    { w with sessions := w.sessions.modify j (fun s => { s with inbox := s.inbox ++ [m] }) }
  else w

inductive Action where
  /-- A handshake, and the header `$id` of its request. -/
  | connect (id : List UInt8)
  /-- A session receives a message at a time. -/
  | receive (i : Nat) (m : Received) (time : List UInt8)
  /-- A session takes the lock, or closes. -/
  | go (i : Nat) (time : List UInt8)
  /-- The lock of `session_notify`, and the order of the sessions. -/
  | copy (i : Nat) (order : List Nat)
  /-- A session sends a message. -/
  | send (i : Nat) (ok : Bool) (time : List UInt8)
  deriving DecidableEq

/-- The next step of a session that only needs the lock. -/
def goOn (w : ChatWorld) (i : Nat) (s : ChatSession) (time : List UInt8) : Option ChatWorld :=
  match s.pos with
  | .checking name time =>
    -- The name that is looked up is the one the session does not have yet.
    if w.sessionExists s.id then
      some (w.put i { s with pos := .answering (.response "login_response" "402" "name exists") })
    else some (w.put i { s with pos := .entering name time })
  | .entering name time =>
    some ((w.sessionAdd name i).put i { s with
      id := name
      pos := .notifying (.notice "user_enter" time name) (some i)
        (.answer (.response "login_response" "200" "ok")) })
  | .erasing => some ((w.sessionDel i s.id).put i { s with pos := .leaving time })
  | .leaving time =>
    if s.id = [] then some (w.put i { s with pos := .closing })
    else
      some ((w.sessionDel i s.id).put i { s with
        pos := .notifying (.notice "user_leave" time s.id) none .close })
  | .closing => some (w.put i { s with pos := .closed })
  | _ => none

def step : Action → ChatWorld → Option ChatWorld
  | .connect id, w => some { w with sessions := w.sessions ++ [⟨id, .receiving, []⟩] }
  | .receive i m time, w =>
    match w.sessions[i]? with
    | some s => if s.pos = .receiving then some (w.put i { s with pos := s.handle time m }) else none
    | none => none
  | .go i time, w => w.sessions[i]?.bind (fun s => w.goOn i s time)
  | .copy i order, w =>
    match w.sessions[i]? with
    | some s =>
      match s.pos with
      | .notifying nty session next =>
        if (order : Multiset Nat) = w.table.entries.map Sigma.snd then
          some (w.put i { s with
            pos := .telling nty (order.filter (fun j => session ≠ some j)) next })
        else none
      | _ => none
    | none => none
  | .send i ok time, w =>
    match w.sessions[i]? with
    | some s =>
      match s.pos with
      | .telling nty (j :: sessions) next =>
        some (deliver (w.put i { s with pos := .telling nty sessions next }) ok j nty)
      | .telling _ [] next => some (w.put i { s with pos := next.pos })
      | .answering rsp =>
        some (deliver (w.put i { s with pos := if ok then .receiving else .leaving time }) ok i rsp)
      | _ => none
    | none => none

end ChatWorld

end YkServer
