import YkServer.Core.AsyncSocketStream
import YkServer.Core.HttpGrammar
import YkServer.Core.RockTransfer

/-!
# Rock Clients and the Server

A client, a session of the server and the connection between them: `request` and `doRecv` in
`rock/rock_stream.cc` on one side, `doRecv` and `handleRequest` on the other, with the handler
that `RockServer::handleClient` in `rock/rock_server.cc` sets, and `doWrite` of
`streams/async_socket_stream.cc` on both.

The requests of the client and what resolves them are `Core.AsyncSocketStream`. Here every message
is serialised, and parsed from the bytes at the other end. The bytes that are on the way are a
state of their own, `up` to the server and `down` to the client. A `cut` says how many of them the
next call of `read` or `write` transfers. The reader waits as long as there are none, and meets the
end of the stream when the other end has been closed.

The loops of `doWrite` and `doRead` on either side and the workers that handle requests are
threads, and any of them can go on at any time, between any two calls on a socket. An end may be
closed in the middle of a message. The thread in it comes no further then: all its calls fail, a
header that was being sent counts as sent, and any other loop of `writeFixSize` or `readFixSize`
goes on until `left` has come around, after `2 ^ 64` calls. A thread whose calls fail for good
because the other end was closed is the same, one that makes no more steps.

The client sends nothing but requests and the session nothing but responses, and nobody connects
again. What the modules make of a response comes with the step; the number and the command of it
are left alone. `asked`, `handled`, `consumed` and the messages that are lost are not in the code.

## Main definitions

* `RockContent`, `createResponse`, `handleAll`: What becomes of a request.
* `RockEnd`: The two loops of an end.
* `RockWorker`: A worker in `handleRequest`.
* `RockPair`: The two ends and what is on the way.
* `RockPair.step`: What can happen next.
-/

namespace YkServer

open Lib

/-! ## Responses -/

/-- What a handler sets of a response. -/
structure RockContent where
  result : UInt32
  resultStr : List UInt8
  body : List UInt8
  deriving DecidableEq, Repr

/-- A `Response` as it is constructed. -/
def RockContent.new : RockContent := ⟨404, ascii "unhandle", []⟩

namespace RockMessage

/-- `getCmd`, of a request or a response. -/
def getCmd : RockMessage → Option UInt32
  | .request _ cmd _ => some cmd
  | .response _ cmd _ _ _ => some cmd
  | .notify _ _ => none

/-- `createResponse`, with the content that the handler has set. -/
def createResponse (content : RockContent) : RockMessage → Option RockMessage
  | .request sn cmd _ => some (.response sn cmd content.result content.resultStr content.body)
  | _ => none

end RockMessage

/-- `handleRequest` of a module: what it makes of the response, and whether it takes the
    request. -/
abbrev RockHandler := RockMessage → RockContent → Bool × RockContent

/-- The handler of `RockServer`: the modules are asked up to the first that takes the request. -/
def handleAll (req : RockMessage) : List RockHandler → RockContent → Bool × RockContent
  | [], content => (false, content)
  | m :: ms, content =>
    if (m req content).1 then m req content else handleAll req ms (m req content).2

/-! ## The two ends -/

/-- What the two loops of an end are doing. -/
structure RockEnd where
  /-- What `doWrite` has taken and not begun to send. -/
  writing : List RockMessage
  sending : Rock.Writer
  reading : Rock.Reader

namespace RockEnd

def new : RockEnd := ⟨[], .idle, .new⟩

/-- Whether `doWrite` is done with what it has taken. -/
def done (e : RockEnd) : Bool :=
  match e.writing, e.sending with
  | [], .idle => true
  | _, _ => false

/-- `doSend`, up to its first call. -/
def doSend (heap : Nat → UInt8) (e : RockEnd) : Option RockEnd :=
  match e.writing, e.sending with
  | m :: rest, .idle =>
    (Rock.sendBegin heap m).map (fun sending => { e with writing := rest, sending := sending })
  | _, _ => none

/-- A call of `write`: the bytes on the way, the end, and the messages that will never be
    sent. -/
def write (cut : Nat → Nat) (bytes : List UInt8) (e : RockEnd) :
    Option (List UInt8 × RockEnd × List RockMessage) :=
  match Rock.sendRound e.sending ⟨true, [], bytes, cut, 0⟩ with
  | some (s, .inr sending) => some (s.outbox, { e with sending := sending }, [])
  | some (s, .inl rt) =>
    if 0 < rt then some (s.outbox, { e with sending := .idle }, [])
    -- `break`, and the rest of `ctxs` is gone.
    else some (s.outbox, { e with writing := [], sending := .idle }, e.sending.msgs ++ e.writing)
  | none => none

/-- A call of `read`: the bytes on the way, and the end. -/
def read (maxLength : UInt32) (heap : Nat → UInt8) (cut : Nat → Nat) (bytes : List UInt8)
    (e : RockEnd) : Option (List UInt8 × RockEnd) :=
  (Rock.recvRound maxLength heap e.reading ⟨true, bytes, [], cut, 0⟩).map
    (fun r => (r.1.inbox, { e with reading := r.2 }))

end RockEnd

/-- Where a worker is in `handleRequest`, when the handler has returned. -/
inductive HandlePos where
  /-- `if(isConnected())`, in `sendMessage`. -/
  | test (rsp : RockMessage)
  /-- `enqueue(ctx)`. -/
  | enqueue (rsp : RockMessage)
  /-- `close()`. -/
  | close

/-- A worker in `handleRequest`, and what the handler has returned. -/
structure RockWorker where
  pos : HandlePos
  taken : Bool

namespace RockWorker

/-- The response that it has in hand. -/
def rsp (x : RockWorker) : Option RockMessage :=
  match x.pos with
  | .test rsp => some rsp
  | .enqueue rsp => some rsp
  | .close => none

end RockWorker

structure RockPair where
  client : RockStream
  /-- The requests of the contexts. -/
  requests : List RockMessage
  clientEnd : RockEnd
  up : List UInt8
  down : List UInt8
  /-- Whether the session is connected. -/
  serving : Bool
  sessionEnd : RockEnd
  /-- The requests whose `handleRequest` is scheduled. -/
  tasks : List RockMessage
  workers : List RockWorker
  /-- `m_queue` of the session. -/
  queue : List RockMessage
  /-- The contexts that were queued. -/
  asked : List Nat
  /-- The requests that were handled, with the responses to them. -/
  handled : List (RockMessage × RockMessage)
  /-- The messages that the client has parsed. -/
  consumed : List RockMessage
  lostRequests : List RockMessage
  lostResponses : List RockMessage

/-- One of the two ends. -/
inductive RockSide where
  | client
  | session
  deriving DecidableEq, Repr

namespace RockSide

def other : RockSide → RockSide
  | client => session
  | session => client

end RockSide

namespace RockPair

/-- A connected pair. -/
def new (now : UInt64) : RockPair :=
  { client := { RockStream.new now with connected := true }, requests := [],
    clientEnd := RockEnd.new, up := [], down := [], serving := true, sessionEnd := RockEnd.new,
    tasks := [], workers := [], queue := [], asked := [], handled := [], consumed := [],
    lostRequests := [], lostResponses := [] }

/-! ## An end of a pair -/

def connected : RockSide → RockPair → Bool
  | .client, w => w.client.connected
  | .session, w => w.serving

def ends : RockSide → RockPair → RockEnd
  | .client, w => w.clientEnd
  | .session, w => w.sessionEnd

def setEnd (e : RockEnd) : RockSide → RockPair → RockPair
  | .client, w => { w with clientEnd := e }
  | .session, w => { w with sessionEnd := e }

/-- The bytes on the way from an end. -/
def sent : RockSide → RockPair → List UInt8
  | .client, w => w.up
  | .session, w => w.down

def setSent (bytes : List UInt8) : RockSide → RockPair → RockPair
  | .client, w => { w with up := bytes }
  | .session, w => { w with down := bytes }

/-- The requests of some contexts. -/
def requestsOf (requests : List RockMessage) (rs : List Nat) : List RockMessage :=
  rs.filterMap (fun r => requests[r]?)

/-- What is queued at an end. -/
def queued : RockSide → RockPair → List RockMessage
  | .client, w => requestsOf w.requests w.client.queue
  | .session, w => w.queue

/-- `m_queue.swap`, or `m_queue.clear()`. -/
def clearQueue : RockSide → RockPair → RockPair
  | .client, w => { w with client := { w.client with queue := [] } }
  | .session, w => { w with queue := [] }

/-- The messages of an end that are lost. -/
def lost : RockSide → RockPair → List RockMessage
  | .client, w => w.lostRequests
  | .session, w => w.lostResponses

def lose (ms : List RockMessage) : RockSide → RockPair → RockPair
  | .client, w => { w with lostRequests := w.lostRequests ++ ms }
  | .session, w => { w with lostResponses := w.lostResponses ++ ms }

/-- `AsyncSocketStream::close`. Nobody connects again, so there is no timer. -/
def close : RockSide → RockPair → RockPair
  | .client, w => { w with client := { w.client with connected := false } }
  | .session, w => { w with serving := false }

/-! ## Steps -/

/-- The steps of the client that neither make a request nor send or receive. -/
def Local : RockStream.Action → Bool
  | .addCtx _ | .addTimer _ _ _ | .storeTimer _ | .yieldToHold _ | .resume _
  | .listExpiredCb _ _ | .onTimeOut _ | .go _ => true
  | _ => false

/-- What can happen next, in any thread. -/
inductive Action where
  /-- A fiber of the client calls `request`, up to `addCtx`. -/
  | request (sn cmd : UInt32) (body : List UInt8) (timeout : UInt32) (caller : Caller)
  | enqueue (r : Nat)
  /-- Another step of the client. -/
  | go (a : RockStream.Action)
  /-- `doWrite` takes what is queued. -/
  | doWrite (side : RockSide)
  | doSend (side : RockSide) (heap : Nat → UInt8)
  | write (side : RockSide) (cut : Nat → Nat)
  /-- `doWrite` has left its loop. -/
  | doWriteOut (side : RockSide)
  | read (side : RockSide) (heap : Nat → UInt8) (cut : Nat → Nat)
  /-- `doRecv`, with the message that was parsed. -/
  | doRecv (side : RockSide)
  /-- A worker calls `handleRequest`, up to `sendMessage`. -/
  | handleRequest (k : Nat) (modules : List RockHandler)
  /-- A worker goes on with `handleRequest`. -/
  | handled (i : Nat)
  /-- A thread calls `close`. -/
  | close (side : RockSide)
  /-- `innerClose` of the client. -/
  | innerClose (order : List (Σ _ : UInt32, Nat))
  /-- `innerClose` of the session. -/
  | sessionClose

variable (maxLength : UInt32)

/-- `doRecv` of an end. A null message leads to `innerClose`, which is a step of its own. -/
def doRecv : RockSide → RockMessage → RockPair → Option RockPair
  | .client, m, w => do
    let c ← RockStream.step (.doRecv m) w.client
    some { w with client := c, consumed := w.consumed ++ [m] }
  | .session, m, w =>
    match m with
    | .request sn cmd body => some { w with tasks := w.tasks ++ [.request sn cmd body] }
    -- The session has made no request, and nobody handles notifications.
    | _ => some w

/-- A worker is done with `sendMessage`: `close()` follows if nobody has taken the request. -/
def goOn (i : Nat) (x : RockWorker) (w : RockPair) : RockPair :=
  if x.taken then { w with workers := w.workers.eraseIdx i }
  else { w with workers := w.workers.set i { x with pos := .close } }

def step : Action → RockPair → Option RockPair
  | .request sn cmd body timeout caller, w =>
    if w.client.connected then do
      let c ← RockStream.step (.request sn timeout caller) w.client
      some { w with client := c, requests := w.requests ++ [.request sn cmd body] }
    -- `NOT_CONNECT`.
    else some w
  | .enqueue r, w => do
    let c ← RockStream.step (.enqueue r) w.client
    some { w with client := c, asked := w.asked ++ [r] }
  | .go a, w =>
    if Local a then do
      let c ← RockStream.step a w.client
      some { w with client := c }
    else none
  | .doWrite side, w =>
    let e := ends side w
    if e.done then some (setEnd { e with writing := queued side w } side (clearQueue side w))
    else none
  | .doSend side heap, w => do
    let e ← (ends side w).doSend heap
    some (setEnd e side w)
  | .write side cut, w =>
    if connected side w then do
      let (bytes, e, ms) ← (ends side w).write cut (sent side w)
      some (lose ms side (setEnd e side (setSent bytes side w)))
    else none
  | .doWriteOut side, w =>
    if connected side w = false ∧ (ends side w).done then
      some (lose (queued side w) side (clearQueue side w))
    else none
  | .read side heap cut, w =>
    -- Without bytes `read` waits for the other end, until that is closed.
    if connected side w ∧ (sent side.other w ≠ [] ∨ connected side.other w = false) then do
      let (bytes, e) ← (ends side w).read maxLength heap cut (sent side.other w)
      some (setEnd e side (setSent bytes side.other w))
    else none
  | .doRecv side, w =>
    match (ends side w).reading with
    | .parsed (some m) => doRecv side m (setEnd { ends side w with reading := .new } side w)
    | _ => none
  | .handleRequest k modules, w => do
    let req ← w.tasks[k]?
    let rt := handleAll req modules RockContent.new
    let rsp ← req.createResponse rt.2
    some { w with
      tasks := w.tasks.eraseIdx k
      handled := w.handled ++ [(req, rsp)]
      workers := w.workers ++ [⟨.test rsp, rt.1⟩] }
  | .handled i, w => do
    let x ← w.workers[i]?
    match x.pos with
    | .test rsp =>
      if w.serving then
        some { w with workers := w.workers.set i { x with pos := .enqueue rsp } }
      else some (goOn i x (lose [rsp] .session w))
    | .enqueue rsp => some (goOn i x { w with queue := w.queue ++ [rsp] })
    | .close => some (close .session { w with workers := w.workers.eraseIdx i })
  | .close side, w => some (close side w)
  | .innerClose order, w => do
    let c ← RockStream.step (.innerClose order) w.client
    some { w with
      client := c
      lostRequests := w.lostRequests ++ requestsOf w.requests w.client.queue }
  | .sessionClose, w =>
    some (lose w.queue .session (clearQueue .session (close .session w)))

end RockPair

end YkServer
