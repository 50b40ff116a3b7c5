import YkServer.Core.HttpSession

/-!
# Receiving HTTP Responses

The model of `HttpConnection::recvResponse` in `http/http_connection.cc`.

The function is `HttpSession::recvRequest` but for a NUL behind what was read. How a
response is parsed is not of interest here, so the parser is an argument: it takes as many
bytes of those it is given as it likes, and says whatever it likes about errors, the end
of the response and the length of its body.

Every range of an array that is written, or passed on to be written or read, is checked
beforehand. An access outside is undefined behaviour.

## Main definitions

* `ResponseParser`: A parser.
* `HttpConnection.access`: The check.
* `HttpConnection.recvRound`, `HttpConnection.recvHeader`: The loop.
* `HttpConnection.recvBody`: The body.
* `HttpConnection.recvResponse`: The function.
-/

namespace YkServer

open Lib

/-- `HttpResponseParser`, with the response it makes. `run` is `httpclient_parser_execute` of
    the first bytes of a buffer. -/
structure ResponseParser (π : Type) where
  run : List UInt8 → Nat → π → Nat × π
  run_le : ∀ buffer len parser, (run buffer len parser).1 ≤ len
  hasError : π → Bool
  isFinished : π → Bool
  getContentLength : π → UInt64
  setBody : List UInt8 → π → π

/-- `execute`: the number of bytes that have been parsed, and the buffer with the others at
    the front. -/
def ResponseParser.execute {π : Type} (P : ResponseParser π) (data : List UInt8) (len : Nat) :
    Prog Exn π (Nat × List UInt8) := fun parser =>
  let offset := (P.run data len parser).1
  .ok (offset, overwrite data 0 ((data.take len).drop offset)) (P.run data len parser).2

/-- What a round of the loop leaves. -/
inductive RoundEnd (π : Type) where
  | closed
  | again (offset : Nat) (data : List UInt8) (parser : π)
  | finished (offset : Nat) (data : List UInt8) (parser : π)

namespace HttpConnection

variable {σ π : Type}

/-- `count` bytes of an array, from `start` on. -/
def access (array : List UInt8) (start count : Nat) : Prog Exn σ Unit :=
  if array.length < start + count then Prog.undef else pure ()

/-- `close()`. -/
def close : Prog Exn Socket Unit := Prog.modify (fun s => { s with connected := false })

variable (P : ResponseParser π)

/-- The body of the loop that reads and parses. -/
def recvRound (buffSize offset : Nat) (data : List UInt8) (parser : π) :
    Prog Exn Socket (RoundEnd π) := do
  -- `buffSize - offset` is a `size_t`.
  access data offset (subWord buffSize offset)
  let (rt, data) ← Prog.within data (SocketStream.read offset (subWord buffSize offset))
  if rt ≤ 0 then do
    close
    pure .closed
  else do
    let len := rt.toNat + offset
    -- A sum that is too large for an `int` is no index.
    if 2 ^ 31 ≤ len then Prog.undef
    else do
      access data len 1
      let data := overwrite data len [0]
      access data 0 len
      let ((nparse, data), parser) ← Prog.within parser (Prog.second (P.execute data len))
      if P.hasError parser then do
        close
        pure .closed
      else if ((len - nparse : Nat) : Int) = intOfWord buffSize then do
        close
        pure .closed
      else if P.isFinished parser then pure (.finished (len - nparse) data parser)
      else pure (.again (len - nparse) data parser)

/-- The loop. It returns `offset`, the buffer and the parser. -/
def recvHeader (buffSize : Nat) : Nat → Nat → List UInt8 → π →
    Prog Exn Socket (Option (Nat × List UInt8 × π))
  | 0, _, _, _ => fun _ => .hang
  | fuel + 1, offset, data, parser => do
    match ← recvRound P buffSize offset data parser with
    | .closed => pure none
    | .again offset data parser => recvHeader buffSize fuel offset data parser
    | .finished offset data parser => pure (some (offset, data, parser))

/-- A body of `length` bytes, of which `offset` bytes or more than all are in the
    buffer. -/
def recvBody (offset : Nat) (data : List UInt8) (length : Nat) :
    Prog Exn Socket (Option (List UInt8)) :=
  if ByteArray.maxStringSize < length then Prog.raise .lengthError
  else do
    let body := List.replicate length 0
    let len := if offset ≤ length then offset else length
    access data 0 len
    access body 0 len
    let body := overwrite body 0 (data.take len)
    if offset < length then do
      let (rt, body) ← Prog.within body
        (Stream.readFixSize (fun i n => SocketStream.read (len + i) n) (length - offset + 1)
          (length - offset))
      if rt ≤ 0 then do
        close
        pure none
      else pure (some body)
    else pure (some body)

/-- `recvResponse`, with a new parser and what the memory of the buffer holds. -/
def recvResponse (buffSize : Nat) (buffer : Nat → UInt8) (parser : π) :
    Prog Exn Socket (Option π) := do
  let s ← Prog.get
  match ← recvHeader P buffSize (s.inbox.length + 1) 0 ((List.range buffSize).map buffer)
      parser with
  | none => pure none
  | some (offset, data, parser) =>
    let length := HttpSession.int64OfWord (P.getContentLength parser)
    if 0 < length then do
      match ← recvBody offset data length.toNat with
      | none => pure none
      | some body => pure (some (P.setBody body parser))
    else pure (some parser)

end HttpConnection

end YkServer
