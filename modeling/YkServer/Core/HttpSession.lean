import YkServer.Core.HttpParser
import YkServer.Core.Socket

/-!
# Receiving HTTP Requests

The model of `HttpSession::recvRequest` in `http/http_session.cc`.

The buffer and the parser are new in every call. The first loop reads into the
buffer and parses what was read until a request is complete; what is left in the
buffer then is the start of the body, or more. It is copied into the body, up to
the length of the body, and the rest of the body is read from the stream.
Nothing else happens to what is left in the buffer.

`offset` is never negative, as no call parses more than it is given. The memory
of the buffer and of the fields that the parser does not initialise are arguments,
and so is the conversion that `boost::lexical_cast` does. A round of the loop
takes a byte off the stream or ends the loop, so as many rounds as there are
bytes, and one, are enough.

## Main definitions

* `HttpSession.Memory`: What new objects find in their memory.
* `HttpSession.recvHeader`: The loop.
* `HttpSession.recvBody`: The body.
* `HttpSession.recvRequest`: The function.
-/

namespace YkServer

open Lib

namespace HttpSession

/-- What new objects find in their memory. -/
structure Memory where
  uriRelaxed : Bool
  queryStart : Nat
  buffer : Nat → UInt8

/-- `close()`. -/
def close : Prog Exn Socket Unit := Prog.modify (fun s => { s with connected := false })

/-- The loop that reads and parses. It returns `offset`, the buffer and the parser. -/
def recvHeader (buffSize : Nat) : Nat → Nat → List UInt8 → HttpRequestParser →
    Prog Exn Socket (Option (Nat × List UInt8 × HttpRequestParser))
  | 0, _, _, _ => fun _ => .hang
  | fuel + 1, offset, data, parser => do
    -- `buffSize - offset` is a `size_t`.
    let (rt, data) ← Prog.within data (SocketStream.read offset (subWord buffSize offset))
    if rt ≤ 0 then do
      close
      pure none
    else do
      let len := rt.toNat + offset
      let ((nparse, data), parser) ← Prog.within parser (Prog.second (HttpRequestParser.execute data len))
      if parser.hasError then do
        close
        pure none
      -- The buffer is full of bytes that the parser has not taken.
      else if ((len - nparse : Nat) : Int) = intOfWord buffSize then do
        close
        pure none
      -- What is left in the buffer is known to this call alone.
      else if parser.isFinished then pure (some (len - nparse, data, parser))
      else recvHeader buffSize fuel (len - nparse) data parser

/-- A body of `length` bytes, of which `offset` bytes or more than all are in the
    buffer. -/
def recvBody (offset : Nat) (data : List UInt8) (length : Nat) :
    Prog Exn Socket (Option (List UInt8)) :=
  if ByteArray.maxStringSize < length then Prog.raise .lengthError
  else
    -- Of an over-read buffer only the body is copied.
    let len := if offset ≤ length then offset else length
    let body := overwrite (List.replicate length 0) 0 (data.take len)
    if offset < length then do
      let (rt, body) ← Prog.within body
        (Stream.readFixSize (fun i n => SocketStream.read (len + i) n) (length - offset + 1)
          (length - offset))
      if rt ≤ 0 then do
        close
        pure none
      else pure (some body)
    else pure (some body)

/-- The end of the function: `Connection: keep-alive` keeps the connection. -/
def setClose (r : HttpRequest) : HttpRequest :=
  if folded (r.getHeader (ascii "connection")) = folded (ascii "keep-alive") then
    { r with close := false }
  else r

/-- A word as an `int64_t`. -/
def int64OfWord (n : UInt64) : Int := if n.toNat < 2 ^ 63 then n.toNat else n.toNat - 2 ^ 64

/-- `recvRequest`. -/
def recvRequest (lexicalCast : List UInt8 → Option UInt64) (buffSize : Nat) (m : Memory) :
    Prog Exn Socket (Option HttpRequest) := do
  let s ← Prog.get
  let buffer := (List.range buffSize).map m.buffer
  match ← recvHeader buffSize (s.inbox.length + 1) 0 buffer
      (.new m.uriRelaxed m.queryStart) with
  | none => pure none
  | some (offset, data, parser) =>
    let length := int64OfWord (parser.getContentLength lexicalCast)
    if 0 < length then do
      match ← recvBody offset data length.toNat with
      | none => pure none
      | some body => pure (some (setClose { parser.data with body := body }))
    else pure (some (setClose parser.data))

/-- `n` calls, one after another. -/
def recvRequests (lexicalCast : List UInt8 → Option UInt64) (buffSize : Nat) :
    List Memory → Prog Exn Socket (List (Option HttpRequest))
  | [] => pure []
  | m :: ms => do
    let r ← recvRequest lexicalCast buffSize m
    let rs ← recvRequests lexicalCast buffSize ms
    pure (r :: rs)

end HttpSession

end YkServer
