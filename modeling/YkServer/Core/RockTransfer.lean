import YkServer.Core.Rock

/-!
# Rock Messages Call by Call

`serializeTo` and `parseFrom` of `rock/rock_protocol.cc` as threads that other threads may
interrupt between any two of their calls of `read` and `write`. What either of them has on its
stack is a state. A step is one call on the socket and everything up to the next one, which
touches nothing but that.

A function that has returned has no next call. What came of `parseFrom` waits in its state until
`doRecv` goes on with it.

## Main definitions

* `Rock.Writer`, `Rock.sendRound`: `serializeTo`.
* `Rock.Reader`, `Rock.recvRound`: `parseFrom`.
-/

namespace YkServer

open Lib

namespace Rock

/-- Where a thread is in `serializeTo`. -/
inductive Writer where
  | idle
  /-- In `writeFixSize(&header, sizeof(header))`. -/
  | header (msg : RockMessage) (ba : ByteArray) (offset left : Nat)
  /-- In `writeFixSize(ba, ba->getReadSize())`. -/
  | body (msg : RockMessage) (ba : ByteArray) (length left : Nat)

namespace Writer

/-- The message that is being sent. -/
def msgs : Writer → List RockMessage
  | idle => []
  | header msg _ _ _ => [msg]
  | body msg _ _ _ => [msg]

end Writer

/-- `serializeTo`, up to its first call. -/
def sendBegin (heap : Nat → UInt8) (msg : RockMessage) : Option Writer :=
  match toByteArray msg (ByteArray.new baseSize heap) with
  | .ok () ba => some (.header msg ba 0 headerSize)
  | _ => none

/-- A call of `serializeTo`: what it returns, or where the thread is then. -/
def sendRound : Writer → Socket → Option (Socket × (Int ⊕ Writer))
  | .idle, _ => none
  | .header msg ba offset left, s =>
    match Stream.writeRound (SocketStream.write (header ba.size)) headerSize offset left s with
    | .ok (.inr (offset, left)) s => some (s, .inr (.header msg ba offset left))
    | .ok (.inl rt) s =>
      if rt ≤ 0 then some (s, .inl (-3))
      -- `writeFixSize` of nothing returns 0.
      else if ba.getReadSize = 0 then some (s, .inl (-4))
      else some (s, .inr (.body msg ba ba.getReadSize ba.getReadSize))
    | _ => none
  | .body msg ba length left, s =>
    match Stream.fixRound (fun _ left => SocketStream.writeBytes left) length 0 left (s, ba) with
    | .ok (.inr (_, left)) (s, ba) => some (s, .inr (.body msg ba length left))
    | .ok (.inl rt) (s, ba) =>
      some (s, .inl (if rt ≤ 0 then -4 else intOfWord (headerSize + ba.size)))
    | _ => none

/-- Where a thread is in `parseFrom`. -/
inductive Reader where
  /-- In `readFixSize(&header, sizeof(header))`. -/
  | header (h : List UInt8) (offset left : Nat)
  /-- In `readFixSize(ba, header.length)`. -/
  | body (ba : ByteArray) (length left : Nat)
  /-- It has returned. -/
  | parsed (msg : Option RockMessage)

namespace Reader

/-- `parseFrom`, up to its first call. -/
def new : Reader := header (Rock.header 0) 0 headerSize

/-- The message that was parsed. -/
def msgs : Reader → List RockMessage
  | parsed (some msg) => [msg]
  | _ => []

end Reader

/-- A call of `parseFrom`, and where the thread is then. -/
def recvRound (maxLength : UInt32) (heap : Nat → UInt8) : Reader → Socket → Option (Socket × Reader)
  | .header h offset left, s =>
    match Stream.fixRound SocketStream.read headerSize offset left (s, h) with
    | .ok (.inr (offset, left)) (s, h) => some (s, .header h offset left)
    | .ok (.inl rt) (s, h) =>
      if rt ≤ 0 then some (s, .parsed none)
      else
        match bodyLength maxLength h with
        | none => some (s, .parsed none)
        | some length =>
          -- `readFixSize` of nothing returns 0.
          if length = 0 then some (s, .parsed none)
          else some (s, .body (ByteArray.new baseSize heap) length length)
    | .throw _ (s, _) => some (s, .parsed none)
    | _ => none
  | .body ba length left, s =>
    match Stream.fixRound (fun _ left => SocketStream.readBytes left) length 0 left (s, ba) with
    | .ok (.inr (_, left)) (s, ba) => some (s, .body ba length left)
    | .ok (.inl rt) (s, ba) =>
      if rt ≤ 0 then some (s, .parsed none)
      else
        match Prog.attempt parseMessage ba with
        | .ok (.ok msg) _ => some (s, .parsed msg)
        | .ok (.error _) _ => some (s, .parsed none)
        | _ => none
    | .throw _ (s, _) => some (s, .parsed none)
    | _ => none
  | .parsed _, _ => none

end Rock

end YkServer
