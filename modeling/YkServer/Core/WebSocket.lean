import YkServer.Core.Socket

/-!
# WebSocket Messages

The model of `WSRecvMessage`, `WSSendMessage`, `WSPing` and `WSPong` in
`http/ws_session.cc`. `WSRecvMessage` is a loop that takes frames off a stream and
puts the payloads of the data frames together until one has the final bit;
`WSSendMessage` sends one data frame.

The loop has three local variables, the opcode, the data and `cur_len`, which is
an `int`. A frame declares its length in 7, 16 or 64 bits, and the sum
`cur_len + length` is computed in 64 bits wherever it occurs: in the comparison
with the limit, in the new size of the data, and in `cur_len += length`, where it
is cut down to an `int` again. The payload is read to `&data[cur_len]`; bytes
that arrive for a place outside the data are undefined behaviour, and so is an
index `cur_len + i` of the unmasking loop that is too large for an `int`.

The body of the loop is one program, from the local variables to what happens to
the loop. It consumes the two bytes of a frame's head or ends the loop, so as
many rounds as there are bytes, and one, are enough.

A client masks the data of the message it was given in place, so the message is
part of the state of `WSSendMessage`. The mask is the value of `rand()`. The function
takes a `Stream*`, whose `writeFixSize` and `close` are virtual, so both are arguments;
over a socket they are those of `SocketStream`.

A read of a connected socket gives bytes, or 0 at the end of what the peer has sent. It
does not fail with an error and does not time out.

## Main definitions

* `WSFrameHead`: The head of a frame.
* `WebSocket.recvHead`, `WebSocket.recvLength`: Reading it.
* `WebSocket.frameSum`: The sum `cur_len + length` in 64 bits.
* `WebSocket.recvPayloadBy`, `WebSocket.recvPayload`, `WebSocket.recvFrame`: The body of
  the loop.
* `WebSocket.WSRecvMessage`: The loop.
* `WebSocket.AnyStream.WSSendMessage`, `WebSocket.WSSendMessage`: One frame, over any
  stream and over a socket.
* `WebSocket.WSPing`, `WebSocket.WSPong`: Frames that are a head.
-/

namespace YkServer

open Lib

/-- The bit fields of `WSFrameHead`. -/
structure WSFrameHead where
  opcode : Nat
  rsv3 : Bool
  rsv2 : Bool
  rsv1 : Bool
  fin : Bool
  payload : Nat
  mask : Bool
  deriving DecidableEq, Repr

/-- `WSFrameMessage`. -/
structure WSFrameMessage where
  opcode : Nat
  data : List UInt8
  deriving DecidableEq, Repr

namespace WebSocket

def CONTINUE : Nat := 0

def TEXT_FRAME : Nat := 1

def BIN_FRAME : Nat := 2

def CLOSE : Nat := 8

def PING : Nat := 0x9

def PONG : Nat := 0xA

/-- The fields of the two bytes of a head, lowest bits first. -/
def headOfBytes (b₀ b₁ : UInt8) : WSFrameHead :=
  { opcode := b₀.toNat % 16, rsv3 := b₀.toNat.testBit 4, rsv2 := b₀.toNat.testBit 5,
    rsv1 := b₀.toNat.testBit 6, fin := b₀.toNat.testBit 7, payload := b₁.toNat % 128,
    mask := b₁.toNat.testBit 7 }

/-- The two bytes of a head. -/
def bytesOfHead (h : WSFrameHead) : List UInt8 :=
  [UInt8.ofNat (h.opcode % 16 + 16 * h.rsv3.toNat + 32 * h.rsv2.toNat + 64 * h.rsv1.toNat +
    128 * h.fin.toNat), UInt8.ofNat (h.payload % 128 + 128 * h.mask.toNat)]

/-- The local variables of the loop. -/
structure Locals where
  opcode : Nat
  data : List UInt8
  curLen : Int
  deriving DecidableEq, Repr

/-- What a round of the loop leads to. -/
inductive Flow where
  /-- Another round. -/
  | again (l : Locals)
  /-- `break`. -/
  | stop
  /-- `return`. -/
  | done (m : WSFrameMessage)
  deriving DecidableEq, Repr

/-- `readFixSize` of a local variable of `n` bytes; `none` if it does not succeed. -/
def readLocal (n : Nat) : Prog Exn Socket (Option (List UInt8)) := do
  let (rt, buf) ← Prog.within (List.replicate n 0)
    (Stream.readFixSize SocketStream.read (n + 1) n)
  if rt ≤ 0 then pure none else pure (some buf)

/-- The head of a frame. -/
def recvHead : Prog Exn Socket (Option WSFrameHead) := do
  match ← readLocal 2 with
  | some [b₀, b₁] => pure (some (headOfBytes b₀ b₁))
  | _ => pure none

/-- The length a frame declares, in network order if it is not in the head. -/
def recvLength (head : WSFrameHead) : Prog Exn Socket (Option Nat) :=
  if head.payload = 126 then do
    match ← readLocal 2 with
    | some b => pure (some (leValue b.reverse))
    | none => pure none
  else if head.payload = 127 then do
    match ← readLocal 8 with
    | some b => pure (some (leValue b.reverse))
    | none => pure none
  else pure (some head.payload)

/-- A frame of a head and nothing else. -/
def sendBare (opcode : Nat) : Prog Exn Socket Int := do
  let head := bytesOfHead ⟨opcode, false, false, false, true, 0, false⟩
  let v ← Stream.writeFixSize (SocketStream.write head) (head.length + 1) head.length
  if v ≤ 0 then do
    Prog.modify (fun s => { s with connected := false })
    pure v
  else pure v

/-- `WSPing`. -/
def WSPing : Prog Exn Socket Int := sendBare PING

/-- `WSPong`. -/
def WSPong : Prog Exn Socket Int := sendBare PONG

/-- `cur_len + length`, an `int` and a `uint64_t`. -/
def frameSum (curLen : Int) (length : Nat) : Nat := (wordOfInt curLen + length) % 2 ^ 64

/-- `data.resize(n)`. -/
def resize (data : List UInt8) (n : Nat) : List UInt8 :=
  data.take n ++ List.replicate (n - data.length) 0

/-- The unmasking loop, `n` rounds from the `i`-th byte on. -/
def unmask (mask : List UInt8) (start : Nat) : Nat → Nat → List UInt8 → List UInt8
  | 0, _, data => data
  | n + 1, i, data =>
    unmask mask start n (i + 1) (data.modify (start + i) (fun b => b ^^^ mask.getD (i % 4) 0))

/-- The mask of a frame, four zeros if it has none. -/
def recvMask (head : WSFrameHead) : Prog Exn Socket (Option (List UInt8)) :=
  if head.mask then readLocal 4 else pure (some [0, 0, 0, 0])

/-- A data frame from the length on. `read` is the stream's `read` into the data: the
    offset of its target, and how many bytes fit there. -/
def recvPayloadBy (read : Nat → Nat → Prog Exn (Socket × List UInt8) Int) (maxSize : UInt32)
    (head : WSFrameHead) (length : Nat) (l : Locals) : Prog Exn Socket Flow :=
  -- The sum has wrapped by the time it is compared.
  if maxSize.toNat ≤ frameSum l.curLen length then pure .stop
  else do
    match ← recvMask head with
    | none => pure .stop
    | some mask =>
      let (rt, data) ← Prog.within (resize l.data (frameSum l.curLen length))
        -- `&data[cur_len]`: an offset in the loop is relative to that pointer.
        (Stream.readFixSize (fun offset n => read (wordOfInt l.curLen + offset) n)
          (length + 1) length)
      if rt ≤ 0 then pure .stop
      -- The last index `cur_len + i` of the loop has to be an `int`.
      else if head.mask ∧ 2 ^ 31 < l.curLen + intOfWord length then Prog.undef
      else
        -- The loop counts with an `int`.
        let data := if head.mask then
          unmask mask l.curLen.toNat (intOfWord length).toNat 0 data else data
        let opcode := if l.opcode = 0 ∧ head.opcode ≠ CONTINUE then head.opcode else l.opcode
        if head.fin then pure (.done ⟨opcode, data⟩)
        else pure (.again ⟨opcode, data, intOfWord (frameSum l.curLen length)⟩)

/-- The same over a socket. -/
def recvPayload (maxSize : UInt32) (head : WSFrameHead) (length : Nat) (l : Locals) :
    Prog Exn Socket Flow := recvPayloadBy SocketStream.read maxSize head length l

/-- The body of the loop. -/
def recvFrame (maxSize : UInt32) (client : Bool) (l : Locals) : Prog Exn Socket Flow := do
  match ← recvHead with
  | none => pure .stop
  | some head =>
    if head.opcode = PING then do
      let v ← WSPong
      if v ≤ 0 then pure .stop else pure (.again l)
    else if head.opcode = PONG then pure (.again l)
    else if head.opcode = CONTINUE ∨ head.opcode = TEXT_FRAME ∨ head.opcode = BIN_FRAME then
      -- A frame from a client has to be masked.
      if ¬client ∧ ¬head.mask then pure .stop
      else do
        match ← recvLength head with
        | none => pure .stop
        | some length => recvPayload maxSize head length l
    -- Any other opcode is logged, and the loop goes on at the next two bytes.
    else pure (.again l)

/-- The loop, with a bound on its rounds. -/
def recvLoop (maxSize : UInt32) (client : Bool) :
    Nat → Locals → Prog Exn Socket (Option WSFrameMessage)
  | 0, _ => fun _ => .hang
  | fuel + 1, l => do
    match ← recvFrame maxSize client l with
    | .again l => recvLoop maxSize client fuel l
    | .done m => pure (some m)
    | .stop => do
      Prog.modify (fun s => { s with connected := false })
      pure none

/-- `WSRecvMessage`. `maxSize` is the setting `websocket.message.max_size`. -/
def WSRecvMessage (maxSize : UInt32) (client : Bool) :
    Prog Exn Socket (Option WSFrameMessage) := fun s =>
  recvLoop maxSize client (s.inbox.length + 1) ⟨0, [], 0⟩ s

/-- The seven bits of the head for a payload of `size` bytes. -/
def payloadField (size : Nat) : Nat :=
  if size < 126 then size else if size < 65536 then 126 else 127

namespace AnyStream

variable {σ : Type} (writeFixSize : List UInt8 → Prog Exn σ Int) (close : Prog Exn σ Unit)

/-- `stream->writeFixSize(...)`; whether it succeeds. -/
def write (bytes : List UInt8) : Prog Exn σ Bool := do
  let rt ← writeFixSize bytes
  pure (decide (0 < rt))

/-- The length behind the head, in network order, if the head does not hold it. -/
def sendLength (payload size : Nat) : Prog Exn σ Bool :=
  if payload = 126 then write writeFixSize (leBytes 2 size).reverse
  else if payload = 127 then write writeFixSize (leBytes 8 size).reverse
  else pure true

/-- The mask of a client, which masks the data first. -/
def sendMask (client : Bool) (randValue : UInt32) : Prog Exn (σ × WSFrameMessage) Bool :=
  if client then do
    let mask := leBytes 4 randValue.toNat
    Prog.modify (fun st =>
      (st.1, { st.2 with data := unmask mask 0 st.2.data.length 0 st.2.data }))
    Prog.first (write writeFixSize mask)
  else pure true

/-- The body of `WSSendMessage`; `none` for `break`. -/
def sendFrame (client fin : Bool) (randValue : UInt32) :
    Prog Exn (σ × WSFrameMessage) (Option Int) := do
  let (_, msg) ← Prog.get
  let size := msg.data.length
  let head : WSFrameHead := ⟨msg.opcode, false, false, false, fin, payloadField size, client⟩
  match ← Prog.first (write writeFixSize (bytesOfHead head)) with
  | false => pure none
  | true => do
    match ← Prog.first (sendLength writeFixSize head.payload size) with
    | false => pure none
    | true => do
      match ← sendMask writeFixSize client randValue with
      | false => pure none
      | true => do
        let (_, msg) ← Prog.get
        match ← Prog.first (write writeFixSize msg.data) with
        | false => pure none
        -- `size + sizeof(ws_head)`, as an `int32_t`.
        | true => pure (some (intOfWord (size + 2)))

/-- `WSSendMessage` over any stream. The message is the second half of the state. -/
def WSSendMessage (client fin : Bool) (randValue : UInt32) :
    Prog Exn (σ × WSFrameMessage) Int := do
  match ← sendFrame writeFixSize client fin randValue with
  | some v => pure v
  | none => do
    Prog.first close
    pure (-1)

end AnyStream

/-- `SocketStream::writeFixSize`. -/
def socketWriteFixSize (bytes : List UInt8) : Prog Exn Socket Int :=
  Stream.writeFixSize (SocketStream.write bytes) (bytes.length + 1) bytes.length

/-- `SocketStream::close`. -/
def socketClose : Prog Exn Socket Unit := Prog.modify (fun s => { s with connected := false })

/-- `WSSendMessage` over a socket. -/
def WSSendMessage (client fin : Bool) (randValue : UInt32) :
    Prog Exn (Socket × WSFrameMessage) Int :=
  AnyStream.WSSendMessage socketWriteFixSize socketClose client fin randValue

end WebSocket

end YkServer
