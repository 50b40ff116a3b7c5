import YkServer.Core.Socket

/-!
# Rock Messages

The model of `rock/rock_protocol.cc` and of the serialisation in
`yk/protocol.cc`: requests, responses and notifications as a frame of an eight
byte header and a body.

The header is a C structure that is read and written as memory: two bytes of
magic, a version, flags and a 32-bit length in network order. The length is an
`int32_t`. It is compared with the configured maximum as an unsigned number and
handed to `readFixSize` as a `size_t`, so a negative length becomes a huge one.
The body is a byte array with nodes of the default size.

Exceptions thrown while a message is put together or taken apart are caught, and
the caller sees `false` or a null message. Following a null pointer is not an
exception. The fixed size loops get a round for every byte and one more, which is
enough as long as calls do not fail.

## Main definitions

* `RockMessage`: The three kinds of messages.
* `RockMessage.serializeToByteArray`, `Rock.parseFromByteArray`: The body.
* `Rock.serializeTo`, `Rock.parseFrom`: The frame.
* `Rock.sendAll`, `Rock.receiveAll`: Message after message.
-/

namespace YkServer

open Lib

/-- `RockRequest`, `RockResponse` and `RockNotify`. -/
inductive RockMessage where
  | request (sn cmd : UInt32) (body : List UInt8)
  | response (sn cmd result : UInt32) (resultStr body : List UInt8)
  | notify (code : UInt32) (body : List UInt8)
  deriving DecidableEq, Repr

namespace RockMessage

/-- `getType()`. -/
def getType : RockMessage → UInt8
  | .request _ _ _ => 1
  | .response _ _ _ _ _ => 2
  | .notify _ _ => 3

/-- `Request::`, `Response::` and `Notify::serializeToByteArray`, each followed by
    `RockBody::serializeToByteArray`. -/
def serialize : RockMessage → Prog Exn ByteArray Unit
  | m@(.request sn cmd body) => do
    ByteArray.writeFuint8 m.getType
    ByteArray.writeUint32 sn
    ByteArray.writeUint32 cmd
    ByteArray.writeStringVint body
  | m@(.response sn cmd result resultStr body) => do
    ByteArray.writeFuint8 m.getType
    ByteArray.writeUint32 sn
    ByteArray.writeUint32 cmd
    ByteArray.writeUint32 result
    ByteArray.writeStringVint resultStr
    ByteArray.writeStringVint body
  | m@(.notify code body) => do
    ByteArray.writeFuint8 m.getType
    ByteArray.writeUint32 code
    ByteArray.writeStringVint body

/-- `serializeToByteArray`: whatever is thrown becomes `false`. -/
def serializeToByteArray (m : RockMessage) : Prog Exn ByteArray Bool := do
  match ← Prog.attempt m.serialize with
  | .ok () => pure true
  | .error _ => pure false

end RockMessage

namespace Rock

/-- `Request::parseFromByteArray` and `RockBody::parseFromByteArray`. -/
def parseRequest : Prog Exn ByteArray RockMessage := do
  let sn ← ByteArray.readUint32
  let cmd ← ByteArray.readUint32
  let body ← ByteArray.readStringVint
  pure (.request sn cmd body)

/-- `Response::parseFromByteArray` and `RockBody::parseFromByteArray`. -/
def parseResponse : Prog Exn ByteArray RockMessage := do
  let sn ← ByteArray.readUint32
  let cmd ← ByteArray.readUint32
  let result ← ByteArray.readUint32
  let resultStr ← ByteArray.readStringVint
  let body ← ByteArray.readStringVint
  pure (.response sn cmd result resultStr body)

/-- `Notify::parseFromByteArray` and `RockBody::parseFromByteArray`. -/
def parseNotify : Prog Exn ByteArray RockMessage := do
  let code ← ByteArray.readUint32
  let body ← ByteArray.readStringVint
  pure (.notify code body)

/-- `parseFromByteArray`: whatever is thrown becomes a null message. -/
def parseFromByteArray (parse : Prog Exn ByteArray RockMessage) :
    Prog Exn ByteArray (Option RockMessage) := do
  match ← Prog.attempt parse with
  | .ok m => pure (some m)
  | .error _ => pure none

/-- The `switch` over the type. -/
def parseTyped (type : UInt8) : Prog Exn ByteArray (Option RockMessage) :=
  if type = 1 then parseFromByteArray parseRequest
  else if type = 2 then parseFromByteArray parseResponse
  else if type = 3 then parseFromByteArray parseNotify
  else pure none

/-- `sizeof(RockMsgHeader)`. -/
def headerSize : Nat := 8

/-- The memory of a `RockMsgHeader` with magic, version, no flags and a length
    that was converted to `int32_t` and swapped. -/
def header (length : Nat) : List UInt8 :=
  [0xab, 0xcd, 1, 0] ++ (leBytes 4 (length % 2 ^ 32)).reverse

/-- `header.length`, swapped back: an `int32_t`. -/
def headerLength (h : List UInt8) : Int := intOfWord (leValue ((h.drop 4).take 4).reverse)

/-- The default size of a node. -/
def baseSize : Nat := 4096

/-- What `parseFrom` does with the bytes of the body. -/
def parseMessage : Prog Exn ByteArray (Option RockMessage) := do
  ByteArray.setPosition 0
  let type ← ByteArray.readFuint8
  parseTyped type

/-- The body of `parseFrom` from where the byte array is made. -/
def parseBody (length : Nat) : Prog Exn (Socket × ByteArray) (Option RockMessage) := do
  let rt ← Stream.readFixSizeBytes SocketStream.readBytes (length + 1) length
  if rt ≤ 0 then pure none
  else Prog.second parseMessage

/-- What `parseFrom` tests in a header, and the length of the body as a `size_t`. `maxLength` is
    the setting `rock.protocol.max_length`. -/
def bodyLength (maxLength : UInt32) (h : List UInt8) : Option Nat :=
  if h.take 2 ≠ [0xab, 0xcd] then none
  else if h[2]? ≠ some 0x1 then none
  else
    let length := headerLength h
    -- `(uint32_t)header.length`
    if maxLength.toNat ≤ wordOfInt length % 2 ^ 32 then none
    -- The negative length converts to `size_t`; only the low half of it was compared.
    else some (wordOfInt length)

/-- The body of `parseFrom` with the header in hand. `heap` is what fresh memory holds. -/
def parseHeader (maxLength : UInt32) (heap : Nat → UInt8) (h : List UInt8) :
    Prog Exn Socket (Option RockMessage) :=
  match bodyLength maxLength h with
  | none => pure none
  | some length => do
    let (msg, _) ← Prog.within (ByteArray.new baseSize heap) (parseBody length)
    pure msg

/-- The body of `parseFrom` inside its `try`. -/
def parseFrame (maxLength : UInt32) (heap : Nat → UInt8) :
    Prog Exn Socket (Option RockMessage) := do
  let (rt, h) ← Prog.within (header 0)
    (Stream.readFixSize SocketStream.read (headerSize + 1) headerSize)
  if rt ≤ 0 then pure none
  else parseHeader maxLength heap h

/-- `RockMessageDecoder::parseFrom`. -/
def parseFrom (maxLength : UInt32) (heap : Nat → UInt8) : Prog Exn Socket (Option RockMessage) := do
  match ← Prog.attempt (parseFrame maxLength heap) with
  | .ok msg => pure msg
  | .error _ => pure none

/-- `toByteArray`, and `setPosition(0)`. -/
def toByteArray (msg : RockMessage) : Prog Exn ByteArray Unit := do
  let done ← msg.serializeToByteArray
  -- `toByteArray` returns null otherwise, and `ba->setPosition` follows it.
  if ¬done then Prog.undef
  else ByteArray.setPosition 0

/-- The body of `serializeTo`, with the byte array of `toByteArray`. -/
def sendFrame (msg : RockMessage) : Prog Exn (Socket × ByteArray) Int := do
  Prog.second (toByteArray msg)
  let (_, ba) ← Prog.get
  let rt ← Prog.first (Stream.writeFixSize (SocketStream.write (header ba.size))
    (headerSize + 1) headerSize)
  if rt ≤ 0 then pure (-3)
  else do
    let rt ← Stream.writeFixSizeBytes SocketStream.writeBytes (ba.getReadSize + 1)
      ba.getReadSize
    if rt ≤ 0 then pure (-4)
    else do
      let (_, ba) ← Prog.get
      pure (intOfWord (headerSize + ba.size))

/-- `RockMessageDecoder::serializeTo`. -/
def serializeTo (heap : Nat → UInt8) (msg : RockMessage) : Prog Exn Socket Int := do
  let (rt, _) ← Prog.within (ByteArray.new baseSize heap) (sendFrame msg)
  pure rt

/-- Write messages one after the other; `heaps i` is what fresh memory holds for
    the `i`-th of them. -/
def sendAll (heaps : Nat → Nat → UInt8) : List RockMessage → Prog Exn Socket (List Int)
  | [] => pure []
  | m :: ms => do
    let rt ← serializeTo (heaps 0) m
    let rts ← sendAll (fun i => heaps (i + 1)) ms
    pure (rt :: rts)

/-- Read `n` messages one after the other. -/
def receiveAll (maxLength : UInt32) (heaps : Nat → Nat → UInt8) :
    Nat → Prog Exn Socket (List (Option RockMessage))
  | 0 => pure []
  | n + 1 => do
    let m ← parseFrom maxLength (heaps 0)
    let ms ← receiveAll maxLength (fun i => heaps (i + 1)) n
    pure (m :: ms)

end Rock

end YkServer
