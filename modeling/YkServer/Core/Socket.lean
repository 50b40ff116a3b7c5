import YkServer.Core.Stream

/-!
# Sockets and Socket Streams

The model of `yk/socket_stream.cc` and of the four `Socket` functions it calls.

The transport is reliable and in order: what is received is the next part of
`inbox`, what is sent is appended to `outbox`. How much of what was asked for one
call transfers is the transport's choice, the next number of `cut`, but at least
one byte as long as there is one, and no more than an `int` can count. A socket
whose inbox is empty has met the end of the stream and receives nothing. No call on
a connected socket fails with an error or times out.

A buffer is a list of bytes next to the socket in the state. Storing past its end
is undefined behaviour. `recvmsg` and `sendmsg` go through the segments of a byte
array in order, however many there are. A system that takes no more than `IOV_MAX`
of them, which is 1024 on Linux, refuses the list of a byte array of 4096 byte nodes
for more than 4 MiB at once.

## Main definitions

* `Socket`: One end of a connection.
* `Socket.recv`, `Socket.send`: The system calls.
* `SocketStream.read`, `SocketStream.readBytes`: Reading into a buffer and into a
  byte array.
* `SocketStream.write`, `SocketStream.writeBytes`: Writing from them.
-/

namespace YkServer

open Lib

/-- One end of a connection. -/
structure Socket where
  connected : Bool
  inbox : List UInt8
  outbox : List UInt8
  cut : Nat → Nat
  calls : Nat

namespace Socket

/-- How much the next call transfers of `n` bytes that could be. -/
def share (s : Socket) (n : Nat) : Nat := min (max 1 (min (s.cut s.calls) (2 ^ 31 - 1))) n

/-- `recv` and `recvmsg` of up to `n` bytes, in any number of segments: the result and the
    bytes. -/
def recv (n : Nat) : Prog Exn Socket (Int × List UInt8) := fun s =>
  if s.connected then
    let k := s.share (min n s.inbox.length)
    .ok (k, s.inbox.take k) { s with inbox := s.inbox.drop k, calls := s.calls + 1 }
  else .ok (-1, []) s

/-- `send` and `sendmsg` of some bytes, in any number of segments: the result. -/
def send (bytes : List UInt8) : Prog Exn Socket Int := fun s =>
  if s.connected then
    let k := s.share bytes.length
    .ok k { s with outbox := s.outbox ++ bytes.take k, calls := s.calls + 1 }
  else .ok (-1) s

end Socket

namespace SocketStream

/-- `read(void* buffer, size_t length)`, at an offset into the buffer. -/
def read (offset length : Nat) : Prog Exn (Socket × List UInt8) Int := do
  let (rt, bytes) ← Prog.first (Socket.recv length)
  let (_, buffer) ← Prog.get
  -- `recv` stores nothing when it returns 0 or an error.
  if bytes.length = 0 then pure rt
  else if buffer.length < offset + bytes.length then Prog.undef
  else do
    Prog.modify (fun s => (s.1, overwrite s.2 offset bytes))
    pure rt

/-- `read(ByteArray::ptr ba, size_t length)`. -/
def readBytes (length : Nat) : Prog Exn (Socket × ByteArray) Int := do
  let (sock, _) ← Prog.get
  if ¬sock.connected then pure (-1)
  else do
    let (_, iovs) ← Prog.second (ByteArray.getWriteBuffers length)
    let (rt, bytes) ← Prog.first (Socket.recv (iovs.map Iovec.len).sum)
    -- The scatter list points into the nodes, so the bytes are there before the cursor
    -- moves.
    Prog.modify (fun s => (s.1, { s.2 with nodes := ByteArray.scatter iovs bytes s.2.nodes }))
    if 0 < rt then do
      let (_, ba) ← Prog.get
      Prog.second (ByteArray.setPosition (ba.position + rt.toNat))
      pure rt
    else pure rt

/-- `write(const void* buffer, size_t length)`, at an offset into the buffer. -/
def write (buffer : List UInt8) (offset length : Nat) : Prog Exn Socket Int := fun s =>
  if s.connected then
    if buffer.length < offset + length then .fault
    else Socket.send ((buffer.drop offset).take length) s
  else .ok (-1) s

/-- `write(ByteArray::ptr ba, size_t length)`. -/
def writeBytes (length : Nat) : Prog Exn (Socket × ByteArray) Int := do
  let (sock, _) ← Prog.get
  if ¬sock.connected then pure (-1)
  else do
    let (_, iovs) ← Prog.second (ByteArray.getReadBuffers length)
    let (_, ba) ← Prog.get
    let rt ← Prog.first (Socket.send (ByteArray.gather ba.nodes iovs))
    if 0 < rt then do
      Prog.second (ByteArray.setPosition (ba.position + rt.toNat))
      pure rt
    else pure rt

end SocketStream

end YkServer
