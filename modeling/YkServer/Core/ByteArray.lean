import YkServer.Lib.Prog
import YkServer.Lib.Overwrite
import YkServer.Lib.Encoding
import YkServer.Lib.Word

/-!
# The Chunked Byte Array

The model of `yk/bytearray.cc`: a byte buffer kept as a chain of nodes of one
size, with a cursor, a size and a cached pointer to the node the cursor is in.

The chain is a list and `m_cur` is an index into it, `none` standing for the
null pointer; `next` of the last node is null. A node is its memory block, so
its `size` field is the length of the block. Following a null pointer is
undefined behaviour and ends a program in `fault`. Each copy loop of the source
moves to the next node in every round but its last, so it is a recursion along
the chain that starts at `m_cur`.

`new char[]` hands out memory that nobody has initialised. The `heap` field is
that memory, an arbitrary supply of bytes which every allocation takes its
block from, so a statement about all runs is a statement about all contents of
fresh memory. Allocation itself is taken to succeed.

Floating point values travel as their bit patterns, the `memcpy` of the source.

## Main definitions

* `Node`: A memory block of the chain.
* `Exn`: The exceptions the model can throw.
* `ByteArray`: The buffer.
* `ByteArray.addCapacity`: Growing the chain.
* `ByteArray.write`, `ByteArray.read`: Copying bytes in and out at the cursor.
* `ByteArray.readAt`: The `read` that takes a position.
* `ByteArray.setPosition`: Moving the cursor.
* `ByteArray.getReadBuffers`, `ByteArray.getReadBuffersAt`,
  `ByteArray.getWriteBuffers`: The scatter and gather lists.
* `ByteArray.writeToFile`, `ByteArray.readFromFile`: The data as a file.
* `ByteArray.Op`, `ByteArray.perform`: The public operations as one type.
-/

namespace YkServer

open Lib

/-- Byte orders: `YK_LITTLE_ENDIAN` and `YK_BIG_ENDIAN`. -/
inductive Endian where
  | little
  | big
  deriving DecidableEq, Repr

/-- `YK_BYTE_ORDER` on the machines the build is for. -/
def hostOrder : Endian := .little

/-- The exceptions of the modelled code. -/
inductive Exn where
  | outOfRange (what : String)
  | lengthError
  deriving DecidableEq, Repr

/-- A node of the chain: the memory block `ptr` points at. -/
structure Node where
  ptr : List UInt8
  deriving DecidableEq, Repr

/-- The size of the block. -/
def Node.size (n : Node) : Nat := n.ptr.length

/-- `new Node(s)`: a block of `s` bytes of whatever the memory holds. -/
def Node.alloc (heap : Nat → UInt8) (s : Nat) : Node := ⟨(List.range s).map heap⟩

/-- The byte array. `nodes` is the chain that starts at `m_root`. -/
structure ByteArray where
  baseSize : Nat
  position : Nat
  capacity : Nat
  size : Nat
  endian : Endian
  nodes : List Node
  cur : Option Nat
  heap : Nat → UInt8

/-- One entry of a scatter or gather list: `iov_base` is a node and an offset
    into its block. -/
structure Iovec where
  node : Nat
  off : Nat
  len : Nat
  deriving DecidableEq, Repr

namespace ByteArray

/-- The constructor. -/
def new (baseSize : Nat) (heap : Nat → UInt8) : ByteArray :=
  { baseSize := baseSize, position := 0, capacity := baseSize, size := 0, endian := .big,
    nodes := [Node.alloc heap baseSize], cur := some 0, heap := fun i => heap (i + baseSize) }

/-- A pointer to the node with the given index, null past the end. -/
def link (s : ByteArray) (i : Nat) : Option Nat :=
  if i < s.nodes.length then some i else none

/-- The chain that starts at `m_cur`, empty when it is null. -/
def chain (s : ByteArray) : List Node :=
  match s.cur with
  | none => []
  | some i => s.nodes.drop i

/-- `m_cur` moved along `k` links. -/
def advance (s : ByteArray) (k : Nat) : Option Nat :=
  match s.cur with
  | none => none
  | some i => s.link (i + k)

def getReadSize (s : ByteArray) : Nat := s.size - s.position

def getCapacity (s : ByteArray) : Nat := s.capacity - s.position

def isLittleEndian (s : ByteArray) : Bool := s.endian == .little

def setIsLittleEndian (val : Bool) : Prog Exn ByteArray Unit := fun s =>
  .ok () { s with endian := if val then .little else .big }

/-- `m_position = m_size = 0` and every node but the root is deleted. -/
def clear : Prog Exn ByteArray Unit := fun s =>
  .ok () { s with position := 0, size := 0, capacity := s.baseSize, nodes := s.nodes.take 1,
                  cur := some 0 }

/-- The allocation loop of `addCapacity`: append `count` nodes. -/
def appendNodes : Nat → ByteArray → ByteArray
  | 0, s => s
  | count + 1, s => appendNodes count
      { s with nodes := s.nodes ++ [Node.alloc s.heap s.baseSize],
               capacity := s.capacity + s.baseSize,
               heap := fun i => s.heap (i + s.baseSize) }

/-- Make room for `size` bytes at the cursor. A cursor that sat at the very end
    has a null `m_cur`, which the first new node repairs. -/
def addCapacity (s : ByteArray) (size : Nat) : ByteArray :=
  if size = 0 then s
  else
    let oldCap := s.getCapacity
    if size ≤ oldCap then s
    else
      -- `ceil(1.0 * size / m_baseSize)`
      let count := (size - oldCap + s.baseSize - 1) / s.baseSize
      let s' := appendNodes count s
      if oldCap = 0 then { s' with cur := s'.link s.nodes.length } else s'

/-- The copy loop of `write`, along the chain from `m_cur`: the chain with the
    bytes stored and the number of links `m_cur` was moved. -/
def copyIn : List Node → Nat → List UInt8 → Option (List Node × Nat)
  | [], _, _ => none
  | n :: rest, npos, buf =>
    let ncap := n.size - npos
    -- The rest of the buffer fits: the last round, which moves on only if it fills the
    -- node.
    if buf.length ≤ ncap then
      some (⟨overwrite n.ptr npos buf⟩ :: rest, if n.size = npos + buf.length then 1 else 0)
    else
      -- The node is filled up and the loop goes on at the start of the next one.
      match copyIn rest 0 (buf.drop ncap) with
      | none => none
      | some (rest', k) => some (⟨overwrite n.ptr npos (buf.take ncap)⟩ :: rest', k + 1)

/-- Store `buf` at the cursor and move past it. -/
def write (buf : List UInt8) : Prog Exn ByteArray Unit := fun s =>
  if buf.length = 0 then .ok () s
  else
    let s := s.addCapacity buf.length
    match s.cur with
    | none => .fault
    | some i =>
      match copyIn (s.nodes.drop i) (s.position % s.baseSize) buf with
      | none => .fault
      | some (chain, k) =>
        let position := s.position + buf.length
        .ok () { s with nodes := s.nodes.take i ++ chain, cur := s.link (i + k),
                        position := position,
                        size := if s.size < position then position else s.size }

/-- The copy loop of `read`: the bytes and the number of links moved. The
    current node is looked at even when there is nothing to copy. -/
def copyOut : List Node → Nat → Nat → Option (List UInt8 × Nat)
  | [], _, _ => none
  | n :: rest, npos, size =>
    let ncap := n.size - npos
    -- `m_cur->size` has been read by now, so an empty chain was undefined before this.
    if size = 0 then some ([], 0)
    else if size ≤ ncap then
      some ((n.ptr.drop npos).take size, if n.size = npos + size then 1 else 0)
    else
      match copyOut rest 0 (size - ncap) with
      | none => none
      | some (bs, k) => some ((n.ptr.drop npos).take ncap ++ bs, k + 1)

/-- Read `size` bytes at the cursor and move past them. -/
def read (size : Nat) : Prog Exn ByteArray (List UInt8) := fun s =>
  if s.getReadSize < size then .throw (.outOfRange "not enough len") s
  else
    match copyOut s.chain (s.position % s.baseSize) size with
    | none => .fault
    | some (bs, k) => .ok bs { s with position := s.position + size, cur := s.advance k }

/-- The `read` with a position. It measures the distance in `size_t` and walks
    from `m_cur`, whatever the position is. -/
def readAt (size position : Nat) : Prog Exn ByteArray (List UInt8) := fun s =>
  if subWord s.size position < size then .throw (.outOfRange "not enough len") s
  else
    match copyOut s.chain (position % s.baseSize) size with
    | none => .fault
    | some (bs, _) => .ok bs s

/-- The walk of `setPosition` from the root: the number of links to follow. -/
def seek : List Node → Nat → Option Nat
  | [], _ => none
  | n :: rest, v =>
    if n.size < v then
      match seek rest (v - n.size) with
      -- `m_cur` is followed before it is compared again, so running off the chain is
      -- undefined.
      | none => none
      | some k => some (k + 1)
    else some (if v = n.size then 1 else 0)

/-- Move the cursor, anywhere up to the capacity. -/
def setPosition (v : Nat) : Prog Exn ByteArray Unit := fun s =>
  if s.capacity < v then .throw (.outOfRange "set_position out of range") s
  else
    let s := { s with position := v, size := if s.size < v then v else s.size }
    match seek s.nodes v with
    | none => .fault
    | some k => .ok () { s with cur := s.link k }

/-- The bytes from the cursor to the end of the data. -/
def toString : Prog Exn ByteArray (List UInt8) := fun s =>
  if s.getReadSize = 0 then .ok [] s else readAt s.getReadSize s.position s

/-- The loop of the buffer lists, along the chain from a node with index `i`. -/
def segments : List Node → Nat → Nat → Nat → Option (List Iovec)
  | [], _, _, _ => none
  | n :: rest, i, npos, len =>
    let ncap := n.size - npos
    if len ≤ ncap then some [⟨i, npos, len⟩]
    else
      match segments rest (i + 1) 0 (len - ncap) with
      | none => none
      | some iovs => some (⟨i, npos, ncap⟩ :: iovs)

/-- The readable bytes at the cursor, at most `len`, as a list of segments. -/
def getReadBuffers (len : Nat) : Prog Exn ByteArray (Nat × List Iovec) := fun s =>
  let len := if s.getReadSize < len then s.getReadSize else len
  if len = 0 then .ok (0, []) s
  else
    match s.cur with
    | none => .fault
    | some i =>
      match segments (s.nodes.drop i) i (s.position % s.baseSize) len with
      | none => .fault
      | some iovs => .ok (len, iovs) s

/-- The same from a given position. The length is still cut to what is readable
    at the cursor. -/
def getReadBuffersAt (len position : Nat) : Prog Exn ByteArray (Nat × List Iovec) := fun s =>
  let len := if s.getReadSize < len then s.getReadSize else len
  if len = 0 then .ok (0, []) s
  else
    let count := position / s.baseSize
    match segments (s.nodes.drop count) count (position % s.baseSize) len with
    | none => .fault
    | some iovs => .ok (len, iovs) s

/-- Memory for `len` bytes at the cursor, growing the chain where needed. -/
def getWriteBuffers (len : Nat) : Prog Exn ByteArray (Nat × List Iovec) := fun s =>
  if len = 0 then .ok (0, []) s
  else
    let s := s.addCapacity len
    match s.cur with
    | none => .fault
    | some i =>
      match segments (s.nodes.drop i) i (s.position % s.baseSize) len with
      | none => .fault
      | some iovs => .ok (len, iovs) s

/-- The bytes a gather list points at, in order. -/
def gather (ns : List Node) : List Iovec → List UInt8
  | [] => []
  | v :: vs =>
    (match ns[v.node]? with
      | none => []
      | some n => (n.ptr.drop v.off).take v.len) ++ gather ns vs

/-- Fill the memory a scatter list points at with `data`, front to back. -/
def scatter : List Iovec → List UInt8 → List Node → List Node
  | [], _, ns => ns
  | v :: vs, data, ns =>
    scatter vs (data.drop v.len)
      (ns.modify v.node (fun n => ⟨overwrite n.ptr v.off (data.take v.len)⟩))

/-! ## Fixed size integers -/

/-- The body of the fixed size writers: the value's `k` bytes, swapped when the
    array's order is not the machine's. -/
def writeFixed (k value : Nat) : Prog Exn ByteArray Unit := fun s =>
  let bytes := leBytes k value
  write (if s.endian ≠ hostOrder then bytes.reverse else bytes) s

def writeFint8 (value : Int8) : Prog Exn ByteArray Unit := write [value.toUInt8]

def writeFuint8 (value : UInt8) : Prog Exn ByteArray Unit := write [value]

def writeFint16 (value : Int16) : Prog Exn ByteArray Unit := writeFixed 2 value.toUInt16.toNat

def writeFuint16 (value : UInt16) : Prog Exn ByteArray Unit := writeFixed 2 value.toNat

def writeFint32 (value : Int32) : Prog Exn ByteArray Unit := writeFixed 4 value.toUInt32.toNat

def writeFuint32 (value : UInt32) : Prog Exn ByteArray Unit := writeFixed 4 value.toNat

def writeFint64 (value : Int64) : Prog Exn ByteArray Unit := writeFixed 8 value.toUInt64.toNat

def writeFuint64 (value : UInt64) : Prog Exn ByteArray Unit := writeFixed 8 value.toNat

/-- The body of the fixed size readers, the `XX` macro. -/
def readFixed (k : Nat) : Prog Exn ByteArray Nat := do
  let bytes ← read k
  let s ← Prog.get
  pure (leValue (if s.endian = hostOrder then bytes else bytes.reverse))

def readFuint8 : Prog Exn ByteArray UInt8 := do
  let bytes ← read 1
  pure (UInt8.ofNat (leValue bytes))

def readFint8 : Prog Exn ByteArray Int8 := do
  let bytes ← read 1
  pure (UInt8.ofNat (leValue bytes)).toInt8

def readFuint16 : Prog Exn ByteArray UInt16 := do
  let v ← readFixed 2
  pure (UInt16.ofNat v)

def readFint16 : Prog Exn ByteArray Int16 := do
  let v ← readFixed 2
  pure (UInt16.ofNat v).toInt16

def readFuint32 : Prog Exn ByteArray UInt32 := do
  let v ← readFixed 4
  pure (UInt32.ofNat v)

def readFint32 : Prog Exn ByteArray Int32 := do
  let v ← readFixed 4
  pure (UInt32.ofNat v).toInt32

def readFuint64 : Prog Exn ByteArray UInt64 := do
  let v ← readFixed 8
  pure (UInt64.ofNat v)

def readFint64 : Prog Exn ByteArray Int64 := do
  let v ← readFixed 8
  pure (UInt64.ofNat v).toInt64

/-- `writeFloat`, given the bits of the value. -/
def writeFloat (bits : UInt32) : Prog Exn ByteArray Unit := writeFuint32 bits

/-- `writeDouble`, given the bits of the value. -/
def writeDouble (bits : UInt64) : Prog Exn ByteArray Unit := writeFuint64 bits

def readFloat : Prog Exn ByteArray UInt32 := readFuint32

def readDouble : Prog Exn ByteArray UInt64 := readFuint64

/-! ## Variable length integers -/

/-- The body of the varint writers, with a scratch array `tmp[room]`. -/
def writeVarint (room value : Nat) : Prog Exn ByteArray Unit :=
  match encode128 room value with
  | none => Prog.undef
  | some tmp => write tmp

def writeUint32 (value : UInt32) : Prog Exn ByteArray Unit := writeVarint 5 value.toNat

def writeUint64 (value : UInt64) : Prog Exn ByteArray Unit := writeVarint 10 value.toNat

def encodeZigzag32 (v : Int32) : UInt32 :=
  if v < 0 then (-v).toUInt32 * 2 - 1 else (v * 2).toUInt32

def encodeZigzag64 (v : Int64) : UInt64 :=
  if v < 0 then (-v).toUInt64 * 2 - 1 else (v * 2).toUInt64

def decodeZigzag32 (v : UInt32) : Int32 := ((v >>> 1) ^^^ (0 - (v &&& 1))).toInt32

def decodeZigzag64 (v : UInt64) : Int64 := ((v >>> 1) ^^^ (0 - (v &&& 1))).toInt64

def writeInt32 (value : Int32) : Prog Exn ByteArray Unit := writeUint32 (encodeZigzag32 value)

def writeInt64 (value : Int64) : Prog Exn ByteArray Unit := writeUint64 (encodeZigzag64 value)

/-- The body of the varint readers: `n` rounds at most, from shift `i`, into a
    result of `w` bits. -/
def readVarint (w : Nat) : Nat → Nat → Nat → Prog Exn ByteArray Nat
  | 0, _, result => pure result
  | n + 1, i, result => do
    let b ← readFuint8
    if b < 0x80 then pure (result ||| (b.toNat <<< i) % 2 ^ w)
    else readVarint w n (i + 7) (result ||| ((b &&& 0x7f).toNat <<< i) % 2 ^ w)

/-- Five rounds: `i = 0, 7, 14, 21, 28`. -/
def readUint32 : Prog Exn ByteArray UInt32 := do
  let v ← readVarint 32 5 0 0
  pure (UInt32.ofNat v)

/-- Ten rounds: `i = 0, 7, ..., 63`. -/
def readUint64 : Prog Exn ByteArray UInt64 := do
  let v ← readVarint 64 10 0 0
  pure (UInt64.ofNat v)

def readInt32 : Prog Exn ByteArray Int32 := do
  let v ← readUint32
  pure (decodeZigzag32 v)

def readInt64 : Prog Exn ByteArray Int64 := do
  let v ← readUint64
  pure (decodeZigzag64 v)

/-! ## Strings -/

def writeStringF16 (value : List UInt8) : Prog Exn ByteArray Unit := do
  writeFuint16 (UInt16.ofNat value.length)
  write value

def writeStringF32 (value : List UInt8) : Prog Exn ByteArray Unit := do
  writeFuint32 (UInt32.ofNat value.length)
  write value

def writeStringF64 (value : List UInt8) : Prog Exn ByteArray Unit := do
  writeFuint64 (UInt64.ofNat value.length)
  write value

def writeStringVint (value : List UInt8) : Prog Exn ByteArray Unit := do
  writeUint64 (UInt64.ofNat value.length)
  write value

def writeStringWithoutLength (value : List UInt8) : Prog Exn ByteArray Unit := write value

/-- `std::string::max_size()`. -/
def maxStringSize : Nat := 2 ^ 62 - 1

/-- The tail of the string readers: `buff.resize(len)` and the read into it. -/
def readString (len : Nat) : Prog Exn ByteArray (List UInt8) :=
  if maxStringSize < len then Prog.raise .lengthError else read len

def readStringF16 : Prog Exn ByteArray (List UInt8) := do
  let len ← readFuint16
  readString len.toNat

def readStringF32 : Prog Exn ByteArray (List UInt8) := do
  let len ← readFuint32
  readString len.toNat

def readStringF64 : Prog Exn ByteArray (List UInt8) := do
  let len ← readFuint64
  readString len.toNat

def readStringVint : Prog Exn ByteArray (List UInt8) := do
  let len ← readUint64
  readString len.toNat

/-! ## Files -/

/-- The loop of `writeToFile`, along the chain from a node with index `i`: what is
    handed to `ofs.write`, as segments. The offset in the node is narrowed to an
    `int`. A length below zero, or a pointer before the block, is undefined. -/
def dump (baseSize : Nat) : List Node → Nat → Nat → Nat → Option (List Iovec)
  | [], _, _, readSize => if readSize = 0 then some [] else none
  | _ :: rest, i, pos, readSize =>
    if readSize = 0 then some []
    else
      let diff := intOfWord (pos % baseSize)
      let len : Int := ((if baseSize < readSize then baseSize else readSize : Nat) : Int) - diff
      if diff < 0 ∨ len < 0 then none
      else
        match dump baseSize rest (i + 1) (pos + len.toNat) (readSize - len.toNat) with
        | none => none
        | some iovs => some (⟨i, diff.toNat, len.toNat⟩ :: iovs)

/-- `writeToFile`, given whether the file could be opened: its answer and what it
    wrote. -/
def writeToFile (opened : Bool) : Prog Exn ByteArray (Bool × List Iovec) := fun s =>
  if opened then
    match dump s.baseSize s.chain (s.cur.getD 0) s.position s.getReadSize with
    | none => .fault
    | some iovs => .ok (true, iovs) s
  else .ok (false, []) s

/-- `readFromFile`, given the content of the file: blocks of `m_baseSize` bytes
    until one comes short. `fuel` bounds the number of blocks. -/
def readFromFile : Nat → List UInt8 → Prog Exn ByteArray Unit
  | 0, _ => fun _ => .hang
  | fuel + 1, content => do
    let s ← Prog.get
    write (content.take s.baseSize)
    if content.length < s.baseSize then pure ()
    else readFromFile fuel (content.drop s.baseSize)

/-! ## The public operations -/

/-- The public operations that can move the cursor, the size, the chain or the
    byte order, and the buffer lists. -/
inductive Op where
  | write (buf : List UInt8)
  | writeFint8 (v : Int8)
  | writeFuint8 (v : UInt8)
  | writeFint16 (v : Int16)
  | writeFuint16 (v : UInt16)
  | writeFint32 (v : Int32)
  | writeFuint32 (v : UInt32)
  | writeFint64 (v : Int64)
  | writeFuint64 (v : UInt64)
  | writeInt32 (v : Int32)
  | writeUint32 (v : UInt32)
  | writeInt64 (v : Int64)
  | writeUint64 (v : UInt64)
  | writeFloat (bits : UInt32)
  | writeDouble (bits : UInt64)
  | writeStringF16 (v : List UInt8)
  | writeStringF32 (v : List UInt8)
  | writeStringF64 (v : List UInt8)
  | writeStringVint (v : List UInt8)
  | writeStringWithoutLength (v : List UInt8)
  | read (size : Nat)
  | readAt (size position : Nat)
  | readFint8
  | readFuint8
  | readFint16
  | readFuint16
  | readFint32
  | readFuint32
  | readFint64
  | readFuint64
  | readInt32
  | readUint32
  | readInt64
  | readUint64
  | readFloat
  | readDouble
  | readStringF16
  | readStringF32
  | readStringF64
  | readStringVint
  | readFromFile (fuel : Nat) (content : List UInt8)
  | setPosition (v : Nat)
  | setIsLittleEndian (val : Bool)
  | clear
  | toString
  | getReadBuffers (len : Nat)
  | getReadBuffersAt (len position : Nat)
  | getWriteBuffers (len : Nat)

/-- Run a program for its effect. -/
def effect {α : Type} (m : Prog Exn ByteArray α) : Prog Exn ByteArray Unit := do
  let _ ← m
  pure ()

/-- Carry out a public operation. -/
def perform : Op → Prog Exn ByteArray Unit
  | .write buf => ByteArray.write buf
  | .writeFint8 v => ByteArray.writeFint8 v
  | .writeFuint8 v => ByteArray.writeFuint8 v
  | .writeFint16 v => ByteArray.writeFint16 v
  | .writeFuint16 v => ByteArray.writeFuint16 v
  | .writeFint32 v => ByteArray.writeFint32 v
  | .writeFuint32 v => ByteArray.writeFuint32 v
  | .writeFint64 v => ByteArray.writeFint64 v
  | .writeFuint64 v => ByteArray.writeFuint64 v
  | .writeInt32 v => ByteArray.writeInt32 v
  | .writeUint32 v => ByteArray.writeUint32 v
  | .writeInt64 v => ByteArray.writeInt64 v
  | .writeUint64 v => ByteArray.writeUint64 v
  | .writeFloat v => ByteArray.writeFloat v
  | .writeDouble v => ByteArray.writeDouble v
  | .writeStringF16 v => ByteArray.writeStringF16 v
  | .writeStringF32 v => ByteArray.writeStringF32 v
  | .writeStringF64 v => ByteArray.writeStringF64 v
  | .writeStringVint v => ByteArray.writeStringVint v
  | .writeStringWithoutLength v => ByteArray.writeStringWithoutLength v
  | .read size => effect (ByteArray.read size)
  | .readAt size position => effect (ByteArray.readAt size position)
  | .readFint8 => effect ByteArray.readFint8
  | .readFuint8 => effect ByteArray.readFuint8
  | .readFint16 => effect ByteArray.readFint16
  | .readFuint16 => effect ByteArray.readFuint16
  | .readFint32 => effect ByteArray.readFint32
  | .readFuint32 => effect ByteArray.readFuint32
  | .readFint64 => effect ByteArray.readFint64
  | .readFuint64 => effect ByteArray.readFuint64
  | .readInt32 => effect ByteArray.readInt32
  | .readUint32 => effect ByteArray.readUint32
  | .readInt64 => effect ByteArray.readInt64
  | .readUint64 => effect ByteArray.readUint64
  | .readFloat => effect ByteArray.readFloat
  | .readDouble => effect ByteArray.readDouble
  | .readStringF16 => effect ByteArray.readStringF16
  | .readStringF32 => effect ByteArray.readStringF32
  | .readStringF64 => effect ByteArray.readStringF64
  | .readStringVint => effect ByteArray.readStringVint
  | .readFromFile fuel content => ByteArray.readFromFile fuel content
  | .setPosition v => ByteArray.setPosition v
  | .setIsLittleEndian val => ByteArray.setIsLittleEndian val
  | .clear => ByteArray.clear
  | .toString => effect ByteArray.toString
  | .getReadBuffers len => effect (ByteArray.getReadBuffers len)
  | .getReadBuffersAt len position => effect (ByteArray.getReadBuffersAt len position)
  | .getWriteBuffers len => effect (ByteArray.getWriteBuffers len)

end ByteArray

end YkServer
