import YkServer.Lib.Prog
import YkServer.Lib.Word
import YkServer.Core.ByteArray

/-!
# Fixed Size Transfers

The model of `yk/stream.cc`: the loops that call `read` or `write` until a given
number of bytes has been transferred. The virtual function they call is an
argument, a program that returns the `int` of the source.

The result goes into a `size_t`, so `offset` and `left` are words and a negative
result is a word close to `2 ^ 64`. The test `len <= 0` on a word holds for zero
only. What is returned is a word again, as an `int`.

The loops need not end, so they take a bound on the number of rounds. Where other threads
go on between two calls, a loop is its rounds, one after the other.

## Main definitions

* `Stream.fixLoop`: The loop of three of the four functions.
* `Stream.readFixSize`, `Stream.readFixSizeBytes`: Reading into a buffer and into
  a byte array.
* `Stream.writeFixSize`, `Stream.writeFixSizeBytes`: Writing from them.
* `Stream.fixRound`, `Stream.writeRound`: A round of the loops.
-/

namespace YkServer

open Lib

namespace Stream

variable {ε σ : Type}

/-- Call until nothing is left: `offset += len`, `left -= len`. -/
def fixLoop (call : Nat → Nat → Prog ε σ Int) (length : Nat) :
    Nat → Nat → Nat → Prog ε σ Int
  | 0, _, _ => fun _ => .hang
  | fuel + 1, offset, left =>
    if left = 0 then pure (intOfWord length)
    else do
      let r ← call offset left
      -- `size_t len = read(...)`: a negative result is a huge word here, so only 0 is `len
      -- <= 0`.
      let len := wordOfInt r
      if len = 0 then pure (intOfWord len)
      else fixLoop call length fuel (addWord offset len) (subWord left len)

/-- `readFixSize(void* buffer, size_t length)`; `read` is given the offset into
    the buffer and the number of bytes. -/
def readFixSize (read : Nat → Nat → Prog ε σ Int) (fuel length : Nat) : Prog ε σ Int :=
  fixLoop read length fuel 0 length

/-- `readFixSize(ByteArray::ptr ba, size_t length)`. It keeps no offset, the byte
    array has its own. -/
def readFixSizeBytes (read : Nat → Prog ε σ Int) (fuel length : Nat) : Prog ε σ Int :=
  fixLoop (fun _ left => read left) length fuel 0 length

/-- `writeFixSize(ByteArray::ptr ba, size_t length)`. -/
def writeFixSizeBytes (write : Nat → Prog ε σ Int) (fuel length : Nat) : Prog ε σ Int :=
  fixLoop (fun _ left => write left) length fuel 0 length

/-- The loop of `writeFixSize(const void* buffer, size_t length)`, which stops
    when `len` is at least what is left. -/
def writeLoop (write : Nat → Nat → Prog ε σ Int) (length : Nat) :
    Nat → Nat → Nat → Prog ε σ Int
  | 0, _, _ => fun _ => .hang
  | fuel + 1, offset, left =>
    if left = 0 then pure (intOfWord length)
    else do
      let r ← write offset left
      let len := wordOfInt r
      if len = 0 then pure (intOfWord len)
      -- A negative result is at least what is left, and counts as a complete transfer.
      else if left ≤ len then writeLoop write length fuel (addWord offset len) 0
      else writeLoop write length fuel (addWord offset len) (subWord left len)

/-- `writeFixSize(const void* buffer, size_t length)`. -/
def writeFixSize (write : Nat → Nat → Prog ε σ Int) (fuel length : Nat) : Prog ε σ Int :=
  writeLoop write length fuel 0 length

/-! ## One call at a time -/

/-- A call of `fixLoop` and what follows it up to the next one: the result of the loop, or the
    offset and what is left. -/
def fixRound (call : Nat → Nat → Prog ε σ Int) (length offset left : Nat) :
    Prog ε σ (Int ⊕ Nat × Nat) := do
  let r ← call offset left
  let len := wordOfInt r
  if len = 0 then pure (.inl (intOfWord len))
  else if subWord left len = 0 then pure (.inl (intOfWord length))
  else pure (.inr (addWord offset len, subWord left len))

/-- The same of `writeLoop`. -/
def writeRound (write : Nat → Nat → Prog ε σ Int) (length offset left : Nat) :
    Prog ε σ (Int ⊕ Nat × Nat) := do
  let r ← write offset left
  let len := wordOfInt r
  if len = 0 then pure (.inl (intOfWord len))
  else if left ≤ len then pure (.inl (intOfWord length))
  else pure (.inr (addWord offset len, subWord left len))

end Stream

end YkServer
