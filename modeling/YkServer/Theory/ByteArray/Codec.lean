import YkServer.Lib.Zigzag
import YkServer.Theory.ByteArray.Cursor

/-!
# Numbers In and Out

What a serialiser relies on: numbers that were written in some order are read back
in that order, whatever the block size and the byte order of the array.

A `Number` is a value together with the codec it is written with, and `Kind` is the
codec alone, which is all the reader knows. The bytes a number takes depend on the
byte order, and no writer and no reader changes that, so it is carried along as an
invariant of its own, apart from the bytes. With it one number is a step of the
written view when it is written and a step of the unread view when it is read, and a
sequence follows by induction.

## Main definitions

* `Number`, `Kind`: A value to write, and the type to read it as.
* `writeNumber`, `readKind`: The matching functions.
* `ordered`: The bytes of a fixed size integer in a byte order.
* `Number.bytes`: The bytes a number takes.

## Theorems

* `keeps_order_write`, `keeps_order_read`: The byte order stays.
* `writeNumber_written`, `readKind_unread`: One number.
* `writeAll_written`, `readAll_unread`: Any number of them.
* `numbers_read_back`: A fresh array written, rewound and read.
-/

namespace YkServer

open Lib

namespace ByteArray

/-- A value together with the codec it is written with: the fixed size integers,
    the bits of the floating point types, and the variable length integers. -/
inductive Number where
  | fint8 (v : Int8)
  | fuint8 (v : UInt8)
  | fint16 (v : Int16)
  | fuint16 (v : UInt16)
  | fint32 (v : Int32)
  | fuint32 (v : UInt32)
  | fint64 (v : Int64)
  | fuint64 (v : UInt64)
  | float (bits : UInt32)
  | double (bits : UInt64)
  | int32 (v : Int32)
  | uint32 (v : UInt32)
  | int64 (v : Int64)
  | uint64 (v : UInt64)
  deriving DecidableEq

/-- The codecs. -/
inductive Kind where
  | fint8
  | fuint8
  | fint16
  | fuint16
  | fint32
  | fuint32
  | fint64
  | fuint64
  | float
  | double
  | int32
  | uint32
  | int64
  | uint64
  deriving DecidableEq, Repr

/-- The codec of a number. -/
def Number.kind : Number → Kind
  | .fint8 _ => .fint8
  | .fuint8 _ => .fuint8
  | .fint16 _ => .fint16
  | .fuint16 _ => .fuint16
  | .fint32 _ => .fint32
  | .fuint32 _ => .fuint32
  | .fint64 _ => .fint64
  | .fuint64 _ => .fuint64
  | .float _ => .float
  | .double _ => .double
  | .int32 _ => .int32
  | .uint32 _ => .uint32
  | .int64 _ => .int64
  | .uint64 _ => .uint64

/-- Write a number with the function of its codec. -/
def writeNumber : Number → Prog Exn ByteArray Unit
  | .fint8 v => writeFint8 v
  | .fuint8 v => writeFuint8 v
  | .fint16 v => writeFint16 v
  | .fuint16 v => writeFuint16 v
  | .fint32 v => writeFint32 v
  | .fuint32 v => writeFuint32 v
  | .fint64 v => writeFint64 v
  | .fuint64 v => writeFuint64 v
  | .float bits => writeFloat bits
  | .double bits => writeDouble bits
  | .int32 v => writeInt32 v
  | .uint32 v => writeUint32 v
  | .int64 v => writeInt64 v
  | .uint64 v => writeUint64 v

/-- Read a number with the function of a codec. -/
def readKind : Kind → Prog Exn ByteArray Number
  | .fint8 => do return .fint8 (← readFint8)
  | .fuint8 => do return .fuint8 (← readFuint8)
  | .fint16 => do return .fint16 (← readFint16)
  | .fuint16 => do return .fuint16 (← readFuint16)
  | .fint32 => do return .fint32 (← readFint32)
  | .fuint32 => do return .fuint32 (← readFuint32)
  | .fint64 => do return .fint64 (← readFint64)
  | .fuint64 => do return .fuint64 (← readFuint64)
  | .float => do return .float (← readFloat)
  | .double => do return .double (← readDouble)
  | .int32 => do return .int32 (← readInt32)
  | .uint32 => do return .uint32 (← readUint32)
  | .int64 => do return .int64 (← readInt64)
  | .uint64 => do return .uint64 (← readUint64)

def writeAll : List Number → Prog Exn ByteArray Unit
  | [] => pure ()
  | v :: vs => do
    writeNumber v
    writeAll vs

def readAll : List Kind → Prog Exn ByteArray (List Number)
  | [] => pure []
  | k :: ks => do
    let v ← readKind k
    let vs ← readAll ks
    pure (v :: vs)

/-- The `k` bytes of a fixed size integer in a byte order. -/
def ordered (e : Endian) (k v : Nat) : List UInt8 :=
  if e ≠ hostOrder then (leBytes k v).reverse else leBytes k v

/-- The bytes a number takes in an array of a byte order. -/
def Number.bytes (e : Endian) : Number → List UInt8
  | .fint8 v => [v.toUInt8]
  | .fuint8 v => [v]
  | .fint16 v => ordered e 2 v.toUInt16.toNat
  | .fuint16 v => ordered e 2 v.toNat
  | .fint32 v => ordered e 4 v.toUInt32.toNat
  | .fuint32 v => ordered e 4 v.toNat
  | .fint64 v => ordered e 8 v.toUInt64.toNat
  | .fuint64 v => ordered e 8 v.toNat
  | .float bits => ordered e 4 bits.toNat
  | .double bits => ordered e 8 bits.toNat
  | .int32 v => varint 5 (encodeZigzag32 v).toNat
  | .uint32 v => varint 5 v.toNat
  | .int64 v => varint 10 (encodeZigzag64 v).toNat
  | .uint64 v => varint 10 v.toNat

/-! ## The sign of a variable length integer -/

theorem decodeZigzag32_encodeZigzag32 (v : Int32) : decodeZigzag32 (encodeZigzag32 v) = v := by
  have henc : (encodeZigzag32 v).toBitVec = zigzag v.toBitVec := by
    by_cases h : v < 0
    · have hslt : v.toBitVec.slt 0#32 = true := h
      rw [encodeZigzag32, if_pos h, zigzag, if_pos hslt]
      rfl
    · have hslt : ¬v.toBitVec.slt 0#32 = true := h
      rw [encodeZigzag32, if_neg h, zigzag, if_neg hslt]
      rfl
  apply Int32.toBitVec.inj
  calc (decodeZigzag32 (encodeZigzag32 v)).toBitVec
      = unzigzag (encodeZigzag32 v).toBitVec := rfl
    _ = v.toBitVec := by rw [henc, unzigzag_zigzag]

theorem decodeZigzag64_encodeZigzag64 (v : Int64) : decodeZigzag64 (encodeZigzag64 v) = v := by
  have henc : (encodeZigzag64 v).toBitVec = zigzag v.toBitVec := by
    by_cases h : v < 0
    · have hslt : v.toBitVec.slt 0#64 = true := h
      rw [encodeZigzag64, if_pos h, zigzag, if_pos hslt]
      rfl
    · have hslt : ¬v.toBitVec.slt 0#64 = true := h
      rw [encodeZigzag64, if_neg h, zigzag, if_neg hslt]
      rfl
  apply Int64.toBitVec.inj
  calc (decodeZigzag64 (encodeZigzag64 v)).toBitVec
      = unzigzag (encodeZigzag64 v).toBitVec := rfl
    _ = v.toBitVec := by rw [henc, unzigzag_zigzag]

/-! ## The byte order stays -/

/-- The array has a byte order. -/
def InOrder (e : Endian) (s : ByteArray) : Prop := s.endian = e

variable (e : Endian)

theorem addCapacity_endian (s : ByteArray) (n : Nat) : (s.addCapacity n).endian = s.endian := by
  rw [addCapacity]
  by_cases hzero : n = 0
  · rw [if_pos hzero]
  · rw [if_neg hzero]
    by_cases hroom : n ≤ s.getCapacity
    · simp only [if_pos hroom]
    · rcases appendNodes_spec ((n - s.getCapacity + s.baseSize - 1) / s.baseSize) s with
        ⟨ns, heap, hrun, -, -⟩
      simp only [if_neg hroom, hrun]
      by_cases hend : s.getCapacity = 0
      · rw [if_pos hend]
      · rw [if_neg hend]

theorem keeps_order_write (buf : List UInt8) : Keeps (InOrder e) (write buf) := by
  intro s hs
  have hgrown := addCapacity_endian s buf.length
  simp only [write]
  by_cases hnil : buf.length = 0
  · rw [if_pos hnil]
    exact hs
  · rw [if_neg hnil]
    rcases (s.addCapacity buf.length).cur with _ | i
    · trivial
    · simp only []
      rcases copyIn ((s.addCapacity buf.length).nodes.drop i)
        ((s.addCapacity buf.length).position % (s.addCapacity buf.length).baseSize) buf with
        _ | ⟨ns, k⟩
      · trivial
      · exact hgrown.trans hs

theorem keeps_order_read (n : Nat) : Keeps (InOrder e) (read n) := by
  intro s hs
  simp only [read]
  by_cases hshort : s.getReadSize < n
  · rw [if_pos hshort]
    exact hs
  · rw [if_neg hshort]
    rcases copyOut s.chain (s.position % s.baseSize) n with _ | ⟨bs, k⟩
    · trivial
    · exact hs

theorem keeps_order_setPosition (v : Nat) : Keeps (InOrder e) (setPosition v) := by
  intro s hs
  simp only [setPosition]
  by_cases hv : s.capacity < v
  · rw [if_pos hv]
    exact hs
  · rw [if_neg hv]
    rcases seek s.nodes v with _ | k
    · trivial
    · exact hs

theorem keeps_order_writeVarint (room v : Nat) : Keeps (InOrder e) (writeVarint room v) := by
  rw [writeVarint]
  rcases encode128 room v with _ | tmp
  · exact fun _ _ => trivial
  · exact keeps_order_write e tmp

theorem keeps_order_writeNumber (v : Number) : Keeps (InOrder e) (writeNumber v) := by
  have hfixed : ∀ k n, Keeps (InOrder e) (writeFixed k n) :=
    fun k n s hs => keeps_order_write e _ s hs
  cases v with
  | fint8 v => exact keeps_order_write e [v.toUInt8]
  | fuint8 v => exact keeps_order_write e [v]
  | fint16 v => exact hfixed 2 _
  | fuint16 v => exact hfixed 2 _
  | fint32 v => exact hfixed 4 _
  | fuint32 v => exact hfixed 4 _
  | fint64 v => exact hfixed 8 _
  | fuint64 v => exact hfixed 8 _
  | float bits => exact hfixed 4 _
  | double bits => exact hfixed 8 _
  | int32 v => exact keeps_order_writeVarint e 5 _
  | uint32 v => exact keeps_order_writeVarint e 5 _
  | int64 v => exact keeps_order_writeVarint e 10 _
  | uint64 v => exact keeps_order_writeVarint e 10 _

theorem keeps_order_pure {α : Type} (a : α) : Keeps (InOrder e) (pure a : Prog Exn ByteArray α) :=
  (always_pure _ a).keeps

theorem keeps_order_readFixed (k : Nat) : Keeps (InOrder e) (readFixed k) :=
  keeps_bind _ _ _ (keeps_order_read e k)
    (fun _ => keeps_bind _ _ _ (always_get _).keeps (fun _ => keeps_order_pure e _))

theorem keeps_order_readVarint (w n i r : Nat) : Keeps (InOrder e) (readVarint w n i r) := by
  induction n generalizing i r with
  | zero => exact keeps_order_pure e _
  | succ n ih =>
      refine keeps_bind _ _ _ ?_ (fun b => ?_)
      · exact keeps_bind _ _ _ (keeps_order_read e 1) (fun _ => keeps_order_pure e _)
      · by_cases hb : b < 0x80
        · simp only [if_pos hb]
          exact keeps_order_pure e _
        · simp only [if_neg hb]
          exact ih _ _

/-- A reader that only converts what another one reads. -/
theorem keeps_order_map {α β : Type} (m : Prog Exn ByteArray α) (f : α → β)
    (h : Keeps (InOrder e) m) : Keeps (InOrder e) (m >>= fun a => pure (f a)) :=
  keeps_bind _ _ _ h (fun _ => keeps_order_pure e _)

theorem keeps_order_readKind (k : Kind) : Keeps (InOrder e) (readKind k) := by
  have hbyte : ∀ {β : Type} (f : List UInt8 → β),
      Keeps (InOrder e) (read 1 >>= fun bs => pure (f bs)) :=
    fun f => keeps_order_map e _ f (keeps_order_read e 1)
  have hfixed : ∀ {β : Type} (n : Nat) (f : Nat → β),
      Keeps (InOrder e) (readFixed n >>= fun v => pure (f v)) :=
    fun n f => keeps_order_map e _ f (keeps_order_readFixed e n)
  have hvar : ∀ {β : Type} (w n : Nat) (f : Nat → β),
      Keeps (InOrder e) (readVarint w n 0 0 >>= fun v => pure (f v)) :=
    fun w n f => keeps_order_map e _ f (keeps_order_readVarint e w n 0 0)
  cases k with
  | fint8 => exact keeps_order_map e _ _ (hbyte _)
  | fuint8 => exact keeps_order_map e _ _ (hbyte _)
  | fint16 => exact keeps_order_map e _ _ (hfixed 2 _)
  | fuint16 => exact keeps_order_map e _ _ (hfixed 2 _)
  | fint32 => exact keeps_order_map e _ _ (hfixed 4 _)
  | fuint32 => exact keeps_order_map e _ _ (hfixed 4 _)
  | fint64 => exact keeps_order_map e _ _ (hfixed 8 _)
  | fuint64 => exact keeps_order_map e _ _ (hfixed 8 _)
  | float => exact keeps_order_map e _ _ (hfixed 4 _)
  | double => exact keeps_order_map e _ _ (hfixed 8 _)
  | int32 => exact keeps_order_map e _ _ (keeps_order_map e _ _ (hvar 32 5 _))
  | uint32 => exact keeps_order_map e _ _ (hvar 32 5 _)
  | int64 => exact keeps_order_map e _ _ (keeps_order_map e _ _ (hvar 64 10 _))
  | uint64 => exact keeps_order_map e _ _ (hvar 64 10 _)

/-- A program that returns and keeps the byte order. -/
theorem endian_of_keeps {α : Type} (m : Prog Exn ByteArray α) (s s' : ByteArray) (a : α)
    (h : ∀ e, Keeps (InOrder e) m) (hrun : m s = .ok a s') : s'.endian = s.endian := by
  have hend := h s.endian s rfl
  rw [hrun] at hend
  exact hend

/-! ## One number -/

theorem length_ordered (k v : Nat) : (ordered e k v).length = k := by
  by_cases he : e ≠ hostOrder
  · rw [ordered, if_pos he, List.length_reverse, length_leBytes]
  · rw [ordered, if_neg he, length_leBytes]

theorem writeFixed_written (k v : Nat) (s : ByteArray) (bs : List UInt8) (h : Written s bs) :
    ∃ s', writeFixed k v s = .ok () s' ∧ Written s' (bs ++ ordered s.endian k v) :=
  write_written s bs (ordered s.endian k v) h

/-- A fixed size integer reads back: the swap is undone by the swap. -/
theorem readFixed_unread (k v : Nat) (hk : 0 < k) (hv : v < 256 ^ k) (s : ByteArray)
    (rest : List UInt8) (h : Unread s (ordered s.endian k v ++ rest)) :
    ∃ s', readFixed k s = .ok v s' ∧ Unread s' rest ∧ s'.position = s.position + k ∧
      s'.capacity = s.capacity := by
  have hlen := length_ordered s.endian k v
  have hne : ordered s.endian k v ≠ [] := List.ne_nil_of_length_pos (by omega)
  rcases read_unread s _ rest h (Or.inl hne) with ⟨s', hrun, h', hp, -, hcap⟩
  have hend : s'.endian = s.endian :=
    endian_of_keeps _ s s' _ (fun e => keeps_order_read e _) hrun
  rw [hlen] at hrun hp
  refine ⟨s', ?_, h', hp, hcap⟩
  have hvalue : leValue (if s'.endian = hostOrder then ordered s.endian k v
      else (ordered s.endian k v).reverse) = v := by
    rw [hend]
    by_cases he : s.endian = hostOrder
    · rw [if_pos he, ordered, if_neg (not_not.mpr he), leValue_leBytes k v hv]
    · rw [if_neg he, ordered, if_pos he, List.reverse_reverse, leValue_leBytes k v hv]
  rw [readFixed, bind_ok _ _ _ _ _ hrun, bind_ok _ _ _ _ _ (get_apply s'), hvalue]
  rfl

theorem writeUint64_written (s : ByteArray) (bs : List UInt8) (v : UInt64) (h : Written s bs) :
    ∃ s', writeUint64 v s = .ok () s' ∧ Written s' (bs ++ varint 10 v.toNat) := by
  have hv := v.toNat_lt
  exact writeVarint_written 9 v.toNat s bs (by omega) h

theorem readUint64_unread (s : ByteArray) (v : UInt64) (rest : List UInt8)
    (h : Unread s (varint 10 v.toNat ++ rest)) :
    ∃ s', readUint64 s = .ok v s' ∧ Unread s' rest := by
  have hv := v.toNat_lt
  rcases readVarint_varint 64 9 v.toNat s rest (by omega) hv h with ⟨s', hrun, h', -, -, -⟩
  refine ⟨s', ?_, h'⟩
  rw [readUint64, bind_ok _ _ _ _ _ hrun, UInt64.ofNat_toNat]
  rfl

/-- A number is appended. -/
theorem writeNumber_written (v : Number) (s : ByteArray) (bs : List UInt8) (h : Written s bs) :
    ∃ s', writeNumber v s = .ok () s' ∧ Written s' (bs ++ v.bytes s.endian) := by
  cases v with
  | fint8 v => exact write_written s bs [v.toUInt8] h
  | fuint8 v => exact write_written s bs [v] h
  | fint16 v => exact writeFixed_written 2 _ s bs h
  | fuint16 v => exact writeFixed_written 2 _ s bs h
  | fint32 v => exact writeFixed_written 4 _ s bs h
  | fuint32 v => exact writeFixed_written 4 _ s bs h
  | fint64 v => exact writeFixed_written 8 _ s bs h
  | fuint64 v => exact writeFixed_written 8 _ s bs h
  | float bits => exact writeFixed_written 4 _ s bs h
  | double bits => exact writeFixed_written 8 _ s bs h
  | int32 v => exact writeUint32_written s bs _ h
  | uint32 v => exact writeUint32_written s bs v h
  | int64 v => exact writeUint64_written s bs _ h
  | uint64 v => exact writeUint64_written s bs v h

/-- What another reader reads, converted. -/
theorem read_map {α β : Type} (m : Prog Exn ByteArray α) (f : α → β) (s : ByteArray) (a : α)
    (rest : List UInt8) (h : ∃ s', m s = .ok a s' ∧ Unread s' rest) :
    ∃ s', (m >>= fun a => pure (f a)) s = .ok (f a) s' ∧ Unread s' rest := by
  rcases h with ⟨s', hrun, h'⟩
  refine ⟨s', ?_, h'⟩
  rw [bind_ok _ _ _ _ _ hrun]
  rfl

/-- A fixed size integer, converted. -/
theorem readFixed_map {α : Type} (k n : Nat) (f : Nat → α) (a : α) (hf : f n = a) (hk : 0 < k)
    (hn : n < 256 ^ k) (s : ByteArray) (rest : List UInt8)
    (h : Unread s (ordered s.endian k n ++ rest)) :
    ∃ s', (readFixed k >>= fun v => pure (f v)) s = .ok a s' ∧ Unread s' rest := by
  rcases readFixed_unread k n hk hn s rest h with ⟨s', hrun, h', -, -⟩
  rw [← hf]
  exact read_map _ f s n rest ⟨s', hrun, h'⟩

theorem readFint8_unread (s : ByteArray) (v : Int8) (rest : List UInt8)
    (h : Unread s (v.toUInt8 :: rest)) :
    ∃ s', readFint8 s = .ok v s' ∧ Unread s' rest := by
  rcases read_unread s [v.toUInt8] rest h (Or.inl (List.cons_ne_nil _ _)) with
    ⟨s', hread, h', -, -, -⟩
  have hrun : read 1 s = .ok [v.toUInt8] s' := hread
  have hbyte : (UInt8.ofNat (leValue [v.toUInt8])).toInt8 = v := by
    rw [leValue, leValue, Nat.mul_zero, Nat.add_zero, UInt8.ofNat_toNat, Int8.toInt8_toUInt8]
  refine ⟨s', ?_, h'⟩
  rw [readFint8, bind_ok _ _ _ _ _ hrun, hbyte]
  rfl

theorem readInt32_unread (s : ByteArray) (v : Int32) (rest : List UInt8)
    (h : Unread s (varint 5 (encodeZigzag32 v).toNat ++ rest)) :
    ∃ s', readInt32 s = .ok v s' ∧ Unread s' rest := by
  rcases readUint32_unread s _ rest h with ⟨s', hrun, h', -, -⟩
  refine ⟨s', ?_, h'⟩
  rw [readInt32, bind_ok _ _ _ _ _ hrun, decodeZigzag32_encodeZigzag32]
  rfl

theorem readInt64_unread (s : ByteArray) (v : Int64) (rest : List UInt8)
    (h : Unread s (varint 10 (encodeZigzag64 v).toNat ++ rest)) :
    ∃ s', readInt64 s = .ok v s' ∧ Unread s' rest := by
  rcases readUint64_unread s _ rest h with ⟨s', hrun, h'⟩
  refine ⟨s', ?_, h'⟩
  rw [readInt64, bind_ok _ _ _ _ _ hrun, decodeZigzag64_encodeZigzag64]
  rfl

/-- A number is taken off the front. -/
theorem readKind_unread (v : Number) (s : ByteArray) (rest : List UInt8)
    (h : Unread s (v.bytes s.endian ++ rest)) :
    ∃ s', readKind v.kind s = .ok v s' ∧ Unread s' rest := by
  cases v with
  | fint8 v => exact read_map _ _ s v rest (readFint8_unread s v rest h)
  | fuint8 v =>
      rcases readFuint8_unread s v rest h with ⟨s', hrun, h', -, -, -⟩
      exact read_map _ _ s v rest ⟨s', hrun, h'⟩
  | fint16 v =>
      refine read_map _ _ s v rest (readFixed_map 2 _ _ v ?_ (by decide) ?_ s rest h)
      · rw [UInt16.ofNat_toNat, Int16.toInt16_toUInt16]
      · have hlt := v.toUInt16.toNat_lt
        omega
  | fuint16 v =>
      have hlt := v.toNat_lt
      exact read_map _ _ s v rest
        (readFixed_map 2 _ _ v UInt16.ofNat_toNat (by decide) (by omega) s rest h)
  | fint32 v =>
      refine read_map _ _ s v rest (readFixed_map 4 _ _ v ?_ (by decide) ?_ s rest h)
      · rw [UInt32.ofNat_toNat, Int32.toInt32_toUInt32]
      · have hlt := v.toUInt32.toNat_lt
        omega
  | fuint32 v =>
      have hlt := v.toNat_lt
      exact read_map _ _ s v rest
        (readFixed_map 4 _ _ v UInt32.ofNat_toNat (by decide) (by omega) s rest h)
  | fint64 v =>
      refine read_map _ _ s v rest (readFixed_map 8 _ _ v ?_ (by decide) ?_ s rest h)
      · rw [UInt64.ofNat_toNat, Int64.toInt64_toUInt64]
      · have hlt := v.toUInt64.toNat_lt
        omega
  | fuint64 v =>
      have hlt := v.toNat_lt
      exact read_map _ _ s v rest
        (readFixed_map 8 _ _ v UInt64.ofNat_toNat (by decide) (by omega) s rest h)
  | float bits =>
      have hlt := bits.toNat_lt
      exact read_map _ _ s bits rest
        (readFixed_map 4 _ _ bits UInt32.ofNat_toNat (by decide) (by omega) s rest h)
  | double bits =>
      have hlt := bits.toNat_lt
      exact read_map _ _ s bits rest
        (readFixed_map 8 _ _ bits UInt64.ofNat_toNat (by decide) (by omega) s rest h)
  | int32 v => exact read_map _ _ s v rest (readInt32_unread s v rest h)
  | uint32 v =>
      rcases readUint32_unread s v rest h with ⟨s', hrun, h', -, -⟩
      exact read_map _ _ s v rest ⟨s', hrun, h'⟩
  | int64 v => exact read_map _ _ s v rest (readInt64_unread s v rest h)
  | uint64 v => exact read_map _ _ s v rest (readUint64_unread s v rest h)

/-! ## Any number of them -/

/-- The bytes of a sequence are the bytes of its numbers, one behind the other. -/
theorem writeAll_written (vs : List Number) (s : ByteArray) (bs : List UInt8)
    (h : Written s bs) :
    ∃ s', writeAll vs s = .ok () s' ∧ Written s' (bs ++ vs.flatMap (Number.bytes s.endian)) ∧
      s'.endian = s.endian := by
  induction vs generalizing s bs with
  | nil =>
      refine ⟨s, rfl, ?_, rfl⟩
      rw [List.flatMap_nil, List.append_nil]
      exact h
  | cons v vs ih =>
      rcases writeNumber_written v s bs h with ⟨s₁, hrun₁, h₁⟩
      have hend₁ : s₁.endian = s.endian :=
        endian_of_keeps _ s s₁ () (fun e => keeps_order_writeNumber e v) hrun₁
      rcases ih s₁ _ h₁ with ⟨s₂, hrun₂, h₂, hend₂⟩
      refine ⟨s₂, ?_, ?_, hend₂.trans hend₁⟩
      · rw [writeAll, bind_ok _ _ _ _ _ hrun₁, hrun₂]
      · rw [List.flatMap_cons, ← List.append_assoc, ← hend₁]
        rw [← hend₁] at h₂
        exact h₂

/-- The numbers come back in the order they were written, and nothing else is
    touched. -/
theorem readAll_unread (vs : List Number) (s : ByteArray) (rest : List UInt8)
    (h : Unread s (vs.flatMap (Number.bytes s.endian) ++ rest)) :
    ∃ s', readAll (vs.map Number.kind) s = .ok vs s' ∧ Unread s' rest := by
  induction vs generalizing s with
  | nil => exact ⟨s, rfl, h⟩
  | cons v vs ih =>
      rw [List.flatMap_cons, List.append_assoc] at h
      rcases readKind_unread v s _ h with ⟨s₁, hrun₁, h₁⟩
      have hend₁ : s₁.endian = s.endian :=
        endian_of_keeps _ s s₁ v (fun e => keeps_order_readKind e v.kind) hrun₁
      rw [← hend₁] at h₁
      rcases ih s₁ h₁ with ⟨s₂, hrun₂, h₂⟩
      refine ⟨s₂, ?_, h₂⟩
      rw [List.map_cons, readAll, bind_ok _ _ _ _ _ hrun₁, bind_ok _ _ _ _ _ hrun₂]
      rfl

/-- The scratch array of a varint writer is never overrun. -/
theorem writeVarint_scratch (room v : Nat) (hv : v < 128 ^ (room + 1)) :
    ∃ tmp, tmp.length ≤ room + 1 ∧ writeVarint (room + 1) v = write tmp := by
  rcases Option.isSome_iff_exists.mp (encode128_isSome room v hv) with ⟨tmp, htmp⟩
  exact ⟨tmp, (encode128_length _ _ _ htmp).2, by rw [writeVarint, htmp]⟩

/-- Numbers written to a fresh array in either byte order are read back, with
    nothing left to read, and no varint writer overruns its scratch array. -/
theorem numbers_read_back (baseSize : Nat) (heap : Nat → UInt8) (hb : 1 ≤ baseSize)
    (little : Bool) (vs : List Number) :
    (∃ s, (do
        setIsLittleEndian little
        writeAll vs
        setPosition 0
        readAll (vs.map Number.kind)) (new baseSize heap) = .ok vs s ∧ s.getReadSize = 0) ∧
    (∀ v, ∃ tmp, tmp.length ≤ 5 ∧ writeUint32 v = write tmp) ∧
    (∀ v, ∃ tmp, tmp.length ≤ 10 ∧ writeUint64 v = write tmp) ∧
    (∀ v, ∃ tmp, tmp.length ≤ 5 ∧ writeInt32 v = write tmp) ∧
    ∀ v, ∃ tmp, tmp.length ≤ 10 ∧ writeInt64 v = write tmp := by
  have h32 : ∀ v, ∃ tmp, tmp.length ≤ 5 ∧ writeUint32 v = write tmp := fun v =>
    writeVarint_scratch 4 v.toNat (lt_trans v.toNat_lt (by decide))
  have h64 : ∀ v, ∃ tmp, tmp.length ≤ 10 ∧ writeUint64 v = write tmp := fun v =>
    writeVarint_scratch 9 v.toNat (lt_trans v.toNat_lt (by decide))
  refine ⟨?_, h32, h64, fun v => h32 (encodeZigzag32 v), fun v => h64 (encodeZigzag64 v)⟩
  -- Setting the byte order leaves everything else of the new array as it is.
  rcases hset : setIsLittleEndian little (new baseSize heap) with ⟨u, s₀⟩ | _ | _ | _
  · have hs₀ : Written s₀ [] := by
      have hnew := written_new baseSize heap hb
      simp only [setIsLittleEndian, Outcome.ok.injEq] at hset
      rw [← hset.2]
      exact ⟨⟨hnew.inv.base_pos, hnew.inv.nodes_pos, hnew.inv.node_size, hnew.inv.capacity_eq,
        hnew.inv.position_le, hnew.inv.size_le, hnew.inv.cur_eq⟩, hnew.atEnd, hnew.bytes⟩
    rcases writeAll_written vs s₀ [] hs₀ with ⟨s₁, hrun₁, h₁, hend₁⟩
    rcases h₁.rewind with ⟨s₂, hrun₂, h₂, -, -, -⟩
    have hend₂ : s₂.endian = s₁.endian :=
      endian_of_keeps _ s₁ s₂ () (fun e => keeps_order_setPosition e 0) hrun₂
    rw [List.nil_append, ← hend₁, ← hend₂, ← List.append_nil (List.flatMap _ _)] at h₂
    rcases readAll_unread vs s₂ [] h₂ with ⟨s₃, hrun₃, h₃⟩
    refine ⟨s₃, ?_, ?_⟩
    · rw [bind_ok _ _ _ _ _ hset, bind_ok _ _ _ _ _ hrun₁, bind_ok _ _ _ _ _ hrun₂, hrun₃]
    · have hlen := h₃.length
      rw [List.length_nil] at hlen
      exact hlen.symm
  · cases hset
  · cases hset
  · cases hset

/-- The limits of the signed types and a number of every size, in blocks of three
    bytes, most significant byte first. -/
theorem numbers_read_back_limits :
    ∃ s, (do
        setIsLittleEndian false
        writeAll [.int32 Int32.minValue, .fuint64 18446744073709551615, .fint16 (-2), .float 1]
        setPosition 0
        readAll [.int32, .fuint64, .fint16, .float]) (new 3 (fun _ => 0)) =
      .ok [.int32 Int32.minValue, .fuint64 18446744073709551615, .fint16 (-2), .float 1] s ∧
      s.getReadSize = 0 := by
  have h := (numbers_read_back 3 (fun _ => 0) (by decide) false
    [.int32 Int32.minValue, .fuint64 18446744073709551615, .fint16 (-2), .float 1]).1
  simp only [List.map_cons, List.map_nil, Number.kind] at h
  exact h

end ByteArray

end YkServer
