import YkServer.Theory.ByteArray.Invariant

/-!
# Writing and Reading at the Cursor

The two ways a serialiser uses a byte array: it appends to one that is full up to
the cursor, and it reads from one whose unread bytes it knows. `Written` and
`Unread` are those two views, and every writer and reader of the serialisers is a
step from one view to the next, so that a message is written by appending its
parts and parsed by taking them off the front.

Reading an empty string is the one step that needs more than the bytes: it looks
at the current node, and there is none when the cursor is at the end of the
capacity.

## Main definitions

* `Written`: The bytes up to the cursor, which is at the end of the data.
* `Unread`: The bytes from the cursor to the end of the data.
* `varint`: The base-128 form of a number.
* `vstring`: A string behind its length.

## Theorems

* `write_written`, `writeUint32_written`, `writeStringVint_written`: Writers append.
* `read_unread`, `readUint32_unread`, `readStringVint_unread`: Readers take off.
* `readStringVint_fault`: The empty string at the end of the capacity.
-/

namespace YkServer

open Lib

namespace ByteArray

/-- The array holds `bs` and its cursor is behind them. -/
structure Written (s : ByteArray) (bs : List UInt8) : Prop where
  inv : Inv s
  atEnd : s.position = s.size
  bytes : (memory s).take s.size = bs

/-- The bytes `bs` are between the cursor and the end of the data. -/
structure Unread (s : ByteArray) (bs : List UInt8) : Prop where
  inv : Inv s
  bytes : ((memory s).drop s.position).take (s.size - s.position) = bs

/-- The base-128 form of `v`, in an array of `room` bytes. -/
def varint (room v : Nat) : List UInt8 := (encode128 room v).getD []

/-- A string behind its length. -/
def vstring (bs : List UInt8) : List UInt8 := varint 10 bs.length ++ bs

theorem Written.length {s : ByteArray} {bs : List UInt8} (h : Written s bs) :
    bs.length = s.size := by
  have hsc := h.inv.size_le
  have hlen := h.inv.length_memory
  rw [← h.bytes, List.length_take]
  omega

theorem Unread.length {s : ByteArray} {bs : List UInt8} (h : Unread s bs) :
    bs.length = s.size - s.position := by
  have hsc := h.inv.size_le
  have hlen := h.inv.length_memory
  rw [← h.bytes, List.length_take, List.length_drop]
  omega

theorem written_new (b : Nat) (heap : Nat → UInt8) (hb : 0 < b) : Written (new b heap) [] :=
  ⟨inv_new b heap hb, rfl, rfl⟩

/-- A written array read from the start. -/
theorem Written.rewind {s : ByteArray} {bs : List UInt8} (h : Written s bs) :
    ∃ s', setPosition 0 s = .ok () s' ∧ Unread s' bs ∧ s'.position = 0 ∧ s'.size = s.size ∧
      s'.capacity = s.capacity := by
  rcases setPosition_spec s h.inv 0 (Nat.zero_le _) with
    ⟨s', hrun, hinv, hmem, hpos, hsize, -, -, hcap⟩
  have hsize' : s'.size = s.size := by omega
  refine ⟨s', hrun, ⟨hinv, ?_⟩, hpos, hsize', hcap⟩
  rw [hpos, hmem, hsize', List.drop_zero, Nat.sub_zero]
  exact h.bytes

/-! ## Writers -/

theorem write_written (s : ByteArray) (bs buf : List UInt8) (h : Written s bs) :
    ∃ s', write buf s = .ok () s' ∧ Written s' (bs ++ buf) := by
  by_cases hbuf : buf = []
  · refine ⟨s, ?_, ?_⟩
    · rw [hbuf, write_nil]
    · rw [hbuf, List.append_nil]
      exact h
  · rcases write_spec s h.inv buf hbuf with
      ⟨s', tail, hrun, hinv, hmem, hpos, hsize, -, -, -, htotal⟩
    have hlen := h.length
    have hat := h.atEnd
    -- The new size is inside the new capacity, which is the length of the grown memory.
    have hroom : s.position + buf.length ≤ (memory s ++ tail).length := by
      have hps := hinv.position_le
      have hsc := hinv.size_le
      omega
    refine ⟨s', hrun, hinv, by omega, ?_⟩
    have hsize' : s'.size = s.position + buf.length := by omega
    have htake : (memory s ++ tail).take s.position = bs := by
      have hsc := h.inv.size_le
      have hml := h.inv.length_memory
      rw [List.take_append_of_le_length (by omega), hat]
      exact h.bytes
    rw [hsize', hmem, take_overwrite _ _ _ (by omega), htake]

theorem writeFuint8_written (s : ByteArray) (bs : List UInt8) (v : UInt8) (h : Written s bs) :
    ∃ s', writeFuint8 v s = .ok () s' ∧ Written s' (bs ++ [v]) := write_written s bs [v] h

/-- A number that fits its array is written in base 128. -/
theorem writeVarint_written (room v : Nat) (s : ByteArray) (bs : List UInt8)
    (hv : v < 128 ^ (room + 1)) (h : Written s bs) :
    ∃ s', writeVarint (room + 1) v s = .ok () s' ∧ Written s' (bs ++ varint (room + 1) v) := by
  rcases Option.isSome_iff_exists.mp (encode128_isSome room v hv) with ⟨tmp, htmp⟩
  rw [writeVarint, varint, htmp]
  exact write_written s bs tmp h

theorem writeUint32_written (s : ByteArray) (bs : List UInt8) (v : UInt32) (h : Written s bs) :
    ∃ s', writeUint32 v s = .ok () s' ∧ Written s' (bs ++ varint 5 v.toNat) := by
  have hv := v.toNat_lt
  exact writeVarint_written 4 v.toNat s bs (by omega) h

theorem writeStringVint_written (s : ByteArray) (bs value : List UInt8)
    (hlen : value.length < 2 ^ 64) (h : Written s bs) :
    ∃ s', writeStringVint value s = .ok () s' ∧ Written s' (bs ++ vstring value) := by
  have hnat : (UInt64.ofNat value.length).toNat = value.length := by
    rw [UInt64.toNat_ofNat']
    omega
  have hlen' : (UInt64.ofNat value.length).toNat < 128 ^ 10 := by omega
  rcases writeVarint_written 9 _ s bs hlen' h with ⟨s₁, hvar, h₁⟩
  have hrun₁ : writeUint64 (UInt64.ofNat value.length) s = .ok () s₁ := hvar
  rw [hnat] at h₁
  rcases write_written s₁ _ value h₁ with ⟨s₂, hrun₂, h₂⟩
  refine ⟨s₂, ?_, ?_⟩
  · rw [writeStringVint, bind_ok _ _ _ _ _ hrun₁, hrun₂]
  · rw [vstring, ← List.append_assoc]
    exact h₂

/-! ## Readers -/

/-- Bytes are taken off the front. Where there are none to take, the cursor must
    be below the capacity. -/
theorem read_unread (s : ByteArray) (bs rest : List UInt8) (h : Unread s (bs ++ rest))
    (hcur : bs ≠ [] ∨ s.position < s.capacity) :
    ∃ s', read bs.length s = .ok bs s' ∧ Unread s' rest ∧
      s'.position = s.position + bs.length ∧ s'.size = s.size ∧ s'.capacity = s.capacity := by
  have hlen := h.length
  rw [List.length_append] at hlen
  by_cases hbs : bs = []
  -- Nothing is read, and the cursor stays on a node.
  · rw [hbs, List.nil_append] at h
    refine ⟨s, ?_, h, ?_, rfl, rfl⟩
    · rw [hbs, List.length_nil, read_zero s h.inv, if_pos (hcur.resolve_left (fun hne => hne hbs))]
    · rw [hbs, List.length_nil, Nat.add_zero]
  · have hpos : 0 < bs.length := List.length_pos_of_ne_nil hbs
    rcases read_spec s h.inv bs.length hpos (by omega) with
      ⟨s', hrun, hinv, hmem, hp, hs, -, -, hcap⟩
    -- The first bytes of what is unread, read off the statement about all of it.
    have htake : ((memory s).drop s.position).take bs.length = bs := by
      have hsplit := congrArg (List.take bs.length) h.bytes
      rw [List.take_take, List.take_left, Nat.min_eq_left (by omega)] at hsplit
      exact hsplit
    refine ⟨s', by rw [hrun, htake], ⟨hinv, ?_⟩, hp, hs, hcap⟩
    -- What is left when they are gone.
    have hdrop := congrArg (List.drop bs.length) h.bytes
    rw [List.drop_take, List.drop_drop, List.drop_left] at hdrop
    rw [hmem, hp, hs, ← hdrop]
    congr 1
    omega

theorem readFuint8_unread (s : ByteArray) (b : UInt8) (rest : List UInt8)
    (h : Unread s (b :: rest)) :
    ∃ s', readFuint8 s = .ok b s' ∧ Unread s' rest ∧ s'.position = s.position + 1 ∧
      s'.size = s.size ∧ s'.capacity = s.capacity := by
  rcases read_unread s [b] rest h (Or.inl (List.cons_ne_nil _ _)) with ⟨s', hread, hrest⟩
  have hrun : read 1 s = .ok [b] s' := hread
  refine ⟨s', ?_, hrest⟩
  have hbyte : UInt8.ofNat (leValue [b]) = b := by
    rw [leValue, leValue, Nat.mul_zero, Nat.add_zero]
    exact UInt8.ofNat_toNat
  rw [readFuint8, bind_ok _ _ _ _ _ hrun, hbyte]
  rfl

/-- Reading a base-128 number is decoding the bytes from the cursor on. The
    induction follows the rounds. -/
theorem readVarint_unread (w n i r v : Nat) (s : ByteArray) (bs rest : List UInt8)
    (h : Unread s bs) (hdec : decode128 w n i r bs = some (v, rest)) :
    ∃ s', readVarint w n i r s = .ok v s' ∧ Unread s' rest ∧
      s'.position + rest.length = s.position + bs.length ∧ s'.size = s.size ∧
      s'.capacity = s.capacity := by
  induction n generalizing i r s bs with
  -- All rounds are used up, so the last byte read had the continuation bit.
  | zero =>
      rw [decode128, Option.some.injEq, Prod.mk.injEq] at hdec
      refine ⟨s, ?_, ?_, ?_, rfl, rfl⟩
      · rw [readVarint, hdec.1]
        rfl
      · rw [← hdec.2]
        exact h
      · rw [hdec.2]
  | succ n ih =>
      cases bs with
      | nil => simp only [decode128, reduceCtorEq] at hdec
      | cons b bs =>
          rcases readFuint8_unread s b bs h with ⟨s₁, hrun, h₁, hp₁, hs₁, hc₁⟩
          rw [readVarint, bind_ok _ _ _ _ _ hrun]
          rw [decode128] at hdec
          by_cases hsmall : b < 0x80
          · rw [if_pos hsmall, Option.some.injEq, Prod.mk.injEq] at hdec
            rw [if_pos hsmall, hdec.1, ← hdec.2]
            -- The byte ends the number; the cursor is one further.
            refine ⟨s₁, rfl, h₁, ?_, hs₁, hc₁⟩
            rw [hp₁, List.length_cons]
            omega
          · rw [if_neg hsmall] at hdec
            rw [if_neg hsmall]
            rcases ih _ _ s₁ bs h₁ hdec with ⟨s₂, hrun₂, h₂, hp₂, hs₂, hc₂⟩
            refine ⟨s₂, hrun₂, h₂, ?_, by omega, by omega⟩
            rw [List.length_cons]
            omega

/-- A number written in base 128 reads back. -/
theorem readVarint_varint (w room v : Nat) (s : ByteArray) (rest : List UInt8)
    (hv : v < 128 ^ (room + 1)) (hw : v < 2 ^ w) (h : Unread s (varint (room + 1) v ++ rest)) :
    ∃ s', readVarint w (room + 1) 0 0 s = .ok v s' ∧ Unread s' rest ∧
      s'.position = s.position + (varint (room + 1) v).length ∧ s'.size = s.size ∧
      s'.capacity = s.capacity := by
  rcases Option.isSome_iff_exists.mp (encode128_isSome room v hv) with ⟨bs, hbs⟩
  have hvar : varint (room + 1) v = bs := by rw [varint, hbs, Option.getD_some]
  -- The decoder starts at shift 0 with nothing read.
  have hdec := decode128_encode128 w (room + 1) v 0 0 bs rest hbs (by decide)
    (by rw [Nat.pow_zero, Nat.mul_one]; exact hw)
  rw [Nat.pow_zero, Nat.mul_one, Nat.zero_add, ← hvar] at hdec
  rcases readVarint_unread w _ 0 0 v s _ rest h hdec with ⟨s', hrun, h', hp, hs, hc⟩
  refine ⟨s', hrun, h', ?_, hs, hc⟩
  rw [List.length_append] at hp
  omega

theorem readUint32_unread (s : ByteArray) (v : UInt32) (rest : List UInt8)
    (h : Unread s (varint 5 v.toNat ++ rest)) :
    ∃ s', readUint32 s = .ok v s' ∧ Unread s' rest ∧ s'.size = s.size ∧
      s'.capacity = s.capacity := by
  have hv := v.toNat_lt
  rcases readVarint_varint 32 4 v.toNat s rest (by omega) hv h with ⟨s', hrun, h', -, hs, hc⟩
  refine ⟨s', ?_, h', hs, hc⟩
  rw [readUint32, bind_ok _ _ _ _ _ hrun, UInt32.ofNat_toNat]
  rfl

/-- The length in front of a string. -/
theorem readUint64_length (s : ByteArray) (value rest : List UInt8)
    (hlen : value.length < 2 ^ 62) (h : Unread s (vstring value ++ rest)) :
    ∃ s', readUint64 s = .ok (UInt64.ofNat value.length) s' ∧ Unread s' (value ++ rest) ∧
      s'.position = s.position + (varint 10 value.length).length ∧ s'.size = s.size ∧
      s'.capacity = s.capacity := by
  rw [vstring, List.append_assoc] at h
  rcases readVarint_varint 64 9 value.length s _ (by omega) (by omega) h with
    ⟨s', hrun, h', hp, hs, hc⟩
  refine ⟨s', ?_, h', hp, hs, hc⟩
  rw [readUint64, bind_ok _ _ _ _ _ hrun]
  rfl

theorem readString_length (value : List UInt8) (hlen : value.length < 2 ^ 62) :
    readString (UInt64.ofNat value.length).toNat = read value.length := by
  have hnat : (UInt64.ofNat value.length).toNat = value.length := by
    rw [UInt64.toNat_ofNat']
    omega
  rw [hnat, readString, if_neg]
  unfold maxStringSize
  omega

/-- A string reads back, the empty one as long as the cursor is below the
    capacity behind its length. -/
theorem readStringVint_unread (s : ByteArray) (value rest : List UInt8)
    (hlen : value.length < 2 ^ 62) (h : Unread s (vstring value ++ rest))
    (hcur : value ≠ [] ∨ s.position + (varint 10 value.length).length < s.capacity) :
    ∃ s', readStringVint s = .ok value s' ∧ Unread s' rest ∧
      s'.position = s.position + (vstring value).length ∧ s'.size = s.size ∧
      s'.capacity = s.capacity := by
  rcases readUint64_length s value rest hlen h with ⟨s₁, hrun₁, h₁, hp₁, hs₁, hc₁⟩
  rcases read_unread s₁ value rest h₁ (by rw [hp₁, hc₁]; exact hcur) with
    ⟨s₂, hrun₂, h₂, hp₂, hs₂, hc₂⟩
  refine ⟨s₂, ?_, h₂, ?_, by omega, by omega⟩
  · rw [readStringVint, bind_ok _ _ _ _ _ hrun₁, readString_length value hlen, hrun₂]
  · rw [hp₂, hp₁, vstring, List.length_append]
    omega

/-- The empty string whose length ends at the capacity: a null pointer is
    followed. -/
theorem readStringVint_fault (s : ByteArray) (h : Unread s (vstring []))
    (hfull : s.size = s.capacity) : readStringVint s = .fault := by
  rw [← List.append_nil (vstring [])] at h
  rcases readUint64_length s [] [] (by decide) h with ⟨s₁, hrun₁, h₁, hp₁, hs₁, hc₁⟩
  -- Behind the length nothing is unread, so the cursor is at the size, and that is the
  -- capacity.
  have hend : ¬s₁.position < s₁.capacity := by
    have hlen := h₁.length
    rw [List.append_nil, List.length_nil] at hlen
    omega
  rw [readStringVint, bind_ok _ _ _ _ _ hrun₁, readString_length [] (by decide), List.length_nil,
    read_zero s₁ h₁.inv, if_neg hend]

end ByteArray

end YkServer
