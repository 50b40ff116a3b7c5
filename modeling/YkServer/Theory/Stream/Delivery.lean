import YkServer.Theory.Stream.Transfer

/-!
# Exact Delivery

What the four fixed size transfers do from any state they can be called in, and
however the socket cuts the bytes. A transfer to a buffer or a byte array stores the
next bytes of the stream at the place it was given, and a transfer from one sends the
bytes that are there. The cursor of a byte array moves by the length, and its size
with it if the cursor would get behind it.

## Theorems

* `readFixSizeBytes_stored`, `writeFixSizeBytes_taken`: Byte arrays.
* `readFixSize_stored`, `writeFixSize_taken`: Buffers.
* `exact_delivery`: All four.
-/

namespace YkServer

open Lib

namespace SocketStream

/-- What is left of the bytes when some more of them have been transferred. -/
theorem take_left (bs : List UInt8) (left k : Nat) (hle : left ≤ bs.length) (hk : k ≤ left) :
    bs.take (bs.length - left) ++ (bs.drop (bs.length - left)).take k =
      bs.take (bs.length - (left - k)) := by
  rw [← List.take_add]
  congr 1
  omega

theorem drop_left (bs : List UInt8) (left k : Nat) (hle : left ≤ bs.length) (hk : k ≤ left) :
    (bs.drop (bs.length - left)).drop k = bs.drop (bs.length - (left - k)) := by
  rw [List.drop_drop]
  congr 1
  omega

/-- The next bytes of the stream are stored at the cursor of a byte array. -/
theorem readFixSizeBytes_stored (s : Socket) (ba : ByteArray) (hba : ba.Inv)
    (bs rest : List UInt8) (hbs : bs.length < 2 ^ 64) (h : s.Ready (bs ++ rest)) (fuel : Nat)
    (hfuel : bs.length < fuel) :
    ∃ s' ba' tail, Stream.readFixSizeBytes readBytes fuel bs.length (s, ba) =
        .ok (intOfWord bs.length) (s', ba') ∧
      s'.Ready rest ∧ ba'.Inv ∧ ba'.memory = overwrite (ba.memory ++ tail) ba.position bs ∧
      ba'.position = ba.position + bs.length ∧
      ba'.size = max ba.size (ba.position + bs.length) := by
  have hpos := hba.position_le
  have hsc := hba.size_le
  have hml := hba.length_memory
  -- What has been stored is determined by what is left.
  rcases Stream.fixLoop_rule (fun _ left => readBytes left) bs.length hbs
    (fun left st => st.1.Ready (bs.drop (bs.length - left) ++ rest) ∧ st.2.Inv ∧
      (∃ tail, st.2.memory =
        overwrite (ba.memory ++ tail) ba.position (bs.take (bs.length - left)) ∧
        ba.position + (bs.length - left) ≤ (ba.memory ++ tail).length) ∧
      st.2.position = ba.position + (bs.length - left) ∧
      st.2.size = max ba.size (ba.position + (bs.length - left)))
    (by
      rintro left ⟨s, ba₁⟩ hleft hle ⟨hready, hinv, ⟨tail, hmem, hroom⟩, hpos₁, hsize₁⟩
      simp only [] at hready hinv hmem hpos₁ hsize₁
      have htodo := length_drop_left bs left hle
      rcases readBytes_stored s ba₁ hinv (bs.drop (bs.length - left)) rest
        (List.ne_nil_of_length_pos (by omega)) hready with
        ⟨k, s', ba₂, more, hrun, hk, hkle, hready', hinv', hmem', hpos₂, hsize₂, -, hlen, hfit⟩
      rw [htodo] at hrun hkle hfit
      rw [drop_left bs left k hle hkle] at hready'
      have hdone : (bs.take (bs.length - left)).length = bs.length - left := by
        rw [List.length_take]
        omega
      have hsame : ba₁.memory.length = (ba.memory ++ tail).length := by
        rw [hmem, length_overwrite _ _ _ (by omega)]
      -- What a call stores comes right behind what the calls before it have stored.
      have htwice := overwrite_twice (ba.memory ++ tail ++ more) ba.position
        (bs.take (bs.length - left)) ((bs.drop (bs.length - left)).take k)
        (by rw [List.length_append]; omega)
      rw [hdone, take_left bs left k hle hkle] at htwice
      refine ⟨k, (s', ba₂), hrun, hk, hkle, hready', hinv', ⟨tail ++ more, ?_, ?_⟩, ?_, ?_⟩
      · rw [hmem', hpos₁, hmem, ← overwrite_append_left _ more _ _ (by omega), htwice,
          List.append_assoc]
      · rw [← List.append_assoc, List.length_append, ← hsame, ← List.length_append, hlen]
        omega
      · simp only []
        omega
      · simp only []
        omega)
    fuel bs.length hfuel (Nat.le_refl _) (s, ba)
    ⟨by rw [Nat.sub_self, List.drop_zero]; exact h, hba,
      ⟨[], by rw [Nat.sub_self, List.take_zero, overwrite_nil, List.append_nil],
        by rw [Nat.sub_self, List.append_nil]; omega⟩,
      by simp only [Nat.sub_self, Nat.add_zero], by simp only [Nat.sub_self]; omega⟩ with
    ⟨⟨s', ba'⟩, hrun, hready, hinv, ⟨tail, hmem, _⟩, hpos', hsize'⟩
  rw [Nat.sub_zero, List.drop_length] at hready
  rw [Nat.sub_zero, List.take_length] at hmem
  rw [Nat.sub_self] at hrun
  exact ⟨s', ba', tail, hrun, hready, hinv, hmem, hpos', hsize'⟩

/-- The bytes at the cursor of a byte array are sent. -/
theorem writeFixSizeBytes_taken (s : Socket) (ba : ByteArray) (hba : ba.Inv) (out : List UInt8)
    (n : Nat) (hn : n < 2 ^ 64) (hfit : ba.position + n ≤ ba.size) (h : s.Sent out) (fuel : Nat)
    (hfuel : n < fuel) :
    ∃ s' ba', Stream.writeFixSizeBytes writeBytes fuel n (s, ba) = .ok (intOfWord n) (s', ba') ∧
      s'.Sent (out ++ (ba.memory.drop ba.position).take n) ∧ ba'.Inv ∧ ba'.memory = ba.memory ∧
      ba'.position = ba.position + n ∧ ba'.size = ba.size := by
  rcases Stream.fixLoop_rule (fun _ left => writeBytes left) n hn
    (fun left st => st.1.Sent (out ++ (ba.memory.drop ba.position).take (n - left)) ∧
      st.2.Inv ∧ st.2.memory = ba.memory ∧ st.2.position = ba.position + (n - left) ∧
      st.2.size = ba.size)
    (by
      rintro left ⟨s, ba₁⟩ hleft hle ⟨hsent, hinv, hmem, hpos, hsize⟩
      simp only [] at hsent hinv hmem hpos hsize
      rcases writeBytes_taken s ba₁ hinv _ left hleft (by omega) hsent with
        ⟨k, s', ba₂, hrun, hk, hkle, hsent', hinv', hmem', hpos', hsize'⟩
      -- What a call sends comes right behind what was sent before.
      rw [hmem, hpos, ← List.drop_drop, List.append_assoc, ← List.take_add,
        show n - left + k = n - (left - k) by omega] at hsent'
      exact ⟨k, (s', ba₂), hrun, hk, hkle, hsent', hinv', hmem'.trans hmem,
        by simp only []; omega, hsize'.trans hsize⟩)
    fuel n hfuel (Nat.le_refl _) (s, ba)
    ⟨by rw [Nat.sub_self, List.take_zero, List.append_nil]; exact h, hba, rfl,
      by simp only [Nat.sub_self, Nat.add_zero], rfl⟩ with
    ⟨⟨s', ba'⟩, hrun, hsent, hinv, hmem, hpos', hsize'⟩
  rw [Nat.sub_zero] at hsent
  rw [Nat.sub_self] at hrun
  exact ⟨s', ba', hrun, hsent, hinv, hmem, hpos', hsize'⟩

/-- The next bytes of the stream are stored at a place in a buffer. -/
theorem readFixSize_stored (s : Socket) (buffer : List UInt8) (base : Nat) (bs rest : List UInt8)
    (hbs : bs.length < 2 ^ 64) (h : s.Ready (bs ++ rest))
    (hfit : base + bs.length ≤ buffer.length) (fuel : Nat) (hfuel : bs.length < fuel) :
    ∃ s', Stream.readFixSize (fun i n => read (base + i) n) fuel bs.length (s, buffer) =
        .ok (intOfWord bs.length) (s', overwrite buffer base bs) ∧ s'.Ready rest ∧
      s'.outbox = s.outbox := by
  rcases Stream.fixLoop_rule (fun i n => read (base + i) n) bs.length hbs
    (fun left st => st.1.Ready (bs.drop (bs.length - left) ++ rest) ∧
      st.2 = overwrite buffer base (bs.take (bs.length - left)) ∧ st.1.outbox = s.outbox)
    (by
      rintro left ⟨s₁, buffer₁⟩ hleft hle ⟨hready, hbuf, hout⟩
      simp only [] at hready hbuf hout
      have htodo := length_drop_left bs left hle
      have hdone : (bs.take (bs.length - left)).length = bs.length - left := by
        rw [List.length_take]
        omega
      -- Storing does not change the length, so there is room for the rest.
      have hlen : buffer₁.length = buffer.length := by
        rw [hbuf, length_overwrite _ _ _ (by omega)]
      rcases read_stored s₁ buffer₁ (base + (bs.length - left)) (bs.drop (bs.length - left)) rest
        (List.ne_nil_of_length_pos (by omega)) hready (by omega) with
        ⟨k, s', hrun, hk, hkle, hready', hout'⟩
      rw [htodo] at hrun hkle
      rw [drop_left bs left k hle hkle] at hready'
      have htwice := overwrite_twice buffer base (bs.take (bs.length - left))
        ((bs.drop (bs.length - left)).take k) (by omega)
      rw [hdone, take_left bs left k hle hkle, ← hbuf] at htwice
      exact ⟨k, _, hrun, hk, hkle, hready', htwice, hout'.trans hout⟩)
    fuel bs.length hfuel (Nat.le_refl _) (s, buffer)
    ⟨by rw [Nat.sub_self, List.drop_zero]; exact h,
      by rw [Nat.sub_self, List.take_zero, overwrite_nil], rfl⟩ with
    ⟨⟨s', buffer'⟩, hrun, hready, hbuf, hout⟩
  rw [Nat.sub_zero, List.drop_length] at hready
  simp only [Nat.sub_zero, List.take_length] at hbuf
  rw [Nat.sub_self, hbuf] at hrun
  exact ⟨s', hrun, hready, hout⟩

/-- The bytes at a place in a buffer are sent. -/
theorem writeFixSize_taken (s : Socket) (buffer out : List UInt8) (base n : Nat)
    (hn : n < 2 ^ 64) (hfit : base + n ≤ buffer.length) (h : s.Sent out) (fuel : Nat)
    (hfuel : n < fuel) :
    ∃ s', Stream.writeFixSize (fun i m => write buffer (base + i) m) fuel n s =
        .ok (intOfWord n) s' ∧ s'.Sent (out ++ (buffer.drop base).take n) ∧
      s'.inbox = s.inbox := by
  rcases Stream.writeLoop_rule (fun i m => write buffer (base + i) m) n hn
    (fun left t => t.Sent (out ++ (buffer.drop base).take (n - left)) ∧ t.inbox = s.inbox)
    (by
      rintro left t hleft hle ⟨hsent, hin⟩
      rcases write_taken t buffer _ (base + (n - left)) left hleft (by omega) hsent with
        ⟨k, t', hrun, hk, hkle, hsent', hin'⟩
      rw [← List.drop_drop, List.append_assoc, ← List.take_add,
        show n - left + k = n - (left - k) by omega] at hsent'
      exact ⟨k, t', hrun, hk, hkle, hsent', hin'.trans hin⟩)
    fuel n hfuel (Nat.le_refl _) s
    ⟨by rw [Nat.sub_self, List.take_zero, List.append_nil]; exact h, rfl⟩ with
    ⟨s', hrun, hsent, hin⟩
  rw [Nat.sub_zero] at hsent
  rw [Nat.sub_self] at hrun
  exact ⟨s', hrun, hsent, hin⟩

/-- Whatever part of the bytes each call transfers, all four transfers of `length` bytes end,
    with these bytes at their place and nothing else changed. -/
theorem exact_delivery (s : Socket) (hconn : s.connected = true) (length : UInt64) (fuel : Nat)
    (hfuel : length.toNat < fuel) :
    (∀ ba : ByteArray, ba.Inv → ba.position + length.toNat ≤ ba.size →
      ∃ s' ba', Stream.writeFixSizeBytes writeBytes fuel length.toNat (s, ba) =
          .ok (intOfWord length.toNat) (s', ba') ∧
        s'.outbox = s.outbox ++ (ba.memory.drop ba.position).take length.toNat ∧
        ba'.position = ba.position + length.toNat ∧ ba'.size = ba.size ∧ ba'.memory = ba.memory ∧
        ba'.Inv) ∧
    (∀ ba : ByteArray, ba.Inv → length.toNat ≤ s.inbox.length →
      ∃ s' ba' tail, Stream.readFixSizeBytes readBytes fuel length.toNat (s, ba) =
          .ok (intOfWord length.toNat) (s', ba') ∧
        s'.inbox = s.inbox.drop length.toNat ∧
        (ba'.memory.drop ba.position).take length.toNat = s.inbox.take length.toNat ∧
        ba'.position = ba.position + length.toNat ∧
        ba'.size = max ba.size (ba.position + length.toNat) ∧
        ba'.memory = overwrite (ba.memory ++ tail) ba.position (s.inbox.take length.toNat) ∧
        ba'.Inv) ∧
    (∀ (buffer : List UInt8) (base : Nat), base + length.toNat ≤ buffer.length →
      ∃ s', Stream.writeFixSize (fun i n => write buffer (base + i) n) fuel length.toNat s =
          .ok (intOfWord length.toNat) s' ∧
        s'.outbox = s.outbox ++ (buffer.drop base).take length.toNat) ∧
    (∀ (buffer : List UInt8) (base : Nat), base + length.toNat ≤ buffer.length →
      length.toNat ≤ s.inbox.length →
      ∃ s', Stream.readFixSize (fun i n => read (base + i) n) fuel length.toNat (s, buffer) =
          .ok (intOfWord length.toNat) (s', overwrite buffer base (s.inbox.take length.toNat)) ∧
        s'.inbox = s.inbox.drop length.toNat) := by
  have hword := length.toNat_lt
  have hsent : s.Sent s.outbox := ⟨hconn, rfl⟩
  have hready : s.Ready (s.inbox.take length.toNat ++ s.inbox.drop length.toNat) :=
    ⟨hconn, (List.take_append_drop _ _).symm⟩
  have hlen : length.toNat ≤ s.inbox.length → (s.inbox.take length.toNat).length = length.toNat :=
    List.length_take_of_le
  refine ⟨?_, ?_, ?_, ?_⟩
  · intro ba hinv hfit
    rcases writeFixSizeBytes_taken s ba hinv s.outbox length.toNat hword hfit hsent fuel hfuel with
      ⟨s', ba', hrun, hsent', hinv', hmem, hpos, hsize⟩
    exact ⟨s', ba', hrun, hsent'.outbox, hpos, hsize, hmem, hinv'⟩
  · intro ba hinv henough
    rcases readFixSizeBytes_stored s ba hinv _ _ (by rw [hlen henough]; exact hword) hready fuel
      (by rw [hlen henough]; exact hfuel) with
      ⟨s', ba', tail, hrun, hready', hinv', hmem, hpos, hsize⟩
    have hsc := hinv.size_le
    have hple := hinv.position_le
    have hml := hinv.length_memory
    -- The array has grown by what did not fit, and the bytes are read back at the old cursor.
    have hback := take_drop_overwrite (ba.memory ++ tail) ba.position (s.inbox.take length.toNat)
      (by rw [List.length_append]; omega)
    rw [hlen henough] at hrun hpos hsize hback
    exact ⟨s', ba', tail, hrun, hready'.inbox, hmem ▸ hback, hpos, hsize, hmem, hinv'⟩
  · intro buffer base hfit
    rcases writeFixSize_taken s buffer s.outbox base length.toNat hword hfit hsent fuel hfuel with
      ⟨s', hrun, hsent', -⟩
    exact ⟨s', hrun, hsent'.outbox⟩
  · intro buffer base hfit henough
    rcases readFixSize_stored s buffer base _ _ (by rw [hlen henough]; exact hword) hready
      (by rw [hlen henough]; exact hfit) fuel (by rw [hlen henough]; exact hfuel) with
      ⟨s', hrun, hready', -⟩
    rw [hlen henough] at hrun
    exact ⟨s', hrun, hready'.inbox⟩

/-- A socket that transfers one byte and then two, and an array with its cursor in the first of
    two nodes. -/
def cutting : Socket := ⟨true, [1, 2, 3, 4], [9], fun i => i + 1, 0⟩

def twoNodes : ByteArray :=
  { baseSize := 2, position := 1, capacity := 4, size := 4, endian := .big,
    nodes := [⟨[5, 6]⟩, ⟨[7, 8]⟩], cur := some 0, heap := fun _ => 0 }

theorem exact_delivery_three :
    twoNodes.Inv ∧
    (∃ s' ba', Stream.writeFixSizeBytes writeBytes 4 3 (cutting, twoNodes) = .ok 3 (s', ba') ∧
      s'.outbox = [9, 6, 7, 8] ∧ ba'.position = 4) ∧
    ∃ s' ba', Stream.readFixSizeBytes readBytes 4 3 (cutting, twoNodes) = .ok 3 (s', ba') ∧
      s'.inbox = [4] ∧ (ba'.memory.drop 1).take 3 = [1, 2, 3] ∧ ba'.position = 4 := by
  have hinv : twoNodes.Inv := by
    refine ⟨by decide, by decide, ?_, rfl, by decide, by decide, rfl⟩
    intro n hn
    simp only [twoNodes, List.mem_cons, List.not_mem_nil, or_false] at hn
    rcases hn with rfl | rfl <;> rfl
  rcases exact_delivery cutting rfl 3 4 (by decide) with ⟨hwrite, hread, -, -⟩
  refine ⟨hinv, ?_, ?_⟩
  · rcases hwrite twoNodes hinv (by decide) with ⟨s', ba', hrun, hout, hpos, -⟩
    exact ⟨s', ba', hrun, hout, hpos⟩
  · rcases hread twoNodes hinv (by decide) with ⟨s', ba', tail, hrun, hin, hback, hpos, -⟩
    exact ⟨s', ba', hrun, hin, hback, hpos⟩

end SocketStream

end YkServer
