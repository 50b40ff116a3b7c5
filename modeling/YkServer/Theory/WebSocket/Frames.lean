import YkServer.Theory.Stream.Delivery
import YkServer.Theory.WebSocket.Bounds

/-!
# Frames on the Wire

A frame as the protocol has it, its bytes, and what a round of `WSRecvMessage` does
when they are the next bytes of the stream.

There are three cases. A frame that is not a data frame is taken for its head alone:
whatever stands behind the head is left in the stream. A data frame that is accepted
is taken whole, and its payload is what the data grows by. Any other data frame ends
the loop, or the program commits undefined behaviour.

`Accepted` is exact. It depends on the frame and on the number of bytes the message
has so far, and besides the limit it knows the places where a size has to be an
`int`: `cur_len`, the result of `readFixSize`, and the index of the unmasking loop.

## Main definitions

* `Frame`, `Frame.bytes`: A frame and its bytes.
* `Frame.Data`: A data frame.
* `Accepted`: The data frames a receiver takes.
* `advance`: What an accepted frame leads to.
* `Socket.Open`: The state of a connection.

## Theorems

* `recvFrame_control`: Frames that are not data frames.
* `recvFrame_accepted`: Accepted data frames.
* `recvFrame_refused`: The others.
-/

namespace YkServer

open Lib

/-- Connected, with exactly `inbox` to be received and `outbox` sent so far. -/
structure Socket.Open (s : Socket) (inbox outbox : List UInt8) : Prop where
  connected : s.connected = true
  inbox : s.inbox = inbox
  outbox : s.outbox = outbox

theorem Socket.Open.ready {s : Socket} {inbox outbox : List UInt8} (h : s.Open inbox outbox) :
    s.Ready inbox := ⟨h.connected, h.inbox⟩

theorem Socket.Open.sent {s : Socket} {inbox outbox : List UInt8} (h : s.Open inbox outbox) :
    s.Sent outbox := ⟨h.connected, h.outbox⟩

namespace WebSocket

/-- The length behind the head of a frame, if the head does not hold it. -/
def lengthBytes (size : Nat) : List UInt8 :=
  if payloadField size = 126 then (leBytes 2 size).reverse
  else if payloadField size = 127 then (leBytes 8 size).reverse
  else []

/-- A payload as it is sent, masked if there is a key. -/
def maskedWith (key : Option (List UInt8)) (payload : List UInt8) : List UInt8 :=
  match key with
  | none => payload
  | some k => xorKey (fun i => k.getD (i % 4) 0) 0 payload

/-- A frame of the protocol. The key is the mask, if the frame has one. -/
structure Frame where
  fin : Bool
  rsv1 : Bool
  rsv2 : Bool
  rsv3 : Bool
  opcode : Nat
  key : Option (List UInt8)
  payload : List UInt8
  opcode_lt : opcode < 16
  key_length : ∀ k, key = some k → k.length = 4
  payload_lt : payload.length < 2 ^ 63

namespace Frame

def head (f : Frame) : WSFrameHead :=
  ⟨f.opcode, f.rsv3, f.rsv2, f.rsv1, f.fin, payloadField f.payload.length, f.key.isSome⟩

/-- What stands behind the head. -/
def body (f : Frame) : List UInt8 :=
  lengthBytes f.payload.length ++ (f.key.getD [] ++ maskedWith f.key f.payload)

def bytes (f : Frame) : List UInt8 := bytesOfHead f.head ++ f.body

/-- A frame with a part of a message. -/
def Data (f : Frame) : Prop :=
  f.opcode = CONTINUE ∨ f.opcode = TEXT_FRAME ∨ f.opcode = BIN_FRAME

instance (f : Frame) : Decidable f.Data :=
  inferInstanceAs (Decidable (f.opcode = CONTINUE ∨ f.opcode = TEXT_FRAME ∨ f.opcode = BIN_FRAME))

/-- A frame that is its head. -/
def Bare (f : Frame) : Prop := f.key = none ∧ f.payload = []

instance (f : Frame) : Decidable f.Bare :=
  inferInstanceAs (Decidable (f.key = none ∧ f.payload = []))

end Frame

/-- The bytes `WSPong` sends. -/
def pongBytes : List UInt8 := bytesOfHead ⟨PONG, false, false, false, true, 0, false⟩

/-- What is sent in answer to a frame. -/
def answer (f : Frame) : List UInt8 := if f.opcode = PING then pongBytes else []

/-- A data frame that is taken when its message has `total` bytes so far. -/
structure Accepted (maxSize : UInt32) (client : Bool) (total : Nat) (f : Frame) : Prop where
  masked : client = true ∨ f.key ≠ none
  nonempty : f.payload ≠ []
  before : total < 2 ^ 31
  length : f.payload.length < 2 ^ 31
  limit : total + f.payload.length < maxSize.toNat
  index : f.key ≠ none → total + f.payload.length ≤ 2 ^ 31

/-- The opcode of the message when a frame has been taken. -/
def nextOpcode (l : Locals) (f : Frame) : Nat :=
  if l.opcode = 0 ∧ f.opcode ≠ CONTINUE then f.opcode else l.opcode

/-- What an accepted frame leads to. -/
def advance (l : Locals) (f : Frame) : Flow :=
  if f.fin then .done ⟨nextOpcode l f, l.data ++ f.payload⟩
  else .again ⟨nextOpcode l f, l.data ++ f.payload, intOfWord (l.data ++ f.payload).length⟩

/-! ## The parts of a frame -/

theorem payloadField_lt (size : Nat) : payloadField size < 128 := by
  unfold payloadField
  split
  · omega
  · split <;> omega

theorem length_bytesOfHead (h : WSFrameHead) : (bytesOfHead h).length = 2 := rfl

/-- The bit fields read back. -/
theorem headOfBytes_bytesOfHead (h : WSFrameHead) (hop : h.opcode < 16)
    (hpay : h.payload < 128) :
    ∃ b₀ b₁, bytesOfHead h = [b₀, b₁] ∧ headOfBytes b₀ b₁ = h := by
  refine ⟨_, _, rfl, ?_⟩
  rcases h with ⟨opcode, rsv3, rsv2, rsv1, fin, payload, mask⟩
  simp only [] at hop hpay
  simp only [headOfBytes, WSFrameHead.mk.injEq, UInt8.toNat_ofNat',
    Nat.testBit_eq_decide_div_mod_eq]
  -- The five flags are single bits; the other two fields are what is left of each byte.
  cases rsv3 <;> cases rsv2 <;> cases rsv1 <;> cases fin <;> cases mask <;>
    simp only [Bool.toNat_false, Bool.toNat_true, decide_eq_false_iff_not,
      decide_eq_true_eq] <;> omega

/-- The next bytes are read to a local variable. -/
theorem readLocal_open (s : Socket) (bs rest out : List UInt8) (hbs : 0 < bs.length)
    (hint : bs.length < 2 ^ 31) (h : s.Open (bs ++ rest) out) :
    ∃ s', readLocal bs.length s = .ok (some bs) s' ∧ s'.Open rest out := by
  rcases SocketStream.readFixSize_stored s (List.replicate bs.length 0) 0 bs rest (by omega)
    h.ready (by rw [List.length_replicate]; omega) (bs.length + 1) (by omega) with
    ⟨s', hrun, hready, hout⟩
  have hall : overwrite (List.replicate bs.length 0) 0 bs = bs :=
    overwrite_all _ _ List.length_replicate
  simp only [Nat.zero_add, hall] at hrun
  rw [intOfWord_small _ hint] at hrun
  refine ⟨s', ?_, hready.connected, hready.inbox, hout.trans h.outbox⟩
  rw [readLocal, bind_ok _ _ _ _ _ (within_ok _ s s' _ _ _ hrun)]
  simp only []
  rw [if_neg (by omega)]
  rfl

theorem recvHead_open (s : Socket) (f : Frame) (rest out : List UInt8)
    (h : s.Open (bytesOfHead f.head ++ rest) out) :
    ∃ s', recvHead s = .ok (some f.head) s' ∧ s'.Open rest out := by
  rcases headOfBytes_bytesOfHead f.head f.opcode_lt (payloadField_lt _) with ⟨b₀, b₁, hb, hback⟩
  rw [hb] at h
  have hlen : [b₀, b₁].length = 2 := rfl
  rcases readLocal_open s [b₀, b₁] rest out (by omega) (by omega) h with ⟨s', hrun, hopen⟩
  rw [hlen] at hrun
  refine ⟨s', ?_, hopen⟩
  rw [recvHead, bind_ok _ _ _ _ _ hrun]
  simp only [hback]
  rfl

/-- A length in network order. -/
theorem readNumber_open (s : Socket) (k v : Nat) (rest out : List UInt8) (hk : 0 < k)
    (hint : k < 2 ^ 31) (hv : v < 256 ^ k) (h : s.Open ((leBytes k v).reverse ++ rest) out) :
    ∃ b s', readLocal k s = .ok (some b) s' ∧ leValue b.reverse = v ∧ s'.Open rest out := by
  have hlen : (leBytes k v).reverse.length = k := by rw [List.length_reverse, length_leBytes]
  rcases readLocal_open s (leBytes k v).reverse rest out (by omega) (by omega) h with
    ⟨s', hrun, hopen⟩
  rw [hlen] at hrun
  exact ⟨_, s', hrun, by rw [List.reverse_reverse, leValue_leBytes k v hv], hopen⟩

theorem recvLength_open (s : Socket) (head : WSFrameHead) (size : Nat) (rest out : List UInt8)
    (hsize : size < 2 ^ 64) (hhead : head.payload = payloadField size)
    (h : s.Open (lengthBytes size ++ rest) out) :
    ∃ s', recvLength head s = .ok (some size) s' ∧ s'.Open rest out := by
  unfold lengthBytes at h
  unfold recvLength
  rw [hhead]
  split
  · -- The size is below `2 ^ 16`, or its field would be another one.
    rename_i h126
    rw [if_pos h126] at h
    have hsmall : size < 256 ^ 2 := by
      unfold payloadField at h126
      split at h126
      · omega
      · split at h126 <;> omega
    rcases readNumber_open s 2 size rest out (by decide) (by decide) hsmall h with
      ⟨b, s', hrun, hval, hopen⟩
    refine ⟨s', ?_, hopen⟩
    rw [bind_ok _ _ _ _ _ hrun]
    simp only [hval]
    rfl
  · rename_i h126
    rw [if_neg h126] at h
    split
    · rename_i h127
      rw [if_pos h127] at h
      rcases readNumber_open s 8 size rest out (by decide) (by decide) (by omega) h with
        ⟨b, s', hrun, hval, hopen⟩
      refine ⟨s', ?_, hopen⟩
      rw [bind_ok _ _ _ _ _ hrun]
      simp only [hval]
      rfl
    · rename_i h127
      rw [if_neg h127] at h
      -- The field is the size itself.
      have hself : payloadField size = size := by
        unfold payloadField at h126 h127 ⊢
        split
        · rfl
        · split at h126 <;> simp_all
      rw [hself]
      exact ⟨s, rfl, h⟩

theorem recvMask_open (s : Socket) (f : Frame) (rest out : List UInt8)
    (h : s.Open (f.key.getD [] ++ rest) out) :
    ∃ s', recvMask f.head s = .ok (some (f.key.getD [0, 0, 0, 0])) s' ∧ s'.Open rest out := by
  -- A frame without a key leaves the variable as it was initialised.
  rcases hkey : f.key with _ | k
  · rw [hkey] at h
    refine ⟨s, ?_, h⟩
    rw [recvMask, if_neg (by simp [Frame.head, hkey])]
    rfl
  · rw [hkey] at h
    have hlen := f.key_length k hkey
    rcases readLocal_open s k rest out (by omega) (by omega) h with ⟨s', hrun, hopen⟩
    rw [hlen] at hrun
    refine ⟨s', ?_, hopen⟩
    rw [recvMask, if_pos (by simp [Frame.head, hkey])]
    exact hrun

/-- The unmasking loop combines the bytes from the start on with the mask. -/
theorem unmask_append (mask : List UInt8) (start i : Nat) (front todo : List UInt8)
    (hfront : front.length = start + i) :
    unmask mask start todo.length i (front ++ todo) =
      front ++ xorKey (fun j => mask.getD (j % 4) 0) i todo := by
  induction todo generalizing i front with
  | nil => rfl
  | cons b todo ih =>
      -- The byte at `start + i` is the first one that is still to do.
      have hmod : (front ++ b :: todo).modify (start + i) (fun b => b ^^^ mask.getD (i % 4) 0) =
          (front ++ [b ^^^ mask.getD (i % 4) 0]) ++ todo := by
        rw [← hfront, List.modify_eq_take_drop, List.take_left, List.drop_left, List.append_assoc]
        rfl
      have hmore : (front ++ [b ^^^ mask.getD (i % 4) 0]).length = start + (i + 1) := by
        rw [List.length_append, hfront]
        rfl
      rw [List.length_cons, unmask, hmod, ih (i + 1) _ hmore, xorKey, List.append_assoc]
      rfl

/-! ## A data frame from the length on -/

theorem length_maskedWith (key : Option (List UInt8)) (payload : List UInt8) :
    (maskedWith key payload).length = payload.length := by
  cases key with
  | none => rfl
  | some k => exact length_xorKey _ _ _

/-- The data is resized by the length and the bytes are stored there. -/
theorem overwrite_resize (data bs : List UInt8) :
    overwrite (resize data (data.length + bs.length)) data.length bs = data ++ bs := by
  have hresize : resize data (data.length + bs.length) =
      data ++ List.replicate bs.length 0 := by
    rw [resize, List.take_of_length_le (by omega), Nat.add_sub_cancel_left]
  have hback := overwrite_append_right data (List.replicate bs.length 0) 0 bs
  rw [Nat.add_zero] at hback
  rw [hresize, hback, overwrite_all _ _ List.length_replicate]

/-- Unmasking what was received gives the payload back. -/
theorem unmask_maskedWith (f : Frame) (data : List UInt8) :
    (if f.head.mask = true then
      unmask (f.key.getD [0, 0, 0, 0]) data.length f.payload.length 0
        (data ++ maskedWith f.key f.payload)
      else data ++ maskedWith f.key f.payload) = data ++ f.payload := by
  rcases hkey : f.key with _ | k
  · rw [if_neg (by simp [Frame.head, hkey])]
    rfl
  · rw [if_pos (by simp [Frame.head, hkey]), Option.getD_some,
      ← length_maskedWith (some k) f.payload, unmask_append k data.length 0 _ _ rfl, maskedWith,
      xorKey_twice]

/-- A frame that does not exceed the limit, after less than `2 ^ 31` bytes: the payload is
    received, and then its length and the last index have to be positive and an `int`. -/
theorem recvPayload_inside (maxSize : UInt32) (f : Frame) (l : Locals) (s : Socket)
    (rest out : List UInt8) (hcur : l.curLen = l.data.length)
    (hlimit : l.data.length + f.payload.length < maxSize.toNat)
    (h : s.Open (f.key.getD [] ++ (maskedWith f.key f.payload ++ rest)) out) :
    ∃ s', s'.Open rest out ∧ recvPayload maxSize f.head f.payload.length l s =
      if intOfWord f.payload.length ≤ 0 then .ok .stop s'
      else if f.head.mask ∧ 2 ^ 31 < l.curLen + intOfWord f.payload.length then .fault
      else .ok (advance l f) s' := by
  have hmax := maxSize.toNat_lt
  -- Below the limit nothing wraps, so the data is resized by the length of the payload.
  have hsum : frameSum l.curLen f.payload.length = l.data.length + f.payload.length := by
    have hexact := frameSum_exact l.curLen f.payload.length (by omega) (by omega)
    omega
  have hbase : wordOfInt l.curLen = l.data.length := by rw [hcur, wordOfInt_natCast]
  have hlen := length_maskedWith f.key f.payload
  rcases recvMask_open s f _ out h with ⟨s₁, hmask, hopen₁⟩
  rcases SocketStream.readFixSize_stored s₁
    (resize l.data (l.data.length + (maskedWith f.key f.payload).length)) l.data.length
    (maskedWith f.key f.payload) rest (by omega) hopen₁.ready (by rw [length_resize])
    (f.payload.length + 1) (by omega) with ⟨s₂, hread, hready, hout⟩
  rw [overwrite_resize, hlen] at hread
  refine ⟨s₂, ⟨hready.connected, hready.inbox, hout.trans hopen₁.outbox⟩, ?_⟩
  rw [recvPayload, recvPayloadBy, if_neg (by omega), bind_ok _ _ _ _ _ hmask]
  simp only [hsum, hbase]
  rw [bind_ok _ _ _ _ _ (within_ok _ s₁ s₂ _ _ _ hread)]
  simp only []
  split
  · rfl
  · split
    · rfl
    · -- The loop runs over the whole payload.
      have hcount : (intOfWord f.payload.length).toNat = f.payload.length := by
        rename_i hpos _
        by_cases hsmall : f.payload.length < 2 ^ 31
        · rw [intOfWord_small _ hsmall, Int.toNat_natCast]
        · rw [intOfWord_large _ (by omega) (by omega)] at hpos
          omega
      rw [hcount, hcur, Int.toNat_natCast, unmask_maskedWith, advance, List.length_append]
      rcases hfin : f.fin with _ | _
      · rw [if_neg (by simp [Frame.head, hfin]), if_neg Bool.false_ne_true]
        rfl
      · rw [if_pos (by simp [Frame.head, hfin]), if_pos rfl]
        rfl

/-- Bytes that arrive for a place behind a buffer. -/
theorem readFixSize_behindEnd (s : Socket) (buffer : List UInt8) (base : Nat)
    (bs rest : List UInt8) (hbs : bs ≠ []) (h : s.Ready (bs ++ rest))
    (hbase : buffer.length ≤ base) :
    Stream.readFixSize (fun i n => SocketStream.read (base + i) n) (bs.length + 1) bs.length
      (s, buffer) = .fault := by
  have hpos := List.length_pos_of_ne_nil hbs
  rcases Socket.recv_ready s bs rest hbs h with ⟨k, s', hrecv, hk, hkle, -, -⟩
  have htake : (bs.take k).length = k := by
    rw [List.length_take]
    omega
  rw [Stream.readFixSize, Stream.fixLoop, if_neg (by omega)]
  -- The first part that arrives is already stored behind the buffer.
  apply bind_fault
  rw [SocketStream.read, bind_ok _ _ _ _ _ (first_ok _ s s' buffer _ hrecv)]
  simp only []
  rw [bind_ok _ _ _ _ _ (get_apply _)]
  simp only [htake]
  rw [if_neg (by omega), if_pos (by omega)]
  rfl

/-- A frame after `2 ^ 31` bytes or more, which make `cur_len` negative. -/
theorem recvPayload_negative (maxSize : UInt32) (f : Frame) (l : Locals) (s : Socket)
    (rest out : List UInt8) (hcur : l.curLen = intOfWord l.data.length)
    (hlow : 2 ^ 31 ≤ l.data.length) (hhigh : l.data.length < 2 ^ 32)
    (h : s.Open (f.key.getD [] ++ (maskedWith f.key f.payload ++ rest)) out) :
    recvPayload maxSize f.head f.payload.length l s = .fault ∨
      ∃ s', recvPayload maxSize f.head f.payload.length l s = .ok .stop s' := by
  have hmax := maxSize.toNat_lt
  rw [intOfWord_large _ hlow hhigh] at hcur
  rcases wordOfInt_neg l.curLen (by omega) (by omega) with ⟨hbase, -⟩
  by_cases hbig : maxSize.toNat ≤ frameSum l.curLen f.payload.length
  · exact Or.inr ⟨s, by rw [recvPayload, recvPayloadBy, if_pos hbig]; rfl⟩
  · rcases recvMask_open s f _ out h with ⟨s₁, hmask, hopen₁⟩
    have hlen := length_maskedWith f.key f.payload
    rw [recvPayload, recvPayloadBy, if_neg hbig, bind_ok _ _ _ _ _ hmask]
    by_cases hnil : f.payload = []
    · -- Nothing is read, and the result is 0.
      refine Or.inr ⟨s₁, ?_⟩
      rw [hnil]
      rfl
    · -- The sum has wrapped, and the place is far behind the data.
      left
      have hread := readFixSize_behindEnd s₁
        (resize l.data (frameSum l.curLen f.payload.length)) (wordOfInt l.curLen)
        (maskedWith f.key f.payload) rest
        (List.ne_nil_of_length_pos (by rw [hlen]; exact List.length_pos_of_ne_nil hnil))
        hopen₁.ready (by rw [length_resize]; omega)
      rw [hlen] at hread
      simp only []
      exact bind_fault _ _ _ (within_fault _ s₁ _ hread)

/-- A data frame that is not accepted ends the loop. -/
theorem recvPayload_refused (maxSize : UInt32) (client : Bool) (f : Frame) (l : Locals)
    (s : Socket) (rest out : List UInt8) (hcur : l.curLen = intOfWord l.data.length)
    (htotal : l.data.length < 2 ^ 32) (hmasked : client = true ∨ f.key ≠ none)
    (hno : ¬Accepted maxSize client l.data.length f)
    (h : s.Open (f.key.getD [] ++ (maskedWith f.key f.payload ++ rest)) out) :
    recvPayload maxSize f.head f.payload.length l s = .fault ∨
      ∃ s', recvPayload maxSize f.head f.payload.length l s = .ok .stop s' := by
  have hmax := maxSize.toNat_lt
  have hpay := f.payload_lt
  -- `cur_len` is the size of the data, or it has become negative.
  by_cases hlow : l.data.length < 2 ^ 31
  · rw [intOfWord_small _ hlow] at hcur
    have hexact := frameSum_exact l.curLen f.payload.length (by omega) (by omega)
    by_cases hlimit : l.data.length + f.payload.length < maxSize.toNat
    · rcases recvPayload_inside maxSize f l s rest out hcur hlimit h with ⟨s', -, hrun⟩
      rw [hrun]
      split
      · exact Or.inr ⟨s', rfl⟩
      · split
        · exact Or.inl rfl
        · -- Nothing else would have been wrong with the frame.
          rename_i hpos hindex
          exfalso
          have hint : f.payload.length < 2 ^ 31 := by
            by_contra hlarge
            rw [intOfWord_large _ (by omega) (by omega)] at hpos
            omega
          rw [intOfWord_small _ hint] at hpos hindex
          refine hno ⟨hmasked, List.ne_nil_of_length_pos (by omega), hlow, hint, hlimit, ?_⟩
          intro hkey
          by_contra hover
          exact hindex ⟨Option.isSome_iff_ne_none.2 hkey, by omega⟩
    · -- The limit is exceeded before anything is read.
      exact Or.inr ⟨s, by rw [recvPayload, recvPayloadBy, if_pos (by omega)]; rfl⟩
  · exact recvPayload_negative maxSize f l s rest out hcur (by omega) htotal h

/-! ## Rounds -/

/-- A frame that is a head is sent. -/
theorem sendBare_open (opcode : Nat) (s : Socket) (inbox out : List UInt8)
    (h : s.Open inbox out) :
    ∃ s', sendBare opcode s = .ok 2 s' ∧
      s'.Open inbox (out ++ bytesOfHead ⟨opcode, false, false, false, true, 0, false⟩) := by
  rcases SocketStream.writeFixSize_sent s
    (bytesOfHead ⟨opcode, false, false, false, true, 0, false⟩) out
    (by rw [length_bytesOfHead]; decide) h.sent with ⟨s', hrun, hsent, hinbox⟩
  refine ⟨s', ?_, hsent.connected, hinbox.trans h.inbox, hsent.outbox⟩
  rw [sendBare, bind_ok _ _ _ _ _ hrun]
  rfl

/-- A frame that is not a data frame is taken for its head, and a ping is answered. -/
theorem recvFrame_control (maxSize : UInt32) (client : Bool) (l : Locals) (f : Frame) (s : Socket)
    (rest out : List UInt8) (hf : ¬f.Data) (h : s.Open (f.bytes ++ rest) out) :
    ∃ s', recvFrame maxSize client l s = .ok (.again l) s' ∧
      s'.Open (f.body ++ rest) (out ++ answer f) := by
  unfold Frame.Data at hf
  rw [Frame.bytes, List.append_assoc] at h
  rcases recvHead_open s f _ out h with ⟨s₁, hhead, hopen₁⟩
  have hop : f.head.opcode = f.opcode := rfl
  rw [recvFrame, bind_ok _ _ _ _ _ hhead]
  simp only [hop]
  by_cases hping : f.opcode = PING
  · rcases sendBare_open PONG s₁ _ out hopen₁ with ⟨s₂, hpong, hopen₂⟩
    refine ⟨s₂, ?_, ?_⟩
    · rw [if_pos hping, WSPong, bind_ok _ _ _ _ _ hpong]
      rfl
    · rw [answer, if_pos hping]
      exact hopen₂
  · refine ⟨s₁, ?_, ?_⟩
    · rw [if_neg hping]
      by_cases hpong : f.opcode = PONG
      · rw [if_pos hpong]
        rfl
      · rw [if_neg hpong, if_neg hf]
        rfl
    · rw [answer, if_neg hping, List.append_nil]
      exact hopen₁

theorem data_opcode (f : Frame) (hf : f.Data) :
    f.head.opcode ≠ PING ∧ f.head.opcode ≠ PONG ∧
      (f.head.opcode = CONTINUE ∨ f.head.opcode = TEXT_FRAME ∨ f.head.opcode = BIN_FRAME) := by
  refine ⟨?_, ?_, hf⟩ <;> rcases hf with ho | ho | ho <;> simp only [Frame.head, ho] <;> decide

/-- A data frame with the mask it needs is its payload. -/
theorem recvFrame_data (maxSize : UInt32) (client : Bool) (l : Locals) (f : Frame) (s : Socket)
    (rest out : List UInt8) (hf : f.Data) (hmasked : client = true ∨ f.key ≠ none)
    (h : s.Open (f.bytes ++ rest) out) :
    ∃ s', s'.Open (f.key.getD [] ++ (maskedWith f.key f.payload ++ rest)) out ∧
      recvFrame maxSize client l s = recvPayload maxSize f.head f.payload.length l s' := by
  have hpay := f.payload_lt
  rw [Frame.bytes, List.append_assoc] at h
  rcases recvHead_open s f _ out h with ⟨s₁, hhead, hopen₁⟩
  rw [Frame.body, List.append_assoc, List.append_assoc] at hopen₁
  rcases recvLength_open s₁ f.head f.payload.length _ out (by omega) rfl hopen₁ with
    ⟨s₂, hlength, hopen₂⟩
  refine ⟨s₂, hopen₂, ?_⟩
  rcases data_opcode f hf with ⟨hping, hpong, hdata⟩
  -- Only a server insists on the mask.
  have hmask : ¬(¬client = true ∧ ¬f.head.mask = true) := by
    rintro ⟨hc, hm⟩
    rcases hmasked with hclient | hkey
    · exact hc hclient
    · exact hm (Option.isSome_iff_ne_none.2 hkey)
  rw [recvFrame, bind_ok _ _ _ _ _ hhead]
  simp only [if_neg hping, if_neg hpong, if_neg hmask]
  rw [if_pos hdata, bind_ok _ _ _ _ _ hlength]

/-- An accepted frame is taken whole, and the data grows by its payload. -/
theorem recvFrame_accepted (maxSize : UInt32) (client : Bool) (l : Locals) (f : Frame)
    (s : Socket) (rest out : List UInt8) (hcur : l.curLen = intOfWord l.data.length)
    (hf : f.Data) (hacc : Accepted maxSize client l.data.length f)
    (h : s.Open (f.bytes ++ rest) out) :
    ∃ s', recvFrame maxSize client l s = .ok (advance l f) s' ∧ s'.Open rest out := by
  have hpos := List.length_pos_of_ne_nil hacc.nonempty
  have hint := intOfWord_small _ hacc.length
  rw [intOfWord_small _ hacc.before] at hcur
  rcases recvFrame_data maxSize client l f s rest out hf hacc.masked h with ⟨s₂, hopen₂, hdata⟩
  rcases recvPayload_inside maxSize f l s₂ rest out hcur hacc.limit hopen₂ with
    ⟨s', hopen', hrun⟩
  have hindex : ¬(f.head.mask = true ∧ 2 ^ 31 < l.curLen + intOfWord f.payload.length) := by
    rintro ⟨hmask, hlarge⟩
    have hle := hacc.index (Option.isSome_iff_ne_none.1 hmask)
    omega
  rw [if_neg (by omega), if_neg hindex] at hrun
  exact ⟨s', hdata.trans hrun, hopen'⟩

/-- A data frame that is not accepted ends the loop. -/
theorem recvFrame_refused (maxSize : UInt32) (client : Bool) (l : Locals) (f : Frame)
    (s : Socket) (rest out : List UInt8) (hcur : l.curLen = intOfWord l.data.length)
    (htotal : l.data.length < 2 ^ 32) (hf : f.Data)
    (hno : ¬Accepted maxSize client l.data.length f) (h : s.Open (f.bytes ++ rest) out) :
    recvFrame maxSize client l s = .fault ∨
      ∃ s', recvFrame maxSize client l s = .ok .stop s' := by
  by_cases hmasked : client = true ∨ f.key ≠ none
  · rcases recvFrame_data maxSize client l f s rest out hf hmasked h with ⟨s₂, hopen₂, hdata⟩
    rw [hdata]
    exact recvPayload_refused maxSize client f l s₂ rest out hcur htotal hmasked hno hopen₂
  · -- A frame without a mask at a server.
    rw [not_or, not_not] at hmasked
    rcases hmasked with ⟨hclient, hkey⟩
    rw [Frame.bytes, List.append_assoc] at h
    rcases recvHead_open s f _ out h with ⟨s₁, hhead, -⟩
    rcases data_opcode f hf with ⟨hping, hpong, hdata⟩
    have hmask : ¬client = true ∧ ¬f.head.mask = true := ⟨hclient, by simp [Frame.head, hkey]⟩
    refine Or.inr ⟨s₁, ?_⟩
    rw [recvFrame, bind_ok _ _ _ _ _ hhead]
    simp only [if_neg hping, if_neg hpong]
    rw [if_pos hdata, if_pos hmask]
    rfl

/-! ## The loop -/

theorem recvLoop_again (maxSize : UInt32) (client : Bool) (fuel : Nat) (l l' : Locals)
    (s s' : Socket) (h : recvFrame maxSize client l s = .ok (.again l') s') :
    recvLoop maxSize client (fuel + 1) l s = recvLoop maxSize client fuel l' s' := by
  rw [recvLoop, bind_ok _ _ _ _ _ h]

theorem recvLoop_done (maxSize : UInt32) (client : Bool) (fuel : Nat) (l : Locals)
    (s s' : Socket) (m : WSFrameMessage) (h : recvFrame maxSize client l s = .ok (.done m) s') :
    recvLoop maxSize client (fuel + 1) l s = .ok (some m) s' := by
  rw [recvLoop, bind_ok _ _ _ _ _ h]
  rfl

/-- A frame that is refused ends the loop without a message. -/
theorem recvLoop_refused (maxSize : UInt32) (client : Bool) (fuel : Nat) (l : Locals)
    (s s' : Socket) (m : WSFrameMessage)
    (h : recvFrame maxSize client l s = .fault ∨
      ∃ s₁, recvFrame maxSize client l s = .ok .stop s₁) :
    recvLoop maxSize client (fuel + 1) l s ≠ .ok (some m) s' := by
  intro hrun
  rcases h with hfault | ⟨s₁, hstop⟩
  · rw [recvLoop, bind_fault _ _ _ hfault] at hrun
    cases hrun
  · rw [recvLoop, bind_ok _ _ _ _ _ hstop] at hrun
    cases hrun

end WebSocket

end YkServer
