import YkServer.Theory.WebSocket.Frames

/-!
# Messages There and Back

`WSSendMessage` against `WSRecvMessage`. What is sent is one frame, whatever the
socket does with the writes. Its payload is then written by a last `writeFixSize`,
whose result is the size of the payload as an `int`: zero for an empty message, and
negative for one of `2 ^ 31` bytes or more. Both count as a failure, and the stream
is closed after the frame has been sent. The result of `WSSendMessage` is an
`int32_t` of the size and two, which excludes two more sizes.

Every other message below the limit of the receiver arrives, in both directions.

## Main definitions

* `messageFrame`: The frame of a message.
* `RoundTrip`: What is claimed of a message.

## Theorems

* `WSSendMessage_open`: What is sent, and the result.
* `message_round_trip`: Every message of both directions.
* `empty_message_closes`: The empty message.
-/

namespace YkServer

open Lib

namespace WebSocket

/-- The mask of a sender. -/
def senderKey (client : Bool) (randValue : UInt32) : Option (List UInt8) :=
  if client then some (leBytes 4 randValue.toNat) else none

/-- The frame that `WSSendMessage` sends. -/
def messageFrame (client fin : Bool) (randValue : UInt32) (msg : WSFrameMessage)
    (hop : msg.opcode < 16) (hlen : msg.data.length < 2 ^ 63) : Frame where
  fin := fin
  rsv1 := false
  rsv2 := false
  rsv3 := false
  opcode := msg.opcode
  key := senderKey client randValue
  payload := msg.data
  opcode_lt := hop
  key_length := by
    intro k hk
    unfold senderKey at hk
    split at hk
    · cases hk
      exact length_leBytes 4 _
    · cases hk
  payload_lt := hlen

/-! ## Sending -/

/-- Some bytes are sent, and the result is whether their number is a positive `int`. -/
theorem write_open (s : Socket) (bs inbox out : List UInt8) (hbs : bs.length < 2 ^ 64)
    (h : s.Open inbox out) :
    ∃ s', AnyStream.write socketWriteFixSize bs s = .ok (decide (0 < intOfWord bs.length)) s' ∧
      s'.Open inbox (out ++ bs) := by
  rcases SocketStream.writeFixSize_taken s bs out 0 bs.length hbs (by omega) h.sent
    (bs.length + 1) (by omega) with ⟨s', hrun, hsent, hinbox⟩
  rw [List.drop_zero, List.take_length] at hsent
  simp only [Nat.zero_add] at hrun
  refine ⟨s', ?_, hsent.connected, hinbox.trans h.inbox, hsent.outbox⟩
  rw [AnyStream.write, socketWriteFixSize, bind_ok _ _ _ _ _ hrun]
  rfl

/-- The same for a field of a frame. -/
theorem write_field (s : Socket) (bs inbox out : List UInt8) (hpos : 0 < bs.length)
    (hint : bs.length < 2 ^ 31) (h : s.Open inbox out) :
    ∃ s', AnyStream.write socketWriteFixSize bs s = .ok true s' ∧ s'.Open inbox (out ++ bs) := by
  rcases write_open s bs inbox out (by omega) h with ⟨s', hrun, hopen⟩
  rw [intOfWord_small _ hint, decide_eq_true (by omega)] at hrun
  exact ⟨s', hrun, hopen⟩

theorem sendLength_open (s : Socket) (size : Nat) (inbox out : List UInt8)
    (h : s.Open inbox out) :
    ∃ s', AnyStream.sendLength socketWriteFixSize (payloadField size) size s = .ok true s' ∧
      s'.Open inbox (out ++ lengthBytes size) := by
  unfold AnyStream.sendLength lengthBytes
  split
  · exact write_field s _ inbox out (by rw [List.length_reverse, length_leBytes]; decide)
      (by rw [List.length_reverse, length_leBytes]; decide) h
  · split
    · exact write_field s _ inbox out (by rw [List.length_reverse, length_leBytes]; decide)
        (by rw [List.length_reverse, length_leBytes]; decide) h
    · -- Below 126 the head holds the length, and nothing is sent for it.
      refine ⟨s, rfl, ?_⟩
      rw [List.append_nil]
      exact h

/-- A client masks the data and sends the mask. -/
theorem sendMask_open (s : Socket) (client : Bool) (randValue : UInt32) (msg : WSFrameMessage)
    (inbox out : List UInt8) (h : s.Open inbox out) :
    ∃ s', AnyStream.sendMask socketWriteFixSize client randValue (s, msg) =
        .ok true (s', ⟨msg.opcode, maskedWith (senderKey client randValue) msg.data⟩) ∧
      s'.Open inbox (out ++ (senderKey client randValue).getD []) := by
  unfold AnyStream.sendMask senderKey
  cases client with
  | false =>
      refine ⟨s, rfl, ?_⟩
      rw [if_neg Bool.false_ne_true, Option.getD_none, List.append_nil]
      exact h
  | true =>
      -- Masking is the loop of the receiver, over the data of the message from its start on.
      have hmask := unmask_append (leBytes 4 randValue.toNat) 0 0 [] msg.data rfl
      rw [List.nil_append, List.nil_append] at hmask
      have hfour := length_leBytes 4 randValue.toNat
      rcases write_field s (leBytes 4 randValue.toNat) inbox out (by omega) (by omega) h with
        ⟨s', hrun, hopen⟩
      refine ⟨s', ?_, hopen⟩
      rw [if_pos rfl, if_pos rfl, bind_ok _ _ _ _ _ (modify_apply _ _)]
      simp only [hmask]
      exact first_ok _ s s' _ _ hrun

/-- One frame is sent. The result is there if the size of the payload is a positive `int`. -/
theorem sendFrame_open (s : Socket) (client fin : Bool) (randValue : UInt32)
    (msg : WSFrameMessage) (hop : msg.opcode < 16) (hlen : msg.data.length < 2 ^ 63)
    (inbox out : List UInt8) (h : s.Open inbox out) :
    ∃ s' msg', s'.Open inbox (out ++ (messageFrame client fin randValue msg hop hlen).bytes) ∧
      AnyStream.sendFrame socketWriteFixSize client fin randValue (s, msg) =
        .ok (if 0 < intOfWord msg.data.length then some (intOfWord (msg.data.length + 2))
          else none) (s', msg') := by
  -- Head, length, mask and data are sent one after another.
  rcases write_field s (bytesOfHead (messageFrame client fin randValue msg hop hlen).head)
    inbox out (by rw [length_bytesOfHead]; decide) (by rw [length_bytesOfHead]; decide) h with
    ⟨s₁, hhead, hopen₁⟩
  rcases sendLength_open s₁ msg.data.length inbox _ hopen₁ with ⟨s₂, hlength, hopen₂⟩
  rcases sendMask_open s₂ client randValue msg inbox _ hopen₂ with ⟨s₃, hmask, hopen₃⟩
  have hsize := length_maskedWith (senderKey client randValue) msg.data
  rcases write_open s₃ (maskedWith (senderKey client randValue) msg.data) inbox _
    (by omega) hopen₃ with ⟨s₄, hdata, hopen₄⟩
  rw [hsize] at hdata
  refine ⟨s₄, ⟨msg.opcode, maskedWith (senderKey client randValue) msg.data⟩, ?_, ?_⟩
  · rw [List.append_assoc, List.append_assoc, List.append_assoc] at hopen₄
    exact hopen₄
  · have hfields : (messageFrame client fin randValue msg hop hlen).head =
        ⟨msg.opcode, false, false, false, fin, payloadField msg.data.length, client⟩ := by
      cases client <;> rfl
    rw [hfields] at hhead
    rw [AnyStream.sendFrame, bind_ok _ _ _ _ _ (get_apply _)]
    simp only []
    rw [bind_ok _ _ _ _ _ (first_ok _ s s₁ msg _ hhead)]
    simp only []
    rw [bind_ok _ _ _ _ _ (first_ok _ s₁ s₂ msg _ hlength)]
    simp only []
    rw [bind_ok _ _ _ _ _ hmask]
    simp only []
    rw [bind_ok _ _ _ _ _ (get_apply _)]
    simp only []
    rw [bind_ok _ _ _ _ _ (first_ok _ s₃ s₄ _ _ hdata)]
    -- `writeFixSize` returns the size as an `int`, and zero counts as a failure.
    by_cases hpos : 0 < intOfWord msg.data.length
    · rw [decide_eq_true hpos, if_pos hpos]
      rfl
    · rw [decide_eq_false hpos, if_neg hpos]
      rfl

/-- What is sent, and the result. -/
theorem WSSendMessage_open (s : Socket) (client fin : Bool) (randValue : UInt32)
    (msg : WSFrameMessage) (hop : msg.opcode < 16) (hlen : msg.data.length < 2 ^ 63)
    (inbox out : List UInt8) (h : s.Open inbox out) :
    ∃ s' msg', s'.Open inbox (out ++ (messageFrame client fin randValue msg hop hlen).bytes) ∧
      WSSendMessage client fin randValue (s, msg) =
        if 0 < intOfWord msg.data.length then .ok (intOfWord (msg.data.length + 2)) (s', msg')
        else .ok (-1) ({ s' with connected := false }, msg') := by
  rcases sendFrame_open s client fin randValue msg hop hlen inbox out h with
    ⟨s', msg', hopen, hrun⟩
  refine ⟨s', msg', hopen, ?_⟩
  rw [WSSendMessage, AnyStream.WSSendMessage, bind_ok _ _ _ _ _ hrun]
  by_cases hpos : 0 < intOfWord msg.data.length
  · rw [if_pos hpos, if_pos hpos]
    rfl
  · rw [if_neg hpos, if_neg hpos]
    rfl

/-! ## Receiving -/

/-- A message in one frame. -/
theorem WSRecvMessage_single (maxSize : UInt32) (client : Bool) (f : Frame) (r : Socket)
    (rest out : List UInt8) (hop : f.opcode = TEXT_FRAME ∨ f.opcode = BIN_FRAME)
    (hfin : f.fin = true) (hacc : Accepted maxSize client 0 f) (h : r.Open (f.bytes ++ rest) out) :
    ∃ r', WSRecvMessage maxSize client r = .ok (some ⟨f.opcode, f.payload⟩) r' ∧
      r'.Open rest out := by
  rcases recvFrame_accepted maxSize client ⟨0, [], 0⟩ f r rest out rfl (Or.inr hop) hacc h with
    ⟨r', hrun, hopen⟩
  have hnew : f.opcode ≠ CONTINUE := by
    rcases hop with ho | ho <;> rw [ho] <;> decide
  have hdone : advance ⟨0, [], 0⟩ f = .done ⟨f.opcode, f.payload⟩ := by
    rw [advance, if_pos hfin, nextOpcode, if_pos ⟨rfl, hnew⟩]
    rfl
  rw [hdone] at hrun
  exact ⟨r', recvLoop_done maxSize client _ _ r r' _ hrun, hopen⟩

/-- What is claimed of a message: it is sent with a positive result, the other end receives it
    and nothing else, and neither end is closed. -/
def RoundTrip (maxSize : UInt32) (client : Bool) (randValue : UInt32) (msg : WSFrameMessage)
    (s r : Socket) (rest : List UInt8) : Prop :=
  ∃ v s' msg' sent, WSSendMessage client true randValue (s, msg) = .ok v (s', msg') ∧ 0 < v ∧
    s'.connected = true ∧ s'.outbox = s.outbox ++ sent ∧
    ∃ r', WSRecvMessage maxSize (!client) { r with inbox := sent ++ rest } = .ok (some msg) r' ∧
      r'.connected = true ∧ r'.inbox = rest ∧ r'.outbox = r.outbox

/-- A message below the limit arrives if it is not empty, and if its size and two is an
    `int32_t`. No other message is sent with a positive result. -/
theorem message_round_trip (maxSize : UInt32) (client : Bool) (randValue : UInt32)
    (msg : WSFrameMessage) (hop : msg.opcode = TEXT_FRAME ∨ msg.opcode = BIN_FRAME)
    (hlimit : msg.data.length < maxSize.toNat) (s r : Socket) (hs : s.connected = true)
    (hr : r.connected = true) (rest : List UInt8) :
    RoundTrip maxSize client randValue msg s r rest ↔
      msg.data ≠ [] ∧ msg.data.length + 2 < 2 ^ 31 := by
  have hmax := maxSize.toNat_lt
  have hcode : msg.opcode < 16 := by
    rcases hop with ho | ho <;> rw [ho] <;> decide
  rcases WSSendMessage_open s client true randValue msg hcode (by omega) s.inbox s.outbox
    ⟨hs, rfl, rfl⟩ with ⟨s', msg', hopen, hsend⟩
  constructor
  · rintro ⟨v, s'', msg'', sent, hrun, hpos, -⟩
    rw [hsend] at hrun
    split at hrun
    · rename_i hsize
      cases hrun
      refine ⟨?_, ?_⟩
      · rintro hnil
        rw [hnil] at hsize
        exact absurd hsize (by decide)
      · -- Of the sizes from `2 ^ 31 - 2` on, two make only the result negative and the others fail.
        by_contra hlarge
        by_cases hsum : msg.data.length + 2 < 2 ^ 32
        · rw [intOfWord_large _ (by omega) hsum] at hpos
          omega
        · rw [intOfWord_large _ (by omega) (by omega)] at hsize
          omega
    · cases hrun
      exact absurd hpos (by decide)
  · rintro ⟨hne, hint⟩
    have hlen := List.length_pos_of_ne_nil hne
    rw [intOfWord_small _ (by omega), if_pos (by omega), intOfWord_small _ (by omega)] at hsend
    -- The receiver accepts what the sender makes: a mask from a client, none from a server.
    have hacc : Accepted maxSize (!client) 0
        (messageFrame client true randValue msg hcode (by omega)) := by
      refine ⟨?_, hne, by decide, by simp only [messageFrame]; omega, ?_, ?_⟩
      · cases client with
        | false => exact Or.inl rfl
        | true => exact Or.inr (Option.some_ne_none _)
      · simp only [messageFrame]
        omega
      · intro _
        simp only [messageFrame]
        omega
    rcases WSRecvMessage_single maxSize (!client) _
      { r with inbox := (messageFrame client true randValue msg hcode (by omega)).bytes ++ rest }
      rest r.outbox hop rfl hacc ⟨hr, rfl, rfl⟩ with ⟨r', hrecv, hopen'⟩
    exact ⟨_, s', msg', _, hsend, by omega, hopen.connected, hopen.outbox, r', hrecv,
      hopen'.connected, hopen'.inbox, hopen'.outbox⟩

/-- A masked message of five bytes, with other bytes behind it. -/
theorem message_round_trip_hello :
    RoundTrip 33554432 true 0x04030201 ⟨TEXT_FRAME, [0x68, 0x65, 0x6c, 0x6c, 0x6f]⟩ (peer [])
      (peer []) [0x89, 0x00] :=
  (message_round_trip 33554432 true 0x04030201 ⟨TEXT_FRAME, [0x68, 0x65, 0x6c, 0x6c, 0x6f]⟩
    (Or.inl rfl) (by decide) (peer []) (peer []) rfl rfl [0x89, 0x00]).2
    ⟨by decide, by decide⟩

/-- The empty message has been sent when the result says that it has not, and the stream is
    closed. -/
theorem empty_message_closes :
    (∃ s' msg', WSSendMessage false true 0 (peer [], ⟨TEXT_FRAME, []⟩) = .ok (-1) (s', msg') ∧
      s'.outbox = [0x81, 0x00] ∧ s'.connected = false) ∧
      ¬RoundTrip 33554432 false 0 ⟨TEXT_FRAME, []⟩ (peer []) (peer []) [] := by
  refine ⟨⟨_, _, rfl, rfl, rfl⟩, ?_⟩
  rintro ⟨v, s', msg', sent, hrun, hpos, -⟩
  have hresult : WSSendMessage false true 0 (peer [], ⟨TEXT_FRAME, []⟩) = .ok (-1) _ := rfl
  rw [hresult] at hrun
  cases hrun
  exact absurd hpos (by decide)

end WebSocket

end YkServer
