import YkServer.Core.WebSocketStream
import YkServer.Lib.Interleaving
import YkServer.Theory.WebSocket.RoundTrip

/-!
# Sending a Message Again

One message that is sent any number of times, over any streams, as a client or as a
server. A server leaves the message alone. A client masks the data in the message
itself, as soon as the head and the length have been written, and never unmasks it. So
the first frame is right, and the next call starts from masked data.

The message is left as it was where the bytes of the mask that are used are zero. Apart
from that a client has to fail before it comes to masking.

## Main definitions

* `Call.bytes`: The frame of the message.
* `Call.Reaches`: The head and the length are written.
* `Call.Preserves`: What is expected of a call.
* `Call.Harmless`: The condition for it.

## Theorems

* `send_spec`: What one call does.
* `message_preserved_iff`: Any number of calls.
-/

namespace YkServer

open Lib

namespace WebSocket

namespace Call

variable {σ : Type} (c : Call σ)

/-- The head of the frame of a message. -/
def head (msg : WSFrameMessage) : List UInt8 :=
  bytesOfHead ⟨msg.opcode, false, false, false, c.fin, payloadField msg.data.length, c.client⟩

/-- The frame of a message. -/
def bytes (msg : WSFrameMessage) : List UInt8 :=
  c.head msg ++ (lengthBytes msg.data.length ++
    ((senderKey c.client c.randValue).getD [] ++
      maskedWith (senderKey c.client c.randValue) msg.data))

/-- The stream takes some bytes. -/
def Takes (bytes : List UInt8) (s : σ) : Prop := 0 < (c.writeFixSize bytes s).1

/-- The head and the length, if there is one behind the head, are written. -/
def Reaches (msg : WSFrameMessage) (s : σ) : Prop :=
  c.Takes (c.head msg) s ∧ (lengthBytes msg.data.length = [] ∨
    c.Takes (lengthBytes msg.data.length) (c.writeFixSize (c.head msg) s).2)

/-- The message afterwards. -/
def leaves (msg : WSFrameMessage) : WSFrameMessage :=
  ⟨msg.opcode, maskedWith (senderKey c.client c.randValue) msg.data⟩

/-- What is expected of a call: the message is `m₀` afterwards, and if the stream is not
    closed it has been handed the frame of `m₀`. -/
def Preserves (m₀ : WSFrameMessage) (w : Resend σ) : Prop :=
  ∀ w', Resend.step c w = some w' →
    w'.msg = m₀ ∧ (w'.sent.closed = false → w'.sent.bytes = c.bytes m₀)

/-- The call is a server's, or fails before the data is masked, or masks with zeros
    only. -/
def Harmless (w : Resend σ) : Prop :=
  c.client = false ∨ ¬c.Reaches w.msg w.streams ∨
    ∀ i < w.msg.data.length, (leBytes 4 c.randValue.toNat).getD (i % 4) 0 = 0

/-- The frame is the one of the round trip. -/
theorem bytes_messageFrame (msg : WSFrameMessage) (hop : msg.opcode < 16)
    (hlen : msg.data.length < 2 ^ 63) :
    c.bytes msg = (messageFrame c.client c.fin c.randValue msg hop hlen).bytes := by
  have hmask : (senderKey c.client c.randValue).isSome = c.client := by
    rw [senderKey]
    cases c.client <;> rfl
  rw [bytes, head, Frame.bytes, Frame.head, messageFrame, hmask]
  rfl

/-! ## The parts of a call -/

instance (bs : List UInt8) (s : σ) : Decidable (c.Takes bs s) :=
  inferInstanceAs (Decidable (0 < (c.writeFixSize bs s).1))

/-- A write with a record. -/
theorem write_recorded (bs : List UInt8) (s : σ) (sent : Sent) :
    AnyStream.write c.recorded bs (s, sent) =
      .ok (decide (c.Takes bs s)) ((c.writeFixSize bs s).2,
        if c.Takes bs s then { sent with bytes := sent.bytes ++ bs } else sent) := rfl

/-- The length behind the head. -/
theorem sendLength_recorded (n : Nat) (s : σ) (sent : Sent) :
    ∃ ok s' sent', AnyStream.sendLength c.recorded (payloadField n) n (s, sent) =
        .ok ok (s', sent') ∧
      (ok = true ↔ lengthBytes n = [] ∨ c.Takes (lengthBytes n) s) ∧
      (ok = true → sent' = { sent with bytes := sent.bytes ++ lengthBytes n }) := by
  -- Where there is a length, it is written.
  have hwrite : ∀ k, 0 < k → ∃ ok s' sent',
      AnyStream.write c.recorded (leBytes k n).reverse (s, sent) = .ok ok (s', sent') ∧
      (ok = true ↔ (leBytes k n).reverse = [] ∨ c.Takes (leBytes k n).reverse s) ∧
      (ok = true → sent' = { sent with bytes := sent.bytes ++ (leBytes k n).reverse }) := by
    intro k hk
    refine ⟨_, _, _, c.write_recorded _ s sent, ?_, fun hok => ?_⟩
    · rw [decide_eq_true_eq, or_iff_right]
      intro hnil
      have hlen := congrArg List.length hnil
      rw [List.length_reverse, length_leBytes, List.length_nil] at hlen
      omega
    · rw [decide_eq_true_eq] at hok
      rw [if_pos hok]
  unfold lengthBytes AnyStream.sendLength
  by_cases h126 : payloadField n = 126
  · rw [if_pos h126, if_pos h126]
    exact hwrite 2 (by decide)
  · rw [if_neg h126, if_neg h126]
    by_cases h127 : payloadField n = 127
    · rw [if_pos h127, if_pos h127]
      exact hwrite 8 (by decide)
    · rw [if_neg h127, if_neg h127]
      refine ⟨true, s, sent, rfl, iff_of_true rfl (Or.inl rfl), fun _ => ?_⟩
      rw [List.append_nil]

/-- The mask, and the message behind it. -/
theorem sendMask_recorded (s : σ) (sent : Sent) (msg : WSFrameMessage) :
    ∃ ok s' sent', AnyStream.sendMask c.recorded c.client c.randValue ((s, sent), msg) =
        .ok ok ((s', sent'), c.leaves msg) ∧
      (ok = true → sent' =
        { sent with bytes := sent.bytes ++ (senderKey c.client c.randValue).getD [] }) := by
  unfold AnyStream.sendMask leaves senderKey
  cases c.client with
  | false =>
      refine ⟨true, s, sent, rfl, fun _ => ?_⟩
      rw [if_neg Bool.false_ne_true, Option.getD_none, List.append_nil]
  | true =>
      -- Masking is the loop of the receiver, over the data from its start on.
      have hmask := unmask_append (leBytes 4 c.randValue.toNat) 0 0 [] msg.data rfl
      rw [List.nil_append, List.nil_append] at hmask
      rw [if_pos rfl, if_pos rfl, bind_ok _ _ _ _ _ (modify_apply _ _)]
      simp only [hmask]
      refine ⟨_, _, _, first_ok _ _ _ _ _ (c.write_recorded _ s sent), fun hok => ?_⟩
      rw [decide_eq_true_eq] at hok
      rw [if_pos hok, Option.getD_some]

/-- The body of the function, given what becomes of its four writes. -/
theorem sendFrame_stages (msg msg₃ : WSFrameMessage) (t₀ t₁ t₂ t₃ t₄ : σ × Sent)
    (b₁ b₂ b₃ b₄ : Bool) (h₁ : AnyStream.write c.recorded (c.head msg) t₀ = .ok b₁ t₁)
    (h₂ : AnyStream.sendLength c.recorded (payloadField msg.data.length) msg.data.length t₁ =
      .ok b₂ t₂)
    (h₃ : AnyStream.sendMask c.recorded c.client c.randValue (t₂, msg) = .ok b₃ (t₃, msg₃))
    (h₄ : AnyStream.write c.recorded msg₃.data t₃ = .ok b₄ t₄) :
    AnyStream.sendFrame c.recorded c.client c.fin c.randValue (t₀, msg) =
      if b₁ then
        if b₂ then
          if b₃ then
            if b₄ then .ok (some (intOfWord (msg.data.length + 2))) (t₄, msg₃)
            else .ok none (t₄, msg₃)
          else .ok none (t₃, msg₃)
        else .ok none (t₂, msg)
      else .ok none (t₁, msg) := by
  rw [head] at h₁
  rw [AnyStream.sendFrame, bind_ok _ _ _ _ _ (get_apply _)]
  simp only []
  rw [bind_ok _ _ _ _ _ (first_ok _ _ _ msg _ h₁)]
  cases b₁ with
  | false => rfl
  | true =>
      simp only []
      rw [bind_ok _ _ _ _ _ (first_ok _ _ _ msg _ h₂)]
      cases b₂ with
      | false => rfl
      | true =>
          simp only []
          rw [bind_ok _ _ _ _ _ h₃]
          cases b₃ with
          | false => rfl
          | true =>
              simp only []
              rw [bind_ok _ _ _ _ _ (get_apply _)]
              simp only []
              rw [bind_ok _ _ _ _ _ (first_ok _ _ _ msg₃ _ h₄)]
              cases b₄ <;> rfl

/-! ## One call -/

/-- A call that breaks off closes the stream, and has only the message to answer for. -/
theorem send_break (st : (σ × Sent) × WSFrameMessage) (msg m : WSFrameMessage) (t : σ × Sent)
    (h : AnyStream.sendFrame c.recorded c.client c.fin c.randValue st = .ok none (t, m)) :
    ∃ v s sent, c.send st = .ok v ((s, sent), m) ∧
      (sent.closed = false → sent.bytes = c.bytes msg) := by
  refine ⟨-1, c.close t.1, { t.2 with closed := true }, ?_, fun hopen => by cases hopen⟩
  rw [send, AnyStream.WSSendMessage, bind_ok _ _ _ _ _ h]
  rfl

/-- A call that goes through. -/
theorem send_through (st : (σ × Sent) × WSFrameMessage) (m : WSFrameMessage) (t : σ × Sent)
    (v : Int)
    (h : AnyStream.sendFrame c.recorded c.client c.fin c.randValue st = .ok (some v) (t, m)) :
    c.send st = .ok v (t, m) := by
  rw [send, AnyStream.WSSendMessage, bind_ok _ _ _ _ _ h]
  rfl

/-- One call: the message is masked once the head and the length are written, and a
    frame that is sent is that of the message as it was. -/
theorem send_spec (s : σ) (msg : WSFrameMessage) :
    ∃ v s' sent m, c.send ((s, ⟨[], false⟩), msg) = .ok v ((s', sent), m) ∧
      (c.Reaches msg s → m = c.leaves msg) ∧ (¬c.Reaches msg s → m = msg) ∧
      (sent.closed = false → sent.bytes = c.bytes msg) := by
  have h₁ := c.write_recorded (c.head msg) s ⟨[], false⟩
  set s₁ := (c.writeFixSize (c.head msg) s).2 with hs₁
  set sent₁ : Sent := if c.Takes (c.head msg) s then ⟨[] ++ c.head msg, false⟩ else ⟨[], false⟩
    with hsent₁
  rcases c.sendLength_recorded msg.data.length s₁ sent₁ with ⟨b₂, s₂, sent₂, h₂, hok₂, hsent₂⟩
  rcases c.sendMask_recorded s₂ sent₂ msg with ⟨b₃, s₃, sent₃, h₃, hsent₃⟩
  have h₄ := c.write_recorded (c.leaves msg).data s₃ sent₃
  have hframe := c.sendFrame_stages msg (c.leaves msg) _ _ _ _ _ _ _ _ _ h₁ h₂ h₃ h₄
  by_cases hhead : c.Takes (c.head msg) s
  · rw [if_pos (decide_eq_true hhead)] at hframe
    cases b₂ with
    | false =>
        -- The length was not written, so the message is still what it was.
        have hno : ¬c.Reaches msg s := fun hyes => Bool.false_ne_true (hok₂.2 hyes.2)
        rcases c.send_break _ msg _ _ hframe with ⟨v, s', sent, hrun, hopen⟩
        exact ⟨v, s', sent, msg, hrun, fun hyes => absurd hyes hno, fun _ => rfl, hopen⟩
    | true =>
        have hyes : c.Reaches msg s := ⟨hhead, hok₂.1 rfl⟩
        rw [if_pos rfl] at hframe
        cases b₃ with
        | false =>
            rcases c.send_break _ msg _ _ hframe with ⟨v, s', sent, hrun, hopen⟩
            exact ⟨v, s', sent, _, hrun, fun _ => rfl, fun hno => absurd hyes hno, hopen⟩
        | true =>
            rw [if_pos rfl] at hframe
            by_cases hdata : c.Takes (c.leaves msg).data s₃
            · rw [if_pos (decide_eq_true hdata)] at hframe
              refine ⟨_, _, _, _, c.send_through _ _ _ _ hframe, fun _ => rfl,
                fun hno => absurd hyes hno, fun _ => ?_⟩
              -- Head, length, mask and data, one behind the other.
              rw [if_pos hdata, hsent₃ rfl, hsent₂ rfl, hsent₁, if_pos hhead]
              simp only [List.nil_append, List.append_assoc]
              rfl
            · rw [if_neg (fun h => hdata (of_decide_eq_true h))] at hframe
              rcases c.send_break _ msg _ _ hframe with ⟨v, s', sent, hrun, hopen⟩
              exact ⟨v, s', sent, _, hrun, fun _ => rfl, fun hno => absurd hyes hno, hopen⟩
  · rw [if_neg (fun h => hhead (of_decide_eq_true h))] at hframe
    rcases c.send_break _ msg _ _ hframe with ⟨v, s', sent, hrun, hopen⟩
    exact ⟨v, s', sent, msg, hrun, fun hyes => absurd hyes.1 hhead, fun _ => rfl, hopen⟩

/-- The mask leaves the message alone. -/
theorem leaves_eq_iff (msg : WSFrameMessage) :
    c.leaves msg = msg ↔ c.client = false ∨
      ∀ i < msg.data.length, (leBytes 4 c.randValue.toNat).getD (i % 4) 0 = 0 := by
  rcases msg with ⟨opcode, data⟩
  simp only [leaves, WSFrameMessage.mk.injEq, true_and, senderKey]
  cases c.client with
  | false =>
      rw [if_neg Bool.false_ne_true]
      exact iff_of_true rfl (Or.inl rfl)
  | true =>
      rw [if_pos rfl, maskedWith, xorKey_eq_self_iff]
      simp only [Nat.zero_add, Bool.true_eq_false, false_or]

/-! ## Any number of calls -/

/-- Every call goes through to a new state. -/
theorem step_spec (w : Resend σ) :
    ∃ w', Resend.step c w = some w' ∧ (c.Reaches w.msg w.streams → w'.msg = c.leaves w.msg) ∧
      (¬c.Reaches w.msg w.streams → w'.msg = w.msg) ∧
      (w'.sent.closed = false → w'.sent.bytes = c.bytes w.msg) := by
  rcases c.send_spec w.streams w.msg with ⟨v, s', sent, m, hrun, hyes, hno, hopen⟩
  exact ⟨⟨s', sent, m⟩, by simp only [Resend.step, hrun], hyes, hno, hopen⟩

/-- A call on the message as it was preserves it exactly if it is harmless. -/
theorem preserves_iff (m₀ : WSFrameMessage) (w : Resend σ) (hw : w.msg = m₀) :
    c.Preserves m₀ w ↔ c.Harmless w := by
  rcases c.step_spec w with ⟨w', hstep, hyes, hno, hopen⟩
  have honly : c.Preserves m₀ w ↔ w'.msg = m₀ := by
    constructor
    · intro hall
      exact (hall w' hstep).1
    · intro hmsg w'' hstep''
      rw [hstep, Option.some.injEq] at hstep''
      rw [← hstep'', ← hw]
      exact ⟨hmsg.trans hw.symm, hopen⟩
  rw [honly, Harmless]
  by_cases hreach : c.Reaches w.msg w.streams
  · rw [hyes hreach, ← hw, leaves_eq_iff, or_iff_right (not_not.2 hreach)]
  · rw [hno hreach]
    exact iff_of_true hw (Or.inr (Or.inl hreach))

end Call

/-- Any number of calls on one message: every call leaves it as it was at first, and hands
    out its frame if it succeeds, exactly if every call is harmless. -/
theorem message_preserved_iff {σ : Type} (calls : List (Call σ)) (s : σ) (msg : WSFrameMessage) :
    Along Resend.step (fun w c => Call.Preserves c msg w) calls ⟨s, ⟨[], false⟩, msg⟩ ↔
      Along Resend.step (fun w c => Call.Harmless c w) calls ⟨s, ⟨[], false⟩, msg⟩ := by
  refine along_iff (fun w => w.msg = msg) ?_ ?_ calls _ rfl
  · intro w c hw
    exact c.preserves_iff msg w hw
  · intro w c w' hw hc hstep
    exact ((c.preserves_iff msg w hw).2 hc w' hstep).1

/-- A client's call on a stream that takes everything. -/
def goodCall (client : Bool) (randValue : UInt32) : Call Unit :=
  ⟨fun bytes s => ((bytes.length : Nat), s), id, client, true, randValue⟩

/-- A client's call masks the message. -/
theorem message_masked :
    ¬∀ (σ : Type) (calls : List (Call σ)) (s : σ) (msg : WSFrameMessage),
      Along Resend.step (fun w c => Call.Preserves c msg w) calls ⟨s, ⟨[], false⟩, msg⟩ := by
  intro hall
  have hone := hall Unit [goodCall true 0x04030201] () ⟨TEXT_FRAME, [0x68, 0x69]⟩
  have hmsg := (hone.1 ⟨(), _, ⟨TEXT_FRAME, [0x69, 0x6b]⟩⟩ rfl).1
  cases hmsg

end WebSocket

end YkServer
