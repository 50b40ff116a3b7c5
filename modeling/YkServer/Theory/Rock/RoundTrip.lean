import YkServer.Core.Rock
import YkServer.Theory.Stream.Transfer

/-!
# Rock Messages Round Trip

Messages written to one end of a connection and parsed at the other. The bytes of
a message are given outright, the writer is shown to send a header and those
bytes, and the parser to take them off, whatever the transport cuts them into.

The parser fails in two ways. Its byte array has exactly the room the message
needs, rounded up to whole nodes. When there is nothing to round and the body is
empty, the body is read with the cursor at the end of the capacity, where the
array has no current node. And a length from `2 ^ 31` on is a negative
`int32_t`, which the parser takes for the length of a read that cannot succeed.
Every message that is neither comes through.

## Main definitions

* `RockMessage.bytes`: The serialised form of a message.
* `RockMessage.Fits`: Neither of the two.
* `Rock.frame`: A header and a message.
* `Rock.RoundTrip`: All messages come through, and nothing but them is consumed.

## Theorems

* `serializeTo_sent`: A message is sent as its frame.
* `parseFrom_ready`: A message that fits is parsed from its frame.
* `parseFrom_fault`, `parseFrom_long`: One that does not is not.
* `roundTrip_iff`: Any number of messages.
* `empty_body_faults`: A response of one node with an empty body.
-/

namespace YkServer

open Lib YkServer.ByteArray

namespace RockMessage

/-- The body of a message. -/
def body : RockMessage → List UInt8
  | .request _ _ body => body
  | .response _ _ _ _ body => body
  | .notify _ body => body

/-- The serialised form in front of the body. -/
def front : RockMessage → List UInt8
  | .request sn cmd _ => [1] ++ varint 5 sn.toNat ++ varint 5 cmd.toNat
  | .response sn cmd result resultStr _ =>
    [2] ++ varint 5 sn.toNat ++ varint 5 cmd.toNat ++ varint 5 result.toNat ++ vstring resultStr
  | .notify code _ => [3] ++ varint 5 code.toNat

/-- The serialised form. -/
def bytes (m : RockMessage) : List UInt8 := m.front ++ vstring m.body

/-- The size is an `int32_t`, and an empty body does not end a node. -/
def Fits (m : RockMessage) : Prop :=
  m.bytes.length < 2 ^ 31 ∧ ¬(m.body = [] ∧ Rock.baseSize ∣ m.bytes.length)

theorem length_vstring_ge (bs : List UInt8) : bs.length ≤ (vstring bs).length := by
  rw [vstring, List.length_append]
  omega

theorem length_body_le (m : RockMessage) : m.body.length ≤ m.bytes.length := by
  have hle := length_vstring_ge m.body
  rw [bytes, List.length_append]
  omega

/-- The type is always there. -/
theorem length_bytes_pos (m : RockMessage) : 0 < m.bytes.length := by
  cases m <;> exact Nat.succ_pos _

/-- Serialising appends the bytes. -/
theorem serialize_written (m : RockMessage) (hlen : m.bytes.length < 2 ^ 64) (ba : ByteArray)
    (h : ba.Written []) : ∃ ba', m.serialize ba = .ok () ba' ∧ ba'.Written m.bytes := by
  have hbody := Nat.lt_of_le_of_lt m.length_body_le hlen
  cases m with
  | request sn cmd body =>
      rcases writeFuint8_written ba [] 1 h with ⟨b₁, hr₁, h₁⟩
      rcases writeUint32_written b₁ _ sn h₁ with ⟨b₂, hr₂, h₂⟩
      rcases writeUint32_written b₂ _ cmd h₂ with ⟨b₃, hr₃, h₃⟩
      rcases writeStringVint_written b₃ _ body hbody h₃ with ⟨b₄, hr₄, h₄⟩
      refine ⟨b₄, ?_, h₄⟩
      rw [serialize, getType, bind_ok _ _ _ _ _ hr₁, bind_ok _ _ _ _ _ hr₂,
        bind_ok _ _ _ _ _ hr₃, hr₄]
  | response sn cmd result resultStr body =>
      -- The result string is shorter than the whole message.
      have hstr : resultStr.length < 2 ^ 64 := by
        have hle := length_vstring_ge resultStr
        simp only [bytes, front, List.length_append] at hlen
        omega
      rcases writeFuint8_written ba [] 2 h with ⟨b₁, hr₁, h₁⟩
      rcases writeUint32_written b₁ _ sn h₁ with ⟨b₂, hr₂, h₂⟩
      rcases writeUint32_written b₂ _ cmd h₂ with ⟨b₃, hr₃, h₃⟩
      rcases writeUint32_written b₃ _ result h₃ with ⟨b₄, hr₄, h₄⟩
      rcases writeStringVint_written b₄ _ resultStr hstr h₄ with ⟨b₅, hr₅, h₅⟩
      rcases writeStringVint_written b₅ _ body hbody h₅ with ⟨b₆, hr₆, h₆⟩
      refine ⟨b₆, ?_, h₆⟩
      rw [serialize, getType, bind_ok _ _ _ _ _ hr₁, bind_ok _ _ _ _ _ hr₂,
        bind_ok _ _ _ _ _ hr₃, bind_ok _ _ _ _ _ hr₄, bind_ok _ _ _ _ _ hr₅, hr₆]
  | notify code body =>
      rcases writeFuint8_written ba [] 3 h with ⟨b₁, hr₁, h₁⟩
      rcases writeUint32_written b₁ _ code h₁ with ⟨b₂, hr₂, h₂⟩
      rcases writeStringVint_written b₂ _ body hbody h₂ with ⟨b₃, hr₃, h₃⟩
      refine ⟨b₃, ?_, h₃⟩
      rw [serialize, getType, bind_ok _ _ _ _ _ hr₁, bind_ok _ _ _ _ _ hr₂, hr₃]

/-- A string takes a byte at least, for its length. -/
theorem vstring_pos (bs : List UInt8) (hlen : bs.length < 2 ^ 64) : 0 < (vstring bs).length := by
  rcases Option.isSome_iff_exists.mp (encode128_isSome 9 bs.length (by omega)) with ⟨tmp, htmp⟩
  have hpos := (encode128_length 10 bs.length tmp htmp).1
  rw [vstring, varint, htmp, Option.getD_some, List.length_append]
  omega

end RockMessage

namespace Rock

/-- A message with its header. -/
def frame (m : RockMessage) : List UInt8 := header m.bytes.length ++ m.bytes

theorem length_header (n : Nat) : (header n).length = headerSize := by
  rw [header, List.length_append, List.length_reverse, length_leBytes]
  rfl

/-- The byte array of a message, with the cursor in front of it. -/
theorem toByteArray_unread (heap : Nat → UInt8) (m : RockMessage)
    (hlen : m.bytes.length < 2 ^ 64) :
    ∃ ba, toByteArray m (ByteArray.new baseSize heap) = .ok () ba ∧ ba.Unread m.bytes ∧
      ba.size = m.bytes.length ∧ ba.getReadSize = m.bytes.length := by
  rcases m.serialize_written hlen (ByteArray.new baseSize heap)
    (written_new baseSize heap (by decide)) with ⟨ba, hser, hba⟩
  have hser' : m.serializeToByteArray (ByteArray.new baseSize heap) = .ok true ba := by
    rw [RockMessage.serializeToByteArray, bind_ok _ _ _ _ _ (attempt_ok _ _ _ _ hser)]
    rfl
  rcases hba.rewind with ⟨ba₁, hset, hunread, -, hsize, -⟩
  refine ⟨ba₁, ?_, hunread, by rw [hsize, hba.length], by rw [getReadSize, hunread.length]⟩
  rw [toByteArray, bind_ok _ _ _ _ _ hser']
  simp only [not_true, if_false]
  exact hset

/-- A message is sent as its frame. -/
theorem serializeTo_sent (heap : Nat → UInt8) (m : RockMessage) (hlen : m.bytes.length < 2 ^ 64)
    (s : Socket) (out : List UInt8) (h : s.Sent out) :
    ∃ rt s', serializeTo heap m s = .ok rt s' ∧ s'.Sent (out ++ frame m) := by
  rcases toByteArray_unread heap m hlen with ⟨ba, hser, hunread, hsize, hread⟩
  rcases SocketStream.writeFixSize_sent s (header ba.size) out
    (by rw [length_header]; decide) h with ⟨s₁, hhead, hsent₁, -⟩
  rw [length_header] at hhead
  rcases SocketStream.writeFixSizeBytes_sent s₁ ba _ m.bytes hlen hsent₁ hunread with
    ⟨s₂, ba₂, hbody, hsent₂⟩
  rw [← hread] at hbody
  have hpos8 : ¬((headerSize : Nat) : Int) ≤ 0 := by decide
  have hinner : ∃ rt, sendFrame m (s, ByteArray.new baseSize heap) = .ok rt (s₂, ba₂) := by
    rw [sendFrame, bind_ok _ _ _ _ _ (second_ok _ s _ ba _ hser), bind_ok _ _ _ _ _ (get_apply _)]
    simp only []
    rw [bind_ok _ _ _ _ _ (first_ok _ s s₁ ba _ hhead), if_neg hpos8,
      bind_ok _ _ _ _ _ hbody]
    -- The size may be too large for an `int`; everything has been sent all the same.
    by_cases hneg : intOfWord ba.getReadSize ≤ 0
    · exact ⟨_, by rw [if_pos hneg]; rfl⟩
    · exact ⟨_, by rw [if_neg hneg]; rfl⟩
  rcases hinner with ⟨rt, hrun⟩
  refine ⟨rt, s₂, ?_, ?_⟩
  · rw [serializeTo, bind_ok _ _ _ _ _ (within_ok _ s s₂ _ ba₂ rt hrun)]
    rfl
  · rw [hsize, List.append_assoc] at hsent₂
    exact hsent₂

/-! ## Parsing -/

/-- The room for a message in a new array, which has a byte to spare unless the
    message fills whole nodes. -/
theorem grownCapacity_new (b : Nat) (heap : Nat → UInt8) (n : Nat) (hb : 0 < b) (hn : 0 < n) :
    n ≤ grownCapacity (ByteArray.new b heap) n ∧
      (n = grownCapacity (ByteArray.new b heap) n ↔ b ∣ n) := by
  have hcap : (ByteArray.new b heap).getCapacity = b := Nat.sub_zero b
  have hcap' : (ByteArray.new b heap).capacity = b := rfl
  have hbase : (ByteArray.new b heap).baseSize = b := rfl
  unfold grownCapacity
  rw [hcap, hcap', hbase]
  by_cases hle : n ≤ b
  · rw [if_pos hle]
    refine ⟨hle, ?_⟩
    constructor
    · intro heq
      rw [heq]
    · intro hdvd
      exact Nat.le_antisymm hle (Nat.le_of_dvd hn hdvd)
  · rw [if_neg hle]
    rcases ceil_spec b (n - b) hb (by omega) with ⟨hlow, hhigh, -⟩
    refine ⟨by omega, ?_⟩
    constructor
    · intro heq
      rw [heq]
      exact Nat.dvd_add (Nat.dvd_refl b) (Nat.dvd_mul_left b _)
    · intro hdvd
      -- Two multiples of `b` less than `b` apart.
      have hmul : b ∣ b + (n - b + b - 1) / b * b := Nat.dvd_add (Nat.dvd_refl b)
        (Nat.dvd_mul_left b _)
      have hdiff : b ∣ b + (n - b + b - 1) / b * b - n := Nat.dvd_sub hmul hdvd
      have hzero := Nat.eq_zero_of_dvd_of_lt hdiff (by omega)
      omega

/-- The parser of a kind of message. -/
def parserOf : RockMessage → Prog Exn ByteArray RockMessage
  | .request _ _ _ => parseRequest
  | .response _ _ _ _ _ => parseResponse
  | .notify _ _ => parseNotify

theorem parseTyped_type (m : RockMessage) :
    parseTyped m.getType = parseFromByteArray (parserOf m) := by
  cases m <;> rfl

/-- What stands between the type and the body of a message. -/
def fields (m : RockMessage) : List UInt8 := m.front.tail

theorem bytes_eq (m : RockMessage) : m.bytes = m.getType :: (fields m ++ vstring m.body) := by
  cases m <;> rfl

/-- A parser reads everything up to the body, and then the body. -/
theorem parserOf_unread (m : RockMessage) (ba : ByteArray)
    (hlen : m.bytes.length < 2 ^ 62) (h : ba.Unread (fields m ++ vstring m.body)) :
    ∃ ba', ba'.Unread (vstring m.body) ∧ ba'.size = ba.size ∧ ba'.capacity = ba.capacity ∧
      (∀ ba'', readStringVint ba' = .ok m.body ba'' → parserOf m ba = .ok m ba'') ∧
      (readStringVint ba' = .fault → parserOf m ba = .fault) := by
  cases m with
  | request sn cmd body =>
      simp only [fields, RockMessage.front, List.append_assoc, List.cons_append, List.nil_append,
        List.tail_cons] at h
      rcases readUint32_unread ba sn _ h with ⟨b₁, hr₁, h₁, hs₁, hc₁⟩
      rcases readUint32_unread b₁ cmd _ h₁ with ⟨b₂, hr₂, h₂, hs₂, hc₂⟩
      refine ⟨b₂, h₂, by omega, by omega, ?_, ?_⟩
      · intro b₃ hr₃
        rw [parserOf, parseRequest, bind_ok _ _ _ _ _ hr₁, bind_ok _ _ _ _ _ hr₂,
          bind_ok _ _ _ _ _ hr₃]
        rfl
      · intro hr₃
        rw [parserOf, parseRequest, bind_ok _ _ _ _ _ hr₁, bind_ok _ _ _ _ _ hr₂,
          bind_fault _ _ _ hr₃]
  | response sn cmd result resultStr body =>
      have hstr : resultStr.length < 2 ^ 62 := by
        have hle := RockMessage.length_vstring_ge resultStr
        simp only [RockMessage.bytes, RockMessage.front, List.length_append] at hlen
        omega
      simp only [fields, RockMessage.front, List.append_assoc, List.cons_append, List.nil_append,
        List.tail_cons] at h
      rcases readUint32_unread ba sn _ h with ⟨b₁, hr₁, h₁, hs₁, hc₁⟩
      rcases readUint32_unread b₁ cmd _ h₁ with ⟨b₂, hr₂, h₂, hs₂, hc₂⟩
      rcases readUint32_unread b₂ result _ h₂ with ⟨b₃, hr₃, h₃, hs₃, hc₃⟩
      -- The body comes after it, so the result string is not at the end.
      have hcur : b₃.position + (varint 10 resultStr.length).length < b₃.capacity := by
        have hl := h₃.length
        have hsc := h₃.inv.size_le
        have hbl := RockMessage.length_body_le (.response sn cmd result resultStr body)
        have hv := RockMessage.vstring_pos
          (RockMessage.response sn cmd result resultStr body).body (by omega)
        rw [List.length_append, vstring, List.length_append] at hl
        omega
      rcases readStringVint_unread b₃ resultStr _ hstr h₃ (Or.inr hcur) with
        ⟨b₄, hr₄, h₄, -, hs₄, hc₄⟩
      refine ⟨b₄, h₄, by omega, by omega, ?_, ?_⟩
      · intro b₅ hr₅
        rw [parserOf, parseResponse, bind_ok _ _ _ _ _ hr₁, bind_ok _ _ _ _ _ hr₂,
          bind_ok _ _ _ _ _ hr₃, bind_ok _ _ _ _ _ hr₄, bind_ok _ _ _ _ _ hr₅]
        rfl
      · intro hr₅
        rw [parserOf, parseResponse, bind_ok _ _ _ _ _ hr₁, bind_ok _ _ _ _ _ hr₂,
          bind_ok _ _ _ _ _ hr₃, bind_ok _ _ _ _ _ hr₄, bind_fault _ _ _ hr₅]
  | notify code body =>
      simp only [fields, RockMessage.front, List.cons_append, List.nil_append,
        List.tail_cons] at h
      rcases readUint32_unread ba code _ h with ⟨b₁, hr₁, h₁, hs₁, hc₁⟩
      refine ⟨b₁, h₁, by omega, by omega, ?_, ?_⟩
      · intro b₂ hr₂
        rw [parserOf, parseNotify, bind_ok _ _ _ _ _ hr₁, bind_ok _ _ _ _ _ hr₂]
        rfl
      · intro hr₂
        rw [parserOf, parseNotify, bind_ok _ _ _ _ _ hr₁, bind_fault _ _ _ hr₂]

/-- The length in a header. -/
theorem headerLength_header (n : Nat) : headerLength (header n) = intOfWord n := by
  have hdrop : ((header n).drop 4).take 4 = (leBytes 4 (n % 2 ^ 32)).reverse := by
    have hall : (leBytes 4 (n % 2 ^ 32)).reverse.take 4 = (leBytes 4 (n % 2 ^ 32)).reverse :=
      List.take_of_length_le (by rw [List.length_reverse, length_leBytes])
    exact hall
  have hmod : n % 2 ^ 32 < 256 ^ 4 := by omega
  rw [headerLength, hdrop, List.reverse_reverse, leValue_leBytes 4 _ hmod, intOfWord, intOfWord,
    Nat.mod_mod]

/-- The header of a message below the limit passes. -/
theorem bodyLength_header (maxLength : UInt32) (n : Nat) (hmax : n < maxLength.toNat) :
    bodyLength maxLength (header n) = some (wordOfInt (intOfWord n)) := by
  have hlt := maxLength.toNat_lt
  have hmagic : ¬(header n).take 2 ≠ [0xab, 0xcd] := fun hne => hne rfl
  have hversion : ¬(header n)[2]? ≠ some 0x1 := fun hne => hne rfl
  -- A length above `2 ^ 31` is negative in the header, and itself again as a `uint32_t`.
  have hunsigned : wordOfInt (intOfWord n) % 2 ^ 32 = n := by
    have hself : n % 2 ^ 32 = n := Nat.mod_eq_of_lt (by omega)
    rw [intOfWord, hself]
    split
    · rw [wordOfInt_natCast, hself]
    · rw [(wordOfInt_neg _ (by omega) (by omega)).1]
      omega
  have hfits : ¬maxLength.toNat ≤ wordOfInt (intOfWord n) % 2 ^ 32 := by omega
  rw [bodyLength, if_neg hmagic, if_neg hversion]
  simp only [headerLength_header]
  rw [if_neg hfits]

/-- The header is received, and the parser goes on with the length it carries. -/
theorem parseFrame_header (maxLength : UInt32) (heap : Nat → UInt8) (m : RockMessage)
    (hmax : m.bytes.length < maxLength.toNat) (s : Socket) (rest : List UInt8)
    (h : s.Ready (frame m ++ rest)) :
    ∃ s', s'.Ready (m.bytes ++ rest) ∧ parseFrame maxLength heap s =
      (Prog.within (ByteArray.new baseSize heap) (parseBody (wordOfInt (intOfWord m.bytes.length)))
        >>= fun r => pure r.1) s' := by
  rw [frame, List.append_assoc] at h
  rcases SocketStream.readFixSize_ready s (header 0) (header m.bytes.length) (m.bytes ++ rest)
    (by rw [length_header]; decide) h (by rw [length_header, length_header]) with
    ⟨s', hread, hready⟩
  rw [length_header] at hread
  refine ⟨s', hready, ?_⟩
  have hpos8 : ¬((headerSize : Nat) : Int) ≤ 0 := by decide
  rw [parseFrame, bind_ok _ _ _ _ _ (within_ok _ s s' _ _ _ hread)]
  simp only []
  rw [if_neg hpos8, parseHeader, bodyLength_header maxLength _ hmax]

/-- The type of a message is read. -/
theorem parseMessage_typed (m : RockMessage) (ba : ByteArray) (h : ba.Written m.bytes) :
    ∃ ba', ba'.Unread (fields m ++ vstring m.body) ∧ ba'.size = m.bytes.length ∧
      ba'.capacity = ba.capacity ∧ parseMessage ba = parseTyped m.getType ba' := by
  have hlen := h.length
  rcases h.rewind with ⟨ba₁, hset, hunread, -, hsize₁, hcap₁⟩
  rw [bytes_eq] at hunread
  rcases readFuint8_unread ba₁ _ _ hunread with ⟨ba₂, htype, hunread₂, -, hsize₂, hcap₂⟩
  refine ⟨ba₂, hunread₂, by omega, by omega, ?_⟩
  rw [parseMessage, bind_ok _ _ _ _ _ hset, bind_ok _ _ _ _ _ htype]

/-- A message that fits is parsed from its bytes. -/
theorem parseMessage_ok (heap : Nat → UInt8) (m : RockMessage) (hfits : m.Fits) (ba : ByteArray)
    (h : ba.Written m.bytes)
    (hroom : ba.capacity = grownCapacity (ByteArray.new baseSize heap) m.bytes.length) :
    ∃ ba', parseMessage ba = .ok (some m) ba' := by
  rcases hfits with ⟨hlen, hnode⟩
  rcases parseMessage_typed m ba h with ⟨ba₀, hunread, hsize, hcap, htyped⟩
  rcases parserOf_unread m ba₀ (by omega) hunread with ⟨ba₁, hunread₁, hsize₁, hcap₁, hparse, -⟩
  have hpos := m.length_bytes_pos
  have hgrown := grownCapacity_new baseSize heap m.bytes.length (by decide) hpos
  have hbl := m.length_body_le
  -- An empty body is read below the capacity, because the nodes are not full.
  have hcur : m.body ≠ [] ∨ ba₁.position + (varint 10 m.body.length).length < ba₁.capacity := by
    by_cases hempty : m.body = []
    · right
      have hl := hunread₁.length
      have hps := hunread₁.inv.position_le
      have hne : m.bytes.length ≠ grownCapacity (ByteArray.new baseSize heap) m.bytes.length :=
        fun heq => hnode ⟨hempty, hgrown.2.1 heq⟩
      rw [vstring, List.length_append, hempty, List.length_nil] at hl
      rw [hempty, List.length_nil]
      omega
    · exact Or.inl hempty
  rw [← List.append_nil (vstring m.body)] at hunread₁
  rcases readStringVint_unread ba₁ m.body [] (by omega) hunread₁ hcur with ⟨ba₂, hstr, -, -, -, -⟩
  refine ⟨ba₂, ?_⟩
  rw [htyped, parseTyped_type, parseFromByteArray,
    bind_ok _ _ _ _ _ (attempt_ok _ _ _ _ (hparse ba₂ hstr))]
  rfl

/-- The body is received into a byte array. -/
theorem parseBody_written (heap : Nat → UInt8) (m : RockMessage) (hlen : m.bytes.length < 2 ^ 31)
    (s : Socket) (rest : List UInt8) (h : s.Ready (m.bytes ++ rest)) :
    ∃ s' ba, s'.Ready rest ∧ ba.Written m.bytes ∧
      ba.capacity = grownCapacity (ByteArray.new baseSize heap) m.bytes.length ∧
      parseBody m.bytes.length (s, ByteArray.new baseSize heap) =
        Prog.second parseMessage (s', ba) := by
  have hpos := m.length_bytes_pos
  rcases SocketStream.readFixSizeBytes_ready s _ m.bytes rest hpos hlen h
    (written_new baseSize heap (by decide)) with ⟨s', ba, hread, hready, hwritten, hcap⟩
  refine ⟨s', ba, hready, hwritten, hcap, ?_⟩
  rw [parseBody, bind_ok _ _ _ _ _ hread, if_neg (by omega)]

/-- A message that fits is parsed, and nothing but it is consumed. -/
theorem parseFrom_ready (maxLength : UInt32) (heap : Nat → UInt8) (m : RockMessage)
    (hmax : m.bytes.length < maxLength.toNat) (hfits : m.Fits) (s : Socket) (rest : List UInt8)
    (h : s.Ready (frame m ++ rest)) :
    ∃ s', parseFrom maxLength heap s = .ok (some m) s' ∧ s'.Ready rest := by
  have hlen := hfits.1
  rcases parseFrame_header maxLength heap m hmax s rest h with ⟨s₁, hready₁, hframe⟩
  rcases parseBody_written heap m hlen s₁ rest hready₁ with
    ⟨s₂, ba, hready₂, hwritten, hcap, hbody⟩
  rcases parseMessage_ok heap m hfits ba hwritten hcap with ⟨ba₁, hparse⟩
  have hword : wordOfInt (intOfWord m.bytes.length) = m.bytes.length := by
    rw [intOfWord_small _ hlen, wordOfInt_natCast]
  refine ⟨s₂, ?_, hready₂⟩
  have hrun : parseFrame maxLength heap s = .ok (some m) s₂ := by
    rw [hframe, hword]
    rw [second_ok _ s₂ ba ba₁ _ hparse] at hbody
    rw [bind_ok _ _ _ _ _ (within_ok _ s₁ s₂ _ ba₁ _ hbody)]
    rfl
  rw [parseFrom, bind_ok _ _ _ _ _ (attempt_ok _ _ _ _ hrun)]
  rfl

/-- An empty body that ends a node: the parser follows a null pointer. -/
theorem parseFrom_fault (maxLength : UInt32) (heap : Nat → UInt8) (m : RockMessage)
    (hmax : m.bytes.length < maxLength.toNat) (hlen : m.bytes.length < 2 ^ 31)
    (hempty : m.body = []) (hnode : baseSize ∣ m.bytes.length) (s : Socket) (rest : List UInt8)
    (h : s.Ready (frame m ++ rest)) : parseFrom maxLength heap s = .fault := by
  rcases parseFrame_header maxLength heap m hmax s rest h with ⟨s₁, hready₁, hframe⟩
  rcases parseBody_written heap m hlen s₁ rest hready₁ with
    ⟨s₂, ba, hready₂, hwritten, hcap, hbody⟩
  rcases parseMessage_typed m ba hwritten with ⟨ba₀, hunread, hsize, hcap₀, htyped⟩
  rcases parserOf_unread m ba₀ (by omega) hunread with ⟨ba₁, hunread₁, hsize₁, hcap₁, -, hfault⟩
  have hpos := m.length_bytes_pos
  -- The message fills its nodes, so its end is the end of the capacity.
  have hfull := (grownCapacity_new baseSize heap m.bytes.length (by decide) hpos).2.2 hnode
  rw [hempty] at hunread₁
  have hparse := hfault (readStringVint_fault ba₁ hunread₁ (by omega))
  have hmessage : parseMessage ba = .fault := by
    have hatt : Prog.attempt (parserOf m) ba₀ = .fault := by simp only [Prog.attempt, hparse]
    rw [htyped, parseTyped_type, parseFromByteArray, bind_fault _ _ _ hatt]
  have hword : wordOfInt (intOfWord m.bytes.length) = m.bytes.length := by
    rw [intOfWord_small _ hlen, wordOfInt_natCast]
  have hrun : parseFrame maxLength heap s = .fault := by
    rw [second_fault _ s₂ ba hmessage] at hbody
    have hwithin : Prog.within (ByteArray.new baseSize heap) (parseBody m.bytes.length) s₁ =
        .fault := by simp only [Prog.within, hbody]
    rw [hframe, hword, bind_fault _ _ _ hwithin]
  have hatt : Prog.attempt (parseFrame maxLength heap) s = .fault := by
    simp only [Prog.attempt, hrun]
  rw [parseFrom, bind_fault _ _ _ hatt]

/-- A length that is negative as an `int32_t` is never the length of a message:
    whatever comes in, the read it asks for does not return a positive number. -/
theorem parseFrom_long (maxLength : UInt32) (heap : Nat → UInt8) (m : RockMessage)
    (hmax : m.bytes.length < maxLength.toNat) (hlen : 2 ^ 31 ≤ m.bytes.length) (s : Socket)
    (rest : List UInt8) (h : s.Ready (frame m ++ rest)) (m' : RockMessage) (s' : Socket) :
    parseFrom maxLength heap s ≠ .ok (some m') s' := by
  have hlt := maxLength.toNat_lt
  rcases parseFrame_header maxLength heap m hmax s rest h with ⟨s₁, -, hframe⟩
  -- Converted to a `size_t` and back, the length is negative still.
  have hneg : intOfWord (wordOfInt (intOfWord m.bytes.length)) ≤ 0 := by
    have hself : m.bytes.length % 2 ^ 32 = m.bytes.length := Nat.mod_eq_of_lt (by omega)
    have hint : intOfWord m.bytes.length = m.bytes.length - 2 ^ 32 := by
      rw [intOfWord, hself, if_neg (by omega)]
    rw [hint, (wordOfInt_neg _ (by omega) (by omega)).1]
    have hmod : (2 ^ 64 - (-((m.bytes.length : Int) - 2 ^ 32)).toNat) % 2 ^ 32 =
        m.bytes.length := by
      omega
    rw [intOfWord, hmod, if_neg (by omega)]
    omega
  have hnone : ∀ r st, parseBody (wordOfInt (intOfWord m.bytes.length))
      (s₁, ByteArray.new baseSize heap) = .ok r st → r = none := by
    intro r st hrun
    rcases bind_eq_ok _ _ _ _ _ hrun with ⟨rt, st₁, hread, hrest⟩
    have hrt : rt ≤ 0 := by
      rcases Stream.fixLoop_result _ _ _ _ _ _ _ _ hread with heq | heq <;> omega
    rw [if_pos hrt] at hrest
    cases hrest
    rfl
  -- However the body ends, what comes out of `parseFrom` is not a message.
  intro hrun
  rcases hbody : parseBody (wordOfInt (intOfWord m.bytes.length))
      (s₁, ByteArray.new baseSize heap) with ⟨r, s₂, ba⟩ | ⟨e, s₂, ba⟩ | _ | _
  · have hr := hnone r _ hbody
    simp only [parseFrom, bind, Prog.attempt, hframe, Prog.within, hbody, hr] at hrun
    cases hrun
  · simp only [parseFrom, bind, Prog.attempt, hframe, Prog.within, hbody] at hrun
    cases hrun
  · simp only [parseFrom, bind, Prog.attempt, hframe, Prog.within, hbody] at hrun
    cases hrun
  · simp only [parseFrom, bind, Prog.attempt, hframe, Prog.within, hbody] at hrun
    cases hrun

/-! ## Any number of messages -/

/-- A new end of a connection, with what it is going to receive. -/
def connection (cut : Nat → Nat) (inbox : List UInt8) : Socket := ⟨true, inbox, [], cut, 0⟩

/-- The messages are written at one end and parsed at the other, with `rest`
    behind them: they all come out, in order, and `rest` is left. The schedules
    cut what is sent and what is received, and the heaps are what fresh memory
    holds. -/
def RoundTrip (maxLength : UInt32) (msgs : List RockMessage) (sendCut receiveCut : Nat → Nat)
    (sendHeaps receiveHeaps : Nat → Nat → UInt8) (rest : List UInt8) : Prop :=
  ∃ rts w s, sendAll sendHeaps msgs (connection sendCut []) = .ok rts w ∧
    receiveAll maxLength receiveHeaps msgs.length (connection receiveCut (w.outbox ++ rest)) =
      .ok (msgs.map some) s ∧
    s.inbox = rest

/-- The frames of some messages. -/
def frames (msgs : List RockMessage) : List UInt8 := (msgs.map frame).flatten

theorem sendAll_sent (heaps : Nat → Nat → UInt8) (msgs : List RockMessage)
    (hlen : ∀ m ∈ msgs, m.bytes.length < 2 ^ 64) (s : Socket) (out : List UInt8)
    (h : s.Sent out) :
    ∃ rts s', sendAll heaps msgs s = .ok rts s' ∧ s'.Sent (out ++ frames msgs) := by
  induction msgs generalizing heaps s out with
  | nil =>
      exact ⟨[], s, rfl, by rw [frames, List.map_nil, List.flatten_nil, List.append_nil]; exact h⟩
  | cons m msgs ih =>
      rcases serializeTo_sent (heaps 0) m (hlen m List.mem_cons_self) s out h with
        ⟨rt, s₁, hrun, h₁⟩
      rcases ih (fun i => heaps (i + 1)) (fun m' hm => hlen m' (List.mem_cons_of_mem m hm)) s₁ _ h₁
        with ⟨rts, s₂, hrun₂, h₂⟩
      refine ⟨rt :: rts, s₂, ?_, ?_⟩
      · rw [sendAll, bind_ok _ _ _ _ _ hrun, bind_ok _ _ _ _ _ hrun₂]
        rfl
      · rw [frames, List.map_cons, List.flatten_cons, ← List.append_assoc]
        exact h₂

theorem receiveAll_ready (maxLength : UInt32) (heaps : Nat → Nat → UInt8)
    (msgs : List RockMessage) (hmax : ∀ m ∈ msgs, m.bytes.length < maxLength.toNat)
    (hfits : ∀ m ∈ msgs, m.Fits) (s : Socket) (rest : List UInt8)
    (h : s.Ready (frames msgs ++ rest)) :
    ∃ s', receiveAll maxLength heaps msgs.length s = .ok (msgs.map some) s' ∧ s'.Ready rest := by
  induction msgs generalizing heaps s with
  | nil => exact ⟨s, rfl, h⟩
  | cons m msgs ih =>
      rw [frames, List.map_cons, List.flatten_cons, List.append_assoc] at h
      rcases parseFrom_ready maxLength (heaps 0) m (hmax m List.mem_cons_self)
        (hfits m List.mem_cons_self) s _ h with ⟨s₁, hrun, h₁⟩
      rcases ih (fun i => heaps (i + 1)) (fun m' hm => hmax m' (List.mem_cons_of_mem m hm))
        (fun m' hm => hfits m' (List.mem_cons_of_mem m hm)) s₁ h₁ with ⟨s₂, hrun₂, h₂⟩
      refine ⟨s₂, ?_, h₂⟩
      rw [List.length_cons, receiveAll, bind_ok _ _ _ _ _ hrun, bind_ok _ _ _ _ _ hrun₂]
      rfl

/-- Messages that are parsed as they were sent all fit. -/
theorem fits_of_receiveAll (maxLength : UInt32) (heaps : Nat → Nat → UInt8)
    (msgs : List RockMessage) (hmax : ∀ m ∈ msgs, m.bytes.length < maxLength.toNat) (s : Socket)
    (rest : List UInt8) (h : s.Ready (frames msgs ++ rest)) (s' : Socket)
    (hrun : receiveAll maxLength heaps msgs.length s = .ok (msgs.map some) s') :
    ∀ m ∈ msgs, m.Fits := by
  induction msgs generalizing heaps s with
  | nil => exact fun m hm => absurd hm List.not_mem_nil
  | cons m msgs ih =>
      have hm := hmax m List.mem_cons_self
      rw [frames, List.map_cons, List.flatten_cons, List.append_assoc] at h
      rw [List.length_cons, receiveAll] at hrun
      rcases bind_eq_ok _ _ _ _ _ hrun with ⟨r, s₁, hparse, hrun₁⟩
      rcases bind_eq_ok _ _ _ _ _ hrun₁ with ⟨ms, s₂, hrest, hpure⟩
      rw [pure_apply, Outcome.ok.injEq, List.map_cons, List.cons.injEq] at hpure
      rcases hpure with ⟨⟨rfl, rfl⟩, rfl⟩
      -- A message that does not fit would not have been returned.
      have hfits : m.Fits := by
        by_contra hnot
        by_cases hlen : m.bytes.length < 2 ^ 31
        · have hbad : m.body = [] ∧ baseSize ∣ m.bytes.length := by
            by_contra hgood
            exact hnot ⟨hlen, hgood⟩
          rw [parseFrom_fault maxLength (heaps 0) m hm hlen hbad.1 hbad.2 s _ h] at hparse
          cases hparse
        · exact parseFrom_long maxLength (heaps 0) m hm (by omega) s _ h m s₁ hparse
      -- It fits, so exactly its frame is gone and the rest is there for the others.
      rcases parseFrom_ready maxLength (heaps 0) m hm hfits s _ h with ⟨s₃, hparse', h₃⟩
      rw [hparse] at hparse'
      cases hparse'
      intro m' hm'
      rcases List.mem_cons.1 hm' with rfl | hin
      · exact hfits
      · exact ih (fun i => heaps (i + 1)) (fun m' hm => hmax m' (List.mem_cons_of_mem m hm)) s₁ h₃
          hrest m' hin

/-- What the other end is going to receive, once everything is sent. -/
theorem ready_of_sendAll (maxLength : UInt32) (msgs : List RockMessage)
    (hmax : ∀ m ∈ msgs, m.bytes.length < maxLength.toNat) (sendCut receiveCut : Nat → Nat)
    (heaps : Nat → Nat → UInt8) (rest : List UInt8) :
    ∃ rts w, sendAll heaps msgs (connection sendCut []) = .ok rts w ∧
      (connection receiveCut (w.outbox ++ rest)).Ready (frames msgs ++ rest) := by
  have hlt := maxLength.toNat_lt
  have hlen : ∀ m ∈ msgs, m.bytes.length < 2 ^ 64 := by
    intro m hm
    have hle := hmax m hm
    omega
  rcases sendAll_sent heaps msgs hlen (connection sendCut []) [] ⟨rfl, rfl⟩ with
    ⟨rts, w, hsend, hsent⟩
  exact ⟨rts, w, hsend, rfl, by rw [connection, hsent.outbox, List.nil_append]⟩

theorem fits_of_roundTrip (maxLength : UInt32) (msgs : List RockMessage)
    (hmax : ∀ m ∈ msgs, m.bytes.length < maxLength.toNat) (sendCut receiveCut : Nat → Nat)
    (sendHeaps receiveHeaps : Nat → Nat → UInt8) (rest : List UInt8)
    (h : RoundTrip maxLength msgs sendCut receiveCut sendHeaps receiveHeaps rest) :
    ∀ m ∈ msgs, m.Fits := by
  rcases h with ⟨rts', w', s, hsend', hreceive, -⟩
  rcases ready_of_sendAll maxLength msgs hmax sendCut receiveCut sendHeaps rest with
    ⟨rts, w, hsend, hready⟩
  rw [hsend] at hsend'
  cases hsend'
  exact fits_of_receiveAll maxLength receiveHeaps msgs hmax _ rest hready s hreceive

/-- Messages come through exactly when each of them fits, however they are cut
    into writes and reads, whatever fresh memory holds and whatever comes behind
    them. -/
theorem roundTrip_iff (maxLength : UInt32) (msgs : List RockMessage)
    (hmax : ∀ m ∈ msgs, m.bytes.length < maxLength.toNat) (sendCut receiveCut : Nat → Nat)
    (sendHeaps receiveHeaps : Nat → Nat → UInt8) (rest : List UInt8) :
    RoundTrip maxLength msgs sendCut receiveCut sendHeaps receiveHeaps rest ↔
      ∀ m ∈ msgs, m.Fits := by
  constructor
  · exact fits_of_roundTrip maxLength msgs hmax sendCut receiveCut sendHeaps receiveHeaps rest
  · intro hfits
    rcases ready_of_sendAll maxLength msgs hmax sendCut receiveCut sendHeaps rest with
      ⟨rts, w, hsend, hready⟩
    rcases receiveAll_ready maxLength receiveHeaps msgs hmax hfits _ rest hready with
      ⟨s, hreceive, hs⟩
    exact ⟨rts, w, s, hsend, hreceive, hs.inbox⟩

/-- A request and an answer with empty strings, sent byte by byte and received
    in threes. -/
theorem roundTrip_empty :
    RoundTrip 64 [.request 7 1 [], .response 7 1 404 [] []] (fun _ => 1) (fun _ => 3)
      (fun _ _ => 0xcc) (fun _ _ => 0xdd) [] := by
  refine (roundTrip_iff 64 _ ?_ _ _ _ _ []).2 ?_
  · intro m hm
    simp only [List.mem_cons, List.not_mem_nil, or_false] at hm
    rcases hm with rfl | rfl <;> decide
  · intro m hm
    simp only [List.mem_cons, List.not_mem_nil, or_false] at hm
    rcases hm with rfl | rfl
    · exact ⟨by decide, fun h => absurd h.2 (by decide)⟩
    · exact ⟨by decide, fun h => absurd h.2 (by decide)⟩

/-- A response whose result string makes it one node long, with an empty body. -/
def fullResponse : RockMessage := .response 1 1 0 (List.replicate 4089 0x61) []

theorem length_fullResponse : fullResponse.bytes.length = baseSize := by
  have hvar : varint 10 (List.replicate 4089 (0x61 : UInt8)).length = [0xf9, 0x1f] := by
    rw [List.length_replicate]
    decide
  rw [RockMessage.bytes, fullResponse, RockMessage.front, RockMessage.body, vstring, hvar]
  simp only [List.length_append, List.length_replicate]
  rfl

/-- It is below the default limit, and does not come through. -/
theorem empty_body_faults :
    fullResponse.bytes.length < (67108864 : UInt32).toNat ∧
      ¬RoundTrip 67108864 [fullResponse] (fun _ => 4096) (fun _ => 4096) (fun _ _ => 0)
        (fun _ _ => 0) [] := by
  have hmax : fullResponse.bytes.length < (67108864 : UInt32).toNat := by
    rw [length_fullResponse]
    decide
  refine ⟨hmax, ?_⟩
  intro htrip
  have hfits := fits_of_roundTrip 67108864 [fullResponse]
    (fun m hm => by rw [List.mem_singleton.1 hm]; exact hmax) _ _ _ _ _ htrip fullResponse
    (List.mem_singleton.2 rfl)
  exact hfits.2 ⟨rfl, by rw [length_fullResponse]⟩

end Rock

end YkServer
