import YkServer.Theory.WebSocket.RoundTrip

/-!
# Fragments

A message in several frames. The first has the opcode, the others are continuations,
the last has the final bit, and pings and pongs of the program may stand anywhere
before the last. `WSRecvMessage` takes exactly these frames, whatever their masks
are, answers each ping, and returns the payloads one after another.

Whether it does depends on sizes alone, and only for messages of about `2 ^ 31` bytes,
which a limit of that size admits: the fragments before the last have to leave
`cur_len` an `int`, the last one has to have a length that is an `int`, and if it is
masked, its last index has to be one.

## Main definitions

* `pingFrame`, `pongFrame`: The frames of `WSPing` and `WSPong`.
* `Fragmented`: The frames of a message.
* `Reassembled`: What is claimed of them.

## Theorems

* `WSPing_open`, `WSPong_open`: What these two send.
* `recvLoop_fragmented`: The loop from any of the frames on.
* `fragments_reassembled`: Every message.
* `large_fragment_closes`: A fragment of `2 ^ 31` bytes.
-/

namespace YkServer

open Lib

namespace WebSocket

/-- A frame with an opcode and nothing else. -/
def bareFrame (opcode : Nat) (hop : opcode < 16) : Frame where
  fin := true
  rsv1 := false
  rsv2 := false
  rsv3 := false
  opcode := opcode
  key := none
  payload := []
  opcode_lt := hop
  key_length := by
    intro k hk
    cases hk
  payload_lt := by decide

def pingFrame : Frame := bareFrame PING (by decide)

def pongFrame : Frame := bareFrame PONG (by decide)

/-- The frames of a message up to the last one, and the last one. `opcode` is what the next
    fragment has. -/
inductive Fragmented (last : Frame) : Nat → List Frame → Prop where
  | last (opcode : Nat) : last.opcode = opcode → last.fin = true → Fragmented last opcode []
  | control (opcode : Nat) (f : Frame) (init : List Frame) : f = pingFrame ∨ f = pongFrame →
      Fragmented last opcode init → Fragmented last opcode (f :: init)
  | fragment (opcode : Nat) (f : Frame) (init : List Frame) : f.opcode = opcode →
      f.fin = false → Fragmented last CONTINUE init → Fragmented last opcode (f :: init)

/-- The payloads of some frames, one after another. -/
def payloads (frames : List Frame) : List UInt8 := frames.flatMap Frame.payload

/-- The bytes of some frames. -/
def wire (frames : List Frame) : List UInt8 := frames.flatMap Frame.bytes

/-- What is claimed of the frames of a message: they are received and nothing else, the
    message is their payloads, and each ping is answered. -/
def Reassembled (maxSize : UInt32) (client : Bool) (opcode : Nat) (init : List Frame)
    (last : Frame) (r : Socket) (rest : List UInt8) : Prop :=
  ∃ r', WSRecvMessage maxSize client { r with inbox := wire (init ++ [last]) ++ rest } =
      .ok (some ⟨opcode, payloads (init ++ [last])⟩) r' ∧
    r'.connected = true ∧ r'.inbox = rest ∧ r'.outbox = r.outbox ++ init.flatMap answer

theorem wire_cons (f : Frame) (fs : List Frame) : wire (f :: fs) = f.bytes ++ wire fs := rfl

theorem payloads_cons (f : Frame) (fs : List Frame) :
    payloads (f :: fs) = f.payload ++ payloads fs := rfl

/-- A frame has at least two bytes. -/
theorem length_wire (frames : List Frame) : 2 * frames.length ≤ (wire frames).length := by
  induction frames with
  | nil => exact Nat.le_refl _
  | cons f fs ih =>
      rw [wire_cons, List.length_append, Frame.bytes, List.length_append, length_bytesOfHead,
        List.length_cons]
      omega

theorem WSPing_open (s : Socket) (inbox out : List UInt8) (h : s.Open inbox out) :
    ∃ s', WSPing s = .ok 2 s' ∧ s'.Open inbox (out ++ pingFrame.bytes) :=
  sendBare_open PING s inbox out h

theorem WSPong_open (s : Socket) (inbox out : List UInt8) (h : s.Open inbox out) :
    ∃ s', WSPong s = .ok 2 s' ∧ s'.Open inbox (out ++ pongFrame.bytes) :=
  sendBare_open PONG s inbox out h

/-- The sizes with which a message is received after `total` bytes of it. -/
structure Counted (total : Nat) (init : List Frame) (last : Frame) : Prop where
  before : total + (payloads init).length < 2 ^ 31
  length : last.payload.length < 2 ^ 31
  index : last.key ≠ none →
    total + (payloads init).length + last.payload.length ≤ 2 ^ 31

/-! ## The loop over the frames of a message -/

/-- A fragment is a data frame, and the message has its opcode from the first one. -/
theorem fragment_opcode (final opcode : Nat) (l : Locals) (f : Frame)
    (hfinal : final = TEXT_FRAME ∨ final = BIN_FRAME) (hf : f.opcode = opcode)
    (hop : l.opcode = 0 ∧ opcode = final ∨ l.opcode = final ∧ opcode = CONTINUE) :
    f.Data ∧ nextOpcode l f = final := by
  rcases hop with ⟨hl, ho⟩ | ⟨hl, ho⟩
  · rw [ho] at hf
    have hnew : f.opcode ≠ CONTINUE := by
      rw [hf]
      rcases hfinal with h | h <;> rw [h] <;> decide
    exact ⟨Or.inr (hf ▸ hfinal), by rw [nextOpcode, if_pos ⟨hl, hnew⟩, hf]⟩
  · rw [ho] at hf
    exact ⟨Or.inl hf, by rw [nextOpcode, if_neg (fun h => h.2 hf), hl]⟩

/-- The last fragment is accepted exactly if the sizes are counted. -/
theorem accepted_last (maxSize : UInt32) (client : Bool) (total : Nat) (last : Frame)
    (hmasked : client = true ∨ last.key ≠ none) (hne : last.payload ≠ [])
    (hlimit : total + last.payload.length < maxSize.toNat) :
    Accepted maxSize client total last ↔ Counted total [] last := by
  constructor
  · intro hacc
    exact ⟨hacc.before, hacc.length, hacc.index⟩
  · intro hc
    exact ⟨hmasked, hne, hc.before, hc.length, hlimit, hc.index⟩

/-- A fragment before the last is accepted if they are, and the others are counted from there. -/
theorem accepted_fragment (maxSize : UInt32) (client : Bool) (total : Nat) (f last : Frame)
    (init : List Frame) (hmasked : client = true ∨ f.key ≠ none) (hne : f.payload ≠ [])
    (hlimit : total + f.payload.length < maxSize.toNat) (hc : Counted total (f :: init) last) :
    Accepted maxSize client total f := by
  have hbefore := hc.before
  rw [payloads_cons, List.length_append] at hbefore
  exact ⟨hmasked, hne, by omega, by omega, hlimit, fun _ => by omega⟩

theorem counted_cons (total : Nat) (f last : Frame) (init : List Frame) :
    Counted (total + f.payload.length) init last ↔ Counted total (f :: init) last := by
  have hsum : total + (payloads (f :: init)).length =
      total + f.payload.length + (payloads init).length := by
    rw [payloads_cons, List.length_append, Nat.add_assoc]
  constructor
  · intro hc
    exact ⟨by rw [hsum]; exact hc.before, hc.length, by rw [hsum]; exact hc.index⟩
  · intro hc
    exact ⟨by rw [← hsum]; exact hc.before, hc.length, by rw [← hsum]; exact hc.index⟩

/-- From any frame of a message on, with the data of the fragments before it, the loop returns
    the message if the sizes are counted, and no message otherwise. -/
theorem recvLoop_fragmented (maxSize : UInt32) (client : Bool) (final : Nat) (last : Frame)
    (hfinal : final = TEXT_FRAME ∨ final = BIN_FRAME) (rest : List UInt8) (opcode : Nat)
    (init : List Frame) (hfrag : Fragmented last opcode init)
    (hmasked : ∀ f ∈ init ++ [last], f.Data → client = true ∨ f.key ≠ none)
    (hne : ∀ f ∈ init ++ [last], f.Data → f.payload ≠ []) (l : Locals)
    (hop : l.opcode = 0 ∧ opcode = final ∨ l.opcode = final ∧ opcode = CONTINUE)
    (hcur : l.curLen = intOfWord l.data.length)
    (hlimit : l.data.length + (payloads (init ++ [last])).length < maxSize.toNat) (s : Socket)
    (out : List UInt8) (hs : s.Open (wire (init ++ [last]) ++ rest) out) (fuel : Nat)
    (hfuel : init.length < fuel) :
    (∃ s', recvLoop maxSize client fuel l s =
        .ok (some ⟨final, l.data ++ payloads (init ++ [last])⟩) s' ∧
      s'.Open rest (out ++ init.flatMap answer)) ↔ Counted l.data.length init last := by
  have hmax := maxSize.toNat_lt
  rcases fuel with _ | fuel
  · omega
  -- The induction is on the frames; the data grows, so the local variables are arbitrary.
  induction hfrag generalizing l s out fuel with
  | last opcode ho hfin =>
      rcases fragment_opcode final opcode l last hfinal ho hop with ⟨hdata, hnext⟩
      have hpay : payloads ([] ++ [last]) = last.payload := List.append_nil _
      rw [hpay] at hlimit ⊢
      rw [List.nil_append, wire_cons, List.append_assoc] at hs
      have hiff := accepted_last maxSize client l.data.length last (hmasked _ (by simp) hdata)
        (hne _ (by simp) hdata) hlimit
      constructor
      · -- A refused frame ends the loop, and no message is returned.
        rintro ⟨s', hrun, -⟩
        by_contra hc
        exact recvLoop_refused maxSize client fuel l s s' _
          (recvFrame_refused maxSize client l last s _ out hcur (by omega) hdata
            (fun hacc => hc (hiff.1 hacc)) hs) hrun
      · intro hc
        rcases recvFrame_accepted maxSize client l last s _ out hcur hdata (hiff.2 hc) hs with
          ⟨s', hrun, hopen⟩
        rw [advance, if_pos hfin, hnext] at hrun
        refine ⟨s', recvLoop_done maxSize client fuel l s s' _ hrun, ?_⟩
        rw [List.flatMap_nil, List.append_nil]
        exact hopen
  -- A ping or pong of the program is its head: the local variables stay as they are.
  | control opcode f init hf hfrag ih =>
      have hbare : ¬f.Data ∧ f.body = [] ∧ f.payload = [] := by
        rcases hf with rfl | rfl <;> exact ⟨by decide, rfl, rfl⟩
      rcases hbare with ⟨hdata, hbody, hpay⟩
      have hsame : payloads (f :: init ++ [last]) = payloads (init ++ [last]) := by
        rw [List.cons_append, payloads_cons, hpay, List.nil_append]
      rw [List.length_cons] at hfuel
      rw [hsame] at hlimit ⊢
      rw [List.cons_append, wire_cons, List.append_assoc] at hs
      rcases recvFrame_control maxSize client l f s _ out hdata hs with ⟨s₁, hrun, hopen⟩
      rw [hbody, List.nil_append] at hopen
      rcases fuel with _ | fuel
      · omega
      have hcount := counted_cons l.data.length f last init
      rw [hpay, List.length_nil, Nat.add_zero] at hcount
      rw [recvLoop_again maxSize client _ l l s s₁ hrun, List.flatMap_cons, ← List.append_assoc]
      exact (ih (fun g hg => hmasked g (List.mem_cons_of_mem _ hg))
        (fun g hg => hne g (List.mem_cons_of_mem _ hg)) l hop hcur hlimit s₁ _ hopen fuel
        (by omega)).trans hcount
  -- From here on the message has its opcode, and the frames left continue it.
  | fragment opcode f init ho hfin hfrag ih =>
      rcases fragment_opcode final opcode l f hfinal ho hop with ⟨hdata, hnext⟩
      have hmore : payloads (f :: init ++ [last]) = f.payload ++ payloads (init ++ [last]) := rfl
      rw [List.length_cons] at hfuel
      rw [hmore] at hlimit ⊢
      rw [List.length_append] at hlimit
      rw [List.cons_append, wire_cons, List.append_assoc] at hs
      rcases fuel with _ | fuel
      · omega
      by_cases hacc : Accepted maxSize client l.data.length f
      · rcases recvFrame_accepted maxSize client l f s _ out hcur hdata hacc hs with
          ⟨s₁, hrun, hopen⟩
        rw [advance, if_neg (by rw [hfin]; exact Bool.false_ne_true), hnext] at hrun
        have hping : f.opcode ≠ PING := (data_opcode f hdata).1
        have hanswer : (f :: init).flatMap answer = init.flatMap answer := by
          rw [List.flatMap_cons, answer, if_neg hping, List.nil_append]
        have hcount := counted_cons l.data.length f last init
        rw [← List.length_append] at hcount
        rw [recvLoop_again maxSize client _ l _ s s₁ hrun, hanswer, ← List.append_assoc]
        exact (ih (fun g hg => hmasked g (List.mem_cons_of_mem _ hg))
          (fun g hg => hne g (List.mem_cons_of_mem _ hg))
          ⟨final, l.data ++ f.payload, intOfWord (l.data ++ f.payload).length⟩
          (Or.inr ⟨rfl, rfl⟩) rfl (by simp only [List.length_append] at hlimit ⊢; omega) s₁ out
          hopen fuel (by omega)).trans hcount
      · -- The loop ends here, and the fragments before it are too large.
        constructor
        · rintro ⟨s', hrun, -⟩
          exact absurd hrun (recvLoop_refused maxSize client _ l s s' _
            (recvFrame_refused maxSize client l f s _ out hcur (by omega) hdata hacc hs))
        · intro hc
          exact absurd (accepted_fragment maxSize client l.data.length f last init
            (hmasked f (by simp) hdata) (hne f (by simp) hdata) (by omega) hc) hacc

/-- The loop has enough rounds for all of the frames. -/
theorem reassembled_iff (maxSize : UInt32) (client : Bool) (opcode : Nat)
    (hopcode : opcode = TEXT_FRAME ∨ opcode = BIN_FRAME) (init : List Frame) (last : Frame)
    (hfrag : Fragmented last opcode init)
    (hmasked : ∀ f ∈ init ++ [last], f.Data → client = true ∨ f.key ≠ none)
    (hne : ∀ f ∈ init ++ [last], f.Data → f.payload ≠ [])
    (hlimit : (payloads (init ++ [last])).length < maxSize.toNat) (r : Socket)
    (hr : r.connected = true) (rest : List UInt8) :
    Reassembled maxSize client opcode init last r rest ↔ Counted 0 init last := by
  -- Each frame has two bytes, so there are more bytes than frames.
  have hfuel : init.length < (wire (init ++ [last]) ++ rest).length + 1 := by
    have hwire := length_wire (init ++ [last])
    rw [List.length_append] at hwire ⊢
    omega
  have hloop := recvLoop_fragmented maxSize client opcode last hopcode rest opcode init hfrag
    hmasked hne ⟨0, [], 0⟩ (Or.inl ⟨rfl, rfl⟩) rfl
    (by rw [List.length_nil, Nat.zero_add]; exact hlimit)
    { r with inbox := wire (init ++ [last]) ++ rest } r.outbox ⟨hr, rfl, rfl⟩ _ hfuel
  constructor
  · rintro ⟨r', hrun, hconn, hin, hout⟩
    exact hloop.1 ⟨r', hrun, hconn, hin, hout⟩
  · intro hc
    rcases hloop.2 hc with ⟨r', hrun, hopen⟩
    exact ⟨r', hrun, hopen.connected, hopen.inbox, hopen.outbox⟩

/-- A message below the limit, in any number of fragments with any masks and with pings and
    pongs between them, is put together if what comes before the last fragment is less than
    `2 ^ 31` bytes, the last fragment is, and the indices of its unmasking are. -/
theorem fragments_reassembled (maxSize : UInt32) (client : Bool) (opcode : Nat)
    (hopcode : opcode = TEXT_FRAME ∨ opcode = BIN_FRAME) (init : List Frame) (last : Frame)
    (hfrag : Fragmented last opcode init)
    (hmasked : ∀ f ∈ init ++ [last], f.Data → client = true ∨ f.key ≠ none)
    (hne : ∀ f ∈ init ++ [last], f.Data → f.payload ≠ [])
    (hlimit : (payloads (init ++ [last])).length < maxSize.toNat) (r : Socket)
    (hr : r.connected = true) (rest : List UInt8) :
    Reassembled maxSize client opcode init last r rest ↔
      (payloads init).length < 2 ^ 31 ∧ last.payload.length < 2 ^ 31 ∧
        (last.key ≠ none → (payloads (init ++ [last])).length ≤ 2 ^ 31) := by
  have hsum : (payloads (init ++ [last])).length =
      0 + (payloads init).length + last.payload.length := by
    simp only [payloads, List.flatMap_append, List.length_append, List.flatMap_cons,
      List.flatMap_nil, List.append_nil, Nat.zero_add]
  rw [reassembled_iff maxSize client opcode hopcode init last hfrag hmasked hne hlimit r hr rest,
    hsum]
  constructor
  · intro hc
    have hbefore := hc.before
    exact ⟨by omega, hc.length, hc.index⟩
  · rintro ⟨hbefore, hlength, hindex⟩
    exact ⟨by omega, hlength, hindex⟩

/-- Two masked fragments of a text, with a ping between them. -/
def firstPart : Frame := messageFrame true false 0x04030201 ⟨TEXT_FRAME, [0x68, 0x65]⟩ (by decide)
  (by decide)

def lastPart : Frame := messageFrame true true 0x08070605 ⟨CONTINUE, [0x6c, 0x6c, 0x6f]⟩
  (by decide) (by decide)

theorem fragments_reassembled_two :
    Fragmented lastPart TEXT_FRAME [firstPart, pingFrame] ∧
      Reassembled 33554432 false TEXT_FRAME [firstPart, pingFrame] lastPart (peer [])
        [0x8a, 0x00] := by
  have hfrag : Fragmented lastPart TEXT_FRAME [firstPart, pingFrame] :=
    .fragment _ _ _ rfl rfl (.control _ _ _ (Or.inl rfl) (.last _ rfl rfl))
  refine ⟨hfrag, (fragments_reassembled 33554432 false TEXT_FRAME (Or.inl rfl) _ lastPart hfrag
    ?_ ?_ (by decide) (peer []) rfl [0x8a, 0x00]).2 ⟨by decide, by decide, by decide⟩⟩
  · intro f hf hdata
    simp only [List.cons_append, List.nil_append, List.mem_cons, List.not_mem_nil,
      or_false] at hf
    rcases hf with rfl | rfl | rfl
    · exact Or.inr (by decide)
    · exact absurd hdata (by decide)
    · exact Or.inr (by decide)
  · intro f hf hdata
    simp only [List.cons_append, List.nil_append, List.mem_cons, List.not_mem_nil,
      or_false] at hf
    rcases hf with rfl | rfl | rfl
    · decide
    · exact absurd hdata (by decide)
    · decide

/-- A text of `n` zeros in one masked frame. -/
def zeros (n : Nat) (hn : n < 2 ^ 63) : Frame :=
  messageFrame true true 0 ⟨TEXT_FRAME, List.replicate n 0⟩ (show TEXT_FRAME < 16 by decide)
    (by rw [List.length_replicate]; exact hn)

/-- A single fragment of `2 ^ 31` bytes, below the limit, is received and then taken for a
    failure. -/
theorem large_fragment_closes :
    ¬Reassembled 2147483649 false TEXT_FRAME [] (zeros (2 ^ 31) (by decide)) (peer []) [] := by
  have hlen : (zeros (2 ^ 31) (by decide)).payload.length = 2 ^ 31 := List.length_replicate
  have hpay : (payloads ([] ++ [zeros (2 ^ 31) (by decide)])).length = 2 ^ 31 := by
    rw [List.nil_append, payloads_cons, List.length_append, hlen]
    rfl
  rw [reassembled_iff 2147483649 false TEXT_FRAME (Or.inl rfl) [] _ (.last _ rfl rfl) ?_ ?_
    (by rw [hpay]; decide) (peer []) rfl []]
  · intro hc
    have hlength := hc.length
    omega
  · intro f hf _
    rw [List.nil_append, List.mem_singleton] at hf
    rw [hf]
    exact Or.inr (Option.some_ne_none _)
  · intro f hf _
    rw [List.nil_append, List.mem_singleton] at hf
    rw [hf]
    exact List.ne_nil_of_length_pos (by rw [hlen]; decide)

end WebSocket

end YkServer
