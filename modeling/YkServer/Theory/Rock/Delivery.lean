import YkServer.Core.RockServer
import YkServer.Theory.Rock.RoundTrip

/-!
# Rock Messages on the Way

What the calls of a writer and those of a reader do to the bytes between them, a call at a time.

A writer has sent a part of the frame of its message, and a call makes that part longer. A reader
has read a part of a frame, and a call moves bytes to it from what is on the way. So both together,
the part that was read and the bytes on the way, are whole frames and the part of the frame that
the writer is at, at any time: also when one of the two has been closed in the middle of a message
and never comes back to it. A reader gets a message only when all of it was there, and it gets no
null message before it has met the end of the stream.

## Main definitions

* `RockMessage.Sized`: A message that can be sent and parsed.
* `Writer.part`, `Writer.Going`: What a writer has sent, and where it is.
* `Reader.Got`: What a reader has read.
* `OnWay`: The messages between the two.

## Theorems

* `sendRound_header`, `sendRound_body`: A call of a writer.
* `head_of_stream`: What a stream begins with.
* `recvRound_header`, `recvRound_body`, `recvRound_end`: A call of a reader.
* `doSend_onWay`, `write_onWay`, `read_onWay`, `read_end`: The same between two ends.
-/

namespace YkServer

open Lib YkServer.ByteArray

/-- A message that can be sent and parsed: its size and that of the header are an `int`, it is
    below the limit, and an empty body does not end a node. -/
structure RockMessage.Sized (maxLength : UInt32) (m : RockMessage) : Prop where
  limit : m.bytes.length < maxLength.toNat
  int : Rock.headerSize + m.bytes.length < 2 ^ 31
  node : ¬(m.body = [] ∧ Rock.baseSize ∣ m.bytes.length)

theorem RockMessage.Sized.fits {maxLength : UInt32} {m : RockMessage} (h : m.Sized maxLength) :
    m.Fits := by
  have hint := h.int
  exact ⟨by omega, h.node⟩

namespace Rock

/-! ## Sending -/

theorem frames_cons (m : RockMessage) (ms : List RockMessage) :
    frames (m :: ms) = frame m ++ frames ms := by
  rw [frames, List.map_cons, List.flatten_cons]
  rfl

theorem frames_concat (ms : List RockMessage) (m : RockMessage) :
    frames (ms ++ [m]) = frames ms ++ frame m := by
  rw [frames, List.map_append, List.flatten_append, List.map_singleton, List.flatten_singleton]
  rfl

theorem length_frame (m : RockMessage) : (frame m).length = headerSize + m.bytes.length := by
  rw [frame, List.length_append, length_header]

namespace Writer

/-- What has been sent of the frame. -/
def part : Writer → List UInt8
  | idle => []
  | header m _ offset _ => (Rock.header m.bytes.length).take offset
  | body m _ length left => Rock.header m.bytes.length ++ m.bytes.take (length - left)

/-- Where the loops of a writer are. -/
def Going : Writer → Prop
  | idle => True
  | header m ba offset left =>
    ba.Unread m.bytes ∧ ba.size = m.bytes.length ∧ 0 < left ∧ offset + left = headerSize
  | body m ba length left =>
    ba.Unread (m.bytes.drop (length - left)) ∧ ba.size = m.bytes.length ∧
      length = m.bytes.length ∧ 0 < left ∧ left ≤ length

/-- The part of a frame is never all of it. -/
theorem Going.part_length {w : Writer} (h : w.Going) (m : RockMessage) (hm : w.msgs = [m]) :
    w.part.length < (frame m).length ∧ w.part <+: frame m := by
  rw [length_frame]
  cases w with
  | idle => cases hm
  | header m' ba offset left =>
      rcases h with ⟨-, -, hpos, hsum⟩
      cases hm
      refine ⟨?_, ?_⟩
      · rw [part, List.length_take, length_header]
        omega
      · exact (List.take_prefix offset _).trans (List.prefix_append _ _)
  | body m' ba length left =>
      rcases h with ⟨-, -, rfl, hpos, hle⟩
      cases hm
      refine ⟨?_, ?_⟩
      · rw [part, List.length_append, length_header, List.length_take]
        omega
      · exact List.prefix_append_right_inj _ |>.2 (List.take_prefix _ _)

end Writer

/-- A message is begun. -/
theorem sendBegin_going {maxLength : UInt32} (heap : Nat → UInt8) (m : RockMessage)
    (hm : m.Sized maxLength) :
    ∃ w, sendBegin heap m = some w ∧ w.Going ∧ w.part = [] ∧ w.msgs = [m] := by
  have hint := hm.int
  rcases toByteArray_unread heap m (by omega) with ⟨ba, hser, hunread, hsize, -⟩
  refine ⟨.header m ba 0 headerSize, ?_, ⟨hunread, hsize, by decide, rfl⟩, rfl, rfl⟩
  simp only [sendBegin, hser]

/-- A call of a writer in the header of its message, on a socket that is connected: the part of
    the frame is longer. -/
theorem sendRound_header (m : RockMessage) (ba : ByteArray) (offset left : Nat)
    (h : (Writer.header m ba offset left).Going) (s : Socket) (hconn : s.connected = true) :
    ∃ bytes s', s'.outbox = s.outbox ++ bytes ∧
      ∃ w', sendRound (.header m ba offset left) s = some (s', .inr w') ∧ w'.Going ∧
        w'.part = (Writer.header m ba offset left).part ++ bytes ∧ w'.msgs = [m] := by
  rcases h with ⟨hunread, hsize, hpos, hsum⟩
  rcases SocketStream.write_taken s (Rock.header ba.size) s.outbox offset left hpos
    (by rw [length_header]; omega) ⟨hconn, rfl⟩ with ⟨k, s', hcall, hk, hle, hsent, -⟩
  have hround := Stream.writeRound_some _ headerSize offset left k s s' hk hle
    (by simp only [headerSize] at hsum; omega) hcall
  rw [hsize] at hsent hround
  refine ⟨_, s', hsent.outbox, ?_⟩
  by_cases hall : k = left
  · -- The header is complete, and the bytes of the message follow.
    rw [if_pos hall] at hround
    have hread : ba.getReadSize = m.bytes.length := by
      rw [ByteArray.getReadSize, ← hunread.length]
    have hbytes := m.length_bytes_pos
    have hrt : ¬intOfWord headerSize ≤ 0 := by decide
    refine ⟨.body m ba m.bytes.length m.bytes.length, ?_, ?_, ?_, rfl⟩
    · simp only [sendRound, hsize, hround, hrt, if_false, hread]
      rw [if_neg (by omega)]
    · rw [Writer.Going, Nat.sub_self, List.drop_zero]
      exact ⟨hunread, hsize, rfl, hbytes, Nat.le_refl _⟩
    · have htake : ((Rock.header m.bytes.length).drop offset).take k =
          (Rock.header m.bytes.length).drop offset := by
        refine List.take_of_length_le ?_
        rw [List.length_drop, length_header]
        omega
      rw [Writer.part, Writer.part, Nat.sub_self, List.take_zero, List.append_nil, htake,
        List.take_append_drop]
  · rw [if_neg hall] at hround
    refine ⟨.header m ba (offset + k) (left - k), ?_, ⟨hunread, hsize, by omega, by omega⟩,
      ?_, rfl⟩
    · simp only [sendRound, hsize, hround]
    · rw [Writer.part, Writer.part, List.take_add]

/-- A call of a writer behind the header: the part is longer, or all of the frame. -/
theorem sendRound_body {maxLength : UInt32} (m : RockMessage) (hm : m.Sized maxLength)
    (ba : ByteArray) (length left : Nat) (h : (Writer.body m ba length left).Going) (s : Socket)
    (hconn : s.connected = true) :
    ∃ bytes s', s'.outbox = s.outbox ++ bytes ∧
      ((∃ w', sendRound (.body m ba length left) s = some (s', .inr w') ∧ w'.Going ∧
          w'.part = (Writer.body m ba length left).part ++ bytes ∧ w'.msgs = [m]) ∨
        ∃ m' rt, sendRound (.body m ba length left) s = some (s', .inl rt) ∧ 0 < rt ∧
          [m] = [m'] ∧ (Writer.body m ba length left).part ++ bytes = frame m') := by
  have hint := hm.int
  rcases h with ⟨hunread, hsize, rfl, hpos, hle⟩
  have htodo := SocketStream.length_drop_left m.bytes left hle
  rcases SocketStream.writeBytes_sent s ba s.outbox (m.bytes.drop (m.bytes.length - left))
    (List.ne_nil_of_length_pos (by omega)) ⟨hconn, rfl⟩ hunread with
    ⟨k, s', ba', hcall, hk, hkle, hsent, hunread', hsize'⟩
  rw [htodo] at hcall hkle
  have hround := Stream.fixRound_some (fun _ left => SocketStream.writeBytes left)
    m.bytes.length 0 left k (s, ba) (s', ba') hk hkle (by omega) hcall
  refine ⟨_, s', hsent.outbox, ?_⟩
  by_cases hall : k = left
  · rw [if_pos hall, intOfWord_small _ (by omega)] at hround
    have hbytes := m.length_bytes_pos
    have hrt : ¬(m.bytes.length : Int) ≤ 0 := by omega
    right
    refine ⟨m, intOfWord (headerSize + m.bytes.length), ?_, ?_, rfl, ?_⟩
    · simp only [sendRound, hround, hrt, if_false, hsize', hsize]
    · rw [intOfWord_small _ hint]
      omega
    · have htake : (m.bytes.drop (m.bytes.length - left)).take k =
          m.bytes.drop (m.bytes.length - left) := List.take_of_length_le (by omega)
      rw [Writer.part, htake, List.append_assoc, List.take_append_drop, frame]
  · rw [if_neg hall] at hround
    left
    have hsub : m.bytes.length - (left - k) = m.bytes.length - left + k := by omega
    refine ⟨.body m ba' m.bytes.length (left - k), ?_,
      ⟨?_, by omega, rfl, by omega, by omega⟩, ?_, rfl⟩
    · simp only [sendRound, hround]
    · rw [hsub, ← List.drop_drop]
      exact hunread'
    · rw [Writer.part, Writer.part, hsub, List.take_add, List.append_assoc]

/-- A call of a writer on a socket that is connected. -/
theorem sendRound_going {maxLength : UInt32} (w : Writer) (h : w.Going)
    (hsized : ∀ m ∈ w.msgs, m.Sized maxLength) (s : Socket) (hconn : s.connected = true)
    (hw : w.msgs ≠ []) :
    ∃ bytes s', s'.outbox = s.outbox ++ bytes ∧
      ((∃ w', sendRound w s = some (s', .inr w') ∧ w'.Going ∧ w'.part = w.part ++ bytes ∧
          w'.msgs = w.msgs) ∨
        ∃ m rt, sendRound w s = some (s', .inl rt) ∧ 0 < rt ∧ w.msgs = [m] ∧
          w.part ++ bytes = frame m) := by
  cases w with
  | idle => exact absurd rfl hw
  | header m ba offset left =>
      rcases sendRound_header m ba offset left h s hconn with ⟨bytes, s', hout, hgoes⟩
      exact ⟨bytes, s', hout, Or.inl hgoes⟩
  | body m ba length left =>
      exact sendRound_body m (hsized m List.mem_cons_self) ba length left h s hconn

/-! ## Receiving -/

/-- The messages that a writer and those before it make, in a stream that is at least a header
    long: it begins with a header, and if what this announces is there, with a frame. -/
theorem head_of_stream (ms : List RockMessage) (w : Writer) (h : w.Going) (stream : List UInt8)
    (hlen : headerSize ≤ stream.length) (hstream : stream = frames ms ++ w.part) :
    ∃ m, (m ∈ ms ∨ m ∈ w.msgs) ∧ stream.take headerSize = header m.bytes.length ∧
      (headerSize + m.bytes.length ≤ stream.length →
        ∃ ms', ms = m :: ms' ∧ stream = frame m ++ (frames ms' ++ w.part)) := by
  have htake : ∀ (m : RockMessage) (rest : List UInt8),
      (header m.bytes.length ++ rest).take headerSize = header m.bytes.length := by
    intro m rest
    exact List.take_left' (length_header _)
  cases ms with
  | cons m ms =>
      rw [frames_cons, List.append_assoc] at hstream
      refine ⟨m, Or.inl List.mem_cons_self, ?_, fun _ => ⟨ms, rfl, hstream⟩⟩
      rw [hstream, frame, List.append_assoc, htake]
  | nil =>
      rw [frames, List.map_nil, List.flatten_nil, List.nil_append] at hstream
      cases w with
      | idle =>
          rw [hstream] at hlen
          exact absurd hlen (by decide)
      | header m ba offset left =>
          -- The header is not complete.
          have hshort := (h.part_length m rfl).1
          rcases h with ⟨-, -, hpos, hsum⟩
          rw [hstream, Writer.part, List.length_take, length_header] at hlen
          omega
      | body m ba length left =>
          refine ⟨m, Or.inr List.mem_cons_self, ?_, ?_⟩
          · rw [hstream, Writer.part, htake]
          · intro hall
            have hshort := (h.part_length m rfl).1
            rw [length_frame, ← hstream] at hshort
            omega

namespace Reader

/-- What a reader has read of a frame, and where its loops are. -/
def Got : Reader → List UInt8 → Prop
  | header h offset left, got =>
    0 < left ∧ offset + left = headerSize ∧ h.length = headerSize ∧ got.length = offset ∧
      h.take offset = got
  | body ba length left, got => 0 < left ∧ length < 2 ^ 31 ∧ ∃ bs heap,
    got = Rock.header length ++ bs ∧ bs.length + left = length ∧ ba.Written bs ∧
      grownCapacity ba left = grownCapacity (ByteArray.new baseSize heap) length
  | parsed (some _), got => got = []
  | parsed none, _ => True

theorem got_new : new.Got [] :=
  ⟨by decide, rfl, by rw [length_header], rfl, List.take_zero⟩

end Reader

/-- The lengths in two headers. -/
theorem header_inj (n k : Nat) (hn : n < 2 ^ 31) (hk : k < 2 ^ 31) (h : header n = header k) :
    n = k := by
  have hlen := congrArg headerLength h
  rw [headerLength_header, headerLength_header, intOfWord_small _ hn, intOfWord_small _ hk] at hlen
  omega

/-- Where a call leaves a reader: it has read more of a frame, or all of the first. -/
def Reader.Goes (ms : List RockMessage) (rest bytes : List UInt8) (r : Reader) : Prop :=
  (∃ got, r.Got got ∧ (∀ m, r ≠ .parsed m) ∧ got ++ bytes = frames ms ++ rest) ∨
    ∃ m ms', ms = m :: ms' ∧ r = .parsed (some m) ∧ bytes = frames ms' ++ rest

/-- A call of a reader in a header, with some bytes on the way. -/
theorem recvRound_header {maxLength : UInt32} (heap : Nat → UInt8) (h : List UInt8)
    (offset left : Nat) (got : List UInt8) (hgot : (Reader.header h offset left).Got got)
    (ms : List RockMessage) (w : Writer) (hw : w.Going)
    (hsized : ∀ m, m ∈ ms ∨ m ∈ w.msgs → m.Sized maxLength) (s : Socket)
    (hconn : s.connected = true) (hin : s.inbox ≠ [])
    (hstream : ∀ k, got ++ s.inbox.take k ++ s.inbox.drop k = frames ms ++ w.part) :
    ∃ s' r', recvRound maxLength heap (.header h offset left) s = some (s', r') ∧
      r'.Goes ms w.part s'.inbox := by
  rcases hgot with ⟨hpos, hsum, hlen, rfl, hbuf⟩
  rcases SocketStream.read_some s h got.length left hpos hconn hin (by omega) with
    ⟨k, s', hcall, hk, hle, hall, hready, -⟩
  have htake : (s.inbox.take k).length = k := by
    rw [List.length_take]
    omega
  have hover := SocketStream.overwrite_behind h got (s.inbox.take k) hbuf (by omega)
  rw [htake] at hover
  have hround := Stream.fixRound_some _ headerSize got.length left k _ _ hk hle
    (by simp only [headerSize] at hsum; omega) hcall
  have hstream' := hstream k
  rw [← hready.inbox] at hstream'
  by_cases hfull : k = left
  · rw [if_pos hfull] at hround
    -- All eight bytes are there, and they are the header of a message.
    have hread : overwrite h got.length (s.inbox.take k) = got ++ s.inbox.take k := by
      rw [← hover.1]
      exact (List.take_of_length_le (by omega)).symm
    have hgotlen : (got ++ s.inbox.take k).length = headerSize := by
      rw [List.length_append]
      omega
    rcases head_of_stream ms w hw _ (by rw [List.length_append]; omega) hstream' with
      ⟨m, hm, hhead, -⟩
    rw [List.take_left' hgotlen] at hhead
    have hint := (hsized m hm).int
    have hbytes := m.length_bytes_pos
    have hbody := bodyLength_header maxLength _ (hsized m hm).limit
    rw [intOfWord_small _ (by omega), wordOfInt_natCast] at hbody
    have hrt : ¬intOfWord headerSize ≤ 0 := by decide
    refine ⟨s', .body (ByteArray.new baseSize heap) m.bytes.length m.bytes.length, ?_,
      Or.inl ⟨got ++ s.inbox.take k, ⟨hbytes, by omega, [], heap, ?_, ?_, ?_, rfl⟩, ?_,
        hstream'⟩⟩
    · simp only [recvRound, hround, hrt, if_false, hread, hhead, hbody]
      rw [if_neg (by omega)]
    · rw [hhead, List.append_nil]
    · exact Nat.zero_add _
    · exact written_new baseSize heap (by decide)
    · intro _ heq
      cases heq
  · rw [if_neg hfull] at hround
    refine ⟨s', .header (overwrite h got.length (s.inbox.take k)) (got.length + k) (left - k),
      ?_, Or.inl ⟨got ++ s.inbox.take k, ⟨by omega, by omega, by omega, ?_, hover.1⟩, ?_,
        hstream'⟩⟩
    · simp only [recvRound, hround]
    · rw [List.length_append, htake]
    · intro _ heq
      cases heq

/-- A call of a reader behind the header. -/
theorem recvRound_body {maxLength : UInt32} (heap : Nat → UInt8) (ba : ByteArray)
    (length left : Nat) (got : List UInt8) (hgot : (Reader.body ba length left).Got got)
    (ms : List RockMessage) (w : Writer) (hw : w.Going)
    (hsized : ∀ m, m ∈ ms ∨ m ∈ w.msgs → m.Sized maxLength) (s : Socket)
    (hconn : s.connected = true) (hin : s.inbox ≠ [])
    (hstream : ∀ k, got ++ s.inbox.take k ++ s.inbox.drop k = frames ms ++ w.part) :
    ∃ s' r', recvRound maxLength heap (.body ba length left) s = some (s', r') ∧
      r'.Goes ms w.part s'.inbox := by
  rcases hgot with ⟨hpos, hint, bs, heap', rfl, hsum, hwritten, hroom⟩
  rcases SocketStream.readBytes_appended s ba bs left hpos hconn hin hwritten with
    ⟨k, s', ba', hcall, hk, hle, hall, hready, hwritten', hcap, hfit⟩
  have htake : (s.inbox.take k).length = k := by
    rw [List.length_take]
    omega
  have hround := Stream.fixRound_some (fun _ left => SocketStream.readBytes left) length 0 left
    k (s, ba) (s', ba') hk hle (by omega) hcall
  have hstream' := hstream k
  rw [← hready.inbox, List.append_assoc (header length)] at hstream'
  by_cases hfull : k = left
  · rw [if_pos hfull, intOfWord_small _ hint] at hround
    have hbslen : (bs ++ s.inbox.take k).length = length := by
      rw [List.length_append]
      omega
    have hstreamlen : (header length ++ (bs ++ s.inbox.take k) ++ s'.inbox).length =
        headerSize + length + s'.inbox.length := by
      rw [List.length_append, List.length_append, length_header, hbslen]
    rcases head_of_stream ms w hw _ (by omega) hstream' with ⟨m, hm, hhead, hframe⟩
    rw [List.append_assoc, List.take_left' (length_header _)] at hhead
    -- The length is that of the message, so all of its frame was read.
    have hsize := (hsized m hm).int
    have hsame := header_inj length m.bytes.length hint (by omega) hhead
    rcases hframe (by omega) with ⟨ms', hms, hwhole⟩
    rw [frame, ← hhead, List.append_assoc (header length), List.append_assoc (header length),
      List.append_cancel_left_eq] at hwhole
    rcases List.append_inj hwhole (by omega) with ⟨hbytes, hrest⟩
    rw [hbytes] at hwritten'
    rcases parseMessage_ok heap' m (hsized m hm).fits ba' hwritten'
      (by rw [hcap, hroom, hsame]) with ⟨ba'', hparse⟩
    refine ⟨s', .parsed (some m), ?_, Or.inr ⟨m, ms', hms, rfl, hrest⟩⟩
    have hrt : ¬(length : Int) ≤ 0 := by omega
    simp only [recvRound, hround, hrt, if_false, attempt_ok _ _ _ _ hparse]
  · rw [if_neg hfull] at hround
    have hat := hwritten.atEnd
    have hat' := hwritten'.atEnd
    have hlen := hwritten.length
    have hlen' := hwritten'.length
    rw [List.length_append, htake] at hlen'
    refine ⟨s', .body ba' length (left - k), ?_,
      Or.inl ⟨header length ++ (bs ++ s.inbox.take k),
        ⟨by omega, hint, bs ++ s.inbox.take k, heap', rfl, ?_, hwritten', ?_⟩, ?_, hstream'⟩⟩
    · simp only [recvRound, hround]
    · rw [List.length_append, htake]
      omega
    · rw [← hroom]
      exact SocketStream.grownCapacity_later ba ba' left k hcap (by omega) (by omega) hle
    · intro _ heq
      cases heq

/-- A call of a reader, with some bytes on the way. -/
theorem recvRound_got {maxLength : UInt32} (heap : Nat → UInt8) (r : Reader) (got : List UInt8)
    (hgot : r.Got got) (hr : ∀ m, r ≠ .parsed m) (ms : List RockMessage) (w : Writer)
    (hw : w.Going) (hsized : ∀ m, m ∈ ms ∨ m ∈ w.msgs → m.Sized maxLength) (s : Socket)
    (hconn : s.connected = true) (hin : s.inbox ≠ [])
    (hstream : got ++ s.inbox = frames ms ++ w.part) :
    ∃ s' r', recvRound maxLength heap r s = some (s', r') ∧ r'.Goes ms w.part s'.inbox := by
  have hnext : ∀ k, got ++ s.inbox.take k ++ s.inbox.drop k = frames ms ++ w.part := by
    intro k
    rw [List.append_assoc, List.take_append_drop, hstream]
  cases r with
  | parsed m => exact absurd rfl (hr m)
  | header h offset left =>
      exact recvRound_header heap h offset left got hgot ms w hw hsized s hconn hin hnext
  | body ba length left =>
      exact recvRound_body heap ba length left got hgot ms w hw hsized s hconn hin hnext

/-- What a reader has read is less than a frame. -/
theorem Reader.Got.short {maxLength : UInt32} {r : Reader} {got : List UInt8} (h : r.Got got)
    (hr : ∀ m, r ≠ .parsed m) (ms : List RockMessage)
    (hsized : ∀ m ∈ ms, m.Sized maxLength) (rest : List UInt8)
    (hstream : got = frames ms ++ rest) : ms = [] := by
  cases ms with
  | nil => rfl
  | cons m ms =>
      exfalso
      have hint := (hsized m List.mem_cons_self).int
      rw [frames_cons, List.append_assoc, frame, List.append_assoc] at hstream
      have hlen := congrArg List.length hstream
      rw [List.length_append, List.length_append, length_header] at hlen
      cases r with
      | parsed m => exact hr m rfl
      | header h offset left =>
          rcases h with ⟨hpos, hsum, -, hgot, -⟩
          omega
      | body ba length left =>
          rcases h with ⟨hpos, hlt, bs, -, hgot, hsum, -⟩
          -- Both begin with the same header, so they have the same length.
          rw [hgot] at hstream hlen
          rw [List.length_append, length_header] at hlen
          have hhead := congrArg (List.take headerSize) hstream
          rw [List.take_left' (length_header _), List.take_left' (length_header _)] at hhead
          have hsame := header_inj length m.bytes.length hlt (by omega) hhead
          omega

/-- At the end of the stream a reader gives up. -/
theorem recvRound_end (maxLength : UInt32) (heap : Nat → UInt8) (r : Reader) (got : List UInt8)
    (hgot : r.Got got) (hr : ∀ m, r ≠ .parsed m) (s : Socket) (hconn : s.connected = true)
    (hin : s.inbox = []) :
    ∃ s', recvRound maxLength heap r s = some (s', .parsed none) ∧ s'.inbox = [] := by
  have hzero : wordOfInt 0 = 0 := rfl
  cases r with
  | parsed m => exact absurd rfl (hr m)
  | header h offset left =>
      rcases SocketStream.read_empty s h offset left hconn hin with ⟨s', hcall, hin'⟩
      have hround : Stream.fixRound SocketStream.read headerSize offset left (s, h) =
          .ok (.inl 0) (s', h) := by
        rw [Stream.fixRound, bind_ok _ _ _ _ _ hcall]
        simp only [hzero, if_true]
        rfl
      refine ⟨s', ?_, hin'⟩
      simp only [recvRound, hround, Int.le_refl, if_true]
  | body ba length left =>
      rcases hgot with ⟨hpos, -, bs, -, -, -, hwritten, -⟩
      rcases SocketStream.readBytes_empty s ba hwritten.inv left hpos hconn hin with
        ⟨s', ba', hcall, hin'⟩
      have hround : Stream.fixRound (fun _ left => SocketStream.readBytes left) length 0 left
          (s, ba) = .ok (.inl 0) (s', ba') := by
        rw [Stream.fixRound, bind_ok _ _ _ _ _ hcall]
        simp only [hzero, if_true]
        rfl
      refine ⟨s', ?_, hin'⟩
      simp only [recvRound, hround, Int.le_refl, if_true]

/-! ## Between two ends -/

/-- The messages between a writer and a reader: what was read of a frame and the bytes on the way
    are their frames, and the part that was sent of another. A reader that has given up has left
    no message. -/
structure OnWay (w : Writer) (r : Reader) (bytes : List UInt8) (ms : List RockMessage) : Prop where
  going : w.Going
  stream : ∃ got, r.Got got ∧ got ++ bytes = frames ms ++ w.part
  given : r = .parsed none → bytes = [] ∧ ms = []

/-- As long as nothing was read of the next message, the bytes alone. -/
theorem OnWay.bytes_eq {w : Writer} {bytes : List UInt8} {ms : List RockMessage}
    (h : OnWay w .new bytes ms) : bytes = frames ms ++ w.part := by
  rcases h.stream with ⟨got, ⟨-, -, -, hlen, -⟩, hstream⟩
  rw [List.eq_nil_of_length_eq_zero hlen, List.nil_append] at hstream
  exact hstream

/-- A message that was parsed is handed on, and the next one can be read. -/
theorem OnWay.next {w : Writer} {m : RockMessage} {bytes : List UInt8} {ms : List RockMessage}
    (h : OnWay w (.parsed (some m)) bytes ms) : OnWay w .new bytes ms := by
  rcases h.stream with ⟨got, rfl, hstream⟩
  exact ⟨h.going, ⟨[], Reader.got_new, hstream⟩, nofun⟩

theorem onWay_new : OnWay .idle .new [] [] := ⟨trivial, ⟨[], Reader.got_new, rfl⟩, nofun⟩

end Rock

namespace RockEnd

open Rock

variable {maxLength : UInt32} {e e' : RockEnd} {bytes : List UInt8} {ms : List RockMessage}

theorem doSend_onWay {r : Reader} (heap : Nat → UInt8) (h : OnWay e.sending r bytes ms)
    (hsized : ∀ m ∈ e.writing, m.Sized maxLength) (he : e.doSend heap = some e') :
    ∃ sending rest, e' = { e with writing := rest, sending := sending } ∧
      e.sending.msgs = [] ∧ e.writing = sending.msgs ++ rest ∧ OnWay sending r bytes ms := by
  rcases e with ⟨writing, sending, reading⟩
  cases writing with
  | nil => cases sending <;> cases he
  | cons m rest =>
      cases sending with
      | header => cases he
      | body => cases he
      | idle =>
          rcases sendBegin_going heap m (hsized m List.mem_cons_self) with
            ⟨w, hbegin, hgoing, hpart, hmsgs⟩
          simp only [doSend, hbegin, Option.map_some, Option.some.injEq] at he
          rcases h.stream with ⟨got, hgot, hstream⟩
          refine ⟨w, rest, he.symm, rfl, by rw [hmsgs]; rfl, hgoing, ⟨got, hgot, ?_⟩, h.given⟩
          rw [hpart]
          exact hstream

theorem write_onWay {r : Reader} (cut : Nat → Nat) (h : OnWay e.sending r bytes ms)
    (hr : r ≠ .parsed none) (hsized : ∀ m ∈ e.sending.msgs, m.Sized maxLength)
    {res : List UInt8 × RockEnd × List RockMessage} (hres : e.write cut bytes = some res) :
    ∃ bytes' sending ms', res = (bytes', { e with sending := sending }, []) ∧
      ms' ++ sending.msgs = ms ++ e.sending.msgs ∧ OnWay sending r bytes' ms' := by
  have hmsgs : e.sending.msgs ≠ [] := by
    intro hnil
    rcases e with ⟨writing, sending, reading⟩
    cases sending <;> cases hnil
    cases hres
  rcases h.stream with ⟨got, hgot, hstream⟩
  rcases sendRound_going e.sending h.going hsized ⟨true, [], bytes, cut, 0⟩ rfl hmsgs with
    ⟨more, s', hout, ⟨w', hround, hgoing', hpart, hsame⟩ | ⟨m, rt, hround, hrt, hm, hframe⟩⟩
  · simp only [write, hround, Option.some.injEq] at hres
    refine ⟨s'.outbox, w', ms, hres.symm, by rw [hsame], hgoing', ⟨got, hgot, ?_⟩,
      fun heq => absurd heq hr⟩
    rw [hout, hpart, ← List.append_assoc, hstream, List.append_assoc]
  · -- All of the frame was sent, and the next one is not begun.
    simp only [write, hround, hrt, if_true, Option.some.injEq] at hres
    refine ⟨s'.outbox, .idle, ms ++ [m], hres.symm, by rw [hm, Writer.msgs, List.append_nil],
      trivial, ⟨got, hgot, ?_⟩, fun heq => absurd heq hr⟩
    rw [hout, ← List.append_assoc, hstream, List.append_assoc, hframe, frames_concat,
      Writer.part, List.append_nil]

/-- A reader that has returned makes no call. -/
theorem read_going {heap : Nat → UInt8} {cut : Nat → Nat} {res : List UInt8 × RockEnd}
    (hres : e.read maxLength heap cut bytes = some res) : ∀ m, e.reading ≠ .parsed m := by
  intro m hm
  rw [read, hm] at hres
  cases hres

theorem read_onWay {w : Writer} (heap : Nat → UInt8) (cut : Nat → Nat)
    (h : OnWay w e.reading bytes ms) (hsized : ∀ m, m ∈ ms ∨ m ∈ w.msgs → m.Sized maxLength)
    (hbytes : bytes ≠ []) {res : List UInt8 × RockEnd}
    (hres : e.read maxLength heap cut bytes = some res) :
    ∃ bytes' reading ms', res = (bytes', { e with reading := reading }) ∧
      reading.msgs ++ ms' = ms ∧ OnWay w reading bytes' ms' ∧ reading ≠ .parsed none := by
  rcases h.stream with ⟨got, hgot, hstream⟩
  rcases recvRound_got heap e.reading got hgot (read_going hres) ms w h.going hsized
    ⟨true, bytes, [], cut, 0⟩ rfl hbytes hstream with
    ⟨s', r', hround, ⟨got', hgot', hr', hstream'⟩ | ⟨m, ms', rfl, rfl, hrest⟩⟩
  · simp only [read, hround, Option.map_some, Option.some.injEq] at hres
    have hnil : r'.msgs = [] := by
      cases r' with
      | parsed m => exact absurd rfl (hr' m)
      | header => rfl
      | body => rfl
    exact ⟨s'.inbox, r', ms, hres.symm, by rw [hnil]; rfl,
      ⟨h.going, ⟨got', hgot', hstream'⟩, fun heq => absurd heq (hr' none)⟩, hr' none⟩
  · simp only [read, hround, Option.map_some, Option.some.injEq] at hres
    exact ⟨s'.inbox, .parsed (some m), ms', hres.symm, rfl, ⟨h.going, ⟨[], rfl, hrest⟩, nofun⟩,
      nofun⟩

theorem read_end {w : Writer} (heap : Nat → UInt8) (cut : Nat → Nat) (h : OnWay w e.reading [] ms)
    (hsized : ∀ m ∈ ms, m.Sized maxLength) {res : List UInt8 × RockEnd}
    (hres : e.read maxLength heap cut [] = some res) :
    res = ([], { e with reading := .parsed none }) ∧ OnWay w (.parsed none) [] ms ∧
      e.reading.msgs = [] := by
  have hgoes := read_going hres
  rcases h.stream with ⟨got, hgot, hstream⟩
  rcases recvRound_end maxLength heap e.reading got hgot hgoes ⟨true, [], [], cut, 0⟩ rfl rfl with
    ⟨s', hround, hin⟩
  have hnone : ms = [] := by
    rw [List.append_nil] at hstream
    exact hgot.short hgoes ms hsized _ hstream
  simp only [read, hround, hin, Option.map_some, Option.some.injEq] at hres
  refine ⟨hres.symm, ⟨h.going, ⟨got, trivial, hstream⟩, fun _ => ⟨rfl, hnone⟩⟩, ?_⟩
  rcases e with ⟨writing, sending, reading⟩
  cases reading with
  | parsed m => exact absurd rfl (hgoes m)
  | header => rfl
  | body => rfl

end RockEnd

end YkServer
