import YkServer.Core.WSServer
import YkServer.Theory.Http.Conversation
import YkServer.Theory.WebSocket.Fragments

/-!
# Messages There and Back

A session with servlets that reply. The client sends messages, in as many fragments as it likes
and with pings and pongs where it likes. The server hands them to the servlet one by one, and what
that sends reaches the client, again in any fragments. Pings are answered by the loop that meets
them, so there are pongs in front of a reply, and `Carries` says of the bytes on the way back
which messages they hold: a pong in front of a message belongs to the message.

So the client gets exactly the replies, in order, and what the servlets share is what they make of
the messages, also in order. A reply depends only on whole messages: how they were cut does not
matter.

## Main definitions

* `FrameCall`, `sendAll`: What is sent.
* `Message`: A message in some calls.
* `Carries`: Bytes that hold some messages.
* `Replier`: A servlet that replies.
* `Link.session`: The client, the server and the client again.

## Theorems

* `sendAll_open`: Sending.
* `Message.received`: A message arrives.
* `carries_messages`, `carries_pongs`: What is sent behind other messages.
* `receiveAll_carried`: The client gets what the bytes hold.
* `messages_replied`: The loop of the server.
* `session_replied`: A session.
-/

namespace YkServer

open Lib

namespace WebSocket

/-! ## Calls -/

/-- A call of `sendMessage`. It is sent with a positive result if its size and two is an
    `int32_t`. -/
structure DataCall where
  fin : Bool
  randValue : UInt32
  msg : WSFrameMessage
  opcode_lt : msg.opcode < 16
  nonempty : msg.data ≠ []
  size : msg.data.length + 2 < 2 ^ 31

/-- A call that sends a frame. -/
inductive FrameCall where
  | data (d : DataCall)
  | ping
  | pong

namespace FrameCall

/-- The frame, of a client or of a server. -/
def frame (client : Bool) : FrameCall → Frame
  | .data d => messageFrame client d.fin d.randValue d.msg d.opcode_lt
    (Nat.lt_of_le_of_lt (Nat.le_add_right _ 2) (d.size.trans (by decide)))
  | .ping => pingFrame
  | .pong => pongFrame

/-- The call. The message that is masked is one of its own. -/
def send (client : Bool) : FrameCall → Prog Exn Socket Int
  | .data d => do
    let (v, _) ← Prog.within d.msg (WSSendMessage client d.fin d.randValue)
    pure v
  | .ping => WSPing
  | .pong => WSPong

theorem not_data_ping : ¬pingFrame.Data := by decide

theorem not_data_pong : ¬pongFrame.Data := by decide

theorem nonempty (client : Bool) (x : FrameCall) (h : (x.frame client).Data) :
    (x.frame client).payload ≠ [] := by
  cases x with
  | data d => exact d.nonempty
  | ping => exact absurd h not_data_ping
  | pong => exact absurd h not_data_pong

/-- What a client sends is masked. -/
theorem masked (client : Bool) (x : FrameCall) (h : (x.frame client).Data) :
    (!client) = true ∨ (x.frame client).key ≠ none := by
  cases client with
  | false => exact Or.inl rfl
  | true =>
      right
      cases x with
      | data d => exact Option.some_ne_none _
      | ping => exact absurd h not_data_ping
      | pong => exact absurd h not_data_pong

theorem payload_lt (client : Bool) (x : FrameCall) :
    (x.frame client).payload.length < 2 ^ 31 := by
  cases x with
  | data d =>
      have hsize := d.size
      have hpay : ((FrameCall.data d).frame client).payload = d.msg.data := rfl
      rw [hpay]
      omega
  | ping => exact Nat.two_pow_pos 31
  | pong => exact Nat.two_pow_pos 31

theorem send_open (client : Bool) (x : FrameCall) (s : Socket) (inbox out : List UInt8)
    (h : s.Open inbox out) :
    ∃ v s', x.send client s = .ok v s' ∧ 0 < v ∧
      s'.Open inbox (out ++ (x.frame client).bytes) := by
  cases x with
  | data d =>
      have hpos := List.length_pos_of_ne_nil d.nonempty
      have hsize := d.size
      rcases WSSendMessage_open s client d.fin d.randValue d.msg d.opcode_lt (by omega) inbox out h
        with ⟨s', msg', hopen, hrun⟩
      rw [intOfWord_small _ (by omega), if_pos (by omega), intOfWord_small _ hsize] at hrun
      refine ⟨(d.msg.data.length + 2 : Nat), s', ?_, by omega, hopen⟩
      rw [FrameCall.send, bind_ok _ _ _ _ _ (within_ok _ _ _ _ _ _ hrun)]
      rfl
  | ping =>
      rcases WSPing_open s inbox out h with ⟨s', hrun, hopen⟩
      exact ⟨2, s', hrun, by decide, hopen⟩
  | pong =>
      rcases WSPong_open s inbox out h with ⟨s', hrun, hopen⟩
      exact ⟨2, s', hrun, by decide, hopen⟩

end FrameCall

/-- Calls, one after another, with their results. -/
def sendAll (client : Bool) : List FrameCall → Prog Exn Socket (List Int)
  | [] => pure []
  | x :: xs => do
    let v ← x.send client
    let vs ← sendAll client xs
    pure (v :: vs)

/-- The frames of some calls. -/
def frames (client : Bool) (xs : List FrameCall) : List Frame := xs.map (FrameCall.frame client)

/-- All of it is sent, and every result is positive. -/
theorem sendAll_open (client : Bool) (xs : List FrameCall) (s : Socket) (inbox out : List UInt8)
    (h : s.Open inbox out) :
    ∃ vs s', sendAll client xs s = .ok vs s' ∧ (∀ v ∈ vs, 0 < v) ∧ vs.length = xs.length ∧
      s'.Open inbox (out ++ wire (frames client xs)) := by
  induction xs generalizing s out with
  | nil => exact ⟨[], s, rfl, (fun v hv => by cases hv), rfl, by simpa [wire, frames] using h⟩
  | cons x xs ih =>
      rcases x.send_open client s inbox out h with ⟨v, s₁, hsend, hv, hopen₁⟩
      rcases ih s₁ _ hopen₁ with ⟨vs, s', hrest, hvs, hlen, hopen⟩
      refine ⟨v :: vs, s', ?_, ?_, by rw [List.length_cons, List.length_cons, hlen], ?_⟩
      · rw [sendAll, bind_ok _ _ _ _ _ hsend, bind_ok _ _ _ _ _ hrest]
        rfl
      · intro w hw
        rcases List.mem_cons.1 hw with rfl | hw
        · exact hv
        · exact hvs w hw
      · rw [frames, List.map_cons, wire_cons, ← List.append_assoc]
        exact hopen

/-! ## Messages -/

/-- A message that one side sends in some calls. -/
structure Message (client : Bool) where
  opcode : Nat
  init : List FrameCall
  last : FrameCall
  text : opcode = TEXT_FRAME ∨ opcode = BIN_FRAME
  fragmented : Fragmented (last.frame client) opcode (frames client init)

/-- A message that a receiver with this limit takes. -/
def Fits (maxSize : UInt32) (w : WSFrameMessage) : Prop :=
  w.data.length < maxSize.toNat ∧ w.data.length ≤ 2 ^ 31

theorem wire_append (fs gs : List Frame) : wire (fs ++ gs) = wire fs ++ wire gs :=
  List.flatMap_append

/-- The pongs for some frames. -/
theorem answers_wire (fs : List Frame) :
    ∃ p, fs.flatMap answer = wire (frames false (List.replicate p .pong)) := by
  induction fs with
  | nil => exact ⟨0, rfl⟩
  | cons f fs ih =>
      rcases ih with ⟨p, hp⟩
      rw [List.flatMap_cons, hp, answer]
      split
      · exact ⟨p + 1, rfl⟩
      · exact ⟨p, rfl⟩

namespace Message

variable {client : Bool} (m : Message client)

/-- The calls. -/
def calls : List FrameCall := m.init ++ [m.last]

/-- What should arrive. -/
def whole : WSFrameMessage := ⟨m.opcode, payloads (frames client m.calls)⟩

theorem frames_calls :
    frames client m.calls = frames client m.init ++ [m.last.frame client] := by
  rw [frames, calls, List.map_append, List.map_singleton]
  rfl

/-- A frame of a message comes from a call. -/
theorem frame_of_mem : ∀ f ∈ frames client m.init ++ [m.last.frame client],
    ∃ x : FrameCall, x.frame client = f := by
  intro f hf
  rw [← frames_calls, frames, List.mem_map] at hf
  rcases hf with ⟨x, -, hx⟩
  exact ⟨x, hx⟩

/-- The last frame is one of a message. -/
theorem data_last {last : Frame} {opcode : Nat} {init : List Frame}
    (h : Fragmented last opcode init)
    (hop : opcode = CONTINUE ∨ opcode = TEXT_FRAME ∨ opcode = BIN_FRAME) : last.Data := by
  induction h with
  | last opcode ho _ =>
      rw [Frame.Data, ho]
      exact hop
  | control _ _ _ _ _ ih => exact ih hop
  | fragment _ _ _ _ _ _ ih => exact ih (Or.inl rfl)

/-- The message is received, and the bytes behind it are left. -/
theorem received (maxSize : UInt32) (receiver : Bool) (hreceiver : (!client) = receiver)
    (h : Fits maxSize m.whole) (s : Socket) (rest out : List UInt8)
    (hs : s.Open (wire (frames client m.calls) ++ rest) out) :
    ∃ p s', WSRecvMessage maxSize receiver s = .ok (some m.whole) s' ∧
      s'.Open rest (out ++ wire (frames false (List.replicate p .pong))) := by
  have hmasked : ∀ f ∈ frames client m.init ++ [m.last.frame client], f.Data →
      receiver = true ∨ f.key ≠ none := by
    intro f hf hdata
    rcases m.frame_of_mem f hf with ⟨x, rfl⟩
    rw [← hreceiver]
    exact x.masked client hdata
  have hne : ∀ f ∈ frames client m.init ++ [m.last.frame client], f.Data → f.payload ≠ [] := by
    intro f hf hdata
    rcases m.frame_of_mem f hf with ⟨x, rfl⟩
    exact x.nonempty client hdata
  have hlast := List.length_pos_of_ne_nil
    (hne (m.last.frame client) (by simp) (data_last m.fragmented (Or.inr m.text)))
  have hfit := h
  rw [Fits, whole, frames_calls] at hfit
  have hsum : (payloads (frames client m.init ++ [m.last.frame client])).length =
      0 + (payloads (frames client m.init)).length + (m.last.frame client).payload.length := by
    simp only [payloads, List.flatMap_append, List.length_append, List.flatMap_cons,
      List.flatMap_nil, List.append_nil, Nat.zero_add]
  -- The last fragment has a byte, so those before it are fewer than the message has.
  have hcounted : Counted 0 (frames client m.init) (m.last.frame client) := by
    have htwo := hfit.2
    rw [hsum] at htwo
    exact ⟨by omega, m.last.payload_lt client, fun _ => htwo⟩
  rcases (reassembled_iff maxSize receiver m.opcode m.text _ _ m.fragmented hmasked hne hfit.1 s
    hs.connected rest).2 hcounted with ⟨s', hrun, hconn, hleft, hout⟩
  have hin : s.inbox = wire (frames client m.init ++ [m.last.frame client]) ++ rest := by
    rw [hs.inbox, frames_calls]
  have hsame : { s with inbox := s.inbox } = s := rfl
  rcases answers_wire (frames client m.init) with ⟨p, hp⟩
  rw [← hin, hsame] at hrun
  rw [hs.outbox, hp] at hout
  rw [whole, frames_calls]
  exact ⟨p, s', hrun, hconn, hleft, hout⟩

/-- The message with pongs in front of it. -/
def delayed (p : Nat) : Message client where
  opcode := m.opcode
  init := List.replicate p .pong ++ m.init
  last := m.last
  text := m.text
  fragmented := by
    induction p with
    | zero => exact m.fragmented
    | succ p ih => exact .control _ _ _ (Or.inr rfl) ih

theorem calls_delayed (p : Nat) : (m.delayed p).calls = List.replicate p .pong ++ m.calls :=
  List.append_assoc _ _ _

theorem payloads_pongs (p : Nat) (fs : List Frame) :
    payloads (frames client (List.replicate p .pong) ++ fs) = payloads fs := by
  induction p with
  | zero => rfl
  | succ p ih => exact ih

theorem whole_delayed (p : Nat) : (m.delayed p).whole = m.whole := by
  have hframes : frames client (m.delayed p).calls =
      frames client (List.replicate p .pong) ++ frames client m.calls := by
    rw [calls_delayed, frames, List.map_append]
    rfl
  rw [whole, whole, hframes, payloads_pongs]
  rfl

end Message

/-- The calls of some messages. -/
def callsOf {client : Bool} (ms : List (Message client)) : List FrameCall :=
  ms.flatMap Message.calls

/-- What should arrive of them. -/
def wholes {client : Bool} (ms : List (Message client)) : List WSFrameMessage :=
  ms.map Message.whole

/-! ## Bytes that hold messages -/

/-- Bytes from a server that hold some messages, and pongs behind them. -/
def Carries (bytes : List UInt8) (ws : List WSFrameMessage) : Prop :=
  ∃ (ms : List (Message false)) (p : Nat), bytes =
    wire (frames false (callsOf ms ++ List.replicate p .pong)) ∧ wholes ms = ws

theorem frames_append (client : Bool) (xs ys : List FrameCall) :
    frames client (xs ++ ys) = frames client xs ++ frames client ys := List.map_append

theorem carries_nil : Carries [] [] := ⟨[], 0, rfl, rfl⟩

theorem carries_pongs (bytes : List UInt8) (ws : List WSFrameMessage) (p : Nat)
    (h : Carries bytes ws) :
    Carries (bytes ++ wire (frames false (List.replicate p .pong))) ws := by
  rcases h with ⟨ms, q, rfl, hws⟩
  refine ⟨ms, q + p, ?_, hws⟩
  rw [← wire_append, ← frames_append, List.append_assoc, List.replicate_append_replicate]

/-- The pongs that were last belong to the first message now. -/
theorem carries_messages (bytes : List UInt8) (ws : List WSFrameMessage)
    (rs : List (Message false)) (h : Carries bytes ws) :
    Carries (bytes ++ wire (frames false (callsOf rs))) (ws ++ wholes rs) := by
  rcases h with ⟨ms, p, rfl, hws⟩
  rcases rs with _ | ⟨r, rs⟩
  · refine ⟨ms, p, ?_, ?_⟩
    · exact List.append_nil _
    · rw [hws]
      exact (List.append_nil _).symm
  · refine ⟨ms ++ r.delayed p :: rs, 0, ?_, ?_⟩
    · rw [← wire_append, ← frames_append]
      simp only [callsOf, List.flatMap_append, List.flatMap_cons, Message.calls_delayed,
        List.replicate_zero, List.append_nil, List.append_assoc]
    · rw [← hws, wholes, wholes, wholes, List.map_append, List.map_cons, List.map_cons,
        Message.whole_delayed]

/-! ## The client -/

/-- Receive messages up to the first that does not come. -/
def receiveAll (maxSize : UInt32) (client : Bool) : Nat → Prog Exn Socket (List WSFrameMessage)
  | 0 => fun _ => .hang
  | fuel + 1 => do
    match ← WSRecvMessage maxSize client with
    | none => pure []
    | some m => do
      let ms ← receiveAll maxSize client fuel
      pure (m :: ms)

theorem keeps_recvHead (I : Socket → Prop) (hI : Receiving I) : Keeps I recvHead := by
  refine keeps_bind _ _ _ (keeps_bind _ _ _ (keeps_within _ _ _ (keeps_fixLoop _ _ _ (fun _ _ =>
    keeps_socketRead I hI _ _) _ _ _)) ?_) ?_
  · rintro ⟨rt, buf⟩
    exact keeps_ite _ _ _ _ (keeps_pure _ _) (keeps_pure _ _)
  · intro b
    split <;> exact keeps_pure _ _

/-- There is no message in pongs, and no answer to them. -/
theorem recvLoop_pongs (maxSize : UInt32) (client : Bool) (l : Locals) (p : Nat) (fuel : Nat)
    (hfuel : p < fuel) (s : Socket) (out : List UInt8)
    (hs : s.Open (wire (frames false (List.replicate p .pong))) out) :
    ∃ s', recvLoop maxSize client fuel l s = .ok none s' ∧ s'.outbox = out := by
  induction p generalizing fuel s with
  | zero =>
      rcases fuel with _ | fuel
      · omega
      · rcases recvHead_total s hs.connected with ⟨r, s₁, hhead, hzero, htwo⟩
        cases r with
        | none =>
            have hkept := keeps_ok _ _ (keeps_recvHead _ (receiving_sent out s.cut)) _ _ _
              ⟨hs.outbox, rfl⟩ hhead
            refine ⟨{ s₁ with connected := false }, ?_, hkept.1⟩
            have hframe : recvFrame maxSize client l s = .ok .stop s₁ := by
              rw [recvFrame, bind_ok _ _ _ _ _ hhead]
              rfl
            rw [recvLoop, bind_ok _ _ _ _ _ hframe]
            rfl
        | some head =>
            -- There are no two bytes to be had.
            have hlen := (htwo (Option.some_ne_none _)).inbox
            have hempty : s.inbox = [] := hs.inbox
            rw [hempty, List.length_nil] at hlen
            omega
  | succ p ih =>
      rcases fuel with _ | fuel
      · omega
      · rw [List.replicate_succ, frames, List.map_cons, wire_cons] at hs
        rcases recvFrame_control maxSize client l pongFrame s _ out (by decide) hs with
          ⟨s₁, hrun, hopen⟩
        rw [recvLoop_again maxSize client fuel l l s s₁ hrun]
        have hout : out ++ answer pongFrame = out := List.append_nil out
        rw [hout] at hopen
        exact ih fuel (by omega) s₁ hopen

theorem length_pongs (p : Nat) : p ≤ (wire (frames false (List.replicate p .pong))).length := by
  have hwire := length_wire (frames false (List.replicate p .pong))
  rw [frames, List.length_map, List.length_replicate] at hwire
  exact Nat.le_trans (Nat.le_mul_of_pos_left p (Nat.succ_pos 1)) hwire

theorem WSRecvMessage_pongs (maxSize : UInt32) (client : Bool) (p : Nat) (s : Socket)
    (out : List UInt8) (hs : s.Open (wire (frames false (List.replicate p .pong))) out) :
    ∃ s', WSRecvMessage maxSize client s = .ok none s' ∧ s'.outbox = out := by
  refine recvLoop_pongs maxSize client ⟨0, [], 0⟩ p _ ?_ s out hs
  rw [hs.inbox]
  exact Nat.lt_succ_of_le (length_pongs p)

/-- The client gets what the bytes hold. -/
theorem receiveAll_carried (maxSize : UInt32) (bytes : List UInt8) (ws : List WSFrameMessage)
    (h : Carries bytes ws) (hfit : ∀ w ∈ ws, Fits maxSize w) (fuel : Nat)
    (hfuel : ws.length < fuel) (s : Socket) (out : List UInt8) (hs : s.Open bytes out) :
    ∃ s', receiveAll maxSize true fuel s = .ok ws s' := by
  rcases h with ⟨ms, p, rfl, rfl⟩
  induction ms generalizing fuel s out with
  | nil =>
      rcases fuel with _ | fuel
      · omega
      · rcases WSRecvMessage_pongs maxSize true p s out hs with ⟨s', hrun, -⟩
        exact ⟨s', by rw [receiveAll, bind_ok _ _ _ _ _ hrun]; rfl⟩
  | cons m ms ih =>
      rcases fuel with _ | fuel
      · omega
      · have hbytes : wire (frames false (callsOf (m :: ms) ++ List.replicate p .pong)) =
            wire (frames false m.calls) ++
              wire (frames false (callsOf ms ++ List.replicate p .pong)) := by
          rw [← wire_append, ← frames_append, ← List.append_assoc]
          rfl
        rw [hbytes] at hs
        rcases m.received maxSize true rfl (hfit _ List.mem_cons_self) s _ out hs with
          ⟨q, s₁, hrecv, hs₁⟩
        rcases ih fuel s₁ _ hs₁ (fun w hw => hfit w (List.mem_cons_of_mem _ hw))
          (Nat.lt_of_succ_lt_succ hfuel) with ⟨s', hrest⟩
        refine ⟨s', ?_⟩
        rw [receiveAll, bind_ok _ _ _ _ _ hrecv]
        simp only []
        rw [bind_ok _ _ _ _ _ hrest]
        rfl

/-! ## The server -/

/-- A servlet that replies. What a callback sends, what it makes of what the servlets share and
    what it returns depends on what they share before. -/
structure Replier (τ : Type) where
  connect : HttpRequest → τ → Int × List (Message false) × τ
  message : HttpRequest → WSFrameMessage → τ → Int × List (Message false) × τ
  close : HttpRequest → τ → Int × τ

/-- Messages that are sent with a callback. -/
def replying {τ : Type} (f : τ → Int × List (Message false) × τ) :
    Prog Exn (Socket × τ) Int := do
  let (_, t) ← Prog.get
  let _ ← Prog.first (sendAll false (callsOf (f t).2.1))
  Prog.modify (fun st => (st.1, (f t).2.2))
  pure (f t).1

theorem replying_open {τ : Type} (f : τ → Int × List (Message false) × τ) (s : Socket) (t : τ)
    (inbox out : List UInt8) (ws : List WSFrameMessage) (h : s.Open inbox out)
    (hws : Carries out ws) :
    ∃ s' out', replying f (s, t) = .ok (f t).1 (s', (f t).2.2) ∧ s'.Open inbox out' ∧
      Carries out' (ws ++ wholes (f t).2.1) := by
  rcases sendAll_open false (callsOf (f t).2.1) s inbox out h with ⟨vs, s', hsend, -, -, hopen⟩
  refine ⟨s', _, ?_, hopen, carries_messages out ws _ hws⟩
  rw [replying, bind_ok _ _ _ _ _ (get_apply _)]
  simp only []
  rw [bind_ok _ _ _ _ _ (first_ok _ _ _ _ _ hsend), bind_ok _ _ _ _ _ (modify_apply _ _)]
  rfl

namespace Replier

variable {τ : Type} (r : Replier τ)

/-- The servlet. -/
def servlet : WSServlet τ where
  onConnect header := replying (r.connect header)
  handle header msg := replying (r.message header msg)
  onClose header := do
    let (_, t) ← Prog.get
    Prog.modify (fun st => (st.1, (r.close header t).2))
    pure (r.close header t).1

/-- The replies to messages, and what the servlets share behind them. -/
def replies (header : HttpRequest) : List WSFrameMessage → τ → List WSFrameMessage × τ
  | [], t => ([], t)
  | w :: ws, t =>
    let a := r.message header w t
    if a.1 ≠ 0 then (wholes a.2.1, a.2.2)
    else (wholes a.2.1 ++ (replies header ws a.2.2).1, (replies header ws a.2.2).2)

/-- The replies of a session, and what the servlets share behind it. -/
def session (header : HttpRequest) (ws : List WSFrameMessage) (t : τ) :
    List WSFrameMessage × τ :=
  let a := r.connect header t
  if a.1 ≠ 0 then (wholes a.2.1, a.2.2)
  else (wholes a.2.1 ++ (r.replies header ws a.2.2).1,
    (r.close header (r.replies header ws a.2.2).2).2)

/-- The loop over the messages. -/
theorem messages_replied (maxSize : UInt32) (header : HttpRequest) (ms : List (Message true))
    (hfit : ∀ w ∈ wholes ms, Fits maxSize w) (fuel : Nat) (hfuel : ms.length < fuel) (s : Socket)
    (t : τ) (out : List UInt8) (sent : List WSFrameMessage) (hsent : Carries out sent)
    (hs : s.Open (wire (frames true (callsOf ms))) out) :
    ∃ s', WSServer.messages maxSize r.servlet header fuel (s, t) =
        .ok () (s', (r.replies header (wholes ms) t).2) ∧
      Carries s'.outbox (sent ++ (r.replies header (wholes ms) t).1) := by
  induction ms generalizing fuel s t out sent with
  | nil =>
      rcases fuel with _ | fuel
      · omega
      · rcases WSRecvMessage_pongs maxSize false 0 s out hs with ⟨s', hrun, hout⟩
        refine ⟨s', ?_, ?_⟩
        · rw [WSServer.messages, bind_ok _ _ _ _ _ (first_ok _ _ _ _ _ hrun)]
          rfl
        · rw [hout]
          exact (List.append_nil sent).symm ▸ hsent
  | cons m ms ih =>
      rcases fuel with _ | fuel
      · omega
      · have hbytes : wire (frames true (callsOf (m :: ms))) =
            wire (frames true m.calls) ++ wire (frames true (callsOf ms)) := by
          rw [← wire_append, ← frames_append]
          rfl
        rw [hbytes] at hs
        rcases m.received maxSize false rfl (hfit _ List.mem_cons_self) s _ out hs with
          ⟨q, s₁, hrecv, hs₁⟩
        rcases replying_open (r.message header m.whole) s₁ t _ _ _ hs₁
          (carries_pongs out sent q hsent) with ⟨s₂, out₂, hhandle, hs₂, hout₂⟩
        have hwholes : wholes (m :: ms) = m.whole :: wholes ms := rfl
        have hstep : WSServer.messages maxSize r.servlet header (fuel + 1) (s, t) =
            (if (r.message header m.whole t).1 ≠ 0 then pure ()
              else WSServer.messages maxSize r.servlet header fuel)
              (s₂, (r.message header m.whole t).2.2) := by
          rw [WSServer.messages, bind_ok _ _ _ _ _ (first_ok _ _ _ _ _ hrecv)]
          simp only []
          rw [bind_ok (r.servlet.handle header m.whole) _ _ _ _ hhandle]
        rw [hstep, hwholes, replies]
        by_cases hrt : (r.message header m.whole t).1 ≠ 0
        · rw [if_pos hrt]
          simp only [hrt, ne_eq, not_false_eq_true, if_true]
          exact ⟨s₂, rfl, hs₂.outbox ▸ hout₂⟩
        · rw [if_neg hrt]
          simp only [hrt, if_false]
          rcases ih (fun w hw => hfit w (List.mem_cons_of_mem _ hw)) fuel
            (Nat.lt_of_succ_lt_succ hfuel) s₂ (r.message header m.whole t).2.2 out₂ _ hout₂ hs₂ with
            ⟨s', hrun, hcarried⟩
          exact ⟨s', hrun, by rw [← List.append_assoc]; exact hcarried⟩

/-- What happens behind the handshake. -/
theorem serve_replied (maxSize : UInt32)
    (getWSServlet : List UInt8 → τ → Option (WSServlet τ) × τ) (header : HttpRequest)
    (ms : List (Message true)) (hfit : ∀ w ∈ wholes ms, Fits maxSize w) (fuel : Nat)
    (hfuel : ms.length < fuel) (s : Socket) (t t' : τ)
    (hslt : getWSServlet header.path t = (some r.servlet, t'))
    (hs : s.Open (wire (frames true (callsOf ms))) []) :
    ∃ s', WSServer.serve maxSize getWSServlet fuel header (s, t) =
        .ok () (s', (r.session header (wholes ms) t').2) ∧
      Carries s'.outbox (r.session header (wholes ms) t').1 := by
  rcases replying_open (r.connect header) s t' _ _ _ hs carries_nil with
    ⟨s₁, out₁, hconnect, hs₁, hout₁⟩
  have hstep : WSServer.serve maxSize getWSServlet fuel header (s, t) =
      (if (r.connect header t').1 ≠ 0 then pure ()
        else do
          WSServer.messages maxSize r.servlet header fuel
          let _ ← r.servlet.onClose header
          pure ()) (s₁, (r.connect header t').2.2) := by
    rw [WSServer.serve, bind_ok _ _ _ _ _ (get_apply _)]
    simp only []
    rw [bind_ok _ _ _ _ _ (modify_apply _ _)]
    simp only [hslt]
    rw [bind_ok (r.servlet.onConnect header) _ _ _ _ hconnect]
  rw [hstep, session]
  by_cases hrt : (r.connect header t').1 ≠ 0
  · rw [if_pos hrt]
    simp only [hrt, ne_eq, not_false_eq_true, if_true]
    exact ⟨s₁, rfl, hs₁.outbox ▸ hout₁⟩
  · rw [if_neg hrt]
    simp only [hrt, if_false]
    rcases r.messages_replied maxSize header ms hfit fuel hfuel s₁ (r.connect header t').2.2 out₁ _
      hout₁ hs₁ with ⟨s', hrun, hcarried⟩
    exact ⟨s', by rw [bind_ok _ _ _ _ _ hrun]; rfl, hcarried⟩

end Replier

end WebSocket

/-! ## A session -/

namespace Link

open WebSocket

variable {τ : Type}

/-- A client that sends messages and then receives messages, and a server between them. -/
def session (serverMax clientMax : UInt32)
    (getWSServlet : List UInt8 → τ → Option (WSServlet τ) × τ) (serverFuel clientFuel : Nat)
    (header : HttpRequest) (ms : List (Message true)) :
    Prog Exn (Link τ) (List Int × List WSFrameMessage) := do
  let sent ← onClient (sendAll true (callsOf ms))
  transmit
  onServer (WSServer.serve serverMax getWSServlet serverFuel header)
  transmit
  let received ← onClient (receiveAll clientMax true clientFuel)
  pure (sent, received)

/-- A session over a connection with nothing on its way: everything is sent, the client gets
    exactly the replies to the messages, in order, and what the servlets share is what they make
    of them. -/
theorem session_replied (serverMax clientMax : UInt32)
    (getWSServlet : List UInt8 → τ → Option (WSServlet τ) × τ) (r : Replier τ)
    (header : HttpRequest) (ms : List (Message true)) (l : Link τ) (clientCut serverCut : Nat → Nat)
    (hidle : l.Idle clientCut serverCut) (t : τ)
    (hslt : getWSServlet header.path l.state = (some r.servlet, t))
    (hserver : ∀ w ∈ wholes ms, WebSocket.Fits serverMax w)
    (hclient : ∀ w ∈ (r.session header (wholes ms) t).1, WebSocket.Fits clientMax w)
    (serverFuel clientFuel : Nat) (hserverFuel : ms.length < serverFuel)
    (hclientFuel : (r.session header (wholes ms) t).1.length < clientFuel) :
    ∃ sent l', session serverMax clientMax getWSServlet serverFuel clientFuel header ms l =
        .ok (sent, (r.session header (wholes ms) t).1) l' ∧
      sent.length = (callsOf ms).length ∧ (∀ v ∈ sent, 0 < v) ∧
      l'.state = (r.session header (wholes ms) t).2 := by
  rcases sendAll_open true (callsOf ms) l.client [] []
    ⟨hidle.client.connected, hidle.client.inbox, hidle.clientOut⟩ with
    ⟨sent, c₁, hsend, hpos, hlen, hc₁⟩
  set l₂ : Link τ := transmitted { l with client := c₁ } with hl₂
  have hs₂ : l₂.server.Open (wire (frames true (callsOf ms))) [] := by
    refine ⟨hidle.server.connected, ?_, rfl⟩
    rw [hl₂, transmitted]
    simp only [hidle.server.inbox, hc₁.outbox, List.nil_append]
  rcases r.serve_replied serverMax getWSServlet header ms hserver serverFuel hserverFuel l₂.server
    l.state t hslt hs₂ with ⟨s₃, hserve, hcarried⟩
  set l₄ : Link τ := transmitted
    { l₂ with server := s₃, state := (r.session header (wholes ms) t).2 } with hl₄
  have hin₂ : l₂.client.inbox = [] := by
    rw [hl₂, transmitted]
    simp only [hc₁.inbox, hidle.serverOut, List.append_nil]
  have hc₄ : l₄.client.Open s₃.outbox [] := by
    refine ⟨hc₁.connected, ?_, rfl⟩
    rw [hl₄, transmitted]
    simp only [hin₂, List.nil_append]
  rcases receiveAll_carried clientMax _ _ hcarried hclient clientFuel hclientFuel l₄.client _ hc₄
    with ⟨c₅, hrecv⟩
  refine ⟨sent, { l₄ with client := c₅ }, ?_, hlen, hpos, rfl⟩
  rw [session, bind_ok _ _ _ _ _ (onClient_ok _ l sent c₁ hsend),
    bind_ok _ _ _ _ _ (transmit_apply _), bind_ok _ _ _ _ _ (onServer_ok _ l₂ _ _ _ hserve),
    bind_ok _ _ _ _ _ (transmit_apply _), bind_ok _ _ _ _ _ (onClient_ok _ l₄ _ c₅ hrecv)]
  rfl

/-! ## A servlet that sends messages back -/

/-- A frame with a text of a few bytes. -/
def textCall (fin : Bool) (opcode : Nat) (h : opcode < 16) (byte : UInt8) : FrameCall :=
  .data ⟨fin, 0x04030201, ⟨opcode, [byte, byte]⟩, h, List.cons_ne_nil _ _, by simp⟩

theorem textFrame_lt : TEXT_FRAME < 16 := by decide

theorem continue_lt : CONTINUE < 16 := by decide

/-- A text in two fragments with a ping between them. -/
def cutText (byte : UInt8) : Message true where
  opcode := TEXT_FRAME
  init := [textCall false TEXT_FRAME textFrame_lt byte, .ping]
  last := textCall true CONTINUE continue_lt byte
  text := Or.inl rfl
  fragmented := .fragment _ _ _ rfl rfl (.control _ _ _ (Or.inl rfl) (.last _ rfl rfl))

/-- A text in one frame. -/
def wholeText (byte : UInt8) : Message false where
  opcode := TEXT_FRAME
  init := []
  last := textCall true TEXT_FRAME textFrame_lt byte
  text := Or.inl rfl
  fragmented := .last _ rfl rfl

/-- It replies with the number of messages so far, and takes the third for the last. -/
def numbering : Replier Nat where
  connect _ n := (0, [wholeText 0], n)
  message _ _ n := (if n = 2 then 1 else 0, [wholeText n.toUInt8], n + 1)
  close _ n := (0, n + 10)

theorem session_replied_numbering :
    ∃ sent l', session 100 100 (fun _ n => (some numbering.servlet, n)) 5 5 HttpRequest.new
        [cutText 97, cutText 98, cutText 99, cutText 100]
        (⟨HttpSession.client (fun _ => 3) [], HttpSession.client (fun _ => 4) [], 0, true⟩ :
          Link Nat) =
        .ok (sent, wholes [wholeText 0, wholeText 0, wholeText 1, wholeText 2]) l' ∧
      sent.length = 12 ∧ (∀ v ∈ sent, 0 < v) ∧ l'.state = 13 :=
  session_replied 100 100 (fun _ n => (some numbering.servlet, n)) numbering HttpRequest.new
    [cutText 97, cutText 98, cutText 99, cutText 100]
    ⟨HttpSession.client (fun _ => 3) [], HttpSession.client (fun _ => 4) [], 0, true⟩
    (fun _ => 3) (fun _ => 4) ⟨rfl, ⟨rfl, rfl⟩, ⟨rfl, rfl⟩, rfl, rfl, rfl, rfl⟩ 0 rfl
    (by
      intro w hw
      simp only [wholes, List.map_cons, List.map_nil, List.mem_cons, List.not_mem_nil,
        or_false] at hw
      rcases hw with rfl | rfl | rfl | rfl <;> exact ⟨by decide, by decide⟩)
    (by
      intro w hw
      have hsession : (numbering.session HttpRequest.new
          (wholes [cutText 97, cutText 98, cutText 99, cutText 100]) 0).1 =
          wholes [wholeText 0, wholeText 0, wholeText 1, wholeText 2] := rfl
      rw [hsession] at hw
      simp only [wholes, List.map_cons, List.map_nil, List.mem_cons, List.not_mem_nil,
        or_false] at hw
      rcases hw with rfl | rfl | rfl | rfl <;> exact ⟨by decide, by decide⟩)
    5 5 (by decide) (by decide)

end Link

end YkServer
