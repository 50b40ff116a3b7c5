import YkServer.Core.HttpServer
import YkServer.Lib.Parts
import YkServer.Theory.HttpClient.Transfer

/-!
# A Conversation over One Connection

`HttpConnection::sendRequest` and `recvResponse` on one side, `HttpServer::handleClient` on the
other. A client that waits for every response before it sends the next request gets, in order,
what the servlets make of every request as it arrives. This goes on up to the first request that
does not want the connection kept; the server closes then, and everything later is without a
response.

What one round leaves is the start of the next: both ends have taken everything off the stream,
what the servlets share has moved on, and the transport is as it was. The last part needs that
receiving does not touch what is sent, and the other way around.

## Main definitions

* `Receiving`, `Sending`: What receiving and sending leave alone.
* `Link`: The two ends.
* `Link.turn`, `Link.conversation`: The client's side of it.
* `HttpServer.responses`: What the client should get.

## Theorems

* `keeps_recvRequest`, `keeps_recvResponse`: Receiving.
* `sendRequest_waiting`, `sendResponse_waiting`: Sending.
* `turn_answered`, `turn_closed`: A round with the server, and one after it has closed.
* `conversation_answered`: A conversation.
-/

namespace YkServer

open Lib

/-! ## What is left alone -/

/-- An invariant that receiving leaves alone. -/
structure Receiving (I : Socket → Prop) : Prop where
  recv : ∀ n, Keeps I (Socket.recv n)
  close : ∀ s, I s → I { s with connected := false }

/-- An invariant that sending leaves alone. -/
def Sending (I : Socket → Prop) : Prop := ∀ bytes, Keeps I (Socket.send bytes)

/-- What has been sent, and the transport. -/
theorem receiving_sent (outbox : List UInt8) (cut : Nat → Nat) :
    Receiving (fun s => s.outbox = outbox ∧ s.cut = cut) where
  recv n := by
    intro s hs
    rw [Socket.recv]
    split <;> exact hs
  close _ hs := hs

/-- The end of the stream. -/
theorem receiving_end : Receiving (fun s => s.inbox = []) where
  recv n := by
    intro s hs
    rw [Socket.recv]
    split
    · have hdrop : ∀ k, s.inbox.drop k = [] := fun k => by rw [hs, List.drop_nil]
      exact hdrop _
    · exact hs
  close _ hs := hs

/-- What is there to be received, and the transport. -/
theorem sending_waiting (connected : Bool) (inbox : List UInt8) (cut : Nat → Nat) :
    Sending (fun s => s.connected = connected ∧ s.inbox = inbox ∧ s.cut = cut) := by
  intro bytes s hs
  rw [Socket.send]
  split <;> exact hs

section

variable (I : Socket → Prop)

theorem keeps_socketRead (hI : Receiving I) (offset n : Nat) :
    Keeps (fun st : Socket × List UInt8 => I st.1) (SocketStream.read offset n) := by
  refine keeps_bind _ _ _ (keeps_first _ _ (hI.recv n)) ?_
  rintro ⟨rt, bytes⟩
  refine keeps_bind _ _ _ (keeps_get _) ?_
  rintro ⟨sock, buffer⟩
  refine keeps_ite _ _ _ _ (keeps_pure _ _) (keeps_ite _ _ _ _ (keeps_undef _) ?_)
  exact keeps_bind _ _ _ (keeps_modify _ _ (fun _ hs => hs)) (fun _ => keeps_pure _ _)

theorem keeps_socketWrite (hI : Sending I) (buffer : List UInt8) (offset n : Nat) :
    Keeps I (SocketStream.write buffer offset n) := by
  intro s hs
  rw [SocketStream.write]
  split
  · split
    · trivial
    · exact hI _ s hs
  · exact hs

end

section

variable {ε σ : Type} (I : σ → Prop)

theorem keeps_fixLoop (call : Nat → Nat → Prog ε σ Int) (length : Nat)
    (h : ∀ i n, Keeps I (call i n)) (fuel offset left : Nat) :
    Keeps I (Stream.fixLoop call length fuel offset left) := by
  induction fuel generalizing offset left with
  | zero => exact keeps_hang I
  | succ fuel ih =>
      refine keeps_ite _ _ _ _ (keeps_pure _ _) (keeps_bind _ _ _ (h _ _) ?_)
      exact fun _ => keeps_ite _ _ _ _ (keeps_pure _ _) (ih _ _)

theorem keeps_writeLoop (write : Nat → Nat → Prog ε σ Int) (length : Nat)
    (h : ∀ i n, Keeps I (write i n)) (fuel offset left : Nat) :
    Keeps I (Stream.writeLoop write length fuel offset left) := by
  induction fuel generalizing offset left with
  | zero => exact keeps_hang I
  | succ fuel ih =>
      refine keeps_ite _ _ _ _ (keeps_pure _ _) (keeps_bind _ _ _ (h _ _) ?_)
      exact fun _ => keeps_ite _ _ _ _ (keeps_pure _ _) (keeps_ite _ _ _ _ (ih _ _) (ih _ _))

end

/-! ### Receiving -/

section

variable (I : Socket → Prop) (hI : Receiving I) (buffSize : Nat)

include hI

theorem keeps_closing : Keeps I HttpSession.close :=
  keeps_modify _ _ hI.close

theorem keeps_sessionBody (offset : Nat) (data : List UInt8) (length : Nat) :
    Keeps I (HttpSession.recvBody offset data length) := by
  refine keeps_ite _ _ _ _ (keeps_raise _ _) (keeps_ite _ _ _ _ ?_ (keeps_pure _ _))
  refine keeps_bind _ _ _ (keeps_within _ _ _ (keeps_fixLoop _ _ _ (fun _ _ =>
    keeps_socketRead I hI _ _) _ _ _)) ?_
  rintro ⟨rt, body⟩
  refine keeps_ite _ _ _ _ ?_ (keeps_pure _ _)
  exact keeps_bind _ _ _ (keeps_closing I hI) (fun _ => keeps_pure _ _)

theorem keeps_sessionHeader (fuel offset : Nat) (data : List UInt8) (parser : HttpRequestParser) :
    Keeps I (HttpSession.recvHeader buffSize fuel offset data parser) := by
  induction fuel generalizing offset data parser with
  | zero => exact keeps_hang _
  | succ fuel ih =>
      have hclose : Keeps I (do
          HttpSession.close
          pure (none : Option (Nat × List UInt8 × HttpRequestParser))) :=
        keeps_bind _ _ _ (keeps_closing I hI) (fun _ => keeps_pure _ _)
      refine keeps_bind _ _ _ (keeps_within _ _ _ (keeps_socketRead I hI _ _)) ?_
      rintro ⟨rt, data'⟩
      refine keeps_ite _ _ _ _ hclose (keeps_bind _ _ _ (keeps_within _ _ _
        (keeps_second _ _)) ?_)
      rintro ⟨⟨nparse, data''⟩, parser'⟩
      exact keeps_ite _ _ _ _ hclose (keeps_ite _ _ _ _ hclose
        (keeps_ite _ _ _ _ (keeps_pure _ _) (ih _ _ _)))

theorem keeps_recvRequest (lexicalCast : List UInt8 → Option UInt64) (m : HttpSession.Memory) :
    Keeps I (HttpSession.recvRequest lexicalCast buffSize m) := by
  refine keeps_bind _ _ _ (keeps_get _) (fun s => keeps_bind _ _ _
    (keeps_sessionHeader I hI buffSize _ _ _ _) ?_)
  intro res
  cases res with
  | none => exact keeps_pure _ _
  | some r =>
      refine keeps_ite _ _ _ _ (keeps_bind _ _ _ (keeps_sessionBody I hI _ _ _) ?_)
        (keeps_pure _ _)
      intro body
      cases body with
      | none => exact keeps_pure _ _
      | some body => exact keeps_pure _ _

omit hI in
theorem keeps_access (array : List UInt8) (start count : Nat) :
    Keeps I (HttpConnection.access array start count) :=
  keeps_ite _ _ _ _ (keeps_undef _) (keeps_pure _ _)

theorem keeps_connectionBody (offset : Nat) (data : List UInt8) (length : Nat) :
    Keeps I (HttpConnection.recvBody offset data length) := by
  refine keeps_ite _ _ _ _ (keeps_raise _ _) (keeps_bind _ _ _ (keeps_access I _ _ _)
    (fun _ => keeps_bind _ _ _ (keeps_access I _ _ _) (fun _ => keeps_ite _ _ _ _ ?_
      (keeps_pure _ _))))
  refine keeps_bind _ _ _ (keeps_within _ _ _ (keeps_fixLoop _ _ _ (fun _ _ =>
    keeps_socketRead I hI _ _) _ _ _)) ?_
  rintro ⟨rt, body⟩
  refine keeps_ite _ _ _ _ ?_ (keeps_pure _ _)
  exact keeps_bind _ _ _ (keeps_closing I hI) (fun _ => keeps_pure _ _)

variable {π : Type} (P : ResponseParser π)

theorem keeps_recvRound (offset : Nat) (data : List UInt8) (parser : π) :
    Keeps I (HttpConnection.recvRound P buffSize offset data parser) := by
  have hclose : Keeps I (do
      HttpConnection.close
      pure (.closed : RoundEnd π)) :=
    keeps_bind _ _ _ (keeps_closing I hI) (fun _ => keeps_pure _ _)
  refine keeps_bind _ _ _ (keeps_access I _ _ _) (fun _ => keeps_bind _ _ _
    (keeps_within _ _ _ (keeps_socketRead I hI _ _)) ?_)
  rintro ⟨rt, data'⟩
  refine keeps_ite _ _ _ _ hclose (keeps_ite _ _ _ _ (keeps_undef _) (keeps_bind _ _ _
    (keeps_access I _ _ _) (fun _ => keeps_bind _ _ _ (keeps_access I _ _ _)
      (fun _ => keeps_bind _ _ _ (keeps_within _ _ _ (keeps_second _ _)) ?_))))
  rintro ⟨⟨nparse, data''⟩, parser'⟩
  exact keeps_ite _ _ _ _ hclose (keeps_ite _ _ _ _ hclose
    (keeps_ite _ _ _ _ (keeps_pure _ _) (keeps_pure _ _)))

theorem keeps_connectionHeader (fuel offset : Nat) (data : List UInt8) (parser : π) :
    Keeps I
      (HttpConnection.recvHeader P buffSize fuel offset data parser) := by
  induction fuel generalizing offset data parser with
  | zero => exact keeps_hang _
  | succ fuel ih =>
      refine keeps_bind _ _ _ (keeps_recvRound I hI buffSize P _ _ _) ?_
      intro e
      cases e with
      | closed => exact keeps_pure _ _
      | again offset data parser => exact ih _ _ _
      | finished offset data parser => exact keeps_pure _ _

theorem keeps_recvResponse (buffer : Nat → UInt8) (parser : π) :
    Keeps I (HttpConnection.recvResponse P buffSize buffer parser) := by
  refine keeps_bind _ _ _ (keeps_get _) (fun s => keeps_bind _ _ _
    (keeps_connectionHeader I hI buffSize P _ _ _ _) ?_)
  intro res
  cases res with
  | none => exact keeps_pure _ _
  | some r =>
      refine keeps_ite _ _ _ _ (keeps_bind _ _ _ (keeps_connectionBody I hI _ _ _) ?_)
        (keeps_pure _ _)
      intro body
      cases body with
      | none => exact keeps_pure _ _
      | some body => exact keeps_pure _ _

end

/-! ### Sending -/

/-- Sending leaves alone what is there to be received. -/
theorem writeFixSize_waiting (data : List UInt8) (s s' : Socket) (n : Int)
    (h : Stream.writeFixSize (SocketStream.write data) (data.length + 1) data.length s =
      .ok n s') :
    s'.connected = s.connected ∧ s'.inbox = s.inbox ∧ s'.cut = s.cut :=
  keeps_ok _ _ (keeps_writeLoop _ _ _ (keeps_socketWrite _ (sending_waiting s.connected s.inbox
    s.cut) _) _ _ _) s s' n ⟨rfl, rfl, rfl⟩ h

-- The bytes are given by name here: their length is not to be computed.
theorem sendRequest_waiting (websocket : Bool) (req : HttpRequest) (s s' : Socket) (n : Int)
    (h : HttpConnection.sendRequest websocket req s = .ok n s') :
    s'.connected = s.connected ∧ s'.inbox = s.inbox ∧ s'.cut = s.cut :=
  writeFixSize_waiting (req.dump websocket) s s' n h

theorem sendResponse_waiting (rsp : HttpResponse) (s s' : Socket) (n : Int)
    (h : HttpSession.sendResponse rsp s = .ok n s') :
    s'.connected = s.connected ∧ s'.inbox = s.inbox ∧ s'.cut = s.cut :=
  writeFixSize_waiting rsp.dump s s' n h

/-! ## Two ends -/

/-- The two ends of a connection, what the servlets share, and whether the server still
    serves it. -/
structure Link (τ : Type) where
  client : Socket
  server : Socket
  state : τ
  running : Bool

/-- One exchange: the request, and what the parsers find in their memory. -/
structure Turn where
  request : HttpRequest
  memory : HttpSession.Memory
  buffer : Nat → UInt8

namespace Link

variable {τ : Type}

/-- A program of the client. -/
def onClient {α : Type} (m : Prog Exn Socket α) : Prog Exn (Link τ) α := fun l =>
  match m l.client with
  | .ok a c => .ok a { l with client := c }
  | .throw e c => .throw e { l with client := c }
  | .fault => .fault
  | .hang => .hang

/-- A program of the server. -/
def onServer {α : Type} (m : Prog Exn (Socket × τ) α) : Prog Exn (Link τ) α := fun l =>
  match m (l.server, l.state) with
  | .ok a (s, t) => .ok a { l with server := s, state := t }
  | .throw e (s, t) => .throw e { l with server := s, state := t }
  | .fault => .fault
  | .hang => .hang

/-- What has been sent arrives. -/
def transmitted (l : Link τ) : Link τ :=
  { l with
    client := { l.client with inbox := l.client.inbox ++ l.server.outbox, outbox := [] },
    server := { l.server with inbox := l.server.inbox ++ l.client.outbox, outbox := [] } }

def transmit : Prog Exn (Link τ) Unit := Prog.modify transmitted

variable (lexicalCast : List UInt8 → Option UInt64) (serverSize clientSize : Nat)

/-- The server's part of a turn, if it still serves the connection. -/
def serve (srv : HttpServer τ) (m : HttpSession.Memory) : Prog Exn (Link τ) Unit := do
  let l ← Prog.get
  if l.running then do
    let running ← onServer (HttpServer.handleStep lexicalCast serverSize srv m)
    Prog.modify (fun l => { l with running := running })
  else pure ()

/-- A turn: the client sends a request and waits for the response. -/
def turn (srv : HttpServer τ) (t : Turn) : Prog Exn (Link τ) (Option HttpResponse) := do
  let _ ← onClient (HttpConnection.sendRequest false t.request)
  transmit
  serve lexicalCast serverSize srv t.memory
  transmit
  let q ← onClient (HttpConnection.recvResponse (HttpResponseParser.responseParser lexicalCast)
    clientSize t.buffer .new)
  pure (q.map HttpResponseParser.data)

/-- One turn after another. -/
def conversation (srv : HttpServer τ) : List Turn → Prog Exn (Link τ) (List (Option HttpResponse))
  | [] => pure []
  | t :: ts => do
    let r ← turn lexicalCast serverSize clientSize srv t
    let rs ← conversation srv ts
    pure (r :: rs)

/-- Nothing is on its way, and the transport is the one given. -/
structure Idle (clientCut serverCut : Nat → Nat) (l : Link τ) : Prop where
  running : l.running = true
  client : l.client.Ready []
  server : l.server.Ready []
  clientOut : l.client.outbox = []
  serverOut : l.server.outbox = []
  clientCut : l.client.cut = clientCut
  serverCut : l.server.cut = serverCut

end Link

/-! ## What the client should get -/

namespace HttpServer

variable {τ : Type}

/-- The servlets leave the session alone: they change what they share, and make a response. -/
def Answers (srv : HttpServer τ) (answer : τ → HttpRequest → HttpResponse → HttpResponse × τ) :
    Prop :=
  ∀ req rsp s t, srv.m_dispatch req rsp (s, t) = .ok (answer t req rsp).1 (s, (answer t req rsp).2)

/-- The answer to a request that was sent. -/
def answered (srv : HttpServer τ) (answer : τ → HttpRequest → HttpResponse → HttpResponse × τ)
    (t : τ) (req : HttpRequest) : HttpResponse × τ :=
  answer t req.received (srv.fresh req.received)

/-- What the client gets. -/
def responses (srv : HttpServer τ) (answer : τ → HttpRequest → HttpResponse → HttpResponse × τ) :
    τ → List HttpRequest → List (Option HttpResponse)
  | _, [] => []
  | t, req :: reqs =>
    some (srv.answered answer t req).1.received ::
      if srv.m_isKeepalive && !req.close then
        responses srv answer (srv.answered answer t req).2 reqs
      else List.replicate reqs.length none

end HttpServer

/-! ## One side -/

section

variable (lexicalCast : List UInt8 → Option UInt64)
  (hcast : ∀ n < 2 ^ 64, lexicalCast (printed n) = some (UInt64.ofNat n))

include hcast in
/-- A request that is all there is on the stream, with its header block in the first read. -/
theorem recvRequest_all (buffSize : Nat) (hint : buffSize < 2 ^ 31) (m : HttpSession.Memory)
    (r : HttpRequest) (h : r.Transferable m.uriRelaxed) (s : Socket)
    (hready : s.Ready (r.dump false)) (hread : r.head.length ≤ HttpSession.nextRead buffSize s) :
    ∃ s', HttpSession.recvRequest lexicalCast buffSize m s = .ok (some r.received) s' ∧
      s'.Ready [] := by
  rw [HttpRequest.dump_eq r (fun e he => (h.names e he).1)] at hready
  have hbytes : r.head ++ r.body = r.head ++ (r.body ++ []) := by rw [List.append_nil]
  rw [hbytes] at hready
  have hpos : 0 < r.head.length := by
    rw [HttpRequest.head, HttpParser.headText, List.length_append, List.length_append]
    exact Nat.lt_of_lt_of_le (by decide) (Nat.le_trans (Nat.le_add_left 2 _) (Nat.le_add_left _ _))
  have hbuf : HttpSession.nextRead buffSize s ≤ buffSize := by
    unfold HttpSession.nextRead Socket.share
    omega
  rcases HttpSession.wellFormed_head lexicalCast hcast m.uriRelaxed m.queryStart r h (by omega) with
    ⟨q, hwf, hbody, hreq⟩
  have hcuts : HttpSession.SafeCuts m.uriRelaxed buffSize r.head s := by
    intro t ht hlt
    rw [HttpSession.readEnds_single _ _ _ hpos hread, List.mem_singleton] at ht
    omega
  rcases HttpSession.recvRequest_settled lexicalCast buffSize m r.head r.body [] q s hwf hbody
    (by omega) hint (by omega) h.body hready hcuts with ⟨T, s', -, -, hrun, hleft⟩
  rw [hreq] at hrun
  rw [List.drop_nil] at hleft
  exact ⟨s', hrun, hleft⟩

end

/-- What the first read gets of bytes that are all there. -/
theorem nextRead_cut (buffSize n : Nat) (s : Socket) (bs : List UInt8) (hready : s.Ready bs)
    (hbs : n ≤ bs.length) (hbuf : n ≤ buffSize) (hint : n < 2 ^ 31)
    (hcut : ∀ k, n ≤ s.cut k) : n ≤ HttpSession.nextRead buffSize s := by
  have hone := hcut s.calls
  unfold HttpSession.nextRead Socket.share
  rw [hready.inbox]
  omega

theorem nextRead_room (buffSize : Nat) (s : Socket) (hbuf : 1 < buffSize)
    (hcut : ∀ k, s.cut k < buffSize) : HttpSession.nextRead buffSize s < buffSize := by
  have hone := hcut s.calls
  unfold HttpSession.nextRead Socket.share
  omega

/-- Nothing is sent on a closed socket, and `writeFixSize` does not tell. -/
theorem sendRequest_closed (websocket : Bool) (r : HttpRequest) (c : Socket)
    (hconn : c.connected = false) (hlen : (r.dump websocket).length < 2 ^ 64) :
    ∃ n, HttpConnection.sendRequest websocket r c = .ok n c := by
  have hwrite : ∀ i n, SocketStream.write (r.dump websocket) i n c = .ok (-1) c := by
    intro i n
    rw [SocketStream.write, if_neg (by rw [hconn]; exact Bool.false_ne_true)]
  rw [HttpConnection.sendRequest, Stream.writeFixSize]
  cases hd : (r.dump websocket).length with
  | zero => exact ⟨_, rfl⟩
  | succ n =>
      rw [Stream.writeLoop, if_neg (Nat.succ_ne_zero n), bind_ok _ _ _ _ _ (hwrite _ _)]
      have hword : wordOfInt (-1) = 2 ^ 64 - 1 := by decide
      simp only [hword]
      rw [if_neg (by decide), if_pos (by omega), Stream.writeLoop]
      exact ⟨_, rfl⟩

/-- A response that never comes. -/
theorem recvResponse_nothing {π : Type} (P : ResponseParser π) (buffSize : Nat)
    (buffer : Nat → UInt8) (parser : π) (c : Socket) (hinbox : c.inbox = []) :
    ∃ c', HttpConnection.recvResponse P buffSize buffer parser c = .ok none c' := by
  have hgot : HttpConnection.Round.got buffSize
      ⟨c, 0, (List.range buffSize).map buffer, parser⟩ = 0 := by
    unfold HttpConnection.Round.got HttpSession.nextRead Socket.share
    simp only [hinbox, List.length_nil, Nat.min_zero]
    exact ite_self 0
  rcases HttpConnection.recvRound_silent P buffSize
    ⟨c, 0, (List.range buffSize).map buffer, parser⟩
    ⟨by rw [List.length_map, List.length_range], Nat.zero_le _⟩ hgot with ⟨c', hrun⟩
  refine ⟨c', ?_⟩
  rw [HttpConnection.recvResponse, bind_ok _ _ _ _ _ (get_apply c), HttpConnection.recvHeader]
  rw [bind_ok _ _ _ _ none (by rw [bind_ok _ _ _ _ _ hrun]; rfl)]
  rfl

/-! ## A turn -/

namespace Link

variable {τ : Type}

theorem onClient_ok {α : Type} (m : Prog Exn Socket α) (l : Link τ) (a : α) (c : Socket)
    (h : m l.client = .ok a c) : onClient m l = .ok a { l with client := c } := by
  rw [onClient, h]

theorem onServer_ok {α : Type} (m : Prog Exn (Socket × τ) α) (l : Link τ) (a : α) (s : Socket)
    (t : τ) (h : m (l.server, l.state) = .ok a (s, t)) :
    onServer m l = .ok a { l with server := s, state := t } := by
  rw [onServer, h]

theorem transmit_apply (l : Link τ) : transmit l = .ok () l.transmitted := rfl

/-- The server has closed, and nothing is on its way to the client. -/
structure Over (l : Link τ) : Prop where
  running : l.running = false
  client : l.client.inbox = []
  serverOut : l.server.outbox = []

variable (lexicalCast : List UInt8 → Option UInt64) (serverSize clientSize : Nat)

/-- A turn with a server that has closed. -/
theorem turn_closed (srv : HttpServer τ) (t : Turn) (l : Link τ) (h : l.Over)
    (hlen : (t.request.dump false).length < 2 ^ 64) :
    ∃ l', turn lexicalCast serverSize clientSize srv t l = .ok none l' ∧ l'.Over := by
  -- Whether the client still takes itself for connected or not, sending ends.
  have hsend : ∃ n c, HttpConnection.sendRequest false t.request l.client = .ok n c ∧
      c.inbox = [] := by
    by_cases hconn : l.client.connected = true
    · rcases HttpSession.sendRequest_sent false t.request l.client hconn hlen with ⟨c, hrun, -⟩
      have hkept := sendRequest_waiting false t.request l.client c _ hrun
      exact ⟨_, c, hrun, hkept.2.1.trans h.client⟩
    · rcases sendRequest_closed false t.request l.client (Bool.eq_false_iff.2 hconn) hlen with
        ⟨n, hrun⟩
      exact ⟨n, l.client, hrun, h.client⟩
  rcases hsend with ⟨n, c, hsend, hinbox⟩
  set l₁ : Link τ := { l with client := c } with hl₁
  set l₂ : Link τ := l₁.transmitted with hl₂
  have hin₂ : l₂.client.inbox = [] := by
    rw [hl₂, hl₁, transmitted]
    simp only [hinbox, h.serverOut, List.append_nil]
  set l₃ : Link τ := l₂.transmitted with hl₃
  have hin₃ : l₃.client.inbox = [] := by
    rw [hl₃, transmitted]
    simp only [hin₂]
    rfl
  have hserve : serve lexicalCast serverSize srv t.memory l₂ = .ok () l₂ := by
    have hrunning : l₂.running = false := h.running
    rw [serve, bind_ok _ _ _ _ _ (get_apply l₂),
      if_neg (by rw [hrunning]; exact Bool.false_ne_true)]
    rfl
  rcases recvResponse_nothing (HttpResponseParser.responseParser lexicalCast) clientSize t.buffer
    .new l₃.client hin₃ with ⟨c', hrecv⟩
  refine ⟨{ l₃ with client := c' }, ?_, h.running, ?_, rfl⟩
  · rw [turn, bind_ok _ _ _ _ _ (onClient_ok _ l n c hsend), bind_ok _ _ _ _ _ (transmit_apply l₁),
      bind_ok _ _ _ _ _ hserve, bind_ok _ _ _ _ _ (transmit_apply l₂),
      bind_ok _ _ _ _ _ (onClient_ok _ l₃ none c' hrecv)]
    rfl
  · exact keeps_ok _ _ (keeps_recvResponse _ receiving_end clientSize _ _ _) _ _ _ hin₃ hrecv

variable (hcast : ∀ n < 2 ^ 64, lexicalCast (printed n) = some (UInt64.ofNat n))
  (clientCut serverCut : Nat → Nat)

/-- What the server does with a request that is all there is on the stream. -/
structure Served (srv : HttpServer τ)
    (answer : τ → HttpRequest → HttpResponse → HttpResponse × τ) (t : Turn) (l' l : Link τ) :
    Prop where
  client : l'.client = l.client
  state : l'.state = (srv.answered answer l.state t.request).2
  running : l'.running = (srv.m_isKeepalive && !t.request.close)
  connected : l'.server.connected = l'.running
  inbox : l'.server.inbox = []
  outbox : l'.server.outbox = (srv.answered answer l.state t.request).1.dump
  cut : l'.server.cut = l.server.cut

include hcast in
/-- The server's part of a turn. -/
theorem serve_answered (hserver : serverSize < 2 ^ 31) (srv : HttpServer τ)
    (answer : τ → HttpRequest → HttpResponse → HttpResponse × τ) (hanswer : srv.Answers answer)
    (t : Turn) (l : Link τ) (hrunning : l.running = true) (hout : l.server.outbox = [])
    (hready : l.server.Ready (t.request.dump false))
    (hreq : t.request.Transferable t.memory.uriRelaxed)
    (hfit : t.request.head.length ≤ serverSize ∧ ∀ k, t.request.head.length ≤ l.server.cut k)
    (hlen : (srv.answered answer l.state t.request).1.dump.length < 2 ^ 64) :
    ∃ l', serve lexicalCast serverSize srv t.memory l = .ok () l' ∧ l'.Served srv answer t l := by
  have hdump : t.request.dump false = t.request.head ++ t.request.body :=
    HttpRequest.dump_eq _ (fun e he => (hreq.names e he).1)
  have hread : t.request.head.length ≤ HttpSession.nextRead serverSize l.server :=
    nextRead_cut _ _ _ _ hready (by rw [hdump, List.length_append]; omega) hfit.1 (by omega) hfit.2
  rcases recvRequest_all lexicalCast hcast serverSize hserver t.memory t.request hreq l.server
    hready hread with ⟨s₁, hrecv, hs₁⟩
  have hkept₁ := keeps_ok _ _ (keeps_recvRequest _ (receiving_sent [] l.server.cut) serverSize
    lexicalCast t.memory) _ _ _ ⟨hout, rfl⟩ hrecv
  rcases HttpConnection.sendResponse_sent (srv.answered answer l.state t.request).1 s₁ hs₁.connected
    hlen with ⟨n, s₂, hsend, hs₂⟩
  have hkept₂ := sendResponse_waiting _ s₁ s₂ n hsend
  rw [hs₁.connected, hs₁.inbox, hkept₁.2] at hkept₂
  rw [hkept₁.1, List.nil_append] at hs₂
  have hround : HttpServer.handleRound lexicalCast serverSize srv t.memory (l.server, l.state) =
      .ok (srv.m_isKeepalive && !t.request.close)
        (s₂, (srv.answered answer l.state t.request).2) := by
    rw [HttpServer.handleRound, bind_ok _ _ _ _ _ (first_ok _ _ _ l.state _ hrecv)]
    simp only []
    rw [bind_ok _ _ _ _ _ (hanswer t.request.received (srv.fresh t.request.received) s₁ l.state)]
    exact bind_ok _ _ _ _ _ (first_ok _ _ _ _ _ hsend)
  have hserve : ∀ s₃, HttpServer.handleStep lexicalCast serverSize srv t.memory
      (l.server, l.state) = .ok (srv.m_isKeepalive && !t.request.close)
        (s₃, (srv.answered answer l.state t.request).2) →
      serve lexicalCast serverSize srv t.memory l =
        .ok () ⟨l.client, s₃, (srv.answered answer l.state t.request).2,
          srv.m_isKeepalive && !t.request.close⟩ := by
    intro s₃ hstep
    rw [serve, bind_ok _ _ _ _ _ (get_apply l), if_pos hrunning,
      bind_ok _ _ _ _ _ (onServer_ok _ l _ _ _ hstep)]
    rfl
  by_cases hgo : (srv.m_isKeepalive && !t.request.close) = true
  · refine ⟨_, hserve s₂ ?_, rfl, rfl, rfl, ?_, hkept₂.2.1, hs₂, hkept₂.2.2⟩
    · rw [HttpServer.handleStep, bind_ok _ _ _ _ _ hround, if_pos hgo, hgo]
      rfl
    · exact hkept₂.1.trans hgo.symm
  · -- The last round closes the socket.
    refine ⟨_, hserve { s₂ with connected := false } ?_, rfl, rfl, rfl, ?_, hkept₂.2.1, hs₂,
      hkept₂.2.2⟩
    · rw [HttpServer.handleStep, bind_ok _ _ _ _ _ hround, if_neg hgo, Bool.eq_false_iff.2 hgo]
      rfl
    · exact (Bool.eq_false_iff.2 hgo).symm

include hcast in
/-- A turn with a server that listens. -/
theorem turn_answered (hserver : serverSize < 2 ^ 31) (hclient : clientSize < 2 ^ 31)
    (srv : HttpServer τ) (answer : τ → HttpRequest → HttpResponse → HttpResponse × τ)
    (hanswer : srv.Answers answer) (t : Turn) (l : Link τ) (h : l.Idle clientCut serverCut)
    (hreq : t.request.Transferable t.memory.uriRelaxed)
    (hfit : t.request.head.length ≤ serverSize ∧ ∀ k, t.request.head.length ≤ serverCut k)
    (hrsp : (srv.answered answer l.state t.request).1.Transferable)
    (hhead : ∀ k, (srv.answered answer l.state t.request).1.head.length ≤ clientCut k)
    (hroom : ∀ k, clientCut k < clientSize) :
    ∃ l', turn lexicalCast serverSize clientSize srv t l =
        .ok (some (srv.answered answer l.state t.request).1.received) l' ∧
      l'.state = (srv.answered answer l.state t.request).2 ∧
      if (srv.m_isKeepalive && !t.request.close) = true then l'.Idle clientCut serverCut
      else l'.Over := by
  have hdump : t.request.dump false = t.request.head ++ t.request.body :=
    HttpRequest.dump_eq _ (fun e he => (hreq.names e he).1)
  have hdump' := HttpResponse.dump_head _ hrsp.version hrsp.status
  have hlen : (t.request.dump false).length < 2 ^ 64 := by
    have hshort := hreq.body
    rw [hdump, List.length_append]
    omega
  have hone := hhead l.client.calls
  have hless := hroom l.client.calls
  have hlen' : (srv.answered answer l.state t.request).1.dump.length < 2 ^ 64 := by
    have hshort := hrsp.body
    rw [hdump', List.length_append]
    omega
  -- The request arrives.
  rcases HttpSession.sendRequest_sent false t.request l.client h.client.connected hlen with
    ⟨c₁, hsend, hc₁⟩
  have hkept₁ := sendRequest_waiting false t.request l.client c₁ _ hsend
  rw [h.client.connected, h.client.inbox, h.clientCut] at hkept₁
  rw [h.clientOut, List.nil_append] at hc₁
  set l₁ : Link τ := { l with client := c₁ } with hl₁
  set l₂ : Link τ := l₁.transmitted with hl₂
  have hready₂ : l₂.server.Ready (t.request.dump false) :=
    ⟨h.server.connected,
      by rw [hl₂, hl₁, transmitted]; simp only [h.server.inbox, hc₁, List.nil_append]⟩
  have hcut₂ : l₂.server.cut = serverCut := h.serverCut
  rcases serve_answered lexicalCast serverSize hcast hserver srv answer hanswer t l₂ h.running rfl
    hready₂ hreq ⟨hfit.1, by rw [hcut₂]; exact hfit.2⟩ hlen' with ⟨l₃, hserve, hserved⟩
  -- The response arrives.
  set l₄ : Link τ := l₃.transmitted with hl₄
  have hready₄ : l₄.client.Ready
      ((srv.answered answer l.state t.request).1.dump ++ []) := by
    refine ⟨?_, ?_⟩
    · rw [hl₄, transmitted]
      simp only [hserved.client]
      exact hkept₁.1
    · have hinbox : l₂.client.inbox = [] := by
        rw [hl₂, hl₁, transmitted]
        simp only [hkept₁.2.1, h.serverOut, List.append_nil]
      rw [hl₄, transmitted]
      simp only [hserved.client, hinbox, hserved.outbox, List.nil_append, List.append_nil]
      rfl
  have hcut₄ : l₄.client.cut = clientCut := by
    rw [hl₄, transmitted]
    simp only [hserved.client]
    exact hkept₁.2.2
  have hsmall : 1 < (srv.answered answer l.state t.request).1.head.length := by
    simp only [HttpResponse.head, HttpClientParser.headText, List.length_append, List.length_cons]
    omega
  rcases HttpConnection.recvResponse_dump lexicalCast hcast clientSize hclient t.buffer _ hrsp []
    l₄.client hready₄
    (nextRead_cut _ _ _ _ hready₄ (by rw [List.append_nil, hdump', List.length_append]; omega)
      (by omega) (by omega) (by rw [hcut₄]; exact hhead))
    (nextRead_room _ _ (by omega) (by rw [hcut₄]; exact hroom)) with ⟨q, c₅, hrecv, hq, hc₅⟩
  have hkept₅ := keeps_ok _ _ (keeps_recvResponse _ (receiving_sent [] clientCut) clientSize
    (HttpResponseParser.responseParser lexicalCast) t.buffer .new) _ _ _ ⟨rfl, hcut₄⟩ hrecv
  rw [List.drop_nil] at hc₅
  have hturn : turn lexicalCast serverSize clientSize srv t l =
      .ok (some (srv.answered answer l.state t.request).1.received) { l₄ with client := c₅ } := by
    rw [turn, bind_ok _ _ _ _ _ (onClient_ok _ l _ c₁ hsend), bind_ok _ _ _ _ _ (transmit_apply l₁),
      bind_ok _ _ _ _ _ hserve, bind_ok _ _ _ _ _ (transmit_apply l₃),
      bind_ok _ _ _ _ _ (onClient_ok _ l₄ _ c₅ hrecv), Option.map_some, hq]
    rfl
  refine ⟨_, hturn, hserved.state, ?_⟩
  have hserver₄ : l₄.server.inbox = [] := by
    have hout : l₃.client.outbox = [] := by
      rw [hserved.client]
      rfl
    rw [hl₄, transmitted]
    simp only [hserved.inbox, hout, List.append_nil]
  split
  · next hgo =>
      have hrunning : l₃.running = true := hserved.running.trans hgo
      exact ⟨hrunning, hc₅, ⟨hserved.connected.trans hrunning, hserver₄⟩, hkept₅.1, rfl, hkept₅.2,
        hserved.cut.trans hcut₂⟩
  · next hgo => exact ⟨hserved.running.trans (Bool.eq_false_iff.2 hgo), hc₅.inbox, rfl⟩

/-! ## Conversations -/

/-- Turns with a server that has closed. -/
theorem conversation_closed (srv : HttpServer τ) (ts : List Turn) (l : Link τ) (h : l.Over)
    (hlen : ∀ t ∈ ts, (t.request.dump false).length < 2 ^ 64) :
    ∃ l', conversation lexicalCast serverSize clientSize srv ts l =
      .ok (List.replicate ts.length none) l' ∧ l'.Over := by
  induction ts generalizing l with
  | nil => exact ⟨l, rfl, h⟩
  | cons t ts ih =>
      rcases turn_closed lexicalCast serverSize clientSize srv t l h (hlen t List.mem_cons_self)
        with ⟨l₁, hturn, hover⟩
      rcases ih l₁ hover (fun t' ht' => hlen t' (List.mem_cons_of_mem _ ht')) with
        ⟨l', hrest, hover'⟩
      refine ⟨l', ?_, hover'⟩
      rw [conversation, bind_ok _ _ _ _ _ hturn, bind_ok _ _ _ _ _ hrest]
      rfl

/-- A client that sends one request after another and waits for every response gets the
    servlets' answers to the requests as they arrive, in order and each with what the servlets
    share at that time, up to the first request for which the connection is not kept; there is no
    response to a later one. The server is left running if and only if there was no such
    request. -/
theorem conversation_answered (hcast : ∀ n < 2 ^ 64, lexicalCast (printed n) =
      some (UInt64.ofNat n)) (hserver : serverSize < 2 ^ 31) (hclient : clientSize < 2 ^ 31)
    (srv : HttpServer τ) (answer : τ → HttpRequest → HttpResponse → HttpResponse × τ)
    (hanswer : srv.Answers answer) (clientCut serverCut : Nat → Nat) (ts : List Turn)
    (hreq : ∀ t ∈ ts, t.request.Transferable t.memory.uriRelaxed ∧
      t.request.head.length ≤ serverSize ∧ ∀ k, t.request.head.length ≤ serverCut k)
    (hrsp : ∀ st, ∀ t ∈ ts, (srv.answered answer st t.request).1.Transferable ∧
      ∀ k, (srv.answered answer st t.request).1.head.length ≤ clientCut k)
    (hroom : ∀ k, clientCut k < clientSize) (l : Link τ) (h : l.Idle clientCut serverCut) :
    ∃ l', conversation lexicalCast serverSize clientSize srv ts l =
        .ok (srv.responses answer l.state (ts.map Turn.request)) l' ∧
      l'.running = ts.all (fun t => srv.m_isKeepalive && !t.request.close) := by
  induction ts generalizing l with
  | nil => exact ⟨l, rfl, h.running⟩
  | cons t ts ih =>
      rcases hreq t List.mem_cons_self with ⟨htrans, hfit⟩
      rcases hrsp l.state t List.mem_cons_self with ⟨hrtrans, hrhead⟩
      rcases turn_answered lexicalCast serverSize clientSize hcast clientCut serverCut hserver
        hclient srv answer hanswer t l h htrans hfit hrtrans hrhead hroom with
        ⟨l₁, hturn, hstate, hafter⟩
      by_cases hgo : (srv.m_isKeepalive && !t.request.close) = true
      · -- The round leaves what the next one starts from.
        rw [if_pos hgo] at hafter
        rcases ih (fun t' ht' => hreq t' (List.mem_cons_of_mem _ ht'))
          (fun st t' ht' => hrsp st t' (List.mem_cons_of_mem _ ht')) l₁ hafter with
          ⟨l', hrest, hrunning⟩
        refine ⟨l', ?_, ?_⟩
        · rw [conversation, bind_ok _ _ _ _ _ hturn, bind_ok _ _ _ _ _ hrest, hstate,
            List.map_cons, HttpServer.responses, if_pos hgo]
          rfl
        · rw [hrunning, List.all_cons, hgo, Bool.true_and]
      · rw [if_neg hgo] at hafter
        have hlens : ∀ t' ∈ ts, (t'.request.dump false).length < 2 ^ 64 := by
          intro t' ht'
          rcases hreq t' (List.mem_cons_of_mem _ ht') with ⟨htrans', hfit', -⟩
          have hshort := htrans'.body
          rw [HttpRequest.dump_eq _ (fun e he => (htrans'.names e he).1), List.length_append]
          omega
        rcases conversation_closed lexicalCast serverSize clientSize srv ts l₁ hafter hlens with
          ⟨l', hrest, hover⟩
        refine ⟨l', ?_, ?_⟩
        · rw [conversation, bind_ok _ _ _ _ _ hturn, bind_ok _ _ _ _ _ hrest, List.map_cons,
            HttpServer.responses, if_neg hgo, List.length_map]
          rfl
        · rw [hover.running, List.all_cons, Bool.eq_false_iff.2 hgo, Bool.false_and]

/-! ## A server that counts -/

/-- A servlet that says whether it has been asked before. -/
def counting (n : Nat) (_ : HttpRequest) (rsp : HttpResponse) : HttpResponse × Nat :=
  ({ rsp with body := ascii (if n = 0 then "first" else "again") }, n + 1)

/-- A server with this servlet only. -/
def countingServer : HttpServer Nat where
  m_isKeepalive := true
  m_name := ascii "yk/1.0.0"
  m_dispatch req rsp := fun st => .ok (counting st.2 req rsp).1 (st.1, (counting st.2 req rsp).2)

/-- What it answers. -/
def countingResponse (close : Bool) (n : Nat) : HttpResponse :=
  ⟨200, 0x11, close, false, ascii (if n = 0 then "first" else "again"), [],
    [(ascii "Server", ascii "yk/1.0.0")], []⟩

theorem transferable_counting (close : Bool) (n : Nat) :
    (countingResponse close n).Transferable where
  version := Or.inr rfl
  status := (by decide : (0 : Int) ≤ 200 ∧ (200 : Int) < 2 ^ 31)
  reason := HttpResponse.noLineByte _ rfl
  fields := by
    intro e he
    rw [countingResponse, List.mem_singleton] at he
    rw [he]
    exact ⟨by decide, List.all_eq_true.1 rfl, HttpResponse.noLineByte _ rfl,
      by rintro c ⟨rfl⟩; rfl, fun hno => absurd hno (by decide)⟩
  cookies := by
    intro c hc
    cases hc
  sorted := List.pairwise_singleton _ _
  length := by
    intro _ e he
    rw [countingResponse, List.mem_singleton] at he
    rw [he]
    decide
  body := by
    have hshort : (countingResponse close n).body.length ≤ 5 := by
      rw [countingResponse]
      by_cases hn : n = 0
      · rw [if_pos hn]
        exact Nat.le_refl 5
      · rw [if_neg hn]
        exact Nat.le_refl 5
    omega

/-- Every answer has a short header block. -/
theorem fits_counting (close : Bool) (n : Nat) :
    (countingResponse close n).head.length ≤ 1000 := by
  have hboth : ∀ c : Bool, (countingResponse c 0).head.length ≤ 1000 ∧
      (countingResponse c 1).head.length ≤ 1000 := by
    intro c
    cases c
    · exact ⟨Nat.le_of_ble_eq_true rfl, Nat.le_of_ble_eq_true rfl⟩
    · exact ⟨Nat.le_of_ble_eq_true rfl, Nat.le_of_ble_eq_true rfl⟩
  cases n with
  | zero => exact (hboth close).1
  | succ n => exact (hboth close).2

/-- A request for the last time. -/
def lastRequest : HttpRequest := { HttpSession.postRequest with close := true }

/-- A request, the last one, and one too many. -/
def countingTurns : List Turn :=
  [⟨HttpSession.postRequest, ⟨false, 0, fun _ => 0⟩, fun _ => 0⟩,
    ⟨lastRequest, ⟨false, 0, fun _ => 0⟩, fun _ => 0⟩,
    ⟨HttpSession.postRequest, ⟨false, 0, fun _ => 0⟩, fun _ => 0⟩]

theorem transferable_last : HttpRequest.Transferable false lastRequest where
  line := by
    rcases HttpSession.transferable_post.line with ⟨h₁, h₂, h₃, h₄, h₅, h₆⟩
    exact ⟨h₁, h₂, h₃, h₄, h₅, h₆⟩
  fields := HttpSession.transferable_post.fields
  names := HttpSession.transferable_post.names
  sorted := HttpSession.transferable_post.sorted
  body := HttpSession.transferable_post.body

theorem conversation_answered_counting :
    ∃ l', conversation HttpSession.decimal 4096 4096 countingServer countingTurns
        ⟨HttpSession.client (fun _ => 1000) [], HttpSession.client (fun _ => 1000) [], 0, true⟩ =
        .ok [some (countingResponse false 0).received, some (countingResponse true 1).received,
          none] l' ∧ l'.running = false := by
  have hpost : HttpSession.postRequest.head.length = 108 := rfl
  have hlast : lastRequest.head.length = 103 := rfl
  have hheads : HttpSession.postRequest.head.length ≤ 1000 ∧ lastRequest.head.length ≤ 1000 := by
    omega
  have hall := conversation_answered HttpSession.decimal 4096 4096 HttpSession.decimal_printed
    (by decide) (by decide) countingServer counting (fun _ _ _ _ => rfl) (fun _ => 1000)
    (fun _ => 1000) countingTurns
    (by
      intro t ht
      rw [countingTurns, List.mem_cons, List.mem_cons, List.mem_singleton] at ht
      rcases ht with rfl | rfl | rfl
      · exact ⟨HttpSession.transferable_post, hheads.1.trans (by decide), fun _ => hheads.1⟩
      · exact ⟨transferable_last, hheads.2.trans (by decide), fun _ => hheads.2⟩
      · exact ⟨HttpSession.transferable_post, hheads.1.trans (by decide), fun _ => hheads.1⟩)
    (by
      intro st t ht
      rw [countingTurns, List.mem_cons, List.mem_cons, List.mem_singleton] at ht
      rcases ht with rfl | rfl | rfl
      · exact ⟨transferable_counting false st, fun _ => fits_counting false st⟩
      · exact ⟨transferable_counting true st, fun _ => fits_counting true st⟩
      · exact ⟨transferable_counting false st, fun _ => fits_counting false st⟩)
    (fun _ => by decide)
    ⟨HttpSession.client (fun _ => 1000) [], HttpSession.client (fun _ => 1000) [], 0, true⟩
    ⟨rfl, ⟨rfl, rfl⟩, ⟨rfl, rfl⟩, rfl, rfl, rfl, rfl⟩
  exact hall

end Link

end YkServer
