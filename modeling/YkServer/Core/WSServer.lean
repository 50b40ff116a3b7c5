import YkServer.Core.HttpServer
import YkServer.Core.Uri
import YkServer.Core.Util
import YkServer.Core.WebSocket

/-!
# WebSocket Connections and the Server

The model of `WSSession::handleShake` in `http/ws_session.cc`, of `WSConnection::Create` in
`http/ws_connection.cc`, of `WSServer::handleClient` in `http/ws_server.cc` and of
`WSServletDispatch::getWSServlet` in `http/ws_servlet.cc`.

`Create` is modelled from the point on where the socket is connected. It sends a request and
waits for the response, and these are two programs here, so that the server can come in between.
The key is the string that `random_string` makes, the address and what `errno` says are what they
are in the texts of the errors.

SHA-1 is a function of a library and an argument, and so is the conversion of a string to an
`int`. What a servlet does is an argument too; it is given the session.

## Main definitions

* `HttpResult`: The result of a request.
* `WSConnection.request`: The request of the handshake.
* `WSConnection.sendShake`, `WSConnection.recvShake`, `WSConnection.Create`: The client.
* `WSSession.handleShake`: The server's side of the handshake.
* `WSServer.handleClient`: The function.
-/

namespace YkServer

open Lib

/-- `HttpResult`. -/
structure HttpResult where
  result : Int
  response : Option HttpResponse
  error : List UInt8
  deriving DecidableEq, Repr

/-- `HttpResult::Error`, as far as it is used here. -/
inductive HttpError where
  | OK | SEND_CLOSE_BY_PEER | SEND_SOCKET_ERROR | TIMEOUT
  deriving DecidableEq, Repr

def HttpError.code : HttpError → Int
  | .OK => 0
  | .SEND_CLOSE_BY_PEER => 4
  | .SEND_SOCKET_ERROR => 5
  | .TIMEOUT => 6

/-! ## The client -/

namespace WSConnection

/-- What the loop over the headers of the caller has set. -/
structure Given where
  hasHost : Bool
  hasConn : Bool
  req : HttpRequest
  deriving DecidableEq, Repr

/-- A round of the loop. -/
def giveHeader (g : Given) (i : List UInt8 × List UInt8) : Given where
  hasConn := g.hasConn || folded i.1 = folded (ascii "connection")
  hasHost :=
    if folded i.1 = folded (ascii "connection") then g.hasHost
    else if g.hasHost = false ∧ folded i.1 = folded (ascii "host") then i.2 ≠ []
    else g.hasHost
  req := g.req.setHeader i.1 i.2

/-- The request that is sent. `key` is what `random_string(16)` returns. -/
def request (uri : Uri) (headers : List (List UInt8 × List UInt8)) (key : List UInt8) :
    HttpRequest :=
  let req : HttpRequest :=
    { HttpRequest.new with
      path := uri.getPath, query := uri.m_query, fragment := uri.m_fragment, method := .GET }
  let g := headers.foldl giveHeader ⟨false, false, req⟩
  let req := if g.hasConn then g.req else g.req.setHeader (ascii "connection") (ascii "Upgrade")
  let req := req.setHeader (ascii "Upgrade") (ascii "websocket")
  let req := req.setHeader (ascii "Sec-webSocket-Version") (ascii "13")
  let req := req.setHeader (ascii "Sec-webSocket-Key") (base64encode key)
  if g.hasHost then req else req.setHeader (ascii "Host") uri.m_host

variable (addr errno : List UInt8)

/-- Send the request; a result if that fails. -/
def sendShake (req : HttpRequest) : Prog Exn Socket (Option HttpResult) := do
  let rt ← HttpConnection.sendRequest true req
  if rt = 0 then
    pure (some ⟨HttpError.SEND_CLOSE_BY_PEER.code, none,
      ascii "send request closed by peer: " ++ addr⟩)
  else if rt < 0 then
    pure (some ⟨HttpError.SEND_SOCKET_ERROR.code, none,
      ascii "send request socket error errno=" ++ errno⟩)
  else pure none

variable (lexicalCast : List UInt8 → Option UInt64) (buffSize : Nat) (buffer : Nat → UInt8)
  (timeoutMs : Nat)

/-- Receive the response. The result says whether there is a connection. -/
def recvShake : Prog Exn Socket (HttpResult × Bool) := do
  match ← HttpConnection.recvResponse (HttpResponseParser.responseParser lexicalCast) buffSize
    buffer .new with
  | none =>
    pure (⟨HttpError.TIMEOUT.code, none, ascii "recv response timeout: " ++ addr ++
      ascii " timeout_ms:" ++ printed timeoutMs⟩, false)
  | some q =>
    -- `SWITCHING_PROTOCOLS`
    if q.data.status ≠ 101 then
      pure (⟨50, some q.data, ascii "not websocket server " ++ addr⟩, false)
    else pure (⟨HttpError.OK.code, some q.data, ascii "ok"⟩, true)

/-- `Create`, on a connected socket. -/
def Create (uri : Uri) (headers : List (List UInt8 × List UInt8)) (key : List UInt8) :
    Prog Exn Socket (HttpResult × Bool) := do
  match ← sendShake addr errno (request uri headers key) with
  | some r => pure (r, false)
  | none => recvShake addr lexicalCast buffSize buffer timeoutMs

end WSConnection

/-! ## The server -/

namespace WSSession

variable (sha1sum : List UInt8 → List UInt8) (intCast : List UInt8 → Option Int)
  (lexicalCast : List UInt8 → Option UInt64) (buffSize : Nat)

/-- `getHeaderAs<int>(key)`. -/
def getHeaderAsInt (key : List UInt8) (req : HttpRequest) : Int :=
  match req.headers.find key with
  | none => 0
  | some s => (intCast s).getD 0

/-- `Sec-WebSocket-Accept`. -/
def accept (key : List UInt8) : List UInt8 :=
  base64encode (sha1sum (key ++ ascii "258EAFA5-E914-47DA-95CA-C5AB0DC85B11"))

/-- The response to a request. -/
def response (req : HttpRequest) : HttpResponse :=
  let rsp := HttpResponse.new req.version req.close
  let rsp : HttpResponse :=
    { rsp with status := 101, websocket := true, reason := ascii "Web Socket Protocol Handshake" }
  let rsp := rsp.setHeader (ascii "Upgrade") (ascii "websocket")
  let rsp := rsp.setHeader (ascii "Connection") (ascii "Upgrade")
  rsp.setHeader (ascii "Sec-WebSocket-Accept")
    (accept sha1sum (req.getHeader (ascii "Sec-WebSocket-Key")))

/-- `handleShake`. -/
def handleShake (m : HttpSession.Memory) : Prog Exn Socket (Option HttpRequest) := do
  match ← HttpSession.recvRequest lexicalCast buffSize m with
  | none => pure none
  | some req =>
    if folded (req.getHeader (ascii "Upgrade")) ≠ folded (ascii "websocket") then pure none
    else if folded (req.getHeader (ascii "Connection")) ≠ folded (ascii "Upgrade") then pure none
    else if getHeaderAsInt intCast (ascii "Sec-webSocket-Version") req ≠ 13 then pure none
    else if req.getHeader (ascii "Sec-WebSocket-Key") = [] then pure none
    else do
      let _ ← HttpSession.sendResponse (response sha1sum req)
      pure (some req)

end WSSession

/-- `WSServlet`. The callbacks get the session, and share `τ`. -/
structure WSServlet (τ : Type) where
  onConnect : HttpRequest → Prog Exn (Socket × τ) Int
  handle : HttpRequest → WSFrameMessage → Prog Exn (Socket × τ) Int
  onClose : HttpRequest → Prog Exn (Socket × τ) Int

namespace ServletDispatch

variable {ω κ σ : Type}

/-- `getWSServlet`: the matched servlet, if it is a `WSServlet`. -/
def getWSServlet (fnmatch : List UInt8 → List UInt8 → Nat → Int) (cast : σ → Option (WSServlet ω))
    (d : ServletDispatch ω κ σ) (uri : List UInt8) (w : ω) : Option (WSServlet ω) × ω :=
  match getMatchedServlet fnmatch d uri w with
  | (some (.other slt), w) => (cast slt, w)
  | (_, w) => (none, w)

end ServletDispatch

namespace WSServer

variable {τ : Type} (maxSize : UInt32)

/-- The loop over the messages. Every message takes a byte off the stream, so as many rounds as
    there are bytes, and one, are enough if no servlet reads ahead. -/
def messages (servlet : WSServlet τ) (header : HttpRequest) : Nat → Prog Exn (Socket × τ) Unit
  | 0 => fun _ => .hang
  | fuel + 1 => do
    match ← Prog.first (WebSocket.WSRecvMessage maxSize false) with
    | none => pure ()
    | some msg =>
      let rt ← servlet.handle header msg
      if rt ≠ 0 then pure () else messages servlet header fuel

/-- What happens behind the handshake, up to `close()`. `getWSServlet` is a lookup in the
    dispatcher. -/
def serve (getWSServlet : List UInt8 → τ → Option (WSServlet τ) × τ) (fuel : Nat)
    (header : HttpRequest) : Prog Exn (Socket × τ) Unit := do
  let (_, t) ← Prog.get
  Prog.modify (fun st => (st.1, (getWSServlet header.path st.2).2))
  match (getWSServlet header.path t).1 with
  | none => pure ()
  | some servlet => do
    let rt ← servlet.onConnect header
    if rt ≠ 0 then pure ()
    else do
      messages maxSize servlet header fuel
      let _ ← servlet.onClose header
      pure ()

/-- `handleClient`. -/
def handleClient (sha1sum : List UInt8 → List UInt8) (intCast : List UInt8 → Option Int)
    (lexicalCast : List UInt8 → Option UInt64) (buffSize : Nat) (m : HttpSession.Memory)
    (getWSServlet : List UInt8 → τ → Option (WSServlet τ) × τ) (fuel : Nat) :
    Prog Exn (Socket × τ) Unit := do
  match ← Prog.first (WSSession.handleShake sha1sum intCast lexicalCast buffSize m) with
  | none => Prog.first HttpSession.close
  | some header => do
    serve maxSize getWSServlet fuel header
    Prog.first HttpSession.close

end WSServer

end YkServer
