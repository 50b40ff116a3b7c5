import YkServer.Core.HttpClientParser
import YkServer.Core.HttpServlet

/-!
# The HTTP Server

The model of `HttpServer::handleClient` in `http/http_server.cc` and of
`ServletDispatch::handle` in `http/http_servlet.cc`.

A client is served by a loop: a request is received, a new response is handed to the
dispatcher together with the request, and what comes of it is sent. The loop goes on as long
as the server keeps connections and the request wants it to. What a servlet does is an argument;
it is given the session, so it can do anything to the socket. `τ` is what the servlets share.

Every request takes a byte off the stream, so as many rounds as there are bytes, and one, are
enough if no servlet reads ahead.

## Main definitions

* `ServletDispatch.handle`: The dispatcher.
* `HttpServer.handleRound`: The body of the loop.
* `HttpServer.handleStep`: The same, with what follows the loop.
* `HttpServer.handleClient`: The function.
-/

namespace YkServer

open Lib

/-- What a servlet does with a request, the response and the session. -/
abbrev Handler (τ : Type) := HttpRequest → HttpResponse → Prog Exn (Socket × τ) HttpResponse

namespace ServletDispatch

variable {ω κ σ : Type}

/-- `handle`. Without a servlet the response stays as it is. -/
def handle (fnmatch : List UInt8 → List UInt8 → Nat → Int) (serve : Servlet κ σ → Handler ω)
    (d : ServletDispatch ω κ σ) : Handler ω := fun request response st =>
  match getMatchedServlet fnmatch d request.path st.2 with
  | (none, w) => .ok response (st.1, w)
  | (some slt, w) => serve slt request response (st.1, w)

end ServletDispatch

/-- `HttpServer`, with the name that `TcpServer` has. -/
structure HttpServer (τ : Type) where
  m_isKeepalive : Bool
  m_name : List UInt8
  m_dispatch : Handler τ

namespace HttpServer

variable {τ : Type} (lexicalCast : List UInt8 → Option UInt64) (buffSize : Nat)

/-- The response that the dispatcher is given. -/
def fresh (srv : HttpServer τ) (req : HttpRequest) : HttpResponse :=
  (HttpResponse.new req.version (req.close || !srv.m_isKeepalive)).setHeader (ascii "Server")
    srv.m_name

/-- The body of the loop. It returns whether the loop goes on. -/
def handleRound (srv : HttpServer τ) (m : HttpSession.Memory) : Prog Exn (Socket × τ) Bool := do
  match ← Prog.first (HttpSession.recvRequest lexicalCast buffSize m) with
  | none => pure false
  | some req =>
    let rsp ← srv.m_dispatch req (srv.fresh req)
    -- The result is not looked at.
    let _ ← Prog.first (HttpSession.sendResponse rsp)
    pure (srv.m_isKeepalive && !req.close)

/-- A round, and `close()` if it is the last. -/
def handleStep (srv : HttpServer τ) (m : HttpSession.Memory) : Prog Exn (Socket × τ) Bool := do
  if ← handleRound lexicalCast buffSize srv m then pure true
  else do
    Prog.first HttpSession.close
    pure false

/-- `handleClient`, with what the objects of every round find in their memory. -/
def handleClient (srv : HttpServer τ) (memory : Nat → HttpSession.Memory) :
    Nat → Nat → Prog Exn (Socket × τ) Unit
  | 0, _ => fun _ => .hang
  | fuel + 1, i => do
    if ← handleStep lexicalCast buffSize srv (memory i) then
      handleClient srv memory fuel (i + 1)
    else pure ()

end HttpServer

end YkServer
