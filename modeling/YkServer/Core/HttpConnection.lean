import YkServer.Core.HttpParser
import YkServer.Core.Socket

/-!
# Sending HTTP Requests

The model of `HttpConnection::sendRequest` in `http/http_connection.cc` and of the
parts of `http/http.cc` it uses.

A request is printed into a string, which is then written as a whole. Two headers
do not come from the map: `connection` says whether the connection is closed
afterwards, and a header of the map with that name is skipped; `content-length` is
there if there is a body. The flag `m_websocket` decides about the former. No other
modelled function reads it, so it is an argument.

## Main definitions

* `httpMethodToString`: The names of the methods.
* `HttpRequest.dump`: The printed request.
* `HttpConnection.sendRequest`: The function.
-/

namespace YkServer

open Lib

/-- `HttpMethodToString`. The table has the methods in the order of the enumeration. -/
def httpMethodToString (m : HttpMethod) : List UInt8 :=
  match httpMethodMap.find? (fun e => e.1 = m) with
  | some e => e.2
  | none => ascii "<unknown>"

/-- What a stream prints for an unsigned number. -/
def printed (n : Nat) : List UInt8 := ascii (toString n)

namespace HttpRequest

/-- A header as it is printed. -/
def printHeader (key val : List UInt8) : List UInt8 := key ++ ascii ": " ++ val ++ ascii "\r\n"

/-- `dump`. -/
def dump (websocket : Bool) (r : HttpRequest) : List UInt8 :=
  httpMethodToString r.method ++ ascii " "
    ++ r.path
    ++ (if r.query = [] then [] else ascii "?")
    ++ r.query
    ++ (if r.fragment = [] then [] else ascii "#")
    ++ r.fragment
    ++ ascii " HTTP/"
    ++ printed (r.version >>> 4).toNat
    ++ ascii "."
    ++ printed (r.version &&& 0x0F).toNat
    ++ ascii "\r\n"
    ++ (if websocket then []
      else printHeader (ascii "connection") (ascii (if r.close then "close" else "keep-alive")))
    -- `strcasecmp(i.first.c_str(), "connection") == 0` is skipped.
    ++ (r.headers.filter (fun e => websocket || folded e.1 ≠ folded (ascii "connection"))).flatMap
      (fun e => printHeader e.1 e.2)
    ++ if r.body ≠ [] then
        printHeader (ascii "content-length") (printed r.body.length) ++ ascii "\r\n" ++ r.body
      else ascii "\r\n"

end HttpRequest

namespace HttpConnection

/-- `sendRequest`. Every call of `write` sends a byte or ends the loop, so as many
    rounds as there are bytes, and one, are enough. -/
def sendRequest (websocket : Bool) (req : HttpRequest) : Prog Exn Socket Int :=
  let data := req.dump websocket
  Stream.writeFixSize (SocketStream.write data) (data.length + 1) data.length

end HttpConnection

end YkServer
