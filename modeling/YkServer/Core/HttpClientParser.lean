import YkServer.Core.HttpResponse
import YkServer.Core.Uri

/-!
# Parsing HTTP Responses

The model of `http/httpclient_parser.rl`, of the callbacks and of `HttpResponseParser` in
`http/http_parser.cc`, and of `HttpResponse` in `http/http.cc`.

The machine is one for responses and for the header of a chunk. Here the control characters
are no characters of a token, and the guard of `fields` covers the blanks in front of a value.
It does not cover those of the three headers that the machine knows by name, and a blank can
be a line end: if such a header has no value, the machine looks for the value in the lines
behind it, besides going on with them.

An action that several alternatives have on one transition is executed there once. The
actions that set `content_len`, `close`, `chunked`, `chunks_done`, `status` and `body_start`
are left out, since no part of the program reads these fields, and so are the callbacks
without a body.

There are final states that the machine can leave, because it is still looking for a value.
`httpclient_parser_is_finished` compares with the first final state only, and that is the one
without transitions.

## Main definitions

* `HttpResponse`, `HttpResponse.dump`: Responses and how they are printed.
* `HttpClientParser.main`: The machine.
* `HttpResponseParser`, `HttpResponseParser.perform`: The parser and the actions.
* `HttpResponseParser.exec`: The loop over the bytes.
* `HttpResponseParser.responseParser`: The parser that `recvResponse` uses.
-/

namespace YkServer

open Lib Lib.Ragel

/-! ## Responses -/

/-- `HTTP_STATUS_MAP`. -/
def httpStatusMap : List (Int × List UInt8) :=
  [(100, ascii "Continue"), (101, ascii "Switching Protocols"), (102, ascii "Processing"),
    (200, ascii "OK"), (201, ascii "Created"), (202, ascii "Accepted"),
    (203, ascii "Non-Authoritative Information"), (204, ascii "No Content"),
    (205, ascii "Reset Content"), (206, ascii "Partial Content"), (207, ascii "Multi-Status"),
    (208, ascii "Already Reported"), (226, ascii "IM Used"), (300, ascii "Multiple Choices"),
    (301, ascii "Moved Permanently"), (302, ascii "Found"), (303, ascii "See Other"),
    (304, ascii "Not Modified"), (305, ascii "Use Proxy"), (307, ascii "Temporary Redirect"),
    (308, ascii "Permanent Redirect"), (400, ascii "Bad Request"), (401, ascii "Unauthorized"),
    (402, ascii "Payment Required"), (403, ascii "Forbidden"), (404, ascii "Not Found"),
    (405, ascii "Method Not Allowed"), (406, ascii "Not Acceptable"),
    (407, ascii "Proxy Authentication Required"), (408, ascii "Request Timeout"),
    (409, ascii "Conflict"), (410, ascii "Gone"), (411, ascii "Length Required"),
    (412, ascii "Precondition Failed"), (413, ascii "Payload Too Large"),
    (414, ascii "URI Too Long"), (415, ascii "Unsupported Media Type"),
    (416, ascii "Range Not Satisfiable"), (417, ascii "Expectation Failed"),
    (421, ascii "Misdirected Request"), (422, ascii "Unprocessable Entity"), (423, ascii "Locked"),
    (424, ascii "Failed Dependency"), (426, ascii "Upgrade Required"),
    (428, ascii "Precondition Required"), (429, ascii "Too Many Requests"),
    (431, ascii "Request Header Fields Too Large"), (451, ascii "Unavailable For Legal Reasons"),
    (500, ascii "Internal Server Error"), (501, ascii "Not Implemented"),
    (502, ascii "Bad Gateway"), (503, ascii "Service Unavailable"), (504, ascii "Gateway Timeout"),
    (505, ascii "HTTP Version Not Supported"), (506, ascii "Variant Also Negotiates"),
    (507, ascii "Insufficient Storage"), (508, ascii "Loop Detected"), (510, ascii "Not Extended"),
    (511, ascii "Network Authentication Required")]

/-- `HttpStatusToString`. -/
def httpStatusToString (s : Int) : List UInt8 :=
  match httpStatusMap.find? (fun e => e.1 == s) with
  | some e => e.2
  | none => ascii "<unknown>"

/-- `HttpResponse`. The status is an `int`, of which the enumeration names some. -/
structure HttpResponse where
  status : Int
  version : UInt8
  close : Bool
  websocket : Bool
  body : List UInt8
  reason : List UInt8
  headers : HeaderMap
  cookies : List (List UInt8)
  deriving DecidableEq, Repr

namespace HttpResponse

/-- The constructor. -/
def new (version : UInt8) (close : Bool) : HttpResponse :=
  ⟨200, version, close, false, [], [], [], []⟩

def setHeader (key val : List UInt8) (r : HttpResponse) : HttpResponse :=
  { r with headers := r.headers.set key val }

/-- `getHeader(key)`. -/
def getHeader (key : List UInt8) (r : HttpResponse) : List UInt8 := (r.headers.find key).getD []

/-- The reason that is printed. -/
def shownReason (r : HttpResponse) : List UInt8 :=
  if r.reason = [] then httpStatusToString r.status else r.reason

/-- `dump`. -/
def dump (r : HttpResponse) : List UInt8 :=
  ascii "HTTP/"
    ++ printed (r.version >>> 4).toNat
    ++ ascii "."
    ++ printed (r.version &&& 0x0F).toNat
    ++ ascii " "
    -- `(uint32_t)m_status`
    ++ printed (r.status % 2 ^ 32).toNat
    ++ ascii " "
    ++ r.shownReason
    ++ ascii "\r\n"
    ++ (r.headers.filter (fun e => r.websocket || folded e.1 ≠ folded (ascii "connection"))).flatMap
      (fun e => HttpRequest.printHeader e.1 e.2)
    ++ r.cookies.flatMap (fun i => HttpRequest.printHeader (ascii "Set-Cookie") i)
    ++ (if r.websocket then []
      else HttpRequest.printHeader (ascii "connection")
        (ascii (if r.close then "close" else "keep-alive")))
    ++ if r.body ≠ [] then
        HttpRequest.printHeader (ascii "content-length") (printed r.body.length) ++ ascii "\r\n"
          ++ r.body
      else ascii "\r\n"

end HttpResponse

/-! ## The machine -/

namespace HttpClientParser

/-- The actions of the machine. -/
inductive Action where
  | mark
  | startField
  | writeField
  | startValue
  | writeValue
  | reasonPhrase
  | statusCode
  | httpVersion
  | done
  deriving DecidableEq, Repr

/-- Expressions over bytes. -/
abbrev Rule := Machine UInt8 Action

open Machine
open HttpParser (digit xdigit isAscii space oneOf)

/-- A text. -/
def text (s : String) : Rule := (ascii s).foldr (fun c m => seq (chars (· == c)) m) null

/-- `/.../i`, a text in any case. -/
def textCI (s : String) : Rule :=
  (ascii s).foldr (fun c m => seq (chars (fun b => toLower b == toLower c)) m) null

def CRLF : Rule := alt (text "\r\n") (text "\n")

/-- `(cntrl | 127)`. -/
def ctl : UInt8 → Bool := fun c => c.toNat < 32 || c == 127

def tspecials : UInt8 → Bool := fun c =>
  oneOf "()<>@,;:\\\"/[]?= \t" c || c == 123 || c == 125

def token : UInt8 → Bool := fun c => isAscii c && !(ctl c || tspecials c)

/-! ### Status lines -/

/-- `(any -- CRLF)+`. -/
def reasonPhrase : Rule := leave .reasonPhrase (enter .mark (plus (chars (fun c => !(c == 10)))))

def statusCode : Rule := leave .statusCode (enter .mark (plus (chars digit)))

def httpNumber : Rule := seq (plus (chars digit)) (seq (text ".") (plus (chars digit)))

def httpVersion : Rule := leave .httpVersion (enter .mark (seq (text "HTTP/") httpNumber))

def statusLine : Rule :=
  entryGuard (seq httpVersion (seq (text " ") (seq statusCode (seq (text " ") reasonPhrase)))) CRLF

/-! ### Headers -/

def fieldName : Rule := leave .writeField (enter .startField (plus (chars token)))

def fieldValue : Rule := leave .writeValue (enter .startValue (star (chars (fun _ => true))))

/-- `space*`. -/
def blanks : Rule := star (chars space)

/-- A name, the blanks behind the colon, and a value. -/
def nameValue (name value : Rule) : Rule := seq name (seq (text ":") (seq blanks value))

def fields : Rule := entryGuard (nameValue fieldName fieldValue) CRLF

def contentLength : Rule :=
  seq (nameValue (leave .writeField (enter .startField (textCI "Content-Length")))
    (leave .writeValue (enter .startValue (plus (chars digit))))) CRLF

def connClose : Rule := seq (nameValue (textCI "Connection") (textCI "close")) CRLF

def transferEncodingChunked : Rule :=
  seq (nameValue (leave .writeField (enter .startField (textCI "Transfer-Encoding")))
    (leave .writeValue (enter .startValue (textCI "chunked")))) CRLF

def messageHeader : Rule :=
  alt transferEncodingChunked (alt connClose (alt contentLength fields))

/-- A response behind the status line. -/
def headers : Rule := seq (star messageHeader) CRLF

def response : Rule := seq statusLine headers

/-! ### Chunks -/

def chunkExtName : Rule :=
  leave .startValue (leave .writeField (enter .startField (plus (chars token))))

def chunkExtension : Rule :=
  star (seq (text ";") (seq chunkExtName
    (leave .writeValue (opt (seq (text "=") (enter .startValue (plus (chars token))))))))

def chunkedHeader : Rule :=
  entryGuard (seq (enter .mark (plus (chars xdigit))) chunkExtension) CRLF

/-- The machine. -/
def main : Rule := finish .done (alt response chunkedHeader)

/-! ### States -/

/-- A state of the machine: at the start, or some live positions. -/
structure Cs where
  entered : Bool
  live : Live
  deriving DecidableEq, Repr

namespace Cs

/-- `httpclient_parser_start`. -/
def start : Cs := ⟨true, .idle⟩

def step (cs : Cs) (c : UInt8) : Cs := ⟨false, shift main cs.entered cs.live (some c)⟩

/-- The actions of a transition. -/
def actions (cs : Cs) (c : UInt8) : List Action :=
  (fires main cs.entered false cs.live (some c)).eraseDups

/-- `httpclient_parser_error`. -/
def error (cs : Cs) : Bool := !cs.entered && cs.live == .idle

/-- `httpclient_parser_first_final`: the final state without transitions. -/
def firstFinal (cs : Cs) : Bool :=
  final main cs.live && (List.range 256).all (fun c => (cs.step (UInt8.ofNat c)).error)

end Cs

end HttpClientParser

/-! ## The parser -/

/-- `HttpResponseParser` with the fields of `httpclient_parser`. -/
structure HttpResponseParser where
  cs : HttpClientParser.Cs
  mark : Nat
  fieldStart : Nat
  fieldLen : Nat
  error : Nat
  data : HttpResponse
  deriving DecidableEq, Repr

namespace HttpResponseParser

open HttpClientParser

/-- `new HttpResponseParser`. -/
def new : HttpResponseParser := ⟨.start, 0, 0, 0, 0, .new 0x11 true⟩

/-- `std::string(buffer + at, length)`. -/
def stringAt (buffer : List UInt8) (pos length : Nat) :
    Prog Exn HttpResponseParser (List UInt8) :=
  if ByteArray.maxStringSize < length then Prog.raise .lengthError
  else if buffer.length < pos + length then Prog.undef
  else pure ((buffer.drop pos).take length)

def setError (v : Nat) : Prog Exn HttpResponseParser Unit :=
  Prog.modify (fun q => { q with error := v })

/-- Change the response. -/
def setData (f : HttpResponse → HttpResponse) : Prog Exn HttpResponseParser Unit :=
  Prog.modify (fun q => { q with data := f q.data })

/-- `on_response_status`. -/
def onResponseStatus (buffer : List UInt8) (pos : Nat) : Prog Exn HttpResponseParser Unit :=
  match atoi (buffer.drop pos) with
  | none => Prog.undef
  | some status => setData (fun r => { r with status := status })

/-- `on_response_version`. -/
def onResponseVersion (buffer : List UInt8) (pos length : Nat) :
    Prog Exn HttpResponseParser Unit :=
  match strncmpEq length (buffer.drop pos) (ascii "HTTP/1.1") with
  | none => Prog.undef
  | some true => setData (fun r => { r with version := 0x11 })
  | some false =>
    match strncmpEq length (buffer.drop pos) (ascii "HTTP/1.0") with
    | none => Prog.undef
    | some true => setData (fun r => { r with version := 0x10 })
    | some false => setError 1001

/-- `on_response_http_field`. -/
def onResponseHttpField (buffer : List UInt8) (field flen value vlen : Nat) :
    Prog Exn HttpResponseParser Unit :=
  if flen = 0 then pure ()
  else do
    let key ← stringAt buffer field flen
    let val ← stringAt buffer value vlen
    setData (HttpResponse.setHeader key val)

/-- An action at the position `p` of the buffer. -/
def perform (buffer : List UInt8) (p : Nat) : Action → Prog Exn HttpResponseParser Unit
  | .mark => Prog.modify (fun q => { q with mark := p })
  | .startField => Prog.modify (fun q => { q with fieldStart := p })
  | .writeField => Prog.modify (fun q => { q with fieldLen := subWord p q.fieldStart })
  | .startValue => Prog.modify (fun q => { q with mark := p })
  | .writeValue => do
    let q ← Prog.get
    onResponseHttpField buffer q.fieldStart q.fieldLen q.mark (subWord p q.mark)
  | .reasonPhrase => do
    let q ← Prog.get
    let s ← stringAt buffer q.mark (subWord p q.mark)
    setData (fun r => { r with reason := s })
  | .statusCode => do
    let q ← Prog.get
    onResponseStatus buffer q.mark
  | .httpVersion => do
    let q ← Prog.get
    onResponseVersion buffer q.mark (subWord p q.mark)
  | .done => pure ()

/-- The actions of a transition, in order. -/
def performAll (buffer : List UInt8) (p : Nat) : List Action → Prog Exn HttpResponseParser Unit
  | [] => pure ()
  | a :: as => do
    perform buffer p a
    performAll buffer p as

/-- The loop over the bytes from the position `p` on. It returns the position where it stops. -/
def exec (buffer : List UInt8) : List UInt8 → Nat → Prog Exn HttpResponseParser Nat
  | [], p => pure p
  | c :: rest, p => do
    let q ← Prog.get
    -- No action is executed on a transition into the error state.
    if (q.cs.step c).error then do
      Prog.modify (fun q => { q with cs := q.cs.step c })
      pure p
    else do
      performAll buffer p (q.cs.actions c)
      Prog.modify (fun q => { q with cs := q.cs.step c })
      -- `fbreak` ends the loop behind the byte.
      if Action.done ∈ q.cs.actions c then pure (p + 1)
      else exec buffer rest (p + 1)

/-- What a call sets to zero. -/
def reset (q : HttpResponseParser) : HttpResponseParser :=
  { q with mark := 0, fieldStart := 0, fieldLen := 0 }

/-- `httpclient_parser_execute` of the first `len` bytes of a buffer. An assertion that fails
    ends the program. -/
def httpclientParserExecute (buffer : List UInt8) (len : Nat) : Prog Exn HttpResponseParser Nat :=
  -- `assert(*pe == '\0')`
  if buffer[len]? ≠ some 0 then Prog.undef
  else do
    Prog.modify reset
    let n ← exec buffer (buffer.take len) 0
    let q ← Prog.get
    -- The three `check`s; -1 is a `size_t` of the caller.
    if q.mark < len ∧ q.fieldLen ≤ len ∧ q.fieldStart < len then pure n
    else pure (2 ^ 64 - 1)

/-- `hasError`. -/
def hasError (q : HttpResponseParser) : Bool := q.error ≠ 0 || q.cs.error

/-- `isFinished`, of a parser without an error. -/
def isFinished (q : HttpResponseParser) : Bool := q.cs.firstFinal

/-- `getContentLength`. The conversion of a string to a number is that of
    `boost::lexical_cast`. -/
def getContentLength (lexicalCast : List UInt8 → Option UInt64) (q : HttpResponseParser) :
    UInt64 :=
  match q.data.headers.find (ascii "content-length") with
  | none => 0
  | some s => (lexicalCast s).getD 0

/-- The parser that `recvResponse` uses. What a call that does not return would leave is of no
    interest, and a call takes no more than it is given, except that -1 is the result for an
    empty buffer, which `recvResponse` does not parse. -/
def responseParser (lexicalCast : List UInt8 → Option UInt64) :
    ResponseParser HttpResponseParser where
  run buffer len q :=
    match httpclientParserExecute buffer len q with
    | .ok n q' => (min n len, q')
    | _ => (0, q)
  run_le buffer len q := by
    split
    · exact Nat.min_le_right _ _
    · exact Nat.zero_le _
  hasError := hasError
  isFinished := isFinished
  getContentLength := getContentLength lexicalCast
  setBody body q := { q with data := { q.data with body := body } }

end HttpResponseParser

namespace HttpSession

/-- `sendResponse`. -/
def sendResponse (rsp : HttpResponse) : Prog Exn Socket Int :=
  let data := rsp.dump
  Stream.writeFixSize (SocketStream.write data) (data.length + 1) data.length

end HttpSession

end YkServer
