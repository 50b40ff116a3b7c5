import YkServer.Core.HttpGrammar
import YkServer.Core.ByteArray
import YkServer.Core.Util
import YkServer.Lib.Word

/-!
# Parsing HTTP Requests

The model of `http_parser_execute` in `http/http11_parser.rl` with the actions of
the machine, of the callbacks and of `HttpRequestParser` in `http/http_parser.cc`,
and of the parts of `http/http.cc` they use.

The machine is run over the bytes of a buffer. Its actions note positions in the
buffer, the fields `mark`, `field_start`, `field_len` and `query_start`, and pass
the bytes between a noted position and the current one to a callback. Each call
starts with three of these fields set to zero, while the state of the machine is
kept. A length is a difference of words, and a string of a length that is
negative as a difference is a `std::length_error`. Reading past the buffer is
undefined behaviour.

`xml_sent`, `json_sent`, `body_start` and `content_len` are left out, as no part
of the program reads them, and so are the assertions, which do not fail.
`query_start` and `uri_relaxed` are not initialised.

## Main definitions

* `charsToHttpMethod`, `stringToHttpMethod`: A method at the front of some bytes, and as a string.
* `HttpRequest`, `HttpRequestParser`: The data.
* `HttpRequest.setHeader`, `HttpRequest.getHeader`: A map whose keys are compared
  without case.
* `HttpRequestParser.perform`: The actions.
* `HttpRequestParser.exec`: The loop over the bytes.
* `HttpRequestParser.execute`: One call, which moves what has not been parsed to
  the front of the buffer.
-/

namespace YkServer

open Lib Lib.Ragel

inductive HttpMethod where
  | DELETE | GET | HEAD | POST | PUT | CONNECT | OPTIONS | TRACE | COPY | LOCK | MKCOL | MOVE
  | PROPFIND | PROPPATCH | SEARCH | UNLOCK | BIND | REBIND | UNBIND | ACL | REPORT | MKACTIVITY
  | CHECKOUT | MERGE | MSEARCH | NOTIFY | SUBSCRIBE | UNSUBSCRIBE | PATCH | PURGE | MKCALENDAR
  | LINK | UNLINK | SOURCE | INVALID_METHOD
  deriving DecidableEq, Repr

/-- `HTTP_METHOD_MAP`. -/
def httpMethodMap : List (HttpMethod × List UInt8) :=
  [(.DELETE, ascii "DELETE"), (.GET, ascii "GET"), (.HEAD, ascii "HEAD"), (.POST, ascii "POST"),
    (.PUT, ascii "PUT"), (.CONNECT, ascii "CONNECT"), (.OPTIONS, ascii "OPTIONS"),
    (.TRACE, ascii "TRACE"), (.COPY, ascii "COPY"), (.LOCK, ascii "LOCK"),
    (.MKCOL, ascii "MKCOL"), (.MOVE, ascii "MOVE"), (.PROPFIND, ascii "PROPFIND"),
    (.PROPPATCH, ascii "PROPPATCH"), (.SEARCH, ascii "SEARCH"), (.UNLOCK, ascii "UNLOCK"),
    (.BIND, ascii "BIND"), (.REBIND, ascii "REBIND"), (.UNBIND, ascii "UNBIND"),
    (.ACL, ascii "ACL"), (.REPORT, ascii "REPORT"), (.MKACTIVITY, ascii "MKACTIVITY"),
    (.CHECKOUT, ascii "CHECKOUT"), (.MERGE, ascii "MERGE"), (.MSEARCH, ascii "M-SEARCH"),
    (.NOTIFY, ascii "NOTIFY"), (.SUBSCRIBE, ascii "SUBSCRIBE"),
    (.UNSUBSCRIBE, ascii "UNSUBSCRIBE"), (.PATCH, ascii "PATCH"), (.PURGE, ascii "PURGE"),
    (.MKCALENDAR, ascii "MKCALENDAR"), (.LINK, ascii "LINK"), (.UNLINK, ascii "UNLINK"),
    (.SOURCE, ascii "SOURCE")]

/-- `strncmp(at, s, n) == 0`, where `at` ends with its buffer and `s` with a zero
    that is not in the list. There is no answer if it takes bytes behind the
    buffer. -/
def strncmpEq : Nat → List UInt8 → List UInt8 → Option Bool
  | 0, _, _ => some true
  -- `CharsToHttpMethod` is not given the length of the method, so the bytes may run out.
  | _ + 1, [], _ => none
  | n + 1, a :: at', s =>
    if a ≠ s.headD 0 then some false
    -- Both strings end here.
    else if a = 0 then some true
    else strncmpEq n at' s.tail

/-- The first entry of the table that `m` starts with. -/
def methodIn (m : List UInt8) : List (HttpMethod × List UInt8) → Option HttpMethod
  | [] => some .INVALID_METHOD
  | (name, string) :: rest =>
    match strncmpEq string.length m string with
    | none => none
    | some true => some name
    | some false => methodIn m rest

/-- `CharsToHttpMethod`. -/
def charsToHttpMethod (m : List UInt8) : Option HttpMethod := methodIn m httpMethodMap

/-- `StringToHttpMethod`, which compares with `strcmp`. -/
def stringToHttpMethod (m : List UInt8) : HttpMethod :=
  match httpMethodMap.find? (fun e => e.2 == cStr m) with
  | some e => e.1
  | none => .INVALID_METHOD

/-! ## Headers -/

def toLower (c : UInt8) : UInt8 := if HttpParser.upper c then c + 32 else c

/-- What `strcasecmp` compares of a string. -/
def folded (s : List UInt8) : List UInt8 := (s.takeWhile (· ≠ 0)).map toLower

/-- `CaseInsensitiveLess`. -/
def caseInsensitiveLess (lhs rhs : List UInt8) : Bool := decide (folded lhs < folded rhs)

/-- `std::map<std::string, std::string, CaseInsensitiveLess>`, in the order of the keys. -/
abbrev HeaderMap := List (List UInt8 × List UInt8)

/-- `m[key] = val`. -/
def HeaderMap.set (key val : List UInt8) : HeaderMap → HeaderMap
  | [] => [(key, val)]
  | (k, v) :: m =>
    if caseInsensitiveLess k key then (k, v) :: HeaderMap.set key val m
    else if caseInsensitiveLess key k then (key, val) :: (k, v) :: m
    -- The key that is there stays, whatever its case.
    else (k, val) :: m

/-- `m.find(key)`. -/
def HeaderMap.find (key : List UInt8) (m : HeaderMap) : Option (List UInt8) :=
  (m.find? (fun e => !caseInsensitiveLess e.1 key && !caseInsensitiveLess key e.1)).map Prod.snd

structure HttpRequest where
  method : HttpMethod
  version : UInt8
  close : Bool
  path : List UInt8
  query : List UInt8
  fragment : List UInt8
  body : List UInt8
  headers : HeaderMap
  deriving DecidableEq, Repr

namespace HttpRequest

/-- `new HttpRequest`. -/
def new : HttpRequest := ⟨.GET, 0x11, true, ascii "/", [], [], [], []⟩

def setHeader (key val : List UInt8) (r : HttpRequest) : HttpRequest :=
  { r with headers := r.headers.set key val }

/-- `getHeader(key)`. -/
def getHeader (key : List UInt8) (r : HttpRequest) : List UInt8 := (r.headers.find key).getD []

end HttpRequest

/-! ## The parser -/

namespace HttpParser

/-- A state of the machine: at the start, or some live positions. -/
structure Cs where
  entered : Bool
  live : Live
  deriving DecidableEq, Repr

namespace Cs

/-- `http_parser_start`. -/
def start : Cs := ⟨true, .idle⟩

def step (relaxed : Bool) (cs : Cs) (c : UInt8) : Cs :=
  ⟨false, shift (main relaxed) cs.entered cs.live (some c)⟩

/-- The actions of a transition. -/
def actions (relaxed : Bool) (cs : Cs) (c : UInt8) : List Action :=
  fires (main relaxed) cs.entered false cs.live (some c)

/-- `http_parser_error`. -/
def error (cs : Cs) : Bool := !cs.entered && cs.live == .idle

/-- At least `http_parser_first_final`. -/
def finished (relaxed : Bool) (cs : Cs) : Bool := final (main relaxed) cs.live

end Cs

end HttpParser

/-- `HttpRequestParser` with the fields of `http_parser`. -/
structure HttpRequestParser where
  relaxed : Bool
  cs : HttpParser.Cs
  mark : Nat
  fieldStart : Nat
  fieldLen : Nat
  queryStart : Nat
  error : Nat
  data : HttpRequest
  deriving DecidableEq, Repr

namespace HttpRequestParser

open HttpParser

/-- `new HttpRequestParser`, with what the memory holds for the fields that are
    not initialised. -/
def new (relaxed : Bool) (queryStart : Nat) : HttpRequestParser :=
  { relaxed := relaxed, cs := .start, mark := 0, fieldStart := 0, fieldLen := 0,
    queryStart := queryStart, error := 0, data := .new }

/-- `std::string(buffer + at, length)`. -/
def stringAt (buffer : List UInt8) (pos length : Nat) :
    Prog Exn HttpRequestParser (List UInt8) :=
  if ByteArray.maxStringSize < length then Prog.raise .lengthError
  else if buffer.length < pos + length then Prog.undef
  else pure ((buffer.drop pos).take length)

def setError (v : Nat) : Prog Exn HttpRequestParser Unit :=
  Prog.modify (fun q => { q with error := v })

/-- Change the request. -/
def setData (f : HttpRequest → HttpRequest) : Prog Exn HttpRequestParser Unit :=
  Prog.modify (fun q => { q with data := f q.data })

/-- `on_request_method`. -/
def onRequestMethod (buffer : List UInt8) (pos : Nat) : Prog Exn HttpRequestParser Unit :=
  -- The callback is given a length and does not pass it on.
  match charsToHttpMethod (buffer.drop pos) with
  | none => Prog.undef
  | some .INVALID_METHOD => setError 1000
  | some m => setData (fun r => { r with method := m })

/-- `on_request_version`. -/
def onRequestVersion (buffer : List UInt8) (pos length : Nat) :
    Prog Exn HttpRequestParser Unit :=
  match strncmpEq length (buffer.drop pos) (ascii "HTTP/1.1") with
  | none => Prog.undef
  | some true => setData (fun r => { r with version := 0x11 })
  | some false =>
    match strncmpEq length (buffer.drop pos) (ascii "HTTP/1.0") with
    | none => Prog.undef
    | some true => setData (fun r => { r with version := 0x10 })
    | some false => setError 1001

/-- `on_request_http_field`. -/
def onRequestHttpField (buffer : List UInt8) (field flen value vlen : Nat) :
    Prog Exn HttpRequestParser Unit :=
  if flen = 0 then pure ()
  else do
    let key ← stringAt buffer field flen
    let val ← stringAt buffer value vlen
    setData (HttpRequest.setHeader key val)

/-- An action at the position `p` of the buffer. `on_request_uri` and
    `on_request_header_done` are empty. -/
def perform (buffer : List UInt8) (p : Nat) : Action → Prog Exn HttpRequestParser Unit
  | .mark => Prog.modify (fun q => { q with mark := p })
  | .startField => Prog.modify (fun q => { q with fieldStart := p })
  | .writeField => Prog.modify (fun q => { q with fieldLen := subWord p q.fieldStart })
  | .startValue => Prog.modify (fun q => { q with mark := p })
  | .writeValue => do
    let q ← Prog.get
    onRequestHttpField buffer q.fieldStart q.fieldLen q.mark (subWord p q.mark)
  | .requestMethod => do
    let q ← Prog.get
    onRequestMethod buffer q.mark
  | .requestUri => pure ()
  | .fragment => do
    let q ← Prog.get
    let s ← stringAt buffer q.mark (subWord p q.mark)
    setData (fun r => { r with fragment := s })
  | .startQuery => Prog.modify (fun q => { q with queryStart := p })
  | .queryString => do
    let q ← Prog.get
    let s ← stringAt buffer q.queryStart (subWord p q.queryStart)
    setData (fun r => { r with query := s })
  | .httpVersion => do
    let q ← Prog.get
    onRequestVersion buffer q.mark (subWord p q.mark)
  | .requestPath => do
    let q ← Prog.get
    let s ← stringAt buffer q.mark (subWord p q.mark)
    setData (fun r => { r with path := s })
  | .done => pure ()
  | .xml => pure ()
  | .json => pure ()

/-- The actions of a transition, in order. -/
def performAll (buffer : List UInt8) (p : Nat) : List Action → Prog Exn HttpRequestParser Unit
  | [] => pure ()
  | a :: as => do
    perform buffer p a
    performAll buffer p as

/-- The loop over the bytes from the position `p` on. It returns the position
    where it stops: at a byte the machine has no transition for, behind the byte
    that completes a request, or at the end. -/
def exec (buffer : List UInt8) : List UInt8 → Nat → Prog Exn HttpRequestParser Nat
  | [], p => pure p
  | c :: rest, p => do
    let q ← Prog.get
    -- No action is executed on a transition into the error state.
    if (q.cs.step q.relaxed c).error then do
      Prog.modify (fun q => { q with cs := q.cs.step q.relaxed c })
      pure p
    else do
      performAll buffer p (q.cs.actions q.relaxed c)
      Prog.modify (fun q => { q with cs := q.cs.step q.relaxed c })
      -- `fbreak` ends the loop behind the byte.
      if Action.done ∈ q.cs.actions q.relaxed c then pure (p + 1)
      else exec buffer rest (p + 1)

/-- What a call sets to zero. -/
def reset (q : HttpRequestParser) : HttpRequestParser :=
  { q with mark := 0, fieldStart := 0, fieldLen := 0 }

/-- `http_parser_execute` of the first `len` bytes of a buffer. -/
def httpParserExecute (buffer : List UInt8) (len : Nat) : Prog Exn HttpRequestParser Nat :=
  if len = 0 then pure 0
  else do
    Prog.modify reset
    exec buffer (buffer.take len) 0

/-- `execute`: the number of bytes that have been parsed, and the buffer with the
    others at the front. -/
def execute (data : List UInt8) (len : Nat) : Prog Exn HttpRequestParser (Nat × List UInt8) := do
  let offset ← httpParserExecute data len
  pure (offset, overwrite data 0 ((data.take len).drop offset))

/-- `hasError`. -/
def hasError (q : HttpRequestParser) : Bool := q.error ≠ 0 || q.cs.error

/-- `isFinished`, of a parser without an error. -/
def isFinished (q : HttpRequestParser) : Bool := q.cs.finished q.relaxed

/-- `getContentLength`. The conversion of a string to a number is that of
    `boost::lexical_cast`. -/
def getContentLength (lexicalCast : List UInt8 → Option UInt64) (q : HttpRequestParser) : UInt64 :=
  match q.data.headers.find (ascii "content-length") with
  | none => 0
  | some s => (lexicalCast s).getD 0

end HttpRequestParser

end YkServer
