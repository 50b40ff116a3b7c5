import YkServer.Core.HttpConnection
import YkServer.Core.ServiceDiscovery

/-!
# URIs

The model of `yk/uri.rl`: the machine with its actions, `Uri::Create`, and the parts of `Uri`
that print it.

The actions share one pointer, `mark`, which is a position in the text here and absent where it
is NULL. An action that several parts of the grammar have on one transition is executed
there once, in the first of its places. `std::string` of a NULL pointer throws.

Here numbers with a `{n}` behind a parenthesis are repetitions, but the `2` in front of
`[0-4]` is again the character with that code.

## Main definitions

* `UriParser.Action`: The actions.
* `UriParser.authority`, `UriParser.hierPart`, `UriParser.main`: The machine.
* `Uri`: The components.
* `UriParser.perform`, `UriParser.exec`: The actions and the loop.
* `Uri.create`: Reading a text.
* `Uri.getPath`, `Uri.getPort`, `Uri.toString`: What is shown of a URI.
-/

namespace YkServer

open Lib Lib.Ragel

namespace UriParser

/-- The actions of the machine. -/
inductive Action where
  | marku
  | markh
  | saveScheme
  | savePort
  | saveUserinfo
  | saveHost
  | savePath
  | saveQuery
  | saveFragment
  deriving DecidableEq, Repr

/-- Expressions over bytes. -/
abbrev Rule := Machine UInt8 Action

open Machine
open HttpParser (alpha digit xdigit unreserved isAscii inRange)

/-- One character. -/
def byte (c : Char) : Rule := chars (· == UInt8.ofNat c.toNat)

/-! ## Character classes -/

def subDelims : UInt8 → Bool := HttpParser.oneOf "!$&'()*+,;="

def pctEncoded : Rule := seq (byte '%') (seq (chars xdigit) (chars xdigit))

/-! ## Authorities -/

def scheme : Rule :=
  leave .saveScheme (enter .marku
    (seq (chars alpha) (star (chars (fun c => alpha c || digit c || HttpParser.oneOf "+-." c)))))

def userinfo : Rule :=
  star (alt (chars unreserved) (alt pctEncoded (alt (chars subDelims) (byte ':'))))

def decOctet : Rule :=
  alt (chars digit) (alt (seq (chars (inRange '1' '9')) (chars digit))
    (alt (seq (byte '1') (times (chars digit) 2))
      (alt (seq (chars (· == 2)) (seq (chars (inRange '0' '4')) (chars digit)))
        (seq (byte '2') (seq (byte '5') (chars (inRange '0' '5')))))))

def ipv4Address : Rule :=
  seq decOctet (seq (byte '.') (seq decOctet (seq (byte '.') (seq decOctet (seq (byte '.')
    decOctet)))))

/-- `xdigit{1,4}`. -/
def h16 : Rule := seq (chars xdigit) (upTo (chars xdigit) 3)

/-- `h16 ":"`. -/
def h16Colon : Rule := seq h16 (byte ':')

def ls32 : Rule := alt (seq h16Colon h16) ipv4Address

/-- `"::"`. -/
def colons : Rule := seq (byte ':') (byte ':')

/-- `((h16 ":"){n} h16)? "::"`. -/
def compressed (n : Nat) : Rule := seq (opt (seq (times h16Colon n) h16)) colons

def ipv6Address : Rule :=
  alt (seq (times h16Colon 6) ls32)
    (alt (seq colons (seq (times h16Colon 5) ls32))
      (alt (seq (compressed 0) (seq (times h16Colon 4) ls32))
        (alt (seq (compressed 1) (seq (times h16Colon 3) ls32))
          (alt (seq (compressed 2) (seq (times h16Colon 2) ls32))
            (alt (seq (compressed 3) (seq (times h16Colon 1) ls32))
              (alt (seq (compressed 4) ls32)
                (alt (seq (compressed 5) h16) (compressed 6))))))))

def ipvFuture : Rule :=
  seq (byte 'v') (seq (plus (chars xdigit)) (seq (byte '.')
    (plus (alt (chars unreserved) (alt (chars subDelims) (byte ':'))))))

def ipLiteral : Rule := seq (byte '[') (seq (alt ipv6Address ipvFuture) (byte ']'))

def regName : Rule := star (alt (chars unreserved) (alt pctEncoded (chars subDelims)))

def host : Rule := alt ipLiteral (alt ipv4Address regName)

def port : Rule := star (chars digit)

/-- `(userinfo %save_userinfo "@")?`. -/
def userinfoPart : Rule := opt (seq (leave .saveUserinfo userinfo) (byte '@'))

/-- `host >markh %save_host`. -/
def hostPart : Rule := leave .saveHost (enter .markh host)

/-- `(":" port >markh %save_port)?`. -/
def portPart : Rule := opt (seq (byte ':') (leave .savePort (enter .markh port)))

def authority : Rule := enter .markh (seq userinfoPart (seq hostPart portPart))

/-! ## Paths -/

def pchar : Rule :=
  alt (chars (fun c => !isAscii c)) (alt (chars unreserved) (alt pctEncoded
    (alt (chars subDelims) (alt (byte ':') (byte '@')))))

def segment : Rule := star pchar

def segmentNz : Rule := plus pchar

/-- `(pchar - ":")+`. -/
def segmentNzNc : Rule :=
  plus (alt (chars (fun c => !isAscii c)) (alt (chars unreserved) (alt pctEncoded
    (alt (chars subDelims) (byte '@')))))

/-- `("/" segment)*`. -/
def segments : Rule := star (seq (byte '/') segment)

def pathAbempty : Rule := seq (opt (seq (byte '/') segment)) segments

def pathAbsolute : Rule := seq (byte '/') (opt (seq segmentNz segments))

def pathNoscheme : Rule := seq segmentNzNc segments

def pathRootless : Rule := seq segmentNz segments

def pathEmpty : Rule := null

/-- `(pchar | "/" | "?")*`. -/
def queryText : Rule := star (alt pchar (alt (byte '/') (byte '?')))

def query : Rule := leave .saveQuery (enter .marku queryText)

def fragment : Rule := leave .saveFragment (enter .marku queryText)

/-! ## References -/

/-- `path_abempty >markh %save_path`. -/
def pathPart : Rule := leave .savePath (enter .markh pathAbempty)

/-- `"//" authority path_abempty >markh %save_path`. -/
def withAuthority : Rule :=
  seq (byte '/') (seq (byte '/') (seq authority pathPart))

def hierPart : Rule := alt withAuthority (alt pathAbsolute (alt pathRootless pathEmpty))

def relativePart : Rule :=
  alt (seq (byte '/') (seq (byte '/') (seq authority pathAbempty)))
    (alt pathAbsolute (alt pathNoscheme pathEmpty))

/-- `("?" query)?`. -/
def queryPart : Rule := opt (seq (byte '?') query)

/-- `("#" fragment)?`. -/
def fragmentPart : Rule := opt (seq (byte '#') fragment)

def relativeRef : Rule := seq relativePart (seq queryPart fragmentPart)

/-- `URI`. -/
def uriRule : Rule := seq scheme (seq (byte ':') (seq hierPart (seq queryPart fragmentPart)))

/-- The machine, `URI_reference`. -/
def main : Rule := alt uriRule relativeRef

/-- The actions of a transition. -/
def actions (entered left : Bool) (live : Live) (c : Option UInt8) : List Action :=
  (fires main entered left live c).eraseDups

end UriParser

/-! ## The parser -/

/-- The components of a `Uri`. -/
structure Uri where
  m_scheme : List UInt8
  m_userinfo : List UInt8
  m_host : List UInt8
  m_path : List UInt8
  m_query : List UInt8
  m_fragment : List UInt8
  m_port : Int
  deriving DecidableEq, Repr

/-- `new Uri`. -/
def Uri.new : Uri := ⟨[], [], [], [], [], [], 0⟩

/-- What `Create` works on: the pointer and the new object. -/
structure UriParser where
  mark : Option Nat
  uri : Uri
  deriving DecidableEq, Repr

/-- What `std::string` throws. -/
inductive UriError where
  | logicError
  | lengthError
  deriving DecidableEq, Repr

/-- `atoi`, which is undefined behaviour for a number that is no `int`. -/
def atoi (s : List UInt8) : Option Int :=
  let value : Int :=
    match s.dropWhile isSpace with
    | 45 :: digits => -((leading digits).getD 0 : Nat)
    | 43 :: digits => ((leading digits).getD 0 : Nat)
    | digits => ((leading digits).getD 0 : Nat)
  if -2 ^ 31 ≤ value ∧ value < 2 ^ 31 then some value else none

namespace UriParser

def setMark (mark : Option Nat) : Prog UriError UriParser Unit :=
  Prog.modify (fun q => { q with mark := mark })

def setUri (f : Uri → Uri) : Prog UriError UriParser Unit :=
  Prog.modify (fun q => { q with uri := f q.uri })

/-- `std::string(mark, fpc - mark)`. -/
def marked (s : List UInt8) (p : Nat) : Prog UriError UriParser (List UInt8) := do
  let q ← Prog.get
  match q.mark with
  | none => Prog.raise .logicError
  | some m => if p < m then Prog.raise .lengthError else pure ((s.drop m).take (p - m))

/-- An action at the position `p`. -/
def perform (s : List UInt8) (p : Nat) : Action → Prog UriError UriParser Unit
  | .marku => setMark (some p)
  | .markh => setMark (some p)
  | .saveScheme => do
    let v ← marked s p
    setUri (fun u => { u with m_scheme := v })
    setMark none
  | .savePort => do
    let q ← Prog.get
    match q.mark with
    -- `atoi(NULL)`
    | none => Prog.undef
    | some m =>
      if p ≠ m then
        match atoi (s.drop m) with
        | none => Prog.undef
        | some v => setUri (fun u => { u with m_port := v })
      else pure ()
    setMark none
  | .saveUserinfo => do
    let q ← Prog.get
    if q.mark.isSome then
      let v ← marked s p
      setUri (fun u => { u with m_userinfo := v })
    else pure ()
    setMark none
  | .saveHost => do
    -- The mark stays.
    let q ← Prog.get
    if q.mark.isSome then
      let v ← marked s p
      setUri (fun u => { u with m_host := v })
    else pure ()
  | .savePath => do
    let v ← marked s p
    setUri (fun u => { u with m_path := v })
    setMark none
  | .saveQuery => do
    let v ← marked s p
    setUri (fun u => { u with m_query := v })
    setMark none
  | .saveFragment => do
    let v ← marked s p
    setUri (fun u => { u with m_fragment := v })
    setMark none

def performAll (s : List UInt8) (p : Nat) : List Action → Prog UriError UriParser Unit
  | [] => pure ()
  | a :: as => do
    perform s p a
    performAll s p as

/-- The loop over the bytes, which gives the live positions behind the last one, unless it comes to
    a byte without a transition. -/
def exec (s : List UInt8) : List UInt8 → Nat → Bool → Live → Prog UriError UriParser (Option Live)
  | [], _, _, live => pure (some live)
  | c :: rest, p, entered, live =>
    if shift main entered live (some c) = .idle then pure none
    else do
      performAll s p (actions entered false live (some c))
      exec s rest (p + 1) false (shift main entered live (some c))

end UriParser

namespace Uri

open UriParser

/-- `Create`. -/
def create (uristr : List UInt8) : Prog UriError UriParser (Option Uri) := do
  let cs ← exec uristr uristr 0 true .idle
  match cs with
  | none => return none
  | some live =>
    if final main live || (uristr.isEmpty && nullable main) then do
      -- The actions at the end of the text.
      performAll uristr uristr.length (actions uristr.isEmpty true live none)
      let q ← Prog.get
      return some q.uri
    else return none

def isDefaultPort (u : Uri) : Bool :=
  if u.m_port = 0 then true
  else if u.m_scheme = ascii "http" ∨ u.m_scheme = ascii "ws" then u.m_port = 80
  else if u.m_scheme = ascii "https" ∨ u.m_scheme = ascii "wss" then u.m_port = 443
  else false

def getPath (u : Uri) : List UInt8 := if u.m_path = [] then ascii "/" else u.m_path

def getPort (u : Uri) : Int :=
  if u.m_port ≠ 0 then u.m_port
  else if u.m_scheme = ascii "http" ∨ u.m_scheme = ascii "ws" then 80
  else if u.m_scheme = ascii "https" ∨ u.m_scheme = ascii "wss" then 443
  else u.m_port

/-- `std::to_string` of an `int`. -/
def portText (v : Int) : List UInt8 :=
  if v < 0 then ascii "-" ++ printed v.natAbs else printed v.natAbs

/-- `toString`, what `dump` prints. -/
def toString (u : Uri) : List UInt8 :=
  u.m_scheme ++ ascii "://" ++ u.m_userinfo ++ (if u.m_userinfo = [] then [] else ascii "@") ++
    u.m_host ++ (if u.isDefaultPort then [] else ascii ":" ++ portText u.m_port) ++ u.getPath ++
    (if u.m_query = [] then [] else ascii "?") ++ u.m_query ++
    (if u.m_fragment = [] then [] else ascii "#") ++ u.m_fragment

end Uri

end YkServer
