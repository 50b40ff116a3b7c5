import YkServer.Lib.Ragel

/-!
# The Grammar of HTTP Requests

The machine of `http/http11_parser.rl`, rule by rule, as far as `main` uses them.

Some rules do not say what they look like. `-` between two characters is a
difference and not a range, so `(0 - 31)` is the character 0 and `("1"-"9")` is
`1`. With that, `HTTP_CTL` is 0 and 127, and a line feed can be part of a field
name or of a value; where a line can end there, the guard of `message_header` or
the end of the request decides. A number in front of a parenthesis is a
character, not a repetition: the first five forms of `IPv6address` have the
characters 6 to 2 in them. `uri_relaxed` is not set anywhere, so what it is
depends on the memory of the parser; it is an argument.

## Main definitions

* `HttpParser.Action`: The actions.
* `HttpParser.uriReference`, `HttpParser.requestLine`, `HttpParser.messageHeader`:
  The parts of a request.
* `HttpParser.main`: The machine.
-/

namespace YkServer

open Lib Lib.Ragel

/-- The bytes of a text of characters below 128. -/
def ascii (s : String) : List UInt8 := s.toList.map (fun c => UInt8.ofNat c.toNat)

namespace HttpParser

/-- The actions of the machine. -/
inductive Action where
  | mark
  | startField
  | writeField
  | startValue
  | writeValue
  | requestMethod
  | requestUri
  | fragment
  | startQuery
  | queryString
  | httpVersion
  | requestPath
  | done
  | xml
  | json
  deriving DecidableEq, Repr

/-- Expressions over bytes. -/
abbrev Rule := Machine UInt8 Action

open Machine

/-- One of some characters. -/
def oneOf (s : String) : UInt8 → Bool := fun c => (ascii s).contains c

/-- A text. -/
def text (s : String) : Rule := (ascii s).foldr (fun c m => seq (chars (· == c)) m) null

/-- One expression after another. -/
def cat : List Rule → Rule
  | [] => null
  | [m] => m
  | m :: ms => seq m (cat ms)

/-- One of some expressions. -/
def oneRuleOf : List Rule → Rule
  | [] => null
  | [m] => m
  | m :: ms => alt m (oneRuleOf ms)

/-! ## Character classes -/

def inRange (lo hi : Char) : UInt8 → Bool := fun c => lo.toNat ≤ c.toNat && c.toNat ≤ hi.toNat

def upper : UInt8 → Bool := inRange 'A' 'Z'

def alpha : UInt8 → Bool := fun c => upper c || inRange 'a' 'z' c

def digit : UInt8 → Bool := inRange '0' '9'

def xdigit : UInt8 → Bool := fun c => digit c || inRange 'A' 'F' c || inRange 'a' 'f' c

def isAscii : UInt8 → Bool := fun c => c.toNat < 128

/-- `space`, the characters 9 to 13 and 32. -/
def space : UInt8 → Bool := fun c => (9 ≤ c.toNat && c.toNat ≤ 13) || c == 32

def moreDelims (relaxed : Bool) : UInt8 → Bool := fun c => relaxed && (c == 123 || c == 125 || c == 94)

def subDelims (relaxed : Bool) : UInt8 → Bool := fun c =>
  oneOf "!$&'()*+,;=" c || moreDelims relaxed c

def unreserved : UInt8 → Bool := fun c => alpha c || digit c || oneOf "-._~" c

/-- `(0 - 31) | 127`. The first part is a difference, not a range: the character 0
    without the character 31. -/
def httpCtl : UInt8 → Bool := fun c => (c == 0 && !(c == 31)) || c == 127

def httpSeparator : UInt8 → Bool := fun c =>
  oneOf "()<>@,;:\\\"/[]?= \t" c || c == 123 || c == 125

def token : UInt8 → Bool := fun c => isAscii c && !(httpCtl c || httpSeparator c)

/-! ## URIs -/

def CRLF : Rule := alt (text "\r\n") (text "\n")

def pctEncoded : Rule := cat [text "%", chars xdigit, chars xdigit]

def pchar (relaxed : Bool) : Rule :=
  oneRuleOf [chars (fun c => !isAscii c), chars unreserved, pctEncoded, chars (subDelims relaxed),
    text ":", text "@"]

def fragment (relaxed : Bool) : Rule :=
  leave .fragment (enter .mark (star (oneRuleOf [pchar relaxed, text "/", text "?"])))

def query (relaxed : Bool) : Rule :=
  leave .queryString (star (oneRuleOf [pchar relaxed, text "/", text "?"]))

def segmentNzNc (relaxed : Bool) : Rule :=
  plus (oneRuleOf [chars unreserved, pctEncoded, chars (subDelims relaxed), text "@"])

def segmentNz (relaxed : Bool) : Rule := plus (pchar relaxed)

def segment (relaxed : Bool) : Rule := star (pchar relaxed)

def pathEmpty (relaxed : Bool) : Rule := times (pchar relaxed) 0

def pathAbempty (relaxed : Bool) : Rule := star (seq (text "/") (segment relaxed))

def pathRootless (relaxed : Bool) : Rule := seq (segmentNz relaxed) (pathAbempty relaxed)

def pathNoscheme (relaxed : Bool) : Rule := seq (segmentNzNc relaxed) (pathAbempty relaxed)

def pathAbsolute (relaxed : Bool) : Rule :=
  seq (text "/") (opt (seq (segmentNz relaxed) (pathAbempty relaxed)))

def regName (relaxed : Bool) : Rule :=
  star (oneRuleOf [chars unreserved, pctEncoded, chars (subDelims relaxed)])

/-- The difference of two characters. -/
def difference (c d : Char) : Rule :=
  -- `"1" - "9"` is a difference of two languages, not a range.
  chars (fun b => b.toNat == c.toNat && !(b.toNat == d.toNat))

def decOctet : Rule :=
  oneRuleOf [chars digit, seq (difference '1' '9') (chars digit),
    seq (text "1") (times (chars digit) 2), cat [text "2", difference '0' '4', chars digit],
    seq (text "25") (difference '0' '5')]

def ipv4Address : Rule :=
  cat [decOctet, text ".", decOctet, text ".", decOctet, text ".", decOctet]

/-- `xdigit{1,4}`. -/
def h16 : Rule := seq (chars xdigit) (upTo (chars xdigit) 3)

/-- `h16 ":"`. -/
def h16Colon : Rule := seq h16 (text ":")

def ls32 : Rule := alt (cat [h16, text ":", h16]) ipv4Address

/-- `( ( h16 ":" ){n,} h16 )? "::"`. -/
def compressed (n : Nat) : Rule :=
  seq (opt (cat [times h16Colon n, star h16Colon, h16])) (text "::")

/-- The character of a code. -/
def code (n : UInt8) : Rule := chars (· == n)

def ipv6Address : Rule :=
  -- `6( h16 ":" ) ls32`: the digit is a character with that code, not a count.
  oneRuleOf [cat [code 6, h16Colon, ls32],
    cat [text "::", code 5, h16Colon, ls32],
    cat [opt h16, text "::", code 4, h16Colon, ls32],
    cat [compressed 1, code 3, h16Colon, ls32],
    cat [compressed 2, code 2, h16Colon, ls32],
    cat [compressed 3, h16, text ":", ls32],
    cat [compressed 4, ls32],
    cat [compressed 5, h16],
    compressed 6]

def ipvFuture (relaxed : Bool) : Rule :=
  cat [text "v", plus (chars xdigit), text ".",
    plus (oneRuleOf [chars unreserved, chars (subDelims relaxed), text ":"])]

def ipLiteral (relaxed : Bool) : Rule :=
  cat [text "[", alt ipv6Address (ipvFuture relaxed), text "]"]

def port : Rule := star (chars digit)

def host (relaxed : Bool) : Rule := oneRuleOf [ipLiteral relaxed, ipv4Address, regName relaxed]

def userinfo (relaxed : Bool) : Rule :=
  star (oneRuleOf [chars unreserved, pctEncoded, chars (subDelims relaxed), text ":"])

def authority (relaxed : Bool) : Rule :=
  cat [opt (seq (userinfo relaxed) (text "@")), host relaxed, opt (seq (text ":") port)]

def scheme : Rule :=
  seq (chars alpha) (star (chars (fun c => alpha c || digit c || oneOf "+-." c)))

def relativePart (relaxed : Bool) : Rule :=
  oneRuleOf [cat [text "//", authority relaxed, pathAbempty relaxed], pathAbsolute relaxed,
    pathNoscheme relaxed, pathEmpty relaxed]

def hierPart (relaxed : Bool) : Rule :=
  oneRuleOf [cat [text "//", authority relaxed, pathAbempty relaxed], pathAbsolute relaxed,
    pathRootless relaxed, pathEmpty relaxed]

/-- `(part %request_path ( "?" %start_query query )?) >mark %request_uri`. -/
def target (relaxed : Bool) (part : Rule) : Rule :=
  leave .requestUri (enter .mark (seq (leave .requestPath part)
    (opt (seq (leave .startQuery (text "?")) (query relaxed)))))

/-- `( "#" fragment )?`. -/
def fragmentPart (relaxed : Bool) : Rule := opt (seq (text "#") (fragment relaxed))

def relativeRef (relaxed : Bool) : Rule :=
  seq (target relaxed (relativePart relaxed)) (fragmentPart relaxed)

def uri (relaxed : Bool) : Rule :=
  cat [scheme, text ":", target relaxed (hierPart relaxed), fragmentPart relaxed]

def uriReference (relaxed : Bool) : Rule := alt (uri relaxed) (relativeRef relaxed)

/-! ## Requests -/

/-- `( upper | digit ){1,20}`. -/
def methodName : Rule :=
  seq (chars (fun c => upper c || digit c)) (upTo (chars (fun c => upper c || digit c)) 19)

def method : Rule := leave .requestMethod (enter .mark methodName)

def httpNumber : Rule := seq (text "1.") (alt (text "0") (text "1"))

def httpVersion : Rule := leave .httpVersion (enter .mark (seq (text "HTTP/") httpNumber))

/-- A request line behind the method. -/
def afterMethod (relaxed : Bool) : Rule :=
  cat [text " ", uriReference relaxed, text " ", httpVersion, CRLF]

def requestLine (relaxed : Bool) : Rule := seq method (afterMethod relaxed)

def lws : Rule := seq (opt CRLF) (plus (chars (fun c => c == 32 || c == 9)))

def content : Rule := alt (chars (fun c => !httpCtl c)) lws

def fieldName : Rule := leave .writeField (enter .startField (plus (chars token)))

def fieldValue : Rule := leave .writeValue (enter .startValue (star content))

def messageHeader : Rule :=
  entryGuard (cat [fieldName, text ":", star lws, fieldValue]) CRLF

/-- A request behind the request line. -/
def headers : Rule := seq (star messageHeader) CRLF

def request (relaxed : Bool) : Rule := seq (requestLine relaxed) headers

def socketJSONStart (relaxed : Bool) : Rule := seq (text "@") (relativePart relaxed)

def any : Rule := chars (fun _ => true)

def socketJSONData : Rule :=
  finishGuard (cat [code 123, star any, code 125]) (code 0)

def socketXMLData : Rule :=
  finishGuard
    (cat [leave .requestPath (enter .mark (seq (text "<")
        (plus (chars (fun c => alpha c || digit c || oneOf "-." c))))),
      chars (fun c => c == 47 || space c || c == 62), star any, text ">"])
    (code 0)

def socketJSON (relaxed : Bool) : Rule :=
  cat [leave .requestPath (enter .mark (socketJSONStart relaxed)), text " ",
    finish .json (enter .mark socketJSONData)]

def socketXML : Rule := finish .xml socketXMLData

def socketRequest (relaxed : Bool) : Rule := alt socketXML (socketJSON relaxed)

/-- The machine. -/
def main (relaxed : Bool) : Rule := finish .done (alt (request relaxed) (socketRequest relaxed))

end HttpParser

end YkServer
