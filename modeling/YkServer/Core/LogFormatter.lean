import YkServer.Core.HttpConnection

/-!
# Formatting Log Events

The model of `LogLevel`, of the items of a `LogFormatter` and of `LogFormatter::init` in
`yk/log.cc`. A pattern is scanned by index. A conversion has a loop of its own, with a state of
its own, and an index of type `int`, `fmt_begin`. A result is `none` where `substr`
throws, or an `int` overflows, or there is no fuel left.

`isalpha` is that of the "C" locale. `strftime` stands for `localtime_r` and `strftime` with a
buffer of 64 bytes.

## Main definitions

* `LogLevel`: The levels.
* `LogEvent`, `FormatItem.format`: What an item prints.
* `LogFormatter.scanConversion`: The loop over a conversion.
* `LogFormatter.initLoop`: The loop over a pattern.
* `LogFormatter.new`: A formatter.
-/

namespace YkServer

open Lib

/-- `LogLevel::Level`. -/
inductive LogLevel where
  | UNKNOW | DEBUG | INFO | WARN | ERROR | FATAL
  deriving DecidableEq, Repr

/-- `LogLevel::ToString`. -/
def LogLevel.toString : LogLevel → List UInt8
  | .DEBUG => ascii "DEBUG"
  | .INFO => ascii "INFO"
  | .WARN => ascii "WARN"
  | .ERROR => ascii "ERROR"
  | .FATAL => ascii "FATAL"
  | .UNKNOW => ascii "UNKNOW"

/-- `LogLevel::FromString`. -/
def LogLevel.fromString (str : List UInt8) : LogLevel :=
  if str = ascii "DEBUG" then .DEBUG
  else if str = ascii "INFO" then .INFO
  else if str = ascii "WARN" then .WARN
  else if str = ascii "ERROR" then .ERROR
  else if str = ascii "FATAL" then .FATAL
  else .UNKNOW

/-- `LogEvent`, with the name of its logger. -/
structure LogEvent where
  file : List UInt8
  line : Int
  elapse : UInt32
  threadId : UInt32
  fiberId : UInt32
  threadName : List UInt8
  time : UInt64
  content : List UInt8
  loggerName : List UInt8
  deriving DecidableEq, Repr

/-- The classes of items. -/
inductive FormatItem where
  | message
  | level
  | elapse
  | name
  | threadId
  | newLine
  | dateTime (format : List UInt8)
  | filename
  | line
  | tab
  | fiberId
  | threadName
  | string (s : List UInt8)
  deriving DecidableEq, Repr

namespace FormatItem

/-- What an item writes to the stream. -/
def format (strftime : List UInt8 → UInt64 → List UInt8) (level : LogLevel) (event : LogEvent) :
    FormatItem → List UInt8
  | .message => event.content
  | .level => level.toString
  | .elapse => printed event.elapse.toNat
  | .name => event.loggerName
  | .threadId => printed event.threadId.toNat
  | .newLine => [10]
  | .dateTime fmt => strftime fmt event.time
  | .filename => event.file
  | .line => ascii (toString event.line)
  | .tab => [9]
  | .fiberId => printed event.fiberId.toNat
  | .threadName => event.threadName
  | .string s => s

/-- `DateTimeFormatItem`. -/
def newDateTime (format : List UInt8) : FormatItem :=
  .dateTime (if format = [] then ascii "%Y-%m-%d %H:%M:%S" else format)

end FormatItem

namespace LogFormatter

/-- `s_format_items`. -/
def formatItems : List (List UInt8 × (List UInt8 → FormatItem)) :=
  [(ascii "m", fun _ => .message), (ascii "p", fun _ => .level), (ascii "r", fun _ => .elapse),
    (ascii "c", fun _ => .name), (ascii "t", fun _ => .threadId), (ascii "n", fun _ => .newLine),
    (ascii "d", FormatItem.newDateTime), (ascii "f", fun _ => .filename),
    (ascii "l", fun _ => .line), (ascii "T", fun _ => .tab), (ascii "F", fun _ => .fiberId),
    (ascii "N", fun _ => .threadName)]

def isalpha (c : UInt8) : Bool := (65 ≤ c && c ≤ 90) || (97 ≤ c && c ≤ 122)

/-- An entry of `vec`: text, or the key and the format of a conversion. -/
inductive Entry where
  | text (s : List UInt8)
  | conversion (str fmt : List UInt8)
  deriving DecidableEq, Repr

/-- The item that is made for an entry. -/
def item : Entry → FormatItem
  | .text s => .string s
  | .conversion str fmt =>
    match formatItems.find? (fun e => e.1 = str) with
    | none => .string (ascii "<<error_format %" ++ str ++ ascii ">>")
    | some (_, new) => new fmt

/-- `pattern.substr(pos, len)`. -/
def substr (pattern : List UInt8) (pos len : Nat) : Option (List UInt8) :=
  if pos ≤ pattern.length then some ((pattern.drop pos).take len) else none

/-- The variables of a conversion. -/
structure Scan where
  n : Nat
  fmtStatus : Nat
  fmtBegin : Int
  str : List UInt8
  fmt : List UInt8
  deriving DecidableEq, Repr

/-- `m_pattern.substr(fmt_begin + 1, n - fmt_begin - 1)`. The first sum is one of `int`s. -/
def formatText (pattern : List UInt8) (fmtBegin : Int) (n : Nat) : Option (List UInt8) :=
  if fmtBegin = 2 ^ 31 - 1 then none
  else substr pattern (wordOfInt (fmtBegin + 1)) (subWord (subWord n (wordOfInt fmtBegin)) 1)

/-- The loop over a conversion whose percent sign is at `i`. -/
def scanConversion (pattern : List UInt8) (i : Nat) : Nat → Scan → Option Scan
  | 0, _ => none
  | fuel + 1, s =>
    match pattern[s.n]? with
    | none => some s
    | some c =>
      if s.fmtStatus = 0 && !isalpha c && c ≠ 123 && c ≠ 125 then do
        let str ← substr pattern (i + 1) (s.n - i - 1)
        some { s with str := str }
      else if s.fmtStatus = 0 && c = 123 then do
        let str ← substr pattern (i + 1) (s.n - i - 1)
        scanConversion pattern i fuel
          { s with str := str, fmtStatus := 1, fmtBegin := intOfWord s.n, n := s.n + 1 }
      else if s.fmtStatus = 1 && c = 125 then do
        let fmt ← formatText pattern s.fmtBegin s.n
        some { s with fmt := fmt, fmtStatus := 0, n := s.n + 1 }
      else if s.n + 1 = pattern.length && s.str = [] then do
        let str ← substr pattern (i + 1) pattern.length
        scanConversion pattern i fuel { s with str := str, n := s.n + 1 }
      else scanConversion pattern i fuel { s with n := s.n + 1 }

/-- `nstr` becomes an entry if it is not empty. -/
def flush (nstr : List UInt8) : List Entry := if nstr = [] then [] else [.text nstr]

/-- The loop over the pattern from `i` on: the entries it adds to `vec`, and `m_error`. -/
def initLoop (pattern : List UInt8) : Nat → Nat → List UInt8 → Option (List Entry × Bool)
  | 0, _, _ => none
  | fuel + 1, i, nstr =>
    match pattern[i]? with
    | none => some (flush nstr, false)
    | some c =>
      if c ≠ 37 then initLoop pattern fuel (i + 1) (nstr ++ [c])
      else if pattern[i + 1]? = some 37 then initLoop pattern fuel (i + 1) (nstr ++ [37])
      else do
        let s ← scanConversion pattern i (pattern.length + 1) ⟨i + 1, 0, 0, [], []⟩
        if s.fmtStatus = 0 then
          -- `i = n - 1`, and the loop adds one.
          (initLoop pattern fuel s.n []).map
            (fun rest => (flush nstr ++ .conversion s.str s.fmt :: rest.1, rest.2))
        else
          (initLoop pattern fuel (i + 1) nstr).map
            (fun rest => (.text (ascii "<<pattern_error>>") :: rest.1, true))

end LogFormatter

/-- `LogFormatter`. -/
structure LogFormatter where
  pattern : List UInt8
  items : List FormatItem
  error : Bool
  deriving DecidableEq, Repr

namespace LogFormatter

/-- The constructor with `init`. -/
def new (pattern : List UInt8) : Option LogFormatter :=
  (initLoop pattern (pattern.length + 1) 0 []).map
    (fun vec => ⟨pattern, vec.1.map item, vec.2⟩)

/-- `LogFormatter::format`. -/
def format (strftime : List UInt8 → UInt64 → List UInt8) (f : LogFormatter) (level : LogLevel)
    (event : LogEvent) : List UInt8 :=
  f.items.flatMap (FormatItem.format strftime level event)

end LogFormatter

end YkServer
