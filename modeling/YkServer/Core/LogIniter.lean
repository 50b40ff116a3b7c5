import YkServer.Core.LogDefine
import Mathlib.Data.Finmap

/-!
# Loggers and Their Configuration

The model of `Logger`, of `LoggerManager` and of the listener that `LogIniter` adds to the
variable `logs`, in `yk/log.cc`. A formatter is given by its pattern, which decides on its
items. A set of definitions is sorted by their names, as the `std::set` is. `d` says
whether the program was started with the option `d`.

A result is `none` where a pointer is null that is followed, or where a formatter cannot
be made. The value is not assigned then.

## Main definitions

* `Logger`: A logger, and what can be done with it.
* `LogDefine.setUp`: What is done to the logger of a definition that is new or modified.
* `LogIniter.listener`: The listener.
* `LogIniter.setValue`, `LogIniter.run`: Values assigned to the variable.
-/

namespace YkServer

/-- The pattern of a formatter that nobody has set. -/
def LogFormatter.defaultPattern : List UInt8 :=
  ascii "%d{%Y-%m-%d %H:%M:%S}%T%t%T[%N]%T%F%T[%p]%T[%c]%T%f:%l%T%m%n"

/-- The classes of appenders. -/
inductive AppenderKind where
  | file (filename : List UInt8)
  | stdout
  deriving DecidableEq, Repr

/-- `LogAppender`, with the pattern of its formatter. -/
structure LogAppender where
  kind : AppenderKind
  formatter : List UInt8 := LogFormatter.defaultPattern
  deriving DecidableEq, Repr

/-- `Logger`, with the pattern of its formatter. -/
structure Logger where
  level : LogLevel
  formatter : List UInt8
  appenders : List LogAppender
  deriving DecidableEq, Repr

namespace Logger

def new (name : List UInt8) : Logger :=
  ⟨.DEBUG, LogFormatter.defaultPattern,
    if name = ascii "root" then [{ kind := .stdout }] else []⟩

def setLevel (val : LogLevel) (logger : Logger) : Logger := { logger with level := val }

/-- `setFormatter` of a pattern. A formatter with an error is set all the same. -/
def setFormatter (val : List UInt8) (logger : Logger) : Option Logger :=
  (LogFormatter.new val).map (fun f =>
    { logger with
      formatter := f.pattern
      appenders := logger.appenders.map (fun i => { i with formatter := f.pattern }) })

/-- An appender always has a formatter. -/
def addAppender (logger : Logger) (ap : LogAppender) : Logger :=
  { logger with appenders := logger.appenders ++ [ap] }

def clearAppenders (logger : Logger) : Logger := { logger with appenders := [] }

end Logger

/-- `m_loggers`. -/
abbrev Loggers := Finmap (fun _ : List UInt8 => Logger)

namespace Loggers

/-- The manager with its root. -/
def new : Loggers := Finmap.singleton (ascii "root") (Logger.new (ascii "root"))

/-- The logger that `getLogger` returns. -/
def logger (ls : Loggers) (name : List UInt8) : Logger :=
  (ls.lookup name).getD (Logger.new name)

/-- What `getLogger` leaves in the map. -/
def getLogger (ls : Loggers) (name : List UInt8) : Loggers := ls.insert name (ls.logger name)

end Loggers

/-- `std::set<LogDefine>`. -/
structure LogDefines where
  defines : List LogDefine
  sorted : defines.Pairwise (fun a b => a.name < b.name)

/-- `find`: two definitions are equivalent if they have the same name. -/
def LogDefines.find (s : LogDefines) (i : LogDefine) : Option LogDefine :=
  s.defines.find? (fun e => e.name = i.name)

namespace LogDefine

/-- The pattern that an appender gets. -/
def appenderFormatter (i : LogDefine) (a : LogAppenderDefine) : Option (List UInt8) :=
  if a.formatter ≠ [] then
    (LogFormatter.new a.formatter).map
      (fun fmt => if fmt.error then LogFormatter.defaultPattern else fmt.pattern)
  else if i.formatter ≠ [] then (LogFormatter.new i.formatter).map LogFormatter.pattern
  else some LogFormatter.defaultPattern

/-- The appender `ap` of a round, if the round does not end before it has one. -/
def newAppender (d : Bool) (i : LogDefine) (a : LogAppenderDefine) : Option (Option LogAppender) :=
  if a.type = 1 then (i.appenderFormatter a).map (fun f => some ⟨.file a.file, f⟩)
  else if a.type = 2 then
    if d then some none else (i.appenderFormatter a).map (fun f => some ⟨.stdout, f⟩)
  else none

/-- One round of the loop over the appenders. -/
def addAppender (d : Bool) (i : LogDefine) (logger : Logger) (a : LogAppenderDefine) :
    Option Logger :=
  (newAppender d i a).map (fun ap => ap.elim logger logger.addAppender)

/-- What is done to the logger of a definition that is new or modified. -/
def setUp (d : Bool) (i : LogDefine) (logger : Logger) : Option Logger := do
  let logger := logger.setLevel i.level
  let logger ← if i.formatter ≠ [] then logger.setFormatter i.formatter else some logger
  i.appenders.foldlM (addAppender d i) logger.clearAppenders

end LogDefine

namespace LogIniter

/-- One round of the loop over the new value. -/
def configure (d : Bool) (old : LogDefines) (ls : Loggers) (i : LogDefine) : Option Loggers :=
  if old.find i = some i then some ls
  else (i.setUp d (ls.logger i.name)).map (fun logger => ls.insert i.name logger)

/-- One round of the loop over the old value. -/
def remove (new : LogDefines) (ls : Loggers) (i : LogDefine) : Loggers :=
  if (new.find i).isSome then ls
  else ls.insert i.name ((ls.logger i.name).setLevel .UNKNOW).clearAppenders

/-- The listener. -/
def listener (d : Bool) (old new : LogDefines) (ls : Loggers) : Option Loggers := do
  let ls ← new.defines.foldlM (configure d old) ls
  some (old.defines.foldl (remove new) ls)

/-- The variable `logs` and the loggers. -/
structure State where
  value : LogDefines
  loggers : Loggers

/-- `logs` as it is looked up, and the loggers that have been asked for by their names. -/
def start (names : List (List UInt8)) : State :=
  ⟨⟨[], .nil⟩, names.foldl Loggers.getLogger Loggers.new⟩

/-- `setValue` of the variable `logs`. -/
def setValue (d : Bool) (s : State) (v : LogDefines) : Option State :=
  (listener d s.value v s.loggers).map (fun ls => ⟨v, ls⟩)

/-- A sequence of values that are assigned. -/
def run (d : Bool) (vs : List LogDefines) (s : State) : Option State := vs.foldlM (setValue d) s

end LogIniter

end YkServer
