import YkServer.Core.Config
import YkServer.Core.LogFormatter

/-!
# Log Definitions

The model of `LogAppenderDefine`, `LogDefine` and their two conversions in `yk/log.cc`. The
writer makes a node and prints it, the reader loads a node and takes it apart. `emit` and
`load` are those of the YAML library. A node of that library that is asked for a key is a
map, or is made one; only a scalar refuses. A string is read from a scalar only.

## Main definitions

* `LogDefine.toYaml`: The node that is printed.
* `LogDefine.ofYaml`: What is read from a node.
* `LogDefine.castToString`, `LogDefine.castFromString`: The conversions.
-/

namespace YkServer

/-- `LogAppenderDefine`. The type is 1 for a file and 2 for the standard output. -/
structure LogAppenderDefine where
  type : Int := 0
  level : LogLevel := .UNKNOW
  formatter : List UInt8 := []
  file : List UInt8 := []
  deriving DecidableEq, Repr

/-- `LogDefine`. -/
structure LogDefine where
  name : List UInt8
  level : LogLevel := .UNKNOW
  formatter : List UInt8 := []
  appenders : List LogAppenderDefine := []
  deriving DecidableEq, Repr

/-- What a conversion throws: an `std::logic_error`, or an exception of the YAML library. -/
inductive CastError where
  | logicError (what : List UInt8)
  | yaml
  deriving DecidableEq, Repr

namespace YamlNode

/-- `n[key]`, if it is defined. -/
def field (key : List UInt8) : YamlNode → Except CastError (Option YamlNode)
  | .map entries => .ok (entries.lookup key)
  | .scalar _ => .error .yaml
  | _ => .ok none

/-- `n.as<std::string>()`. -/
def asString : YamlNode → Except CastError (List UInt8)
  | .scalar s => .ok s
  | _ => .error .yaml

/-- `n[key].as<std::string>()`, if `n[key]` is defined. -/
def stringField (key : List UInt8) (n : YamlNode) : Except CastError (Option (List UInt8)) := do
  match ← n.field key with
  | none => .ok none
  | some v => some <$> v.asString

/-- `n[x]` for every `x` below `n.size()`. -/
def elements : YamlNode → List YamlNode
  | .sequence items => items
  | .map entries =>
    (List.range entries.length).map (fun x => (entries.lookup (printed x)).getD .null)
  | _ => []

end YamlNode

namespace LogAppenderDefine

def typeEntries (a : LogAppenderDefine) : List (List UInt8 × YamlNode) :=
  if a.type = 1 then
    [(ascii "type", .scalar (ascii "FileLogAppender")), (ascii "file", .scalar a.file)]
  else if a.type = 2 then [(ascii "type", .scalar (ascii "StdoutLogAppender"))]
  else []

def levelEntry (level : LogLevel) : List (List UInt8 × YamlNode) :=
  if level ≠ .UNKNOW then [(ascii "level", .scalar level.toString)] else []

def formatterEntry (formatter : List UInt8) : List (List UInt8 × YamlNode) :=
  if formatter ≠ [] then [(ascii "formatter", .scalar formatter)] else []

/-- The node `na`. One that has been given nothing is null. -/
def toYaml (a : LogAppenderDefine) : YamlNode :=
  match a.typeEntries ++ levelEntry a.level ++ formatterEntry a.formatter with
  | [] => .null
  | entries => .map entries

/-- One round of the loop of the reader: the define it adds. -/
def ofYaml (a : YamlNode) : Except CastError (Option LogAppenderDefine) := do
  match ← a.stringField (ascii "type") with
  | none => .ok none
  | some type =>
    if type = ascii "FileLogAppender" then
      match ← a.stringField (ascii "file") with
      | none => .ok none
      | some file => do
        let formatter ← a.stringField (ascii "formatter")
        .ok (some { type := 1, file := file, formatter := formatter.getD [] })
    else if type = ascii "StdoutLogAppender" then do
      let formatter ← a.stringField (ascii "formatter")
      .ok (some { type := 2, formatter := formatter.getD [] })
    else .ok none

/-- The loop of the reader. -/
def readAll : List YamlNode → Except CastError (List LogAppenderDefine)
  | [] => .ok []
  | a :: rest => do
    let lad ← ofYaml a
    let lads ← readAll rest
    .ok (lad.toList ++ lads)

end LogAppenderDefine

namespace LogDefine

open LogAppenderDefine

def appendersEntry : List LogAppenderDefine → List (List UInt8 × YamlNode)
  | [] => []
  | as => [(ascii "appenders", .sequence (as.map LogAppenderDefine.toYaml))]

/-- The node `n` of the writer. -/
def toYaml (i : LogDefine) : YamlNode :=
  .map ((ascii "name", .scalar i.name) :: (levelEntry i.level ++ formatterEntry i.formatter
    ++ appendersEntry i.appenders))

/-- What the reader makes of a node. -/
def ofYaml (n : YamlNode) : Except CastError LogDefine := do
  match ← n.stringField (ascii "name") with
  | none => .error (.logicError (ascii "log config name is null"))
  | some name => do
    let level ← n.stringField (ascii "level")
    let formatter ← n.stringField (ascii "formatter")
    let appenders ← n.field (ascii "appenders")
    let lads ← readAll ((appenders.map YamlNode.elements).getD [])
    .ok ⟨name, LogLevel.fromString (level.getD []), formatter.getD [], lads⟩

/-- `LexicalCast<LogDefine, std::string>`. -/
def castToString (emit : YamlNode → List UInt8) (i : LogDefine) : List UInt8 := emit i.toYaml

/-- `LexicalCast<std::string, LogDefine>`. -/
def castFromString (load : List UInt8 → Option YamlNode) (v : List UInt8) :
    Except CastError LogDefine :=
  match load v with
  | some n => ofYaml n
  | none => .error .yaml

end LogDefine

end YkServer
