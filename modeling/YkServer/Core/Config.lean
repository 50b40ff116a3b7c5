import YkServer.Core.HttpParser
import Mathlib.Data.Finmap

/-!
# Configuration

The model of `yk/config.h` and `yk/config.cc`.

The first part is one variable among threads. `setValue` runs the listeners under the
read lock, releases it, and takes the write lock to assign the value, so a call is two
steps, and other calls have their turn in between. A listener is the number of listeners
before it. What it does with the values it is given is its own, but it returns: an exception
of a listener would leave `setValue` before the assignment, and so is no step here. `heard` are
the pairs of an old and a new value it was called with, the latest first. `between` are the calls
between their two locks, in the order in which they had the first one. Neither is in the
code.

The second part is the registry. Variables have types, and `Lookup` is a template; the
types are the values of `τ` here, and `Val` says what a variable of a type holds. The
conversion from a string and the emitter of YAML are code of other libraries and are
parameters. A conversion that throws gives nothing.

## Main definitions

* `ConfigVar`, `ConfigWorld.step`: A variable, its listeners and the calls of `setValue`.
* `YamlNode`: A document.
* `Config.lookup`, `Config.lookupBase`: `Lookup` and `LookupBase`.
* `Config.listAllMember`, `Config.loadFromYaml`: Reading a document.
-/

namespace YkServer

/-! ## One variable among threads -/

/-- `ConfigVar`. -/
structure ConfigVar (T : Type) where
  val : T
  cbs : Finmap (fun _ : UInt64 => Nat)

namespace ConfigVar

variable {T : Type}

def getValue (c : ConfigVar T) : T := c.val

/-- The listeners in `m_cbs`. -/
def listeners (c : ConfigVar T) : Multiset Nat := c.cbs.entries.map Sigma.snd

/-- `addListener` with the index it has made. -/
def addListener (c : ConfigVar T) (key : UInt64) (cb : Nat) : ConfigVar T :=
  { c with cbs := c.cbs.insert key cb }

def delListener (c : ConfigVar T) (key : UInt64) : ConfigVar T :=
  { c with cbs := c.cbs.erase key }

def clearListener (c : ConfigVar T) : ConfigVar T := { c with cbs := ∅ }

end ConfigVar

/-- Where a call of `setValue` is. -/
inductive SetPos where
  /-- Before the read lock. -/
  | entered
  /-- Between the read lock and the write lock. -/
  | notified
  | returned
  deriving DecidableEq, Repr

structure SetCall (T : Type) where
  value : T
  pos : SetPos
  deriving DecidableEq, Repr

structure ConfigWorld (T : Type) where
  var : ConfigVar T
  /-- `s_fun_id`. -/
  funId : UInt64
  /-- How many listeners there have been. -/
  made : Nat
  calls : List (SetCall T)
  between : List Nat
  heard : Nat → List (T × T)

namespace ConfigWorld

variable {T : Type}

def new (default : T) : ConfigWorld T := ⟨⟨default, ∅⟩, 0, 0, [], [], fun _ => []⟩

inductive Action (T : Type) where
  | setValue (v : T)
  /-- The read lock of a call. -/
  | notify (i : Nat)
  /-- The write lock of a call. -/
  | assign (i : Nat)
  | addListener
  /-- `addListener` of another variable of the type, which shares `s_fun_id`. -/
  | addElsewhere
  | delListener (key : UInt64)
  | clearListener
  deriving DecidableEq, Repr

def step : Action T → ConfigWorld T → Option (ConfigWorld T)
  | .setValue v, w => some { w with calls := w.calls ++ [⟨v, .entered⟩] }
  | .notify i, w =>
    match w.calls[i]? with
    | some ⟨v, .entered⟩ =>
      some { w with
        calls := w.calls.set i ⟨v, .notified⟩
        between := w.between ++ [i]
        heard := fun l => if l ∈ w.var.listeners then (w.var.val, v) :: w.heard l else w.heard l }
    | _ => none
  | .assign i, w =>
    match w.calls[i]? with
    | some ⟨v, .notified⟩ =>
      some { w with
        var := { w.var with val := v }
        calls := w.calls.set i ⟨v, .returned⟩
        between := w.between.erase i }
    | _ => none
  | .addListener, w =>
    some { w with
      var := w.var.addListener (w.funId + 1) w.made
      funId := w.funId + 1
      made := w.made + 1 }
  | .addElsewhere, w => some { w with funId := w.funId + 1 }
  | .delListener key, w => some { w with var := w.var.delListener key }
  | .clearListener, w => some { w with var := w.var.clearListener }

end ConfigWorld

/-! ## The registry -/

/-- A node of a YAML document. -/
inductive YamlNode where
  | null
  | scalar (s : List UInt8)
  | sequence (items : List YamlNode)
  | map (entries : List (List UInt8 × YamlNode))

namespace Config

/-- The characters that both checks of a name let through. -/
def nameChars : List UInt8 :=
  ascii "abcdefghikjlmnopqrstuvwxyzABCDEFGHIJKLMNOPQRSTUVWXYZ._012345678"

/-- `name.find_first_not_of(nameChars) == npos`. -/
def validName (name : List UInt8) : Bool := name.all nameChars.contains

/-- `std::transform` with `::tolower`. -/
def lower (name : List UInt8) : List UInt8 := name.map toLower

section Registry

variable {τ : Type} {Val : τ → Type}

/-- `ConfigVarMap`. -/
abbrev VarMap (Val : τ → Type) := Finmap (fun _ : List UInt8 => (t : τ) × Val t)

/-- What `Lookup` with a default value is called with. -/
structure Call (Val : τ → Type) where
  name : List UInt8
  type : τ
  default : Val type

/-- `Lookup` with a default value: whether the pointer is not null, and the registry. The
    name of an `std::invalid_argument` is the other outcome. -/
def lookup [DecidableEq τ] (c : Call Val) (datas : VarMap Val) :
    Except (List UInt8) (Bool × VarMap Val) :=
  match datas.lookup c.name with
  | some var => .ok (decide (var.1 = c.type), datas)
  | none =>
    if !validName c.name then .error c.name
    else .ok (true, datas.insert c.name ⟨c.type, c.default⟩)

/-- Call after call. -/
def lookups [DecidableEq τ] : List (Call Val) → VarMap Val → Except (List UInt8) (VarMap Val)
  | [], datas => .ok datas
  | c :: cs, datas =>
    match lookup c datas with
    | .ok (_, datas') => lookups cs datas'
    | .error name => .error name

def lookupBase (datas : VarMap Val) (name : List UInt8) : Option ((t : τ) × Val t) :=
  datas.lookup name

/-- `ListAllMember` of the path below a node: `prefix.empty() ? key : prefix + "." + key`. -/
def below (path key : List UInt8) : List UInt8 := if path = [] then key else path ++ 46 :: key

mutual

/-- `ListAllMember`. -/
def listAllMember (path : List UInt8) (node : YamlNode) : List (List UInt8 × YamlNode) :=
  if !validName path then []
  else (path, node) :: match node with
    | .map entries => listMembers path entries
    | _ => []

/-- The loop of `ListAllMember`. -/
def listMembers (path : List UInt8) :
    List (List UInt8 × YamlNode) → List (List UInt8 × YamlNode)
  | [] => []
  | (key, node) :: rest => listAllMember (below path key) node ++ listMembers path rest

end

variable (fromStr : (t : τ) → List UInt8 → Option (Val t)) (emit : YamlNode → List UInt8)

/-- `ConfigVar::fromString`: what it returns, and the variable. -/
def fromString (var : (t : τ) × Val t) (val : List UInt8) : Bool × (t : τ) × Val t :=
  match fromStr var.1 val with
  | some v => (false, ⟨var.1, v⟩)
  | none => (false, var)

/-- The string a variable is given for a node. -/
def nodeString : YamlNode → List UInt8
  | .scalar s => s
  | node => emit node

/-- One round of the loop of `LoadFromYaml`. -/
def loadNode (datas : VarMap Val) (i : List UInt8 × YamlNode) : VarMap Val :=
  if i.1 = [] then datas
  else
    match lookupBase datas (lower i.1) with
    | some var => datas.insert (lower i.1) (fromString fromStr var (nodeString emit i.2)).2
    | none => datas

def loadFromYaml (root : YamlNode) (datas : VarMap Val) : VarMap Val :=
  (listAllMember [] root).foldl (loadNode fromStr emit) datas

end Registry

end Config

end YkServer
