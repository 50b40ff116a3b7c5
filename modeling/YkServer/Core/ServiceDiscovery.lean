import YkServer.Core.HttpGrammar
import YkServer.Lib.Grouping
import YkServer.Lib.Prog

/-!
# Service Discovery

The model of `getChildren` of `ZKServiceDiscovery` in `yk/service_discovery.cc`, with
`ServiceItemInfo::Create` and `ZkClient::getChildren` of `yk/zk_client.cc`.

The answer of `zoo_get_children` is an argument: a code other than `ZOK`, or the names of the
children. `inet_addr` is a parameter. `m_cb` may be empty, and then calling it throws.
`told` are the calls it has had; they are not in the code.

## Main definitions

* `stoi`, `getlines`: What the standard library does with the texts.
* `ServiceItemInfo.create`: The name of a child.
* `ServiceDiscovery`: The tables.
* `ServiceDiscovery.getChildren`: The update of an entry.
-/

namespace YkServer

open Lib

/-! ## Texts -/

/-- The characters `isspace` knows. -/
def isSpace (c : UInt8) : Bool := c == 32 || (9 ≤ c && c ≤ 13)

def isDigit (c : UInt8) : Bool := 48 ≤ c && c ≤ 57

/-- The number the digits of a text stand for. -/
def decimal (digits : List UInt8) : Nat :=
  digits.foldl (fun n c => n * 10 + (c.toNat - 48)) 0

/-- The digits at the front of a text, as a number, unless there are none. -/
def leading (s : List UInt8) : Option Nat :=
  if s.takeWhile isDigit = [] then none else some (decimal (s.takeWhile isDigit))

/-- `std::stoi`, which throws when there is no number or it is no `int`. -/
def stoi (s : List UInt8) : Option Int :=
  let value : Option Int :=
    match s.dropWhile isSpace with
    | 45 :: digits => (leading digits).map (fun n => -(n : Int))
    | 43 :: digits => (leading digits).map (fun n => (n : Int))
    | digits => (leading digits).map (fun n => (n : Int))
  value.filter (fun v => -2 ^ 31 ≤ v ∧ v < 2 ^ 31)

/-- The loop over `std::getline`: the parts of a text, without an empty one at the end. -/
def getlines (delim : UInt8) : List UInt8 → List UInt8 → List (List UInt8)
  | line, [] => if line = [] then [] else [line]
  | line, c :: cs =>
    if c = delim then line :: getlines delim [] cs else getlines delim (line ++ [c]) cs

/-- `ParseDomainService`. -/
def parseDomainService (path : List UInt8) : Option (List UInt8 × List UInt8) :=
  match getlines 47 [] path with
  | [_, _, domain, service, _] => some (domain, service)
  | _ => none

/-! ## Children -/

structure ServiceItemInfo where
  id : UInt64
  port : UInt16
  ip : List UInt8
  data : List UInt8
  deriving DecidableEq, Repr

variable (inetAddr : List UInt8 → UInt32)

/-- `ServiceItemInfo::Create`, which throws where `stoi` does, or returns a null pointer. -/
def ServiceItemInfo.create (ipAndPort data : List UInt8) : Except Unit (Option ServiceItemInfo) :=
  match ipAndPort.dropWhile (· ≠ 58) with
  | [] => .ok none
  | _ :: rest =>
    let ip := ipAndPort.takeWhile (· ≠ 58)
    match stoi rest with
    | none => .error ()
    | some port =>
      if inetAddr ip = 0 then .ok none
      else
        .ok (some {
          id := ((inetAddr ip).toUInt64 <<< 32) ||| UInt64.ofInt port
          port := UInt16.ofInt port
          ip := ip
          data := data })

/-- The answer of `zoo_get_children`. -/
abbrev Listing := Except Int32 (List (List UInt8))

/-- `ZkClient::getChildren`. -/
def ZkClient.getChildren (listing : Listing) (childrens : List (List UInt8)) :
    List (List UInt8) :=
  match listing with
  | .error _ => childrens
  | .ok names => childrens ++ names

/-- The items of a service by their id. -/
abbrev ServiceItems := Finmap (fun _ : UInt64 => ServiceItemInfo)

/-- The loop of `getChildren`. -/
def itemInfos : List (List UInt8) → ServiceItems → Except Unit ServiceItems
  | [], infos => .ok infos
  | val :: vals, infos =>
    match ServiceItemInfo.create inetAddr val [] with
    | .error e => .error e
    | .ok none => itemInfos vals infos
    | .ok (some info) => itemInfos vals (infos.insert info.id info)

/-! ## The tables -/

/-- A call of `m_cb`. -/
structure ServiceChange where
  domain : List UInt8
  service : List UInt8
  oldValue : ServiceItems
  newValue : ServiceItems
  deriving DecidableEq

structure ServiceDiscovery where
  datas : Finmap (fun _ : List UInt8 => Finmap (fun _ : List UInt8 => ServiceItems))
  queryInfos : Finmap (fun _ : List UInt8 => Finset (List UInt8))
  /-- Whether there is an `m_cb`. -/
  cb : Bool
  told : List ServiceChange

/-- What `getChildren` can throw. -/
inductive ServiceError where
  | stoi
  | badFunctionCall
  deriving DecidableEq, Repr

namespace ServiceDiscovery

/-- The checks of `getChildren`: the domain and the service of a path that is queried. -/
def queried (s : ServiceDiscovery) (path : List UInt8) : Option (List UInt8 × List UInt8) :=
  match parseDomainService path with
  | none => none
  | some (domain, service) =>
    match s.queryInfos.lookup domain with
    | none => none
    | some services =>
      if service ∉ services ∧ ascii "all" ∉ services then none else some (domain, service)

/-- `m_datas[domain][service]`. -/
def items (s : ServiceDiscovery) (domain service : List UInt8) : ServiceItems :=
  ((group s.datas domain).lookup service).getD ∅

/-- `m_cb(domain, service, old_value, new_value)`. -/
def callCb (change : ServiceChange) : Prog ServiceError ServiceDiscovery Unit := do
  let s ← Prog.get
  if s.cb then Prog.modify (fun s => { s with told := s.told ++ [change] })
  else Prog.raise .badFunctionCall

def getChildren (path : List UInt8) (listing : Listing) :
    Prog ServiceError ServiceDiscovery Bool := do
  let s ← Prog.get
  match s.queried path with
  | none => pure false
  | some (domain, service) =>
    let vals := ZkClient.getChildren listing []
    match itemInfos inetAddr vals ∅ with
    | .error _ => Prog.raise .stoi
    | .ok infos =>
      let newVals := infos
      let s ← Prog.get
      Prog.modify (fun s => { s with datas := putIn s.datas domain service infos })
      callCb ⟨domain, service, s.items domain service, newVals⟩
      pure true

end ServiceDiscovery

end YkServer
