import YkServer.Core.ServiceDiscovery
import YkServer.Core.ZooKeeper

/-!
# Queries for Services

The model of `queryInfo` and `queryData` of `ZKServiceDiscovery` in
`yk/service_discovery.cc`. The service `all` stands for every child of the domain, and
a query for it queries every child.

Both call themselves, and how often is up to the registry, so they have a bound on how deep
the calls go, and hang when it runs out. The registry is `ZkTree`, and what
`zoo_get_children` answers is a parameter, as the order of the names is up to the server.
`visited` are the children that the loops have come to; they are not in the code.

## Main definitions

* `ServiceQuery`: What the queries work on.
* `ServiceQuery.queryInfo`: Registering as a consumer.
* `ServiceQuery.queryData`: Asking for the providers.
-/

namespace YkServer

open Lib

def getProvidersPath (domain service : List UInt8) : List UInt8 :=
  ascii "/yk/" ++ domain ++ ascii "/" ++ service ++ ascii "/providers"

def getConsumersPath (domain service : List UInt8) : List UInt8 :=
  ascii "/yk/" ++ domain ++ ascii "/" ++ service ++ ascii "/consumers"

def getDomainPath (domain : List UInt8) : List UInt8 := ascii "/yk/" ++ domain

/-- The registry and the tables. -/
structure ServiceQuery where
  tree : ZkTree
  discovery : ServiceDiscovery
  visited : List (List UInt8)

namespace ServiceQuery

variable (zooGetChildren : ZkTree → List UInt8 → Listing)
variable (inetAddr : List UInt8 → UInt32)

/-- A program that asks the registry. -/
def registry {α : Type} (p : ZkProg α) : Prog ServiceError ServiceQuery α := fun s =>
  .ok (p.alone ZkTree.serve s.tree).1 { s with tree := (p.alone ZkTree.serve s.tree).2 }

/-- A program on the tables. -/
def tables {α : Type} (m : Prog ServiceError ServiceDiscovery α) :
    Prog ServiceError ServiceQuery α := fun s =>
  match m s.discovery with
  | .ok a d => .ok a { s with discovery := d }
  | .throw e d => .throw e { s with discovery := d }
  | .fault => .fault
  | .hang => .hang

/-- A loop comes to a child. -/
def visit (i : List UInt8) (s : ServiceQuery) : ServiceQuery :=
  { s with visited := s.visited ++ [i] }

/-- The loop over the children. -/
def visitAll (query : List UInt8 → Prog ServiceError ServiceQuery Bool) :
    List (List UInt8) → Bool → Prog ServiceError ServiceQuery Bool
  | [], rt => pure rt
  | i :: children, rt => do
    Prog.modify (visit i)
    let v ← query i
    -- `rt &= query(domain, i)`
    visitAll query children (rt && v)

/-- `queryInfo` for a service that is not `all`. -/
def registerConsumer (selfInfo domain service : List UInt8) :
    Prog ServiceError ServiceQuery Bool := do
  let path := getConsumersPath domain service
  let v ← registry (existsOrCreate path)
  if !v then return false
  else if selfInfo.isEmpty then return false
  else
    let rt ← registry (ZkClient.create (path ++ ascii "/" ++ selfInfo))
    if rt = ZOK then return true
    else return decide (rt = ZNODEEXISTS)

def queryInfo (selfInfo domain : List UInt8) :
    Nat → List UInt8 → Prog ServiceError ServiceQuery Bool
  | 0, _ => fun _ => .hang
  | depth + 1, service =>
    if service ≠ ascii "all" then registerConsumer selfInfo domain service
    else do
      let s ← Prog.get
      let children := ZkClient.getChildren (zooGetChildren s.tree (getDomainPath domain)) []
      visitAll (queryInfo selfInfo domain depth) children true

/-- `queryData` for a service that is not `all`. -/
def updateProviders (domain service : List UInt8) : Prog ServiceError ServiceQuery Bool := do
  let path := getProvidersPath domain service
  let s ← Prog.get
  tables (ServiceDiscovery.getChildren inetAddr path (zooGetChildren s.tree path))

def queryData (domain : List UInt8) : Nat → List UInt8 → Prog ServiceError ServiceQuery Bool
  | 0, _ => fun _ => .hang
  | depth + 1, service =>
    if service ≠ ascii "all" then updateProviders zooGetChildren inetAddr domain service
    else do
      let s ← Prog.get
      let children := ZkClient.getChildren (zooGetChildren s.tree (getDomainPath domain)) []
      visitAll (queryData domain depth) children true

end ServiceQuery

end YkServer
