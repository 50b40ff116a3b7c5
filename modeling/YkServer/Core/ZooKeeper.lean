import YkServer.Core.HttpGrammar
import YkServer.Lib.Clients
import Mathlib.Data.Finset.Insert

/-!
# Nodes of ZooKeeper

The model of `existsOrCreate` of `ZKServiceDiscovery` in `yk/service_discovery.cc` and of
`exists` and `create` of `ZkClient` in `yk/zk_client.cc`. They are programs that ask a server
with `zoo_exists` and `zoo_create`, and any number of them run at once.

The server is not part of the code. A node is the text of its path, and its parent the text in
front of the last slash, or the root. Every node but the root has a parent that is there; nodes
are not deleted, and the data of a node does not matter here. A request always gets an answer.

## Main definitions

* `ZkTree`: The nodes of the server.
* `ZkTree.serve`: The answer to a request.
* `ZkClient.exists`, `ZkClient.create`, `existsOrCreate`: The programs.
-/

namespace YkServer

open Lib

/-- `find_last_of` with one character. -/
def findLastOf (c : UInt8) : List UInt8 → Option Nat
  | [] => none
  | x :: xs =>
    match findLastOf c xs with
    | some i => some (i + 1)
    | none => if x = c then some 0 else none

theorem findLastOf_lt (c : UInt8) (s : List UInt8) (i : Nat) (h : findLastOf c s = some i) :
    i < s.length := by
  induction s generalizing i with
  | nil => cases h
  | cons x xs ih =>
      rw [findLastOf] at h
      split at h
      · rename_i k hk
        cases h
        exact Nat.succ_lt_succ (ih k hk)
      · split at h
        · cases h
          exact Nat.succ_pos _
        · cases h

/-! ## The server -/

/-- The path of the root. -/
def zkRoot : List UInt8 := ascii "/"

/-- The parent of a node. -/
def zkParent (path : List UInt8) : Option (List UInt8) :=
  (findLastOf 47 path).map (fun pos => if pos = 0 then zkRoot else path.take pos)

/-- The nodes of the server. -/
structure ZkTree where
  nodes : Finset (List UInt8)
  root : zkRoot ∈ nodes
  parents : ∀ path ∈ nodes, ∃ parent ∈ nodes, zkParent path = some parent

def ZOK : Int32 := 0

def ZNONODE : Int32 := -101

def ZNODEEXISTS : Int32 := -110

inductive ZkRequest where
  | zooExists (path : List UInt8)
  | zooCreate (path : List UInt8)
  deriving DecidableEq, Repr

namespace ZkTree

/-- The server with the root only. -/
def new : ZkTree where
  nodes := {zkRoot}
  root := Finset.mem_singleton_self zkRoot
  parents := by
    intro path hpath
    rw [Finset.mem_singleton.1 hpath]
    exact ⟨zkRoot, Finset.mem_singleton_self zkRoot, rfl⟩

/-- A node whose parent is there. -/
def insert (t : ZkTree) (path parent : List UInt8) (hparent : zkParent path = some parent)
    (hthere : parent ∈ t.nodes) : ZkTree where
  nodes := Insert.insert path t.nodes
  root := Finset.mem_insert_of_mem t.root
  parents := by
    intro p hp
    rcases Finset.mem_insert.1 hp with rfl | hold
    · exact ⟨parent, Finset.mem_insert_of_mem hthere, hparent⟩
    · rcases t.parents p hold with ⟨q, hq, hpq⟩
      exact ⟨q, Finset.mem_insert_of_mem hq, hpq⟩

/-- The answer to a request. -/
def serve : ZkRequest → ZkTree → Int32 × ZkTree
  | .zooExists path, t => (if path ∈ t.nodes then ZOK else ZNONODE, t)
  | .zooCreate path, t =>
    if path ∈ t.nodes then (ZNODEEXISTS, t)
    else
      match hparent : zkParent path with
      | none => (ZNONODE, t)
      | some parent =>
        if hthere : parent ∈ t.nodes then (ZOK, t.insert path parent hparent hthere)
        else (ZNONODE, t)

end ZkTree

/-! ## The clients -/

abbrev ZkProg (α : Type) := Asking ZkRequest Int32 α

/-- `ZkClient::exists`. -/
def ZkClient.exists (path : List UInt8) : ZkProg Int32 := .ask (.zooExists path) .ret

/-- `ZkClient::create`. -/
def ZkClient.create (path : List UInt8) : ZkProg Int32 :=
  .ask (.zooExists path) (fun flag =>
    if flag = ZNONODE then .ask (.zooCreate path) .ret else .ret flag)

/-- The end of `existsOrCreate`: the node itself. -/
def createLast (path : List UInt8) : ZkProg Bool :=
  (ZkClient.create path).bind (fun v => .ret (decide (v = ZOK)))

def existsOrCreate (path : List UInt8) : ZkProg Bool :=
  (ZkClient.exists path).bind (fun v =>
    if v = ZOK then .ret true
    else
      match _h : findLastOf 47 path with
      | none => .ret false
      | some pos =>
        if pos = 0 then createLast path
        else
          (existsOrCreate (path.take pos)).bind (fun ok =>
            if ok then createLast path else .ret false))
  termination_by path.length
  decreasing_by
    rw [List.length_take]
    exact Nat.lt_of_le_of_lt (Nat.min_le_left _ _) (findLastOf_lt 47 path pos _h)

end YkServer
