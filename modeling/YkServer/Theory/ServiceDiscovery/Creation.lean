import YkServer.Core.ZooKeeper

/-!
# Clients that Create Paths

Between the request that finds a node missing and the request that creates it, another client may
create it. The server says so, and `existsOrCreate` takes this for a failure, although the node is
there. Where it does not happen the calls do what they are for: nodes do not go away, so what
a call has seen or made stays while the others are at work.

## Main definitions

* `ZkTree.Present`: A path with all its ancestors.
* `ZkTree.Fresh`: A node that is created is not there yet.
* `Brittle`: A program that fails when a node it creates is there.
* `ZkWorld.Creating`: What holds as long as no such node is there.

## Theorems

* `present_of_mem`: The ancestors of a node are there.
* `existsOrCreate_meets`: What a call achieves among others.
* `existsOrCreate_within`: A call asks three times for each slash at most.
* `existsOrCreate_brittle`: A call that comes too late fails.
* `creation_iff`: Runs in which all calls succeed.
-/

namespace YkServer

open Lib

/-! ## Paths -/

theorem findLastOf_isSome (c : UInt8) (s : List UInt8) (h : c ∈ s) :
    ∃ i, findLastOf c s = some i := by
  induction s with
  | nil => cases h
  | cons x xs ih =>
      rw [findLastOf]
      rcases hxs : findLastOf c xs with _ | i
      · rcases List.mem_cons.1 h with rfl | hrest
        · exact ⟨0, by simp⟩
        · rcases ih hrest with ⟨i, hi⟩
          rw [hxs] at hi
          cases hi
      · exact ⟨i + 1, rfl⟩

theorem findLastOf_eq_some (c : UInt8) (s : List UInt8) (i : Nat) (h : findLastOf c s = some i) :
    s[i]? = some c ∧ ∀ j, s[j]? = some c → j ≤ i := by
  induction s generalizing i with
  | nil => cases h
  | cons x xs ih =>
      rw [findLastOf] at h
      split at h
      · rename_i k hk
        cases h
        refine ⟨(ih k hk).1, ?_⟩
        intro j hj
        cases j with
        | zero => exact Nat.zero_le _
        | succ j => exact Nat.succ_le_succ ((ih k hk).2 j hj)
      · rename_i hnone
        split at h
        · rename_i hx
          cases h
          refine ⟨congrArg some hx, ?_⟩
          intro j hj
          cases j with
          | zero => exact Nat.le_refl 0
          | succ j =>
              rcases findLastOf_isSome c xs (List.mem_of_getElem? hj) with ⟨k, hk⟩
              rw [hnone] at hk
              cases hk
        · cases h

namespace ZkTree

/-- A path with all its ancestors. -/
structure Present (t : ZkTree) (path : List UInt8) : Prop where
  root : zkRoot ∈ t.nodes
  ancestors : ∀ i, 0 < i → path[i]? = some 47 → path.take i ∈ t.nodes
  self : path ∈ t.nodes

/-- A node is there with its ancestors. -/
theorem present_of_mem (t : ZkTree) (path : List UInt8) (h : path ∈ t.nodes) : t.Present path := by
  refine ⟨t.root, ?_, h⟩
  intro i hi hslash
  induction hn : path.length using Nat.strong_induction_on generalizing path with
  | _ n ih =>
      rcases t.parents path h with ⟨parent, hparent, hpath⟩
      rw [zkParent, Option.map_eq_some_iff] at hpath
      rcases hpath with ⟨pos, hpos, rfl⟩
      have hle := (findLastOf_eq_some 47 path pos hpos).2 i hslash
      rw [if_neg (by omega)] at hparent
      by_cases heq : i = pos
      · rw [heq]
        exact hparent
      · -- It is an ancestor of the parent.
        have hlt : i < pos := by omega
        have hlength := findLastOf_lt 47 path pos hpos
        have htake : (path.take pos)[i]? = some 47 := by
          rw [List.getElem?_take_of_lt hlt]
          exact hslash
        have hrec := ih (path.take pos).length (by rw [List.length_take]; omega) (path.take pos)
          hparent htake rfl
        rw [List.take_take, Nat.min_eq_left (Nat.le_of_lt hlt)] at hrec
        exact hrec

/-- Nodes come and do not go. -/
def Grows (t t' : ZkTree) : Prop := t.nodes ⊆ t'.nodes

theorem grows_refl (t : ZkTree) : t.Grows t := Finset.Subset.refl t.nodes

theorem grows_trans (t₁ t₂ t₃ : ZkTree) (h₁ : t₁.Grows t₂) (h₂ : t₂.Grows t₃) : t₁.Grows t₃ :=
  Finset.Subset.trans h₁ h₂

theorem grows_serve (q : ZkRequest) (t : ZkTree) : t.Grows (serve q t).2 := by
  cases q with
  | zooExists path => exact grows_refl t
  | zooCreate path =>
      rw [serve]
      split
      · exact grows_refl t
      · split
        · exact grows_refl t
        · split
          · exact Finset.subset_insert _ _
          · exact grows_refl t

theorem serve_exists_of_mem (t : ZkTree) (path : List UInt8) (h : path ∈ t.nodes) :
    serve (.zooExists path) t = (ZOK, t) := by
  rw [serve, if_pos h]

theorem serve_exists_of_notMem (t : ZkTree) (path : List UInt8) (h : path ∉ t.nodes) :
    serve (.zooExists path) t = (ZNONODE, t) := by
  rw [serve, if_neg h]

theorem serve_create_of_mem (t : ZkTree) (path : List UInt8) (h : path ∈ t.nodes) :
    serve (.zooCreate path) t = (ZNODEEXISTS, t) := by
  rw [serve, if_pos h]

theorem serve_create (t : ZkTree) (path parent : List UInt8) (h : path ∉ t.nodes)
    (hparent : zkParent path = some parent) (hthere : parent ∈ t.nodes) :
    serve (.zooCreate path) t = (ZOK, t.insert path parent hparent hthere) := by
  rw [serve, if_neg h]
  split
  · rename_i hnone
    rw [hparent] at hnone
    cases hnone
  · rename_i parent' hparent'
    have heq : parent' = parent := Option.some.inj (hparent'.symm.trans hparent)
    subst heq
    rw [dif_pos hthere]

/-- A node that is created is not there yet. -/
def Fresh : ZkRequest → ZkTree → Prop
  | .zooExists _, _ => True
  | .zooCreate path, t => path ∉ t.nodes

instance (q : ZkRequest) (t : ZkTree) : Decidable (Fresh q t) :=
  match q with
  | .zooExists _ => inferInstanceAs (Decidable True)
  | .zooCreate path => inferInstanceAs (Decidable (path ∉ t.nodes))

end ZkTree

/-! ## What a call achieves -/

theorem znonode_ne_zok : ZNONODE ≠ ZOK := by decide

theorem existsOrCreate_eq (path : List UInt8) :
    existsOrCreate path = .ask (.zooExists path) (fun v =>
      if v = ZOK then .ret true
      else
        match findLastOf 47 path with
        | none => .ret false
        | some pos =>
          if pos = 0 then createLast path
          else
            (existsOrCreate (path.take pos)).bind (fun ok =>
              if ok then createLast path else .ret false)) := by
  rw [existsOrCreate, ZkClient.exists, Asking.bind]
  refine congrArg _ (funext ?_)
  intro v
  rw [Asking.bind]
  split
  · rfl
  · split <;> simp_all

theorem createLast_eq (path : List UInt8) :
    createLast path = .ask (.zooExists path) (fun flag =>
      if flag = ZNONODE then .ask (.zooCreate path) (fun v => .ret (decide (v = ZOK)))
      else .ret (decide (flag = ZOK))) := by
  rw [createLast, ZkClient.create, Asking.bind]
  refine congrArg _ (funext ?_)
  intro flag
  split
  · rfl
  · rfl

/-- The node itself, when its parent is there. -/
theorem createLast_meets (path parent : List UInt8) (hparent : zkParent path = some parent)
    (t : ZkTree) (hthere : parent ∈ t.nodes) :
    (createLast path).Meets ZkTree.serve ZkTree.Grows ZkTree.Fresh
      (fun ok t => ok = true ∧ path ∈ t.nodes) t := by
  rw [createLast_eq]
  intro t₁ hgrows₁ _
  by_cases hpath : path ∈ t₁.nodes
  · rw [t₁.serve_exists_of_mem path hpath]
    exact ⟨rfl, hpath⟩
  · rw [t₁.serve_exists_of_notMem path hpath]
    simp only [if_true]
    intro t₂ hgrows₂ hfresh
    have hthere₂ : parent ∈ t₂.nodes := hgrows₂ (hgrows₁ hthere)
    rw [t₂.serve_create path parent hfresh hparent hthere₂]
    exact ⟨rfl, Finset.mem_insert_self _ _⟩

/-- Whatever the others do in the meantime, a call returns true and leaves its node behind, if no
    node it creates is there when its request arrives. -/
theorem existsOrCreate_meets (path : List UInt8) (habsolute : path.head? = some 47) (t : ZkTree) :
    (existsOrCreate path).Meets ZkTree.serve ZkTree.Grows ZkTree.Fresh
      (fun ok t => ok = true ∧ path ∈ t.nodes) t := by
  induction hn : path.length using Nat.strong_induction_on generalizing path t with
  | _ n ih =>
      rw [existsOrCreate_eq]
      intro t₁ _ _
      by_cases hpath : path ∈ t₁.nodes
      · rw [t₁.serve_exists_of_mem path hpath]
        exact ⟨rfl, hpath⟩
      · rw [t₁.serve_exists_of_notMem path hpath]
        simp only [if_neg znonode_ne_zok]
        rcases findLastOf_isSome 47 path (List.mem_of_mem_head? habsolute) with ⟨pos, hpos⟩
        have hparent : zkParent path = some (if pos = 0 then zkRoot else path.take pos) := by
          rw [zkParent, hpos, Option.map_some]
        rw [hpos]
        simp only
        by_cases hzero : pos = 0
        · rw [if_pos hzero] at hparent
          rw [if_pos hzero]
          exact createLast_meets path zkRoot hparent t₁ t₁.root
        · rw [if_neg hzero] at hparent
          rw [if_neg hzero]
          have hlt := findLastOf_lt 47 path pos hpos
          have hhead : (path.take pos).head? = some 47 := by
            rw [List.head?_take, if_neg hzero]
            exact habsolute
          refine Asking.meets_bind _ _ t₁ ?_
          refine Asking.meets_weaken ?_ (existsOrCreate (path.take pos)) t₁
            (ih (path.take pos).length (by rw [List.length_take]; omega) (path.take pos) hhead t₁
              rfl)
          rintro ok t₂ ⟨hok, hthere⟩
          rw [hok, if_pos rfl]
          exact createLast_meets path _ hparent t₂ hthere

/-! ## How often a call asks -/

theorem createLast_within (path : List UInt8) : (createLast path).Within 2 := by
  rw [createLast_eq]
  intro flag
  beta_reduce
  split
  · intro v
    trivial
  · trivial

theorem existsOrCreate_within (path : List UInt8) :
    (existsOrCreate path).Within (3 * path.length + 1) := by
  induction hn : path.length using Nat.strong_induction_on generalizing path with
  | _ n ih =>
      rw [existsOrCreate_eq]
      intro v
      beta_reduce
      split
      · trivial
      · split
        · trivial
        · rename_i pos hpos
          have hlt := findLastOf_lt 47 path pos hpos
          split
          · have hlast := Asking.within_add 2 (3 * n - 2) _ (createLast_within path)
            rw [show 2 + (3 * n - 2) = 3 * n by omega] at hlast
            exact hlast
          · have hlength : (path.take pos).length = pos := by
              rw [List.length_take]
              omega
            have hparent := ih pos (by omega) (path.take pos) hlength
            have hboth := Asking.within_bind (3 * pos + 1) 2 _
              (fun ok => if ok then createLast path else .ret false) hparent ?_
            · have hmore := Asking.within_add _ (3 * n - (3 * pos + 3)) _ hboth
              rw [show 3 * pos + 1 + 2 + (3 * n - (3 * pos + 3)) = 3 * n by omega] at hmore
              exact hmore
            · intro ok
              split
              · exact createLast_within path
              · trivial

/-! ## Calls that come too late -/

/-- A program that fails at once when a node it creates is there. -/
def Brittle : ZkProg Bool → Prop
  | .ret _ => True
  | .ask q k => (∀ path, q = .zooCreate path → k ZNODEEXISTS = .ret false) ∧ ∀ v, Brittle (k v)

theorem brittle_bind (p : ZkProg Bool) (f : Bool → ZkProg Bool) (hp : Brittle p)
    (hfalse : f false = .ret false) (hf : ∀ ok, Brittle (f ok)) : Brittle (p.bind f) := by
  induction p with
  | ret ok => exact hf ok
  | ask q k ih =>
      refine ⟨?_, fun v => ih v (hp.2 v)⟩
      intro path hq
      beta_reduce
      rw [hp.1 path hq]
      exact hfalse

theorem createLast_brittle (path : List UInt8) : Brittle (createLast path) := by
  rw [createLast_eq]
  refine ⟨?_, ?_⟩
  · intro path' hq
    cases hq
  · intro flag
    beta_reduce
    split
    · exact ⟨fun _ _ => rfl, fun _ => trivial⟩
    · trivial

theorem existsOrCreate_brittle (path : List UInt8) : Brittle (existsOrCreate path) := by
  induction hn : path.length using Nat.strong_induction_on generalizing path with
  | _ n ih =>
      rw [existsOrCreate_eq]
      refine ⟨?_, ?_⟩
      · intro path' hq
        cases hq
      · intro v
        beta_reduce
        split
        · trivial
        · split
          · trivial
          · rename_i pos hpos
            have hlt := findLastOf_lt 47 path pos hpos
            split
            · exact createLast_brittle path
            · refine brittle_bind _ _ (ih _ (by rw [List.length_take]; omega) _ rfl) rfl ?_
              intro ok
              split
              · exact createLast_brittle path
              · trivial

/-! ## Runs -/

/-- The server and the calls. -/
abbrev ZkWorld := Server ZkTree ZkRequest Int32 Bool

namespace ZkWorld

/-- The calls have begun and have not asked for anything yet. -/
def start (t : ZkTree) (paths : List (List UInt8)) : ZkWorld := ⟨t, paths.map existsOrCreate⟩

/-- A call that returns returns true and leaves its path behind. -/
def Creates (paths : List (List UInt8)) (i : Nat) (ok : Bool) (t : ZkTree) : Prop :=
  ok = true ∧ ∀ path, paths[i]? = some path → path ∈ t.nodes

/-- What holds as long as no node is there when it is created. -/
structure Creating (paths : List (List UInt8)) (w : ZkWorld) : Prop where
  achieves : w.Achieves ZkTree.serve ZkTree.Grows ZkTree.Fresh (Creates paths)
  brittle : ∀ p ∈ w.clients, Brittle p
  length : w.clients.length = paths.length

theorem creating_start (t : ZkTree) (paths : List (List UInt8))
    (habsolute : ∀ path ∈ paths, path.head? = some 47) : Creating paths (start t paths) := by
  refine ⟨?_, ?_, List.length_map _⟩
  · intro i p hi
    simp only [start, List.getElem?_map, Option.map_eq_some_iff] at hi
    rcases hi with ⟨path, hpath, rfl⟩
    refine Asking.meets_weaken ?_ _ t
      (existsOrCreate_meets path (habsolute path (List.mem_of_getElem? hpath)) t)
    rintro ok t' ⟨hok, hthere⟩
    refine ⟨hok, ?_⟩
    intro path' hpath'
    rw [hpath, Option.some.injEq] at hpath'
    rw [← hpath']
    exact hthere
  · intro p hp
    rcases List.mem_map.1 hp with ⟨path, -, rfl⟩
    exact existsOrCreate_brittle path

theorem step_creating (paths : List (List UInt8)) (w w' : ZkWorld) (i : Nat) (h : Creating paths w)
    (hfresh : w.Grants ZkTree.Fresh i) (hstep : Server.step ZkTree.serve i w = some w') :
    Creating paths w' := by
  refine ⟨?_, ?_, ?_⟩
  · refine Server.step_meets ZkTree.grows_refl ZkTree.grows_trans ?_ ZkTree.grows_serve i w w'
      h.achieves hfresh hstep
    rintro j ok t t' hgrows ⟨hok, hthere⟩
    exact ⟨hok, fun path hpath => hgrows (hthere path hpath)⟩
  · rcases Server.step_eq_some i w w' hstep with ⟨q, k, hi, rfl⟩
    intro p hp
    rcases List.mem_or_eq_of_mem_set hp with hold | rfl
    · exact h.brittle p hold
    · exact (h.brittle _ (List.mem_of_getElem? hi)).2 _
  · rcases Server.step_eq_some i w w' hstep with ⟨q, k, -, rfl⟩
    simp only [List.length_set]
    exact h.length

/-- A call that came too late. -/
def Late (paths : List (List UInt8)) (w : ZkWorld) : Prop :=
  ∃ i, i < paths.length ∧ w.clients[i]? = some (.ret false)

theorem step_late_of_not_fresh (paths : List (List UInt8)) (w w' : ZkWorld) (i : Nat)
    (h : Creating paths w) (hfresh : ¬w.Grants ZkTree.Fresh i)
    (hstep : Server.step ZkTree.serve i w = some w') : Late paths w' := by
  rcases Server.step_eq_some i w w' hstep with ⟨q, k, hi, rfl⟩
  have hthere : ¬ZkTree.Fresh q w.state := by
    intro hq
    refine hfresh ?_
    intro q' k' hi'
    rw [hi, Option.some.injEq, Asking.ask.injEq] at hi'
    rw [← hi'.1]
    exact hq
  cases q with
  | zooExists path => exact absurd trivial hthere
  | zooCreate path =>
      have hlt := (List.getElem?_eq_some_iff.1 hi).1
      rw [h.length] at hlt
      refine ⟨i, hlt, ?_⟩
      have hfails := (h.brittle _ (List.mem_of_getElem? hi)).1 path rfl
      simp only [ZkTree.Fresh, not_not] at hthere
      simp only [ZkTree.serve_create_of_mem w.state path hthere, hfails]
      rw [getElem?_update w.clients i _ _ hi, if_pos rfl]

theorem step_late (paths : List (List UInt8)) (w w' : ZkWorld) (i : Nat) (h : Late paths w)
    (hstep : Server.step ZkTree.serve i w = some w') : Late paths w' := by
  rcases Server.step_eq_some i w w' hstep with ⟨q, k, hi, rfl⟩
  rcases h with ⟨j, hlt, hj⟩
  refine ⟨j, hlt, ?_⟩
  simp only
  rw [getElem?_update w.clients i _ _ hi, if_neg ?_]
  · exact hj
  · rintro rfl
    rw [hi] at hj
    cases hj

/-- For any absolute paths, any tree and any order of the requests: a call has at most so many
    requests answered, and until it has returned the next one can be; and all calls that have
    returned have returned true, with their paths and all ancestors there, exactly if no node was
    there when it was created. -/
theorem creation_iff (paths : List (List UInt8))
    (habsolute : ∀ path ∈ paths, path.head? = some 47) (t : ZkTree) (as : List Nat) (w : ZkWorld)
    (hrun : run (Server.step ZkTree.serve) as (start t paths) = some w) :
    (∀ (i : Nat) (path : List UInt8), paths[i]? = some path → as.count i ≤ 3 * path.length + 1 ∧
      ((∃ ok, w.clients[i]? = some (.ret ok)) ∨ (Server.step ZkTree.serve i w).isSome = true)) ∧
    ((∀ (i : Nat) (path : List UInt8) (ok : Bool), paths[i]? = some path →
        w.clients[i]? = some (.ret ok) → ok = true ∧ w.state.Present path) ↔
      Along (Server.step ZkTree.serve) (Server.Grants ZkTree.Fresh) as (start t paths)) := by
  refine ⟨?_, ?_⟩
  · intro i path hpath
    have hi : (start t paths).clients[i]? = some (existsOrCreate path) := by
      simp only [start, List.getElem?_map, hpath, Option.map_some]
    rcases Server.run_requests as _ w i _ _ hi (existsOrCreate_within path) hrun with
      ⟨hcount, p, hp⟩
    refine ⟨hcount, ?_⟩
    cases p with
    | ret ok => exact .inl ⟨ok, hp⟩
    | ask q k => exact .inr (Server.step_isSome i w q k hp)
  · rcases run_good_or_bad (Creating paths) (Late paths) (fun w i w' => step_creating paths w w' i)
      (fun w i w' => step_late_of_not_fresh paths w w' i) (fun w i w' => step_late paths w w' i) as
      _ w (creating_start t paths habsolute) hrun with ⟨hall, hgood⟩ | ⟨hnot, hbad⟩
    · refine iff_of_true ?_ hall
      intro i path ok hpath hi
      rcases hgood.achieves i _ hi with ⟨hok, hthere⟩
      exact ⟨hok, w.state.present_of_mem path (hthere path hpath)⟩
    · refine iff_of_false ?_ hnot
      intro htrue
      rcases hbad with ⟨i, hlt, hi⟩
      exact absurd (htrue i _ false (List.getElem?_eq_getElem hlt) hi).1 Bool.false_ne_true

/-- The call for a node under the root. -/
def short (path : List UInt8) : ZkProg Bool :=
  .ask (.zooExists path) (fun v => if v = ZOK then .ret true else
    .ask (.zooExists path) (fun flag => if flag = ZNONODE then
      .ask (.zooCreate path) (fun v => .ret (decide (v = ZOK))) else .ret (decide (flag = ZOK))))

theorem existsOrCreate_short (path : List UInt8) (h : findLastOf 47 path = some 0) :
    existsOrCreate path = short path := by
  rw [existsOrCreate_eq, h]
  simp only [if_true, createLast_eq]
  rfl

theorem start_two : start .new [ascii "/a", ascii "/a"] =
    ⟨.new, [short (ascii "/a"), short (ascii "/a")]⟩ := by
  rw [start, List.map_cons, List.map_cons, List.map_nil, existsOrCreate_short _ (by decide)]

/-- Two calls for one node, one after the other. -/
theorem creation_in_turn : ∃ w, run (Server.step ZkTree.serve) [0, 0, 0, 1]
    (start .new [ascii "/a", ascii "/a"]) = some w ∧ w.clients[1]? = some (.ret true) ∧
    w.state.Present (ascii "/a") := by
  have hrun : ∃ w, run (Server.step ZkTree.serve) [0, 0, 0, 1]
      (start .new [ascii "/a", ascii "/a"]) = some w ∧ w.clients[1]? = some (.ret true) := by
    rw [start_two]
    exact ⟨_, rfl, rfl⟩
  have hfresh : Along (Server.step ZkTree.serve) (Server.Grants ZkTree.Fresh) [0, 0, 0, 1]
      (start .new [ascii "/a", ascii "/a"]) := by
    rw [start_two]
    refine ⟨?_, ?_, ?_, ?_, trivial⟩
    all_goals
      intro q k hi
      cases hi
      decide
  rcases hrun with ⟨w, hrun, hone⟩
  refine ⟨w, hrun, hone, ?_⟩
  exact ((creation_iff _ (by decide) .new _ w hrun).2.2 hfresh 1 _ true rfl hone).2

/-- Two calls that both find the node missing. The second one fails, although the node is there. -/
theorem creation_raced : ∃ w, run (Server.step ZkTree.serve) [0, 1, 0, 1, 0, 1]
    (start .new [ascii "/a", ascii "/a"]) = some w ∧ w.clients[0]? = some (.ret true) ∧
    w.clients[1]? = some (.ret false) ∧ ascii "/a" ∈ w.state.nodes := by
  rw [start_two]
  exact ⟨_, rfl, rfl, rfl, by decide⟩

end ZkWorld

end YkServer
