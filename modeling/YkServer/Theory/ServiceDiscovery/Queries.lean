import YkServer.Core.ServiceQuery
import YkServer.Theory.ServiceDiscovery.Creation
import YkServer.Theory.ServiceDiscovery.Survival

/-!
# Queries that End

When `queryInfo` and `queryData` come to an end.

A query for a service asks the registry a few times and ends. A query for `all` goes over the
children of the domain and queries each. A child that is itself called `all` is queried as
`all`, in a registry that has all the nodes it had, so that the query is in the same place again,
one call deeper. Only an exception on the way there ends it, and only `queryData` has one.

## Main definitions

* `ServiceQuery.AnswersChildren`: What `zoo_get_children` answers.
* `ServiceQuery.VisitsOnce`: Every child is visited once at most.
* `ServiceQuery.InfoEnds`, `ServiceQuery.DataEnds`: The queries end.
* `ServiceQuery.ThrowsFirst`: An exception in front of the child `all`.

## Theorems

* `ServiceQuery.visitAll_ends`, `ServiceQuery.visitAll_throws`,
  `ServiceQuery.visitAll_hangs`: The loop over the children.
* `ServiceQuery.queryInfo_hangs`, `ServiceQuery.queryData_hangs`: Queries that do not end.
* `ServiceQuery.queries_end_iff`: When the queries end.
-/

namespace YkServer.ServiceQuery

open Lib

/-- The node of a child of a domain. -/
def childPath (domain name : List UInt8) : List UInt8 := getDomainPath domain ++ 47 :: name

/-- The answer of the server is the names of the children, each once, in any order. -/
def AnswersChildren (zooGetChildren : ZkTree → List UInt8 → Listing) : Prop :=
  ∀ (t : ZkTree) (path : List UInt8), path ≠ zkRoot →
    match zooGetChildren t path with
    | .error _ => path ∉ t.nodes
    | .ok names => names.Nodup ∧ ∀ name, name ∈ names ↔ 47 ∉ name ∧ path ++ 47 :: name ∈ t.nodes

/-- From one state to the other, children of the domain were visited, each once at most. -/
def VisitsOnce (domain : List UInt8) (s s' : ServiceQuery) : Prop :=
  ∃ visits, s'.visited = s.visited ++ visits ∧ visits.Nodup
    ∧ ∀ name ∈ visits, childPath domain name ∈ s.tree.nodes

section

variable (zooGetChildren : ZkTree → List UInt8 → Listing)
variable (inetAddr : List UInt8 → UInt32) (selfInfo : List UInt8)

def InfoEnds (s : ServiceQuery) (domain service : List UInt8) : Prop :=
  ∃ depth, (queryInfo zooGetChildren selfInfo domain depth service s).Safe (VisitsOnce domain s)

def DataEnds (s : ServiceQuery) (domain service : List UInt8) : Prop :=
  ∃ depth, (queryData zooGetChildren inetAddr domain depth service s).Safe (VisitsOnce domain s)

/-- The update of a service throws: it is queried, and one of its providers has no port or
    there is nobody to tell. -/
def ProvidersThrow (s : ServiceQuery) (domain service : List UInt8) : Prop :=
  (s.discovery.queried (getProvidersPath domain service)).isSome = true
    ∧ (itemInfos inetAddr
        (ZkClient.getChildren (zooGetChildren s.tree (getProvidersPath domain service)) []) ∅
          = .error () ∨ s.discovery.cb = false)

/-- The update of a child that is listed in front of the child `all` throws. -/
def ThrowsFirst (s : ServiceQuery) (domain : List UInt8) : Prop :=
  ∃ before after, zooGetChildren s.tree (getDomainPath domain) = .ok (before ++ ascii "all" :: after)
    ∧ ∃ name ∈ before, ProvidersThrow zooGetChildren inetAddr s domain name

end

/-! ## The loop -/

section

variable (query : List UInt8 → Prog ServiceError ServiceQuery Bool)

theorem visitAll_cons (i : List UInt8) (names : List (List UInt8)) (rt : Bool)
    (s : ServiceQuery) :
    visitAll query (i :: names) rt s
      = (query i >>= fun v => visitAll query names (rt && v)) (visit i s) := by
  rw [visitAll]
  exact bind_ok _ _ s _ () (modify_apply _ s)

/-- The states a loop over some children ends in. -/
def Visited (names : List (List UInt8)) (s s' : ServiceQuery) : Prop :=
  ∃ visits, s'.visited = s.visited ++ visits ∧ visits <+: names

/-- A child was visited and did not visit others itself. -/
theorem visited_of_eq (i : List UInt8) (names : List (List UInt8)) (s s' : ServiceQuery)
    (h : s'.visited = (visit i s).visited) : Visited (i :: names) s s' :=
  ⟨[i], h, List.prefix_append [i] names⟩

theorem visited_cons (i : List UInt8) (names : List (List UInt8)) (s s' s'' : ServiceQuery)
    (h : s'.visited = (visit i s).visited) (hrest : Visited names s' s'') :
    Visited (i :: names) s s'' := by
  rcases hrest with ⟨visits, heq, hprefix⟩
  refine ⟨i :: visits, ?_, (List.prefix_cons_inj i).2 hprefix⟩
  rw [heq, h, visit, List.append_assoc, List.singleton_append]

/-- A loop of queries that end. -/
theorem visitAll_ends (names : List (List UInt8)) (rt : Bool) (s : ServiceQuery)
    (hquery : ∀ i ∈ names, ∀ s, (query i s).Safe (fun s' => s'.visited = s.visited)) :
    (visitAll query names rt s).Safe (Visited names s) := by
  induction names generalizing rt s with
  | nil => exact ⟨[], (List.append_nil _).symm, List.nil_prefix⟩
  | cons i names ih =>
      rw [visitAll_cons]
      refine safe_seq _ _ _ _ (visit i s) (hquery i List.mem_cons_self (visit i s))
        (fun s' h => visited_of_eq i names s s' h) (fun v s' _ h => ?_)
      exact Outcome.Safe.mono _ _ _ (fun s'' hrest => visited_cons i names s s' s'' h hrest)
        (ih (rt && v) s' (fun j hj => hquery j (List.mem_cons_of_mem i hj)))

variable (I : ServiceQuery → Prop) (hvisit : ∀ i s, I s → I (visit i s))
include hvisit

/-- A loop in which a query throws. -/
theorem visitAll_throws (before rest : List (List UInt8)) (rt : Bool) (s : ServiceQuery)
    (hs : I s) (name : List UInt8) (hname : name ∈ before)
    (hquery : ∀ i ∈ before, ∀ s, I s → (query i s).Safe (fun s' => s'.visited = s.visited ∧ I s'))
    (hthrow : ∀ s, I s → ∃ e s', query name s = .throw e s' ∧ s'.visited = s.visited) :
    (visitAll query (before ++ rest) rt s).Safe (Visited before s) := by
  induction before generalizing rt s with
  | nil => exact absurd hname List.not_mem_nil
  | cons i before ih =>
      rw [List.cons_append, visitAll_cons]
      by_cases hi : name = i
      · rcases hthrow (visit i s) (hvisit i s hs) with ⟨e, s', hrun, hvisited⟩
        rw [hi] at hrun
        rw [bind_throw _ _ _ s' e hrun]
        exact visited_of_eq i before s s' hvisited
      · refine safe_seq _ _ _ _ (visit i s)
          (hquery i List.mem_cons_self (visit i s) (hvisit i s hs))
          (fun s' h => visited_of_eq i before s s' h.1) (fun v s' _ h => ?_)
        exact Outcome.Safe.mono _ _ _ (fun s'' hrest => visited_cons i before s s' s'' h.1 hrest)
          (ih (rt && v) s' h.2 ((List.mem_cons.1 hname).resolve_left hi)
            (fun j hj => hquery j (List.mem_cons_of_mem i hj)))

/-- A loop with a query that hangs. -/
theorem visitAll_hangs (before after : List (List UInt8)) (rt : Bool) (s : ServiceQuery)
    (hs : I s) (name : List UInt8)
    (hquery : ∀ i ∈ before, ∀ s, I s → query i s = .hang ∨ ∃ v s', query i s = .ok v s' ∧ I s')
    (hhang : ∀ s, I s → query name s = .hang) :
    visitAll query (before ++ name :: after) rt s = .hang := by
  induction before generalizing rt s with
  | nil =>
      rw [List.nil_append, visitAll_cons]
      exact bind_hang _ _ _ (hhang _ (hvisit name s hs))
  | cons i before ih =>
      rw [List.cons_append, visitAll_cons]
      rcases hquery i List.mem_cons_self (visit i s) (hvisit i s hs) with
        hrun | ⟨v, s', hrun, hs'⟩
      · exact bind_hang _ _ _ hrun
      · rw [bind_ok _ _ _ s' v hrun]
        exact ih (rt && v) s' hs' (fun j hj => hquery j (List.mem_cons_of_mem i hj))

end

/-! ## A query for one service -/

theorem registry_grows {α : Type} (p : ZkProg α) (s : ServiceQuery) :
    ∃ a s', registry p s = .ok a s' ∧ s'.visited = s.visited ∧ s.tree.Grows s'.tree :=
  ⟨_, _, rfl, rfl, Asking.alone_keeps s.tree.Grows
    (fun q t h => ZkTree.grows_trans _ _ _ h (ZkTree.grows_serve q t)) p s.tree
    (ZkTree.grows_refl s.tree)⟩

/-- A consumer is registered with a few requests. -/
theorem registerConsumer_ends (selfInfo domain service : List UInt8) (s : ServiceQuery) :
    ∃ v s', registerConsumer selfInfo domain service s = .ok v s' ∧ s'.visited = s.visited
      ∧ s.tree.Grows s'.tree := by
  rcases registry_grows (existsOrCreate (getConsumersPath domain service)) s with
    ⟨v, s₁, hrun₁, hvisited₁, hgrows₁⟩
  rcases registry_grows
    (ZkClient.create (getConsumersPath domain service ++ ascii "/" ++ selfInfo)) s₁ with
    ⟨rt, s₂, hrun₂, hvisited₂, hgrows₂⟩
  rw [registerConsumer, bind_ok _ _ s s₁ v hrun₁]
  cases v with
  | false => exact ⟨false, s₁, rfl, hvisited₁, hgrows₁⟩
  | true =>
      cases hself : selfInfo.isEmpty with
      | true => exact ⟨false, s₁, rfl, hvisited₁, hgrows₁⟩
      | false =>
          refine ⟨if rt = ZOK then true else decide (rt = ZNODEEXISTS), s₂, ?_,
            hvisited₂.trans hvisited₁, ZkTree.grows_trans _ _ _ hgrows₁ hgrows₂⟩
          simp only [Bool.not_true, Bool.false_eq_true, if_false]
          rw [bind_ok _ _ s₁ s₂ rt hrun₂]
          by_cases hrt : rt = ZOK
          · simp only [if_pos hrt]
            rfl
          · simp only [if_neg hrt]
            rfl

section

variable (zooGetChildren : ZkTree → List UInt8 → Listing) (inetAddr : List UInt8 → UInt32)

/-- What the queries for providers leave, the tables apart. -/
structure SameSetup (s s' : ServiceQuery) : Prop where
  tree : s'.tree = s.tree
  queryInfos : s'.discovery.queryInfos = s.discovery.queryInfos
  cb : s'.discovery.cb = s.discovery.cb

theorem updateProviders_eq (s : ServiceQuery) (domain service : List UInt8) :
    updateProviders zooGetChildren inetAddr domain service s
      = tables (ServiceDiscovery.getChildren inetAddr (getProvidersPath domain service)
          (zooGetChildren s.tree (getProvidersPath domain service))) s := rfl

/-- The update of a service returns where it does not throw. -/
theorem updateProviders_ok (s : ServiceQuery) (domain service : List UInt8)
    (h : ¬ ProvidersThrow zooGetChildren inetAddr s domain service) :
    ∃ v s', updateProviders zooGetChildren inetAddr domain service s = .ok v s'
      ∧ s'.visited = s.visited ∧ SameSetup s s' := by
  rw [updateProviders_eq, tables]
  rcases hqueried : s.discovery.queried (getProvidersPath domain service) with _ | ⟨d, n⟩
  · rw [ServiceDiscovery.getChildren_refused inetAddr _ _ _ hqueried]
    exact ⟨false, s, rfl, rfl, rfl, rfl, rfl⟩
  · rw [ProvidersThrow, hqueried, Option.isSome_some] at h
    rcases hinfos : itemInfos inetAddr (ZkClient.getChildren
      (zooGetChildren s.tree (getProvidersPath domain service)) []) ∅ with ⟨⟨⟩⟩ | infos
    · exact absurd ⟨rfl, Or.inl hinfos⟩ h
    · have hcb : s.discovery.cb = true := by
        cases hcb : s.discovery.cb with
        | true => rfl
        | false => exact absurd ⟨rfl, Or.inr hcb⟩ h
      rw [ServiceDiscovery.getChildren_eq inetAddr _ _ d n _ hqueried infos hinfos, if_pos hcb]
      exact ⟨true, _, rfl, rfl, rfl, rfl, rfl⟩

theorem updateProviders_throws (s : ServiceQuery) (domain service : List UInt8)
    (h : ProvidersThrow zooGetChildren inetAddr s domain service) :
    ∃ e s', updateProviders zooGetChildren inetAddr domain service s = .throw e s'
      ∧ s'.visited = s.visited ∧ SameSetup s s' := by
  rcases h with ⟨hsome, hcase⟩
  rcases Option.isSome_iff_exists.1 hsome with ⟨⟨d, n⟩, hqueried⟩
  rw [updateProviders_eq, tables]
  rcases hinfos : itemInfos inetAddr (ZkClient.getChildren
    (zooGetChildren s.tree (getProvidersPath domain service)) []) ∅ with ⟨⟨⟩⟩ | infos
  · rw [ServiceDiscovery.getChildren_throws inetAddr _ _ d n _ hqueried () hinfos]
    exact ⟨_, _, rfl, rfl, rfl, rfl, rfl⟩
  · rw [hinfos] at hcase
    have hcb : s.discovery.cb = false := hcase.resolve_left (fun heq => by cases heq)
    rw [ServiceDiscovery.getChildren_eq inetAddr _ _ d n _ hqueried infos hinfos,
      if_neg (fun htrue => Bool.noConfusion (hcb.symm.trans htrue))]
    exact ⟨_, _, rfl, rfl, rfl, rfl, rfl⟩

/-- The update of a service ends. -/
theorem updateProviders_ends (s : ServiceQuery) (domain service : List UInt8) :
    (updateProviders zooGetChildren inetAddr domain service s).Safe
      (fun s' => s'.visited = s.visited ∧ SameSetup s s') := by
  by_cases h : ProvidersThrow zooGetChildren inetAddr s domain service
  · rcases updateProviders_throws zooGetChildren inetAddr s domain service h with
      ⟨e, s', hrun, hend⟩
    rw [hrun]
    exact hend
  · rcases updateProviders_ok zooGetChildren inetAddr s domain service h with ⟨v, s', hrun, hend⟩
    rw [hrun]
    exact hend

/-- Whether an update throws is up to what the queries do not change. -/
theorem providersThrow_congr (s s' : ServiceQuery) (domain service : List UInt8)
    (h : SameSetup s s') :
    ProvidersThrow zooGetChildren inetAddr s' domain service
      ↔ ProvidersThrow zooGetChildren inetAddr s domain service := by
  simp only [ProvidersThrow, ServiceDiscovery.queried, h.tree, h.queryInfos, h.cb]

theorem sameSetup_trans (s s' s'' : ServiceQuery) (h : SameSetup s s') (h' : SameSetup s' s'') :
    SameSetup s s'' :=
  ⟨h'.tree.trans h.tree, h'.queryInfos.trans h.queryInfos, h'.cb.trans h.cb⟩

end

/-! ## A query for all services -/

section

variable (zooGetChildren : ZkTree → List UInt8 → Listing)
variable (inetAddr : List UInt8 → UInt32) (selfInfo : List UInt8)
variable (hzoo : AnswersChildren zooGetChildren) (domain : List UInt8)

theorem domainPath_ne_root : getDomainPath domain ≠ zkRoot := by
  intro heq
  have hlen := congrArg List.length heq
  rw [getDomainPath, List.length_append] at hlen
  have hprefix : (ascii "/yk/").length = 4 := rfl
  have hroot : zkRoot.length = 1 := rfl
  omega

include hzoo

/-- The names of the children the loops go over. -/
theorem names_spec (t : ZkTree) :
    (ZkClient.getChildren (zooGetChildren t (getDomainPath domain)) []).Nodup
      ∧ ∀ name, name ∈ ZkClient.getChildren (zooGetChildren t (getDomainPath domain)) []
        → 47 ∉ name ∧ childPath domain name ∈ t.nodes := by
  have hanswer := hzoo t (getDomainPath domain) (domainPath_ne_root domain)
  rcases hcase : zooGetChildren t (getDomainPath domain) with e | names
  · exact ⟨List.nodup_nil, fun name hname => absurd hname List.not_mem_nil⟩
  · rw [hcase] at hanswer
    exact ⟨hanswer.1, fun name hname => (hanswer.2 name).1 hname⟩

/-- A child `all` is among them. -/
theorem all_listed (t : ZkTree) (h : childPath domain (ascii "all") ∈ t.nodes) :
    ∃ before after, zooGetChildren t (getDomainPath domain) = .ok (before ++ ascii "all" :: after)
      ∧ ascii "all" ∉ before := by
  have hanswer := hzoo t (getDomainPath domain) (domainPath_ne_root domain)
  rcases hcase : zooGetChildren t (getDomainPath domain) with e | names
  · -- A node is there with its parent.
    rw [hcase] at hanswer
    have hslash : (childPath domain (ascii "all"))[(getDomainPath domain).length]? = some 47 := by
      rw [childPath, List.getElem?_append_right (Nat.le_refl _), Nat.sub_self]
      rfl
    have hpos : 0 < (getDomainPath domain).length := by
      rw [getDomainPath, List.length_append]
      exact Nat.lt_of_lt_of_le (by decide) (Nat.le_add_right _ _)
    have hparent := (t.present_of_mem _ h).ancestors _ hpos hslash
    rw [childPath, List.take_left] at hparent
    exact absurd hparent hanswer
  · rw [hcase] at hanswer
    have hmem := (hanswer.2 (ascii "all")).2 ⟨by decide, h⟩
    rcases List.eq_append_cons_of_mem hmem with ⟨before, after, heq, hnot⟩
    exact ⟨before, after, congrArg _ heq, hnot⟩

omit hzoo in
theorem queryInfo_all (depth : Nat) (s : ServiceQuery) :
    queryInfo zooGetChildren selfInfo domain (depth + 1) (ascii "all") s
      = visitAll (queryInfo zooGetChildren selfInfo domain depth)
          (ZkClient.getChildren (zooGetChildren s.tree (getDomainPath domain)) []) true s := rfl

omit hzoo in
theorem queryData_all (depth : Nat) (s : ServiceQuery) :
    queryData zooGetChildren inetAddr domain (depth + 1) (ascii "all") s
      = visitAll (queryData zooGetChildren inetAddr domain depth)
          (ZkClient.getChildren (zooGetChildren s.tree (getDomainPath domain)) []) true s := rfl

omit hzoo in
theorem queryInfo_one (depth : Nat) (service : List UInt8) (h : service ≠ ascii "all") :
    queryInfo zooGetChildren selfInfo domain (depth + 1) service
      = registerConsumer selfInfo domain service := by
  rw [queryInfo, if_pos h]

omit hzoo in
theorem queryData_one (depth : Nat) (service : List UInt8) (h : service ≠ ascii "all") :
    queryData zooGetChildren inetAddr domain (depth + 1) service
      = updateProviders zooGetChildren inetAddr domain service := by
  rw [queryData, if_pos h]

/-- With a child `all` the query for all does not end, however deep it may go. -/
theorem queryInfo_hangs (depth : Nat) (s : ServiceQuery)
    (h : childPath domain (ascii "all") ∈ s.tree.nodes) :
    queryInfo zooGetChildren selfInfo domain depth (ascii "all") s = .hang := by
  induction depth generalizing s with
  | zero => rfl
  | succ depth ih =>
      rcases all_listed zooGetChildren hzoo domain s.tree h with ⟨before, after, hlisted, hnot⟩
      rw [queryInfo_all, hlisted]
      refine visitAll_hangs _ (fun s => childPath domain (ascii "all") ∈ s.tree.nodes)
        (fun _ _ hs => hs) before after true s h (ascii "all") (fun i hi s hs => ?_) ih
      have hne : i ≠ ascii "all" := fun heq => hnot (heq ▸ hi)
      cases depth with
      | zero => exact Or.inl rfl
      | succ depth =>
          rw [queryInfo_one zooGetChildren selfInfo domain depth i hne]
          rcases registerConsumer_ends selfInfo domain i s with ⟨v, s', hrun, -, hgrows⟩
          exact Or.inr ⟨v, s', hrun, hgrows hs⟩

/-- With a child `all` and no exception in front of it the query for all does not end,
    however deep it may go. -/
theorem queryData_hangs (depth : Nat) (s : ServiceQuery)
    (h : childPath domain (ascii "all") ∈ s.tree.nodes)
    (hno : ¬ ThrowsFirst zooGetChildren inetAddr s domain) :
    queryData zooGetChildren inetAddr domain depth (ascii "all") s = .hang := by
  rcases all_listed zooGetChildren hzoo domain s.tree h with ⟨before, after, hlisted, hnot⟩
  have hquiet (i : List UInt8) (hi : i ∈ before) :
      ¬ ProvidersThrow zooGetChildren inetAddr s domain i :=
    fun hthrow => hno ⟨before, after, hlisted, i, hi, hthrow⟩
  -- The updates leave the registry, so that every call finds the same children.
  have hall (t : ServiceQuery) (ht : SameSetup s t) :
      queryData zooGetChildren inetAddr domain depth (ascii "all") t = .hang := by
    induction depth generalizing t with
    | zero => rfl
    | succ depth ih =>
        rw [queryData_all, ht.tree, hlisted]
        refine visitAll_hangs _ (SameSetup s) (fun _ t ht => ⟨ht.tree, ht.queryInfos, ht.cb⟩)
          before after true t ht (ascii "all") (fun i hi t ht => ?_) ih
        have hne : i ≠ ascii "all" := fun heq => hnot (heq ▸ hi)
        cases depth with
        | zero => exact Or.inl rfl
        | succ depth =>
            rw [queryData_one zooGetChildren inetAddr domain depth i hne]
            have hthrow := (providersThrow_congr zooGetChildren inetAddr s t domain i ht).not.2
              (hquiet i hi)
            rcases updateProviders_ok zooGetChildren inetAddr t domain i hthrow with
              ⟨v, t', hrun, -, hsame⟩
            exact Or.inr ⟨v, t', hrun, sameSetup_trans s t t' ht hsame⟩
  exact hall s ⟨rfl, rfl, rfl⟩

/-- What a loop over the children visits. -/
theorem visitsOnce_of_visited (names : List (List UInt8)) (s s' : ServiceQuery)
    (hnames : names <+: ZkClient.getChildren (zooGetChildren s.tree (getDomainPath domain)) [])
    (h : Visited names s s') : VisitsOnce domain s s' := by
  rcases h with ⟨visits, hvisited, hprefix⟩
  have hspec := names_spec zooGetChildren hzoo domain s.tree
  have hsub := (List.IsPrefix.trans hprefix hnames).sublist
  exact ⟨visits, hvisited, hsub.nodup hspec.1,
    fun name hname => (hspec.2 name (hsub.subset hname)).2⟩

omit hzoo in
/-- A query for one service visits no child. -/
theorem visitsOnce_of_eq (s s' : ServiceQuery) (h : s'.visited = s.visited) :
    VisitsOnce domain s s' :=
  ⟨[], by rw [h, List.append_nil], List.nodup_nil, fun _ hname => absurd hname List.not_mem_nil⟩

/-- Without a child `all` every child is queried as a service. -/
theorem ne_all_of_listed (s : ServiceQuery) (h : childPath domain (ascii "all") ∉ s.tree.nodes)
    (i : List UInt8)
    (hi : i ∈ ZkClient.getChildren (zooGetChildren s.tree (getDomainPath domain)) []) :
    i ≠ ascii "all" := by
  intro heq
  exact h (heq ▸ ((names_spec zooGetChildren hzoo domain s.tree).2 i hi).2)

theorem infoEnds_iff (s : ServiceQuery) (service : List UInt8) :
    InfoEnds zooGetChildren selfInfo s domain service
      ↔ service ≠ ascii "all" ∨ childPath domain (ascii "all") ∉ s.tree.nodes := by
  constructor
  · rintro ⟨depth, hends⟩
    by_cases hservice : service = ascii "all"
    · refine Or.inr (fun hall => ?_)
      rw [hservice, queryInfo_hangs zooGetChildren selfInfo hzoo domain depth s hall] at hends
      exact hends
    · exact Or.inl hservice
  · intro h
    by_cases hservice : service = ascii "all"
    · have hnone := h.resolve_left (fun hne => hne hservice)
      refine ⟨2, ?_⟩
      rw [hservice, queryInfo_all]
      refine Outcome.Safe.mono _ _ _
        (fun s' => visitsOnce_of_visited zooGetChildren hzoo domain _ s s' (List.prefix_refl _))
        (visitAll_ends _ _ true s (fun i hi t => ?_))
      rw [queryInfo_one zooGetChildren selfInfo domain 0 i
        (ne_all_of_listed zooGetChildren hzoo domain s hnone i hi)]
      rcases registerConsumer_ends selfInfo domain i t with ⟨v, t', hrun, hvisited, -⟩
      rw [hrun]
      exact hvisited
    · refine ⟨1, ?_⟩
      rw [queryInfo_one zooGetChildren selfInfo domain 0 service hservice]
      rcases registerConsumer_ends selfInfo domain service s with ⟨v, s', hrun, hvisited, -⟩
      rw [hrun]
      exact visitsOnce_of_eq domain s s' hvisited

theorem dataEnds_iff (s : ServiceQuery) (service : List UInt8) :
    DataEnds zooGetChildren inetAddr s domain service
      ↔ service ≠ ascii "all" ∨ childPath domain (ascii "all") ∉ s.tree.nodes
        ∨ ThrowsFirst zooGetChildren inetAddr s domain := by
  constructor
  · rintro ⟨depth, hends⟩
    by_cases hservice : service = ascii "all"
    · refine Or.inr ?_
      by_cases hall : childPath domain (ascii "all") ∈ s.tree.nodes
      · by_cases hfirst : ThrowsFirst zooGetChildren inetAddr s domain
        · exact Or.inr hfirst
        · rw [hservice, queryData_hangs zooGetChildren inetAddr hzoo domain depth s hall hfirst]
            at hends
          exact hends.elim
      · exact Or.inl hall
    · exact Or.inl hservice
  · intro h
    by_cases hservice : service = ascii "all"
    · rcases h.resolve_left (fun hne => hne hservice) with hnone | hfirst
      · refine ⟨2, ?_⟩
        rw [hservice, queryData_all]
        refine Outcome.Safe.mono _ _ _
          (fun s' => visitsOnce_of_visited zooGetChildren hzoo domain _ s s' (List.prefix_refl _))
          (visitAll_ends _ _ true s (fun i hi t => ?_))
        rw [queryData_one zooGetChildren inetAddr domain 0 i
          (ne_all_of_listed zooGetChildren hzoo domain s hnone i hi)]
        exact Outcome.Safe.mono _ _ _ (fun _ => And.left)
          (updateProviders_ends zooGetChildren inetAddr t domain i)
      · rcases hfirst with ⟨before, after, hlisted, name, hname, hthrow⟩
        have hnames : ZkClient.getChildren (zooGetChildren s.tree (getDomainPath domain)) []
            = before ++ ascii "all" :: after := by
          rw [hlisted]
          rfl
        have hnodup := (names_spec zooGetChildren hzoo domain s.tree).1
        rw [hnames, List.nodup_append] at hnodup
        have hne (i : List UInt8) (hi : i ∈ before) : i ≠ ascii "all" :=
          hnodup.2.2 i hi (ascii "all") List.mem_cons_self
        refine ⟨2, ?_⟩
        rw [hservice, queryData_all, hnames]
        refine Outcome.Safe.mono _ _ _
          (fun s' => visitsOnce_of_visited zooGetChildren hzoo domain _ s s'
            (by rw [hnames]; exact List.prefix_append before _))
          (visitAll_throws _ (SameSetup s) (fun _ t ht => ⟨ht.tree, ht.queryInfos, ht.cb⟩)
            before _ true s ⟨rfl, rfl, rfl⟩ name hname (fun i hi t ht => ?_) (fun t ht => ?_))
        · rw [queryData_one zooGetChildren inetAddr domain 0 i (hne i hi)]
          exact Outcome.Safe.mono _ _ _
            (fun t' h => ⟨h.1, sameSetup_trans s t t' ht h.2⟩)
            (updateProviders_ends zooGetChildren inetAddr t domain i)
        · rw [queryData_one zooGetChildren inetAddr domain 0 name (hne name hname)]
          rcases updateProviders_throws zooGetChildren inetAddr t domain name
            ((providersThrow_congr zooGetChildren inetAddr s t domain name ht).2 hthrow) with
            ⟨e, t', hrun, hvisited, -⟩
          exact ⟨e, t', hrun, hvisited⟩
    · refine ⟨1, ?_⟩
      rw [queryData_one zooGetChildren inetAddr domain 0 service hservice]
      exact Outcome.Safe.mono _ _ _ (fun s' h => visitsOnce_of_eq domain s s' h.1)
        (updateProviders_ends zooGetChildren inetAddr s domain service)

end

/-- Both queries end and visit every child once at most exactly if they are for one service or
    the domain has no child that is called `all`. Besides, `queryData` ends where the update of a
    child that comes before throws. -/
theorem queries_end_iff (zooGetChildren : ZkTree → List UInt8 → Listing)
    (inetAddr : List UInt8 → UInt32) (selfInfo : List UInt8)
    (hzoo : AnswersChildren zooGetChildren) (s : ServiceQuery) (domain service : List UInt8) :
    (InfoEnds zooGetChildren selfInfo s domain service
        ∧ DataEnds zooGetChildren inetAddr s domain service
      ↔ service ≠ ascii "all" ∨ childPath domain (ascii "all") ∉ s.tree.nodes)
      ∧ (DataEnds zooGetChildren inetAddr s domain service
        ↔ service ≠ ascii "all" ∨ childPath domain (ascii "all") ∉ s.tree.nodes
          ∨ ThrowsFirst zooGetChildren inetAddr s domain) := by
  have hinfo := infoEnds_iff zooGetChildren selfInfo hzoo domain s service
  have hdata := dataEnds_iff zooGetChildren inetAddr hzoo domain s service
  refine ⟨⟨fun h => hinfo.1 h.1, fun h => ⟨hinfo.2 h, hdata.2 ?_⟩⟩, hdata⟩
  exact h.imp_right Or.inl

/-! ## A child called all -/

/-- A server that lists the names in some order. -/
noncomputable def listChildren (t : ZkTree) (path : List UInt8) : Listing :=
  if path ∈ t.nodes then
    .ok ((t.nodes.image (fun node => node.drop (path.length + 1))).filter
      (fun name => 47 ∉ name ∧ path ++ 47 :: name ∈ t.nodes)).toList
  else .error ZNONODE

theorem listChildren_answers : AnswersChildren listChildren := by
  intro t path _
  rw [listChildren]
  by_cases hpath : path ∈ t.nodes
  · rw [if_pos hpath]
    refine ⟨Finset.nodup_toList _, fun name => ?_⟩
    rw [Finset.mem_toList, Finset.mem_filter, Finset.mem_image, and_iff_right_iff_imp]
    intro hname
    refine ⟨_, hname.2, ?_⟩
    rw [List.drop_append, List.drop_of_length_le (Nat.le_succ _), Nat.add_sub_cancel_left]
    rfl
  · rw [if_neg hpath]
    exact hpath

/-- A registry whose domain `d` has one child, and that is called `all`. -/
def allTree : ZkTree where
  nodes := {zkRoot, ascii "/yk", ascii "/yk/d", ascii "/yk/d/all"}
  root := by decide
  parents := by decide

/-- A registry whose domain `d` has the children `s` and `t`. -/
def otherTree : ZkTree where
  nodes := {zkRoot, ascii "/yk", ascii "/yk/d", ascii "/yk/d/s", ascii "/yk/d/t"}
  root := by decide
  parents := by decide

/-- A server that is asked for all services of `d`. -/
def askingAll (tree : ZkTree) : ServiceQuery :=
  ⟨tree, ⟨∅, Finmap.singleton (ascii "d") {ascii "all"}, true, []⟩, []⟩

/-- Both queries for all services of a domain with other children. -/
theorem queries_end_iff_others :
    InfoEnds listChildren (ascii "10.0.0.1:80") (askingAll otherTree) (ascii "d") (ascii "all")
      ∧ DataEnds listChildren (fun _ => 1) (askingAll otherTree) (ascii "d") (ascii "all") :=
  (queries_end_iff listChildren (fun _ => 1) (ascii "10.0.0.1:80") listChildren_answers
    (askingAll otherTree) (ascii "d") (ascii "all")).1.2 (Or.inr (by decide))

/-- Neither query for all services of `d` ends. -/
theorem not_ends_all :
    ¬ InfoEnds listChildren (ascii "10.0.0.1:80") (askingAll allTree) (ascii "d") (ascii "all")
      ∧ ¬ DataEnds listChildren (fun _ => 1) (askingAll allTree) (ascii "d") (ascii "all") := by
  have hall : childPath (ascii "d") (ascii "all") ∈ (askingAll allTree).tree.nodes := by decide
  rw [infoEnds_iff listChildren _ listChildren_answers,
    dataEnds_iff listChildren _ listChildren_answers]
  refine ⟨fun h => h.elim (fun hne => hne rfl) (fun hno => hno hall), ?_⟩
  rintro (hne | hno | ⟨before, after, hlisted, name, hname, -⟩)
  · exact hne rfl
  · exact hno hall
  · -- There is no other child in front of it.
    have hnames : ZkClient.getChildren (listChildren allTree (getDomainPath (ascii "d"))) []
        = before ++ ascii "all" :: after := by
      have hanswer : listChildren allTree (getDomainPath (ascii "d"))
          = .ok (before ++ ascii "all" :: after) := hlisted
      rw [hanswer]
      rfl
    have hspec := names_spec listChildren listChildren_answers (ascii "d") allTree
    rw [hnames] at hspec
    have hnode := (hspec.2 name (List.mem_append_left _ hname)).2
    have hne := (List.nodup_append.1 hspec.1).2.2 name hname (ascii "all") List.mem_cons_self
    simp only [allTree, Finset.mem_insert, Finset.mem_singleton] at hnode
    have hlen : (childPath (ascii "d") name).length = 6 + name.length := by
      rw [childPath, List.length_append, List.length_cons]
      have hdomain : (getDomainPath (ascii "d")).length = 5 := rfl
      omega
    rcases hnode with heq | heq | heq | heq
    · have hshort := congrArg List.length heq
      have hroot : zkRoot.length = 1 := rfl
      omega
    · have hshort := congrArg List.length heq
      have hyk : (ascii "/yk").length = 3 := rfl
      omega
    · have hshort := congrArg List.length heq
      have hd : (ascii "/yk/d").length = 5 := rfl
      omega
    · have hpath : ascii "/yk/d/all" = childPath (ascii "d") (ascii "all") := rfl
      exact hne (List.cons.inj (List.append_cancel_left (heq.trans hpath))).2

end YkServer.ServiceQuery
