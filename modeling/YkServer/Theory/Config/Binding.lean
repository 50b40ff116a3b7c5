import YkServer.Core.Config

/-!
# Binding Variables to Nodes

Which variables a document gives values to. A node of a document has a path, and a
variable should hold what the last node with its name for a path says, whatever the case
of either.

`LoadFromYaml` looks for the path in lower case, and `Lookup` has stored the variable
under its name as it was given. So a variable with a capital letter in its name is never
found, and neither is one without a name, since the empty path is passed over. Both
checks of a name leave out the digit 9. That costs the registry the variables with a 9 in
their names, and the document nothing: a node whose path is refused has a path that no
variable has.

## Main definitions

* `Config.documented`: The characters a name is documented to be made of.
* `Config.nodes`: All nodes of a document with their paths.
* `Config.held`: What a variable should hold after some nodes.
* `Config.Bound`: What a document should do to a registry.

## Theorems

* `listAllMember_eq`: The nodes that are listed are those with a valid path.
* `lookup_loadNodes`: One variable while the nodes are gone through.
* `lookups_ok_iff`: When no call of `Lookup` throws.
* `binding_iff`: When a document does to the registry what it should.
-/

namespace YkServer

namespace Config

/-! ## Names -/

/-- `[0-9a-z_.]` and capital letters. -/
def documented (c : UInt8) : Bool :=
  HttpParser.alpha c || HttpParser.digit c || c == 95 || c == 46

/-- What holds of the characters one by one holds of all of them. -/
theorem forall_char (P : UInt8 → Prop) (h : ∀ n : Fin 256, P (UInt8.ofFin n)) (c : UInt8) : P c :=
  h c.toFin

/-- The digit 9 is the only character that is documented and not let through. -/
theorem nameChars_contains (c : UInt8) :
    documented c = true → (nameChars.contains c = true ↔ c ≠ 57) := by
  refine forall_char
    (fun c => documented c = true → (nameChars.contains c = true ↔ c ≠ 57)) ?_ c
  decide +kernel

theorem validName_documented (name : List UInt8) (hdoc : name.all documented = true) :
    validName name = true ↔ 57 ∉ name := by
  rw [List.all_eq_true] at hdoc
  rw [validName, List.all_eq_true]
  constructor
  · intro hvalid hnine
    exact (nameChars_contains 57 (hdoc 57 hnine)).1 (hvalid 57 hnine) rfl
  · intro hnine c hc
    refine (nameChars_contains c (hdoc c hc)).2 ?_
    rintro rfl
    exact hnine hc

/-- What comes first in a valid name is valid. -/
theorem validName_of_isPrefix (path name : List UInt8) (hpath : path <+: name)
    (hvalid : validName name = true) : validName path = true := by
  rw [validName, List.all_eq_true] at hvalid ⊢
  exact fun c hc => hvalid c (hpath.subset hc)

theorem toLower_eq_self_iff (c : UInt8) : toLower c = c ↔ HttpParser.upper c = false := by
  refine forall_char (fun c => toLower c = c ↔ HttpParser.upper c = false) ?_ c
  decide +kernel

theorem upper_toLower (c : UInt8) : HttpParser.upper (toLower c) = false := by
  refine forall_char (fun c => HttpParser.upper (toLower c) = false) ?_ c
  decide +kernel

/-- A letter is let through in either case. -/
theorem nameChars_upper (c : UInt8) : HttpParser.upper c = true →
    nameChars.contains (toLower c) = true ∧ nameChars.contains c = true := by
  refine forall_char (fun c => HttpParser.upper c = true →
    nameChars.contains (toLower c) = true ∧ nameChars.contains c = true) ?_ c
  decide +kernel

/-- A character and its lower case are both let through or both not. -/
theorem nameChars_toLower (c : UInt8) :
    nameChars.contains (toLower c) = nameChars.contains c := by
  rcases hupper : HttpParser.upper c with _ | _
  · rw [(toLower_eq_self_iff c).2 hupper]
  · rcases nameChars_upper c hupper with ⟨hlower, hself⟩
    rw [hlower, hself]

theorem validName_lower (name : List UInt8) : validName (lower name) = validName name := by
  rw [validName, validName, lower, List.all_map]
  exact List.all_congr rfl (fun c => nameChars_toLower c)

theorem lower_eq_self_iff (name : List UInt8) :
    lower name = name ↔ ∀ c ∈ name, HttpParser.upper c = false := by
  induction name with
  | nil => exact iff_of_true rfl (fun c hc => absurd hc List.not_mem_nil)
  | cons c cs ih =>
      simp only [List.mem_cons, forall_eq_or_imp]
      exact List.cons_eq_cons.trans (and_congr (toLower_eq_self_iff c) ih)

/-- A path in lower case stays as it is. -/
theorem lower_lower (name : List UInt8) : lower (lower name) = lower name := by
  refine (lower_eq_self_iff _).2 ?_
  intro c hc
  rcases List.mem_map.1 hc with ⟨d, -, rfl⟩
  exact upper_toLower d

/-! ## Nodes and their paths -/

mutual

/-- A node and all nodes below it with their paths, each before those below it. -/
def nodes (path : List UInt8) (node : YamlNode) : List (List UInt8 × YamlNode) :=
  (path, node) :: match node with
    | .map entries => members path entries
    | _ => []

def members (path : List UInt8) : List (List UInt8 × YamlNode) → List (List UInt8 × YamlNode)
  | [] => []
  | (key, node) :: rest => nodes (below path key) node ++ members path rest

end

theorem isPrefix_below (path key : List UInt8) : path <+: below path key := by
  unfold below
  split
  · rename_i hnil
    rw [hnil]
    exact List.nil_prefix
  · exact List.prefix_append path _

mutual

/-- The path of a node starts with the paths above it. -/
theorem isPrefix_of_nodes (path : List UInt8) (node : YamlNode) (p : List UInt8 × YamlNode)
    (hp : p ∈ nodes path node) : path <+: p.1 := by
  cases node with
  | map entries =>
      rw [nodes, List.mem_cons] at hp
      rcases hp with rfl | hp
      · exact List.prefix_refl path
      · exact isPrefix_of_members path entries p hp
  | null | scalar s | sequence items =>
      simp only [nodes, List.mem_singleton] at hp
      rw [hp]

theorem isPrefix_of_members (path : List UInt8) (entries : List (List UInt8 × YamlNode))
    (p : List UInt8 × YamlNode) (hp : p ∈ members path entries) : path <+: p.1 := by
  cases entries with
  | nil =>
      rw [members] at hp
      exact absurd hp List.not_mem_nil
  | cons entry rest =>
      rcases entry with ⟨key, node⟩
      rw [members, List.mem_append] at hp
      rcases hp with hp | hp
      · exact (isPrefix_below path key).trans (isPrefix_of_nodes (below path key) node p hp)
      · exact isPrefix_of_members path rest p hp

end

mutual

/-- What is refused are the nodes whose paths are not valid. All nodes below one of them are
    refused with it, and have paths that are not valid either. -/
theorem listAllMember_eq (path : List UInt8) (node : YamlNode) :
    listAllMember path node = (nodes path node).filter (fun p => validName p.1) := by
  by_cases hvalid : validName path = true
  · cases node with
    | map entries =>
        simp only [listAllMember, nodes, hvalid, Bool.not_true, Bool.false_eq_true, if_false,
          List.filter_cons, if_true, listMembers_eq path entries]
    | null | scalar s | sequence items =>
        simp only [listAllMember, nodes, hvalid, Bool.not_true, Bool.false_eq_true, if_false,
          List.filter_cons, if_true, List.filter_nil]
  · have hnone : (nodes path node).filter (fun p => validName p.1) = [] := by
      rw [List.filter_eq_nil_iff]
      intro p hp hok
      exact hvalid (validName_of_isPrefix path p.1 (isPrefix_of_nodes path node p hp) hok)
    unfold listAllMember
    rw [hnone, Bool.eq_false_iff.2 hvalid, Bool.not_false, if_pos rfl]

theorem listMembers_eq (path : List UInt8) (entries : List (List UInt8 × YamlNode)) :
    listMembers path entries = (members path entries).filter (fun p => validName p.1) := by
  cases entries with
  | nil => rw [listMembers, members, List.filter_nil]
  | cons entry rest =>
      rcases entry with ⟨key, node⟩
      rw [listMembers, members, List.filter_append, listAllMember_eq (below path key) node,
        listMembers_eq path rest]

end

/-- The nodes whose paths are a name but for case. -/
def matching (root : YamlNode) (name : List UInt8) : List YamlNode :=
  ((nodes [] root).filter (fun p => lower p.1 = lower name)).map Prod.snd

section Registry

variable {τ : Type} {Val : τ → Type} (fromStr : (t : τ) → List UInt8 → Option (Val t))
  (emit : YamlNode → List UInt8)

/-! ## One variable -/

/-- What a variable holds after some nodes: what the last of them is converted to, and if
    that throws, what it held before. -/
def held (ns : List YamlNode) (var : (t : τ) × Val t) : (t : τ) × Val t :=
  match ns.reverse.findSome? (fun n => fromStr var.1 (nodeString emit n)) with
  | some v => ⟨var.1, v⟩
  | none => var

/-- One more node. -/
theorem held_concat (ns : List YamlNode) (n : YamlNode) (var : (t : τ) × Val t) :
    held fromStr emit (ns ++ [n]) var =
      (fromString fromStr (held fromStr emit ns var) (nodeString emit n)).2 := by
  unfold held
  rw [List.reverse_append, List.reverse_singleton, List.singleton_append, List.findSome?_cons]
  rcases hearlier : ns.reverse.findSome? (fun n => fromStr var.1 (nodeString emit n)) with _ | v
  · rcases hthis : fromStr var.1 (nodeString emit n) with _ | u
    · simp only [fromString, hthis]
    · simp only [fromString, hthis]
  · rcases hthis : fromStr var.1 (nodeString emit n) with _ | u
    · simp only [fromString, hthis]
    · simp only [fromString, hthis]

/-- A round that is about another key. -/
theorem lookup_loadNode_other (datas : VarMap Val) (p : List UInt8 × YamlNode)
    (name : List UInt8) (hother : ¬(p.1 ≠ [] ∧ lower p.1 = name)) :
    (loadNode fromStr emit datas p).lookup name = datas.lookup name := by
  unfold loadNode
  split
  · rfl
  · rename_i hne
    have hname : name ≠ lower p.1 := fun heq => hother ⟨hne, heq.symm⟩
    split
    · rw [Finmap.lookup_insert_of_ne _ hname]
    · rfl

theorem lookup_loadNode_own (datas : VarMap Val) (p : List UInt8 × YamlNode)
    (hne : p.1 ≠ []) :
    (loadNode fromStr emit datas p).lookup (lower p.1) =
      (datas.lookup (lower p.1)).map
        (fun var => (fromString fromStr var (nodeString emit p.2)).2) := by
  simp only [loadNode, if_neg hne, lookupBase]
  rcases hvar : datas.lookup (lower p.1) with _ | var
  · exact hvar
  · rw [Finmap.lookup_insert, Option.map_some]

/-- A variable under its key while the nodes are gone through: those whose paths are the
    key in lower case are given to it, one after another. -/
theorem lookup_loadNodes (ps : List (List UInt8 × YamlNode)) (datas : VarMap Val)
    (name : List UInt8) :
    (ps.foldl (loadNode fromStr emit) datas).lookup name =
      (datas.lookup name).map (held fromStr emit
        ((ps.filter (fun p => p.1 ≠ [] ∧ lower p.1 = name)).map Prod.snd)) := by
  induction ps using List.reverseRecOn with
  | nil => exact (congrFun Option.map_id (datas.lookup name)).symm
  | append_singleton ps p ih =>
      rw [List.foldl_append, List.foldl_cons, List.foldl_nil, List.filter_append, List.map_append]
      by_cases hown : p.1 ≠ [] ∧ lower p.1 = name
      · rcases hown with ⟨hne, rfl⟩
        rw [lookup_loadNode_own fromStr emit _ p hne, ih, Option.map_map]
        rw [List.filter_singleton, decide_eq_true (And.intro hne rfl), cond_true]
        refine congrArg (fun f => (datas.lookup (lower p.1)).map f) (funext (fun var => ?_))
        exact (held_concat fromStr emit _ p.2 var).symm
      · rw [lookup_loadNode_other fromStr emit _ p name hown, ih, List.filter_singleton,
          decide_eq_false hown, cond_false, List.map_nil, List.append_nil]

/-! ## The registry -/

/-- What a document should do: every variable holds what the nodes with its name say, and
    one that no node has the name of is as it was. -/
def Bound (root : YamlNode) (datas datas' : VarMap Val) : Prop :=
  ∀ name, datas'.lookup name =
    (datas.lookup name).map (held fromStr emit (matching root name))

/-- A variable with a valid name is given the nodes that match it, provided that the name
    is in lower case and not empty. -/
theorem lookup_loadFromYaml (root : YamlNode) (datas : VarMap Val) (name : List UInt8)
    (hvalid : validName name = true) (hne : name ≠ []) (hlower : lower name = name) :
    (loadFromYaml fromStr emit root datas).lookup name =
      (datas.lookup name).map (held fromStr emit (matching root name)) := by
  rw [loadFromYaml, lookup_loadNodes, listAllMember_eq, List.filter_filter, matching]
  refine congrArg (fun ps : List (List UInt8 × YamlNode) =>
    (datas.lookup name).map (held fromStr emit (ps.map Prod.snd))) ?_
  refine List.filter_congr (fun p _ => ?_)
  rw [hlower]
  by_cases hpath : lower p.1 = name
  · -- A path that matches is valid as the name is, and it is not empty either.
    have hpne : p.1 ≠ [] := by
      intro hnil
      rw [hnil] at hpath
      exact hne hpath.symm
    have hpvalid : validName p.1 = true := by
      rw [← validName_lower, hpath, hvalid]
    rw [hpvalid, decide_eq_true (And.intro hpne hpath), decide_eq_true hpath, Bool.true_and]
  · rw [decide_eq_false (fun hboth => hpath hboth.2), decide_eq_false hpath, Bool.false_and]

/-- All others keep their values. -/
theorem lookup_loadFromYaml_missed (root : YamlNode) (datas : VarMap Val) (name : List UInt8)
    (hmissed : ¬(name ≠ [] ∧ lower name = name)) :
    (loadFromYaml fromStr emit root datas).lookup name = datas.lookup name := by
  rw [loadFromYaml, lookup_loadNodes]
  have hnone : (listAllMember [] root).filter (fun p => p.1 ≠ [] ∧ lower p.1 = name) = [] := by
    rw [List.filter_eq_nil_iff]
    intro p _ hp
    rw [decide_eq_true_eq] at hp
    refine hmissed ⟨?_, ?_⟩
    · rintro rfl
      exact hp.1 (List.map_eq_nil_iff.1 hp.2)
    · rw [← hp.2, lower_lower]
  rw [hnone]
  exact congrFun Option.map_id (datas.lookup name)

variable [DecidableEq τ]

/-- Every name in the registry has passed the check. -/
theorem validName_of_lookups (calls : List (Call Val)) (datas datas' : VarMap Val)
    (hvalid : ∀ name ∈ datas, validName name = true) (hok : lookups calls datas = .ok datas') :
    ∀ name ∈ datas', validName name = true := by
  induction calls generalizing datas with
  | nil =>
      cases hok
      exact hvalid
  | cons c cs ih =>
      simp only [lookups, lookup] at hok
      rcases hfound : datas.lookup c.name with _ | var
      · rw [hfound] at hok
        by_cases hname : validName c.name = true
        · simp only [hname, Bool.not_true, Bool.false_eq_true, if_false] at hok
          refine ih _ ?_ hok
          intro name hmem
          rcases Finmap.mem_insert.1 hmem with rfl | hold
          · exact hname
          · exact hvalid name hold
        · simp only [hname, Bool.not_false, if_true, reduceCtorEq] at hok
      · rw [hfound] at hok
        exact ih datas hvalid hok

/-- No call throws if and only if no name has a 9 in it. -/
theorem lookups_ok_iff (calls : List (Call Val)) (datas : VarMap Val)
    (hvalid : ∀ name ∈ datas, validName name = true)
    (hdoc : ∀ c ∈ calls, c.name.all documented = true) :
    (∃ datas', lookups calls datas = .ok datas') ↔ ∀ c ∈ calls, 57 ∉ c.name := by
  induction calls generalizing datas with
  | nil => exact iff_of_true ⟨datas, rfl⟩ (fun c hc => absurd hc List.not_mem_nil)
  | cons c cs ih =>
      have hmine := validName_documented c.name (hdoc c List.mem_cons_self)
      have hrest := fun c' hc' => hdoc c' (List.mem_cons_of_mem _ hc')
      simp only [lookups, lookup, List.mem_cons, forall_eq_or_imp, ← hmine]
      rcases hfound : datas.lookup c.name with _ | var
      · by_cases hname : validName c.name = true
        · simp only [hname, Bool.not_true, Bool.false_eq_true, if_false, true_and]
          refine ih _ ?_ hrest
          intro name hmem
          rcases Finmap.mem_insert.1 hmem with rfl | hold
          · exact hname
          · exact hvalid name hold
        · simp only [hname, Bool.not_false, if_true, reduceCtorEq, exists_false, false_and]
      · -- A name that is there already has no 9 in it.
        have hname : validName c.name = true := hvalid c.name (Finmap.mem_iff.2 ⟨var, hfound⟩)
        simp only [hname, true_and]
        exact ih datas hvalid hrest

/-- Whatever `Lookup` is called with and whatever the document is: no call throws and the
    document gives every variable what it should, if and only if no name has a 9 in it, and
    every variable without a name or with a capital letter in its name has the value already
    that the document has for it, or the document has none. -/
theorem binding_iff (calls : List (Call Val)) (root : YamlNode)
    (hdoc : ∀ c ∈ calls, c.name.all documented = true) :
    (∃ datas, lookups calls ∅ = .ok datas ∧
      Bound fromStr emit root datas (loadFromYaml fromStr emit root datas)) ↔
    (∀ c ∈ calls, 57 ∉ c.name) ∧ ∀ datas, lookups calls ∅ = .ok datas →
      ∀ name var, datas.lookup name = some var →
        (name = [] ∨ ∃ c ∈ name, HttpParser.upper c = true) →
        held fromStr emit (matching root name) var = var := by
  have hempty : ∀ name ∈ (∅ : VarMap Val), validName name = true :=
    fun name hname => absurd hname Finmap.notMem_empty
  rw [← lookups_ok_iff calls ∅ hempty hdoc]
  have hmissed : ∀ name : List UInt8, (name = [] ∨ ∃ c ∈ name, HttpParser.upper c = true) ↔
      ¬(name ≠ [] ∧ lower name = name) := by
    intro name
    rw [lower_eq_self_iff, not_and_or, not_not]
    simp only [not_forall, Bool.not_eq_false, exists_prop]
  constructor
  · rintro ⟨datas, hok, hbound⟩
    refine ⟨⟨datas, hok⟩, ?_⟩
    intro datas' hok' name var hvar hname
    rw [hok, Except.ok.injEq] at hok'
    rw [← hok'] at hvar
    have hthere := hbound name
    rw [lookup_loadFromYaml_missed fromStr emit root datas name ((hmissed name).1 hname), hvar,
      Option.map_some, Option.some.injEq] at hthere
    exact hthere.symm
  · rintro ⟨⟨datas, hok⟩, hrest⟩
    refine ⟨datas, hok, ?_⟩
    intro name
    rcases hvar : datas.lookup name with _ | var
    · rw [loadFromYaml, lookup_loadNodes, hvar, Option.map_none, Option.map_none]
    · by_cases hfound : name ≠ [] ∧ lower name = name
      · have hvalid := validName_of_lookups calls ∅ datas hempty hok name
          (Finmap.mem_iff.2 ⟨var, hvar⟩)
        rw [lookup_loadFromYaml fromStr emit root datas name hvalid hfound.1 hfound.2, hvar]
      · rw [lookup_loadFromYaml_missed fromStr emit root datas name hfound, hvar, Option.map_some,
          hrest datas hok name var hvar ((hmissed name).2 hfound)]

end Registry

/-- A string variable: its conversion is the identity. -/
def stringOf (_ : Unit) (s : List UInt8) : Option (List UInt8) := some s

/-- The registry with a string variable of a name. -/
def oneVariable (name : List UInt8) : List (Call (fun _ : Unit => List UInt8)) :=
  [⟨name, (), ascii "default"⟩]

/-- The document `A: {B: ten}`. -/
def oneScalar : YamlNode := .map [(ascii "A", .map [(ascii "B", .scalar (ascii "ten"))])]

/-- A map with one scalar in it, in block style. -/
def emitEntry : YamlNode → List UInt8
  | .map [(key, .scalar s)] => key ++ ascii ": " ++ s
  | _ => []

/-- `a.b` is found under `A` and `B`. -/
theorem binding_lowercase :
    ∃ datas, lookups (oneVariable (ascii "a.b")) ∅ = .ok datas ∧
      Bound stringOf emitEntry oneScalar datas
        (loadFromYaml stringOf emitEntry oneScalar datas) := by
  refine (binding_iff stringOf emitEntry (oneVariable (ascii "a.b")) oneScalar ?_).2 ⟨?_, ?_⟩
  · intro c hc
    rw [List.mem_singleton.1 hc]
    decide
  · intro c hc
    rw [List.mem_singleton.1 hc]
    decide
  · intro datas hok name var hvar hname
    cases hok
    -- The only name is the one of the variable, and it is in lower case.
    have heq : name = ascii "a.b" := by
      by_contra hne
      rw [Finmap.lookup_insert_of_ne _ hne] at hvar
      cases hvar
    rw [heq] at hname
    exact absurd hname (by decide)

/-- `A.B` is not found under `A` and `B`. -/
theorem binding_uppercase :
    ¬∃ datas, lookups (oneVariable (ascii "A.B")) ∅ = .ok datas ∧
      Bound stringOf emitEntry oneScalar datas
        (loadFromYaml stringOf emitEntry oneScalar datas) := by
  rintro ⟨datas, hok, hbound⟩
  cases hok
  have hname := hbound (ascii "A.B")
  revert hname
  decide

end Config

end YkServer
