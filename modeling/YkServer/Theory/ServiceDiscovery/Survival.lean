import YkServer.Core.ServiceDiscovery

/-!
# What Happens to the Services

`ZkClient::getChildren` does not say whether it has an answer. For `getChildren` an error of the
registry is a service without providers: it empties the entry and reports that.

With an answer, the entry is right as long as it gets that far. A name with a port that is
not a number throws; two names with one id leave only the last of them; and without a callback
the call of it throws.

## Main definitions

* `Lists`: A table has the items of some children.
* `ServiceDiscovery.Survives`: An error changes nothing, and an answer is the new entry.
* `ServiceDiscovery.Favours`: When it is so.

## Theorems

* `itemInfos_eq_ok`, `of_lookup_itemInfos`: The loop over the children.
* `lists_iff`: When the loop gives the items of all children.
* `getChildren_eq`: What `getChildren` does.
* `survives_iff`: When the table survives.
-/

namespace YkServer

open Lib

variable (inetAddr : List UInt8 → UInt32)

/-- A child that is an item. -/
def Parses (val : List UInt8) (info : ServiceItemInfo) : Prop :=
  ServiceItemInfo.create inetAddr val [] = .ok (some info)

instance (val : List UInt8) (info : ServiceItemInfo) : Decidable (Parses inetAddr val info) :=
  inferInstanceAs (Decidable (_ = _))

/-- The table has the items of some children, each under its id, and no others. -/
def Lists (vals : List (List UInt8)) (infos : ServiceItems) : Prop :=
  ∀ id info, infos.lookup id = some info ↔ info.id = id ∧ ∃ val ∈ vals, Parses inetAddr val info

/-- Children with one id are the same item. -/
def Distinct (vals : List (List UInt8)) : Prop :=
  ∀ val ∈ vals, ∀ val' ∈ vals, ∀ info info', Parses inetAddr val info →
    Parses inetAddr val' info' → info.id = info'.id → info = info'

/-! ## The loop over the children -/

/-- The loop comes to an end unless one of the names throws. -/
theorem itemInfos_eq_ok (vals : List (List UInt8)) (infos : ServiceItems) :
    (∃ infos', itemInfos inetAddr vals infos = .ok infos') ↔
      ∀ val ∈ vals, ServiceItemInfo.create inetAddr val [] ≠ .error () := by
  induction vals generalizing infos with
  | nil => simp [itemInfos]
  | cons val vals ih =>
      rw [List.forall_mem_cons, itemInfos]
      rcases ServiceItemInfo.create inetAddr val [] with e | _ | info
      · simp
      · simp only [ne_eq, reduceCtorEq, not_false_eq_true, true_and]
        exact ih infos
      · simp only [ne_eq, reduceCtorEq, not_false_eq_true, true_and]
        exact ih _

/-- What is in the table behind the loop was there before or is the item of a child. -/
theorem of_lookup_itemInfos (vals : List (List UInt8)) (infos infos' : ServiceItems)
    (h : itemInfos inetAddr vals infos = .ok infos') (id : UInt64) (info : ServiceItemInfo)
    (hid : infos'.lookup id = some info) :
    infos.lookup id = some info ∨ info.id = id ∧ ∃ val ∈ vals, Parses inetAddr val info := by
  induction vals generalizing infos with
  | nil =>
      cases h
      exact .inl hid
  | cons val vals ih =>
      rw [itemInfos] at h
      split at h
      · cases h
      · rcases ih _ h with hold | ⟨hown, val', hval', hparses⟩
        · exact .inl hold
        · exact .inr ⟨hown, val', List.mem_cons_of_mem _ hval', hparses⟩
      · rename_i info' hinfo'
        rcases ih _ h with hold | ⟨hown, val', hval', hparses⟩
        · by_cases heq : id = info'.id
          · rw [heq, Finmap.lookup_insert, Option.some.injEq] at hold
            rw [← hold, heq]
            exact .inr ⟨rfl, val, List.mem_cons_self, hinfo'⟩
          · rw [Finmap.lookup_insert_of_ne _ heq] at hold
            exact .inl hold
        · exact .inr ⟨hown, val', List.mem_cons_of_mem _ hval', hparses⟩

/-- Every id that is in the table before the loop or that a child has is there behind it. -/
theorem mem_itemInfos (vals : List (List UInt8)) (infos infos' : ServiceItems)
    (h : itemInfos inetAddr vals infos = .ok infos') (id : UInt64)
    (hid : id ∈ infos ∨ ∃ val ∈ vals, ∃ info, Parses inetAddr val info ∧ info.id = id) :
    id ∈ infos' := by
  induction vals generalizing infos with
  | nil =>
      cases h
      rcases hid with hold | ⟨val, hval, -⟩
      · exact hold
      · cases hval
  | cons val vals ih =>
      rw [itemInfos] at h
      split at h
      · cases h
      · rename_i hnone
        refine ih _ h ?_
        rcases hid with hold | ⟨val', hval', info, hparses, hown⟩
        · exact .inl hold
        · rcases List.mem_cons.1 hval' with rfl | hval'
          · rw [Parses, hnone] at hparses
            cases hparses
          · exact .inr ⟨val', hval', info, hparses, hown⟩
      · rename_i info' hinfo'
        refine ih _ h ?_
        rcases hid with hold | ⟨val', hval', info, hparses, hown⟩
        · exact .inl (Finmap.mem_insert.2 (.inr hold))
        · rcases List.mem_cons.1 hval' with rfl | hval'
          · rw [Parses, hinfo'] at hparses
            cases hparses
            exact .inl (Finmap.mem_insert.2 (.inl hown.symm))
          · exact .inr ⟨val', hval', info, hparses, hown⟩

/-- The loop gives the items of the children exactly if no two of them differ and have one id. -/
theorem lists_iff (vals : List (List UInt8)) (infos : ServiceItems)
    (h : itemInfos inetAddr vals ∅ = .ok infos) :
    Lists inetAddr vals infos ↔ Distinct inetAddr vals := by
  constructor
  · intro hlists val hval val' hval' info info' hparses hparses' hid
    have hinfo := (hlists info.id info).2 ⟨rfl, val, hval, hparses⟩
    have hinfo' := (hlists info.id info').2 ⟨hid.symm, val', hval', hparses'⟩
    exact Option.some.inj (hinfo.symm.trans hinfo')
  · intro hdistinct id info
    constructor
    · intro hid
      rcases of_lookup_itemInfos inetAddr vals ∅ infos h id info hid with hnone | hitem
      · rw [Finmap.lookup_empty] at hnone
        cases hnone
      · exact hitem
    · rintro ⟨hown, val, hval, hparses⟩
      have hmem := mem_itemInfos inetAddr vals ∅ infos h id (.inr ⟨val, hval, info, hparses, hown⟩)
      rcases Finmap.mem_iff.1 hmem with ⟨info', hinfo'⟩
      -- What is under the id is the item of a child with this id.
      rcases of_lookup_itemInfos inetAddr vals ∅ infos h id info' hinfo' with
        hnone | ⟨hown', val', hval', hparses'⟩
      · rw [Finmap.lookup_empty] at hnone
        cases hnone
      · rw [hdistinct val hval val' hval' info info' hparses hparses' (hown.trans hown'.symm)]
        exact hinfo'

/-! ## The entry of a service -/

namespace ServiceDiscovery

/-- The new entry is swapped in. -/
def swapped (s : ServiceDiscovery) (domain service : List UInt8) (infos : ServiceItems) :
    ServiceDiscovery :=
  { s with datas := putIn s.datas domain service infos }

/-- The callback has been called. -/
def reported (s : ServiceDiscovery) (change : ServiceChange) : ServiceDiscovery :=
  { s with told := s.told ++ [change] }

theorem getChildren_refused (s : ServiceDiscovery) (path : List UInt8) (listing : Listing)
    (h : s.queried path = none) : getChildren inetAddr path listing s = .ok false s := by
  simp only [getChildren, bind, Prog.get, h]
  rfl

theorem getChildren_throws (s : ServiceDiscovery) (path domain service : List UInt8)
    (listing : Listing) (h : s.queried path = some (domain, service)) (e : Unit)
    (hinfos : itemInfos inetAddr (ZkClient.getChildren listing []) ∅ = .error e) :
    getChildren inetAddr path listing s = .throw .stoi s := by
  simp only [getChildren, bind, Prog.get, h, hinfos]
  rfl

theorem getChildren_eq (s : ServiceDiscovery) (path domain service : List UInt8)
    (listing : Listing) (h : s.queried path = some (domain, service)) (infos : ServiceItems)
    (hinfos : itemInfos inetAddr (ZkClient.getChildren listing []) ∅ = .ok infos) :
    getChildren inetAddr path listing s =
      if s.cb then
        .ok true ((s.swapped domain service infos).reported
          ⟨domain, service, s.items domain service, infos⟩)
      else .throw .badFunctionCall (s.swapped domain service infos) := by
  rcases s with ⟨datas, queryInfos, cb, told⟩
  simp only [getChildren, bind, Prog.get, h, hinfos, Prog.modify, callCb]
  cases cb with
  | true => rfl
  | false => rfl

/-- An error of the registry changes nothing and is not reported, and an answer for a path that is
    queried becomes the entry and is reported with the entry before. -/
def Survives (s : ServiceDiscovery) (path : List UInt8) : Listing → Prop
  | .error rc => (getChildren inetAddr path (.error rc) s).Safe
      (fun s' => s'.datas = s.datas ∧ s'.told = s.told)
  | .ok vals => ∀ domain service, s.queried path = some (domain, service) →
      ∃ infos, Lists inetAddr vals infos ∧ (getChildren inetAddr path (.ok vals) s).Safe
        (fun s' => s'.datas = putIn s.datas domain service infos ∧
          s'.told = s.told ++ [⟨domain, service, s.items domain service, infos⟩])

/-- An error with an entry that is there and empty and nobody to tell, or an answer without names
    that throw or differ and have one id, and somebody to tell. -/
def Favours (s : ServiceDiscovery) (domain service : List UInt8) : Listing → Prop
  | .error _ => s.cb = false ∧ (group s.datas domain).lookup service = some ∅
  | .ok vals => s.cb = true ∧ (∀ val ∈ vals, ServiceItemInfo.create inetAddr val [] ≠ .error ()) ∧
      Distinct inetAddr vals

theorem survives_error_iff (s : ServiceDiscovery) (path domain service : List UInt8)
    (h : s.queried path = some (domain, service)) (rc : Int32) :
    s.Survives inetAddr path (.error rc) ↔ s.Favours inetAddr domain service (.error rc) := by
  simp only [Survives, Favours]
  rw [getChildren_eq inetAddr s path domain service (.error rc) h ∅ rfl, ← putIn_eq_self_iff]
  by_cases hcb : s.cb = true
  · -- The callback is called.
    rw [if_pos hcb]
    refine iff_of_false ?_ ?_
    · rintro ⟨-, htold⟩
      have hlength := congrArg List.length htold
      simp only [swapped, reported, List.length_append, List.length_singleton] at hlength
      omega
    · rintro ⟨hnone, -⟩
      rw [hcb] at hnone
      cases hnone
  · rw [if_neg hcb, Bool.not_eq_true] at *
    exact ⟨fun hsame => ⟨hcb, hsame.1⟩, fun hsame => ⟨hsame.2, rfl⟩⟩

theorem survives_ok_iff (s : ServiceDiscovery) (path domain service : List UInt8)
    (h : s.queried path = some (domain, service)) (vals : List (List UInt8)) :
    s.Survives inetAddr path (.ok vals) ↔ s.Favours inetAddr domain service (.ok vals) := by
  simp only [Survives, Favours]
  rw [← itemInfos_eq_ok inetAddr vals ∅]
  rcases hinfos : itemInfos inetAddr vals ∅ with e | infos
  · -- It throws before anything is changed.
    refine iff_of_false ?_ ?_
    · intro hall
      rcases hall domain service h with ⟨infos, -, hsafe⟩
      rw [getChildren_throws inetAddr s path domain service (.ok vals) h e hinfos] at hsafe
      have hlength := congrArg List.length hsafe.2
      rw [List.length_append, List.length_singleton] at hlength
      omega
    · rintro ⟨-, ⟨infos, hok⟩, -⟩
      cases hok
  · rw [getChildren_eq inetAddr s path domain service (.ok vals) h infos hinfos]
    have hlists := lists_iff inetAddr vals infos hinfos
    by_cases hcb : s.cb = true
    · rw [if_pos hcb]
      constructor
      · intro hall
        rcases hall domain service h with ⟨infos', hinfos', hdatas, -⟩
        refine ⟨hcb, ⟨infos, rfl⟩, hlists.1 ?_⟩
        rw [putIn_injective domain service infos infos' hdatas]
        exact hinfos'
      · rintro ⟨-, -, hdistinct⟩ domain' service' h'
        rw [h, Option.some.injEq, Prod.mk.injEq] at h'
        rw [← h'.1, ← h'.2]
        exact ⟨infos, hlists.2 hdistinct, rfl, rfl⟩
    · -- It throws instead of the call.
      rw [if_neg hcb]
      refine iff_of_false ?_ (fun hfavours => hcb hfavours.1)
      intro hall
      rcases hall domain service h with ⟨infos', -, -, htold⟩
      have hlength := congrArg List.length htold
      simp only [swapped, List.length_append, List.length_singleton] at hlength
      omega

/-- For every state, path and answer of the registry: the table survives exactly if the path is not
    queried, or the answer is one that `getChildren` can cope with. -/
theorem survives_iff (s : ServiceDiscovery) (path : List UInt8) (listing : Listing) :
    s.Survives inetAddr path listing ↔
      ∀ domain service, s.queried path = some (domain, service) →
        s.Favours inetAddr domain service listing := by
  rcases hqueried : s.queried path with _ | ⟨domain, service⟩
  · refine iff_of_true ?_ ?_
    · cases listing with
      | error rc =>
          rw [Survives, getChildren_refused inetAddr s path _ hqueried]
          exact ⟨rfl, rfl⟩
      | ok vals =>
          intro domain service hsome
          rw [hqueried] at hsome
          cases hsome
    · intro domain service hsome
      cases hsome
  · simp only [Option.some.injEq, Prod.mk.injEq, and_imp, forall_apply_eq_imp_iff, forall_eq']
    cases listing with
    | error rc => exact survives_error_iff inetAddr s path domain service hqueried rc
    | ok vals => exact survives_ok_iff inetAddr s path domain service hqueried vals

/-- A service with one provider. -/
def oneProvider : ServiceDiscovery :=
  ⟨putIn ∅ (ascii "d") (ascii "s") (Finmap.singleton 1 ⟨1, 80, ascii "10.0.0.1", []⟩),
    Finmap.singleton (ascii "d") {ascii "s"}, true, []⟩

/-- The connection to the registry is lost, and the provider is gone. -/
theorem provider_wiped :
    ¬oneProvider.Survives (fun _ => 0x0100000a) (ascii "/yk/d/s/providers") (.error (-4)) ∧
    ∃ s', getChildren (fun _ => 0x0100000a) (ascii "/yk/d/s/providers") (.error (-4)) oneProvider =
      .ok true s' ∧ oneProvider.items (ascii "d") (ascii "s") ≠ ∅ ∧
      s'.items (ascii "d") (ascii "s") = ∅ ∧ s'.told.length = 1 := by
  have hqueried : oneProvider.queried (ascii "/yk/d/s/providers") =
      some (ascii "d", ascii "s") := by
    decide
  refine ⟨?_, _, getChildren_eq _ _ _ _ _ _ hqueried ∅ rfl, by decide, by decide, rfl⟩
  rw [survives_error_iff _ _ _ _ _ hqueried]
  rintro ⟨hcb, -⟩
  cases hcb

end ServiceDiscovery

end YkServer
