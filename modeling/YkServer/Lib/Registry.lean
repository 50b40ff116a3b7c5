import Mathlib.Data.List.Nodup

/-!
# Registries

A table of names that is changed by registering a name with a value and by removing
a name, where a name that is registered again goes to the end.

What such a table holds is a question about the history: a registration is live as
long as its name is not touched again, and the table is the list of the live
registrations in the order they were made. The list can also be kept step by step,
by dropping the first entry of the name and putting the new one at the end. That the
first one is the only one is the invariant of the list.

## Main definitions

* `Edit`: Registering and removing.
* `Live`: A registration that is not touched again.
* `live`: The live registrations in order.
* `liveValue`: The live value of a name.

## Theorems

* `nodup_live`: Every name at most once.
* `live_concat`: One more edit.
* `eraseP_eq_filter`: Dropping the first entry of a name drops the name.
* `find_live_eq_some`, `find_live_eq_none`: What the first live registration with a
  property is in the history.
* `find_live_of_first`, `find_live_of_none`: Finding it.
* `liveValue_concat`: The live values after one more edit.
* `liveValue_eq_some`, `liveValue_eq_none`: The live value as a place in the history.
-/

namespace Lib

variable {κ ν : Type}

/-- A change of the table. -/
inductive Edit (κ ν : Type) where
  | set (key : κ) (value : ν)
  | remove (key : κ)

/-- The name a change touches. -/
def Edit.key : Edit κ ν → κ
  | .set k _ => k
  | .remove k => k

/-- The value a change leaves under its name. -/
def Edit.value : Edit κ ν → Option ν
  | .set _ v => some v
  | .remove _ => none

/-- The edit at `i` registers a value under a name that no later edit touches. -/
def Live (es : List (Edit κ ν)) (i : Nat) (k : κ) (v : ν) : Prop :=
  es[i]? = some (.set k v) ∧ ∀ j e, i < j → es[j]? = some e → e.key ≠ k

/-- The live registrations, in the order they were made. -/
def live [BEq κ] [LawfulBEq κ] : List (Edit κ ν) → List (κ × ν)
  | [] => []
  | .set k v :: es => if k ∈ es.map Edit.key then live es else (k, v) :: live es
  | .remove _ :: es => live es

/-- The live value of a name. -/
def liveValue [BEq κ] [LawfulBEq κ] (es : List (Edit κ ν)) (k : κ) : Option ν :=
  ((live es).find? (fun entry => entry.1 == k)).map Prod.snd

/-! ## Histories -/

theorem live_cons_succ (e : Edit κ ν) (es : List (Edit κ ν)) (i : Nat) (k : κ) (v : ν) :
    Live (e :: es) (i + 1) k v ↔ Live es i k v := by
  constructor
  · rintro ⟨hget, hlater⟩
    exact ⟨hget, fun j d hij hd => hlater (j + 1) d (Nat.succ_lt_succ hij) hd⟩
  · rintro ⟨hget, hlater⟩
    refine ⟨hget, fun j d hij hd => ?_⟩
    cases j with
    | zero => exact absurd hij (Nat.not_lt_zero _)
    | succ j => exact hlater j d (Nat.lt_of_succ_lt_succ hij) hd

theorem live_cons_zero (e : Edit κ ν) (es : List (Edit κ ν)) (k : κ) (v : ν) :
    Live (e :: es) 0 k v ↔ e = .set k v ∧ k ∉ es.map Edit.key := by
  constructor
  · rintro ⟨hget, hlater⟩
    refine ⟨Option.some.inj hget, fun hmem => ?_⟩
    rcases List.mem_map.1 hmem with ⟨d, hd, hkey⟩
    rcases List.mem_iff_getElem?.1 hd with ⟨j, hj⟩
    exact hlater (j + 1) d (Nat.succ_pos j) hj hkey
  · rintro ⟨he, hnot⟩
    refine ⟨congrArg some he, fun j d hij hd hkey => ?_⟩
    cases j with
    | zero => exact absurd hij (Nat.not_lt_zero 0)
    | succ j => exact hnot (List.mem_map.2 ⟨d, List.mem_iff_getElem?.2 ⟨j, hd⟩, hkey⟩)

/-- The live registration of a name is the last one, so there is only one. -/
theorem live_unique (es : List (Edit κ ν)) (i i' : Nat) (k : κ) (v v' : ν)
    (h : Live es i k v) (h' : Live es i' k v') : i = i' ∧ v = v' := by
  have heq : i = i' := by
    rcases Nat.lt_trichotomy i i' with hlt | heq | hlt
    · exact absurd rfl (h.2 i' _ hlt h'.1)
    · exact heq
    · exact absurd rfl (h'.2 i _ hlt h.1)
  subst heq
  have hset := h.1.symm.trans h'.1
  simp only [Option.some.injEq, Edit.set.injEq, true_and] at hset
  exact ⟨rfl, hset⟩

/-! ## The live registrations -/

variable [BEq κ] [LawfulBEq κ]

theorem key_mem_of_mem_live (es : List (Edit κ ν)) (k : κ) (h : k ∈ (live es).map Prod.fst) :
    k ∈ es.map Edit.key := by
  induction es with
  | nil => exact h
  | cons e es ih =>
      cases e with
      | set k' v' =>
          rw [live] at h
          by_cases hmem : k' ∈ es.map Edit.key
          · rw [if_pos hmem] at h
            exact List.mem_cons_of_mem _ (ih h)
          · rw [if_neg hmem, List.map_cons, List.mem_cons] at h
            rcases h with h | h
            · exact List.mem_cons.2 (Or.inl h)
            · exact List.mem_cons_of_mem _ (ih h)
      | remove k' => exact List.mem_cons_of_mem _ (ih h)

theorem nodup_live (es : List (Edit κ ν)) : ((live es).map Prod.fst).Nodup := by
  induction es with
  | nil => exact List.nodup_nil
  | cons e es ih =>
      cases e with
      | set k v =>
          rw [live]
          by_cases hmem : k ∈ es.map Edit.key
          · rw [if_pos hmem]
            exact ih
          · rw [if_neg hmem, List.map_cons, List.nodup_cons]
            exact ⟨fun h => hmem (key_mem_of_mem_live es k h), ih⟩
      | remove k => exact ih

/-- One more edit takes the name out of its place. A registration puts it at the
    end. -/
theorem live_concat (es : List (Edit κ ν)) (e : Edit κ ν) :
    live (es ++ [e]) = (live es).filter (fun entry => entry.1 != e.key) ++ live [e] := by
  induction es with
  | nil => rfl
  | cons d es ih =>
      cases d with
      | set k v =>
          have hmap : k ∈ (es ++ [e]).map Edit.key ↔ k ∈ es.map Edit.key ∨ k = e.key := by
            rw [List.map_append, List.mem_append, List.map_singleton, List.mem_singleton]
          rw [List.cons_append, live, live, ih]
          by_cases hmem : k ∈ es.map Edit.key
          · rw [if_pos (hmap.2 (Or.inl hmem)), if_pos hmem]
          · by_cases hk : k = e.key
            · rw [if_pos (hmap.2 (Or.inr hk)), if_neg hmem, List.filter_cons_of_neg]
              exact fun h => bne_iff_ne.1 h hk
            · have hnot : k ∉ (es ++ [e]).map Edit.key :=
                fun h => (hmap.1 h).elim hmem hk
              rw [if_neg hnot, if_neg hmem, List.filter_cons, if_pos (bne_iff_ne.2 hk)]
              rfl
      | remove k => exact ih

/-- In a list that has every name at most once, dropping the first entry of a name
    drops the name. -/
theorem eraseP_eq_filter (k : κ) (entries : List (κ × ν))
    (h : (entries.map Prod.fst).Nodup) :
    entries.eraseP (fun entry => entry.1 == k) = entries.filter (fun entry => entry.1 != k) := by
  induction entries with
  | nil => rfl
  | cons entry entries ih =>
      rw [List.map_cons, List.nodup_cons] at h
      by_cases hk : entry.1 = k
      · have hrest : entries.filter (fun entry => entry.1 != k) = entries := by
          rw [List.filter_eq_self]
          intro other hother
          refine bne_iff_ne.2 (fun heq => h.1 ?_)
          rw [hk, ← heq]
          exact List.mem_map_of_mem hother
        rw [List.eraseP_cons, beq_iff_eq.2 hk, cond_true, List.filter_cons,
          if_neg (fun hne => bne_iff_ne.1 hne hk), hrest]
      · rw [List.eraseP_cons, beq_false_of_ne hk, List.filter_cons,
          if_pos (bne_iff_ne.2 hk), ← ih h.2]
        rfl

/-! ## The first with a property -/

/-- No live registration has the property. -/
theorem find_live_eq_none (es : List (Edit κ ν)) (p : κ × ν → Bool)
    (h : (live es).find? p = none) (i : Nat) (k : κ) (v : ν) (hlive : Live es i k v) :
    p (k, v) = false := by
  induction es generalizing i with
  | nil => exact absurd hlive.1 (by simp only [List.getElem?_nil, reduceCtorEq, not_false_eq_true])
  | cons e es ih =>
      cases i with
      | zero =>
          rcases (live_cons_zero e es k v).1 hlive with ⟨rfl, hnot⟩
          rw [live, if_neg hnot, List.find?_eq_none] at h
          exact Bool.eq_false_iff.2 (h (k, v) List.mem_cons_self)
      | succ i =>
          refine ih ?_ i ((live_cons_succ e es i k v).1 hlive)
          rw [List.find?_eq_none] at h ⊢
          refine fun entry hentry => h entry ?_
          cases e with
          | set k' v' =>
              rw [live]
              split
              · exact hentry
              · exact List.mem_cons_of_mem _ hentry
          | remove k' => exact hentry

/-- The first live registration with a property, as a place in the history. -/
theorem find_live_eq_some (es : List (Edit κ ν)) (p : κ × ν → Bool) (k : κ) (v : ν)
    (h : (live es).find? p = some (k, v)) :
    ∃ i, Live es i k v ∧ p (k, v) = true
      ∧ ∀ i' k' v', i' < i → Live es i' k' v' → p (k', v') = false := by
  induction es with
  | nil => exact absurd h (by simp only [live, List.find?_nil, reduceCtorEq, not_false_eq_true])
  | cons e es ih =>
      -- The registration is found in the rest, and the first edit is not a live one with
      -- the property.
      have hrest (hfind : (live es).find? p = some (k, v))
          (hfirst : ∀ k' v', Live (e :: es) 0 k' v' → p (k', v') = false) :
          ∃ i, Live (e :: es) i k v ∧ p (k, v) = true
            ∧ ∀ i' k' v', i' < i → Live (e :: es) i' k' v' → p (k', v') = false := by
        rcases ih hfind with ⟨i, hlive, hp, hmin⟩
        refine ⟨i + 1, (live_cons_succ e es i k v).2 hlive, hp, fun i' k' v' hi' hlive' => ?_⟩
        cases i' with
        | zero => exact hfirst k' v' hlive'
        | succ i' =>
            exact hmin i' k' v' (Nat.lt_of_succ_lt_succ hi')
              ((live_cons_succ e es i' k' v').1 hlive')
      cases e with
      | set k₀ v₀ =>
          rw [live] at h
          by_cases hmem : k₀ ∈ es.map Edit.key
          · rw [if_pos hmem] at h
            refine hrest h (fun k' v' hlive' => ?_)
            rcases (live_cons_zero _ es k' v').1 hlive' with ⟨heq, hnot⟩
            simp only [Edit.set.injEq] at heq
            exact absurd (heq.1 ▸ hmem) hnot
          · rw [if_neg hmem] at h
            by_cases hp : p (k₀, v₀) = true
            · rw [List.find?_cons_of_pos hp, Option.some.injEq, Prod.mk.injEq] at h
              rcases h with ⟨rfl, rfl⟩
              exact ⟨0, (live_cons_zero _ es k₀ v₀).2 ⟨rfl, hmem⟩, hp,
                fun i' _ _ hi' => absurd hi' (Nat.not_lt_zero i')⟩
            · rw [List.find?_cons_of_neg hp] at h
              refine hrest h (fun k' v' hlive' => ?_)
              rcases (live_cons_zero _ es k' v').1 hlive' with ⟨heq, _⟩
              simp only [Edit.set.injEq] at heq
              rw [← heq.1, ← heq.2]
              exact Bool.eq_false_iff.2 hp
      | remove k₀ =>
          refine hrest h (fun k' v' hlive' => ?_)
          exact absurd ((live_cons_zero _ es k' v').1 hlive').1
            (by simp only [reduceCtorEq, not_false_eq_true])

/-- Nothing is found if no live registration has the property. -/
theorem find_live_of_none (es : List (Edit κ ν)) (p : κ × ν → Bool)
    (h : ∀ i k v, Live es i k v → p (k, v) = false) : (live es).find? p = none := by
  rcases hfind : (live es).find? p with _ | ⟨k, v⟩
  · rfl
  · rcases find_live_eq_some es p k v hfind with ⟨i, hlive, hp, _⟩
    exact absurd (hp.symm.trans (h i k v hlive)) (by decide)

/-- The first live registration with the property is found. -/
theorem find_live_of_first (es : List (Edit κ ν)) (p : κ × ν → Bool) (i : Nat) (k : κ) (v : ν)
    (hlive : Live es i k v) (hp : p (k, v) = true)
    (hfirst : ∀ i' k' v', i' < i → Live es i' k' v' → p (k', v') = false) :
    (live es).find? p = some (k, v) := by
  rcases hfind : (live es).find? p with _ | ⟨k', v'⟩
  · exact absurd (hp.symm.trans (find_live_eq_none es p hfind i k v hlive)) (by decide)
  · rcases find_live_eq_some es p k' v' hfind with ⟨i', hlive', hp', hfirst'⟩
    rcases Nat.lt_trichotomy i i' with hlt | heq | hlt
    · exact absurd (hp.symm.trans (hfirst' i k v hlt hlive)) (by decide)
    · subst heq
      have hset := hlive'.1.symm.trans hlive.1
      simp only [Option.some.injEq, Edit.set.injEq] at hset
      rw [hset.1, hset.2]
    · exact absurd (hp'.symm.trans (hfirst i' k' v' hlt hlive')) (by decide)

/-! ## The value of a name -/

theorem liveValue_concat (es : List (Edit κ ν)) (e : Edit κ ν) (k : κ) :
    liveValue (es ++ [e]) k = if k == e.key then e.value else liveValue es k := by
  rw [liveValue, live_concat, List.find?_append]
  by_cases hk : k = e.key
  · have hnone : ((live es).filter (fun entry => entry.1 != e.key)).find?
        (fun entry => entry.1 == k) = none := by
      rw [List.find?_eq_none]
      intro entry hentry h
      exact bne_iff_ne.1 (List.mem_filter.1 hentry).2 ((beq_iff_eq.1 h).trans hk)
    rw [if_pos (beq_iff_eq.2 hk), hnone, Option.none_or]
    cases e with
    | set k' v =>
        have hbeq : (k' == k) = true := beq_iff_eq.2 hk.symm
        simp only [live, List.map_nil, List.not_mem_nil, if_false, List.find?_cons, hbeq,
          Option.map_some, Edit.value]
    | remove k' => rfl
  · have hsame : ((live es).filter (fun entry => entry.1 != e.key)).find?
        (fun entry => entry.1 == k) = (live es).find? (fun entry => entry.1 == k) := by
      rw [List.find?_filter]
      congr 1
      funext entry
      rw [Bool.eq_iff_iff, decide_eq_true_iff, bne_iff_ne, beq_iff_eq]
      exact ⟨And.right, fun h => ⟨fun heq => hk (h.symm.trans heq), h⟩⟩
    have hnone : (live [e]).find? (fun entry => entry.1 == k) = none := by
      rw [List.find?_eq_none]
      intro entry hentry h
      have hmem := key_mem_of_mem_live [e] entry.1 (List.mem_map_of_mem hentry)
      rw [List.map_singleton, List.mem_singleton] at hmem
      exact hk ((beq_iff_eq.1 h).symm.trans hmem)
    rw [if_neg (fun h => hk (beq_iff_eq.1 h)), hsame, hnone, Option.or_none, liveValue]

theorem liveValue_eq_none (es : List (Edit κ ν)) (k : κ) (h : ∀ i v, ¬ Live es i k v) :
    liveValue es k = none := by
  rcases hfind : (live es).find? (fun entry => entry.1 == k) with _ | ⟨k', v⟩
  · rw [liveValue, hfind, Option.map_none]
  · rcases find_live_eq_some es _ k' v hfind with ⟨i, hlive, hkey, _⟩
    exact absurd (beq_iff_eq.1 hkey ▸ hlive) (h i v)

theorem liveValue_eq_some (es : List (Edit κ ν)) (i : Nat) (k : κ) (v : ν)
    (h : Live es i k v) : liveValue es k = some v := by
  rcases hfind : (live es).find? (fun entry => entry.1 == k) with _ | ⟨k', v'⟩
  · have hno := find_live_eq_none es _ hfind i k v h
    rw [beq_self_eq_true] at hno
    exact Bool.noConfusion hno
  · rcases find_live_eq_some es _ k' v' hfind with ⟨i', hlive, hkey, _⟩
    have heq := (live_unique es i i' k v v' h (beq_iff_eq.1 hkey ▸ hlive)).2
    rw [liveValue, hfind, Option.map_some, heq]

end Lib
