import Mathlib.Data.Finmap

/-!
# Grouped Indexes

A map, and a second one that has the same entries by kind: to each kind it has the map of the
entries of that kind. A kind without entries is not in the index, so a kind that is looked
up and is not there stands for the empty map.

## Main definitions

* `group`: The entries of a kind.
* `putIn`, `dropFrom`: An entry comes and goes.
* `Grouped`: The index has the entries of the map.

## Theorems

* `group_putIn`, `group_dropFrom`: The entries of a kind after a change.
* `putIn_eq_self_iff`: An entry that is there already.
* `grouped_put`: An entry comes, in a place where no entry of another kind is.
* `grouped_drop`: An entry goes.
-/

namespace Lib

variable {κ α β : Type} [DecidableEq κ] [DecidableEq α]

/-- The entries of a kind. -/
def group (idx : Finmap (fun _ : κ => Finmap (fun _ : α => β))) (k : κ) : Finmap (fun _ : α => β) :=
  (idx.lookup k).getD ∅

/-- An entry comes. -/
def putIn (idx : Finmap (fun _ : κ => Finmap (fun _ : α => β))) (k : κ) (a : α) (b : β) :
    Finmap (fun _ : κ => Finmap (fun _ : α => β)) :=
  idx.insert k ((group idx k).insert a b)

/-- An entry goes, and its kind with it if it was the last one. -/
def dropFrom [DecidableEq β] (idx : Finmap (fun _ : κ => Finmap (fun _ : α => β))) (k : κ)
    (a : α) : Finmap (fun _ : κ => Finmap (fun _ : α => β)) :=
  if (group idx k).erase a = ∅ then idx.erase k else idx.insert k ((group idx k).erase a)

/-- The index has the entries of the map, and no kind without entries. -/
structure Grouped (kind : β → κ) (all : Finmap (fun _ : α => β))
    (idx : Finmap (fun _ : κ => Finmap (fun _ : α => β))) : Prop where
  entries : ∀ k a b, (group idx k).lookup a = some b ↔ all.lookup a = some b ∧ kind b = k
  nonempty : ∀ k g, idx.lookup k = some g → g ≠ ∅

variable {kind : β → κ} {all : Finmap (fun _ : α => β)}
  {idx : Finmap (fun _ : κ => Finmap (fun _ : α => β))}

theorem grouped_empty : Grouped kind (∅ : Finmap (fun _ : α => β)) ∅ := by
  refine ⟨?_, ?_⟩
  · intro k a b
    simp [group]
  · intro k g hg
    rw [Finmap.lookup_empty] at hg
    cases hg

theorem group_putIn (k k' : κ) (a : α) (b : β) :
    group (putIn idx k a b) k' = if k' = k then (group idx k).insert a b else group idx k' := by
  unfold putIn group
  by_cases hk : k' = k
  · rw [if_pos hk, hk, Finmap.lookup_insert, Option.getD_some]
  · rw [if_neg hk, Finmap.lookup_insert_of_ne idx hk]

theorem insert_eq_self {m : Finmap (fun _ : α => β)} (a : α) (b : β) (h : m.lookup a = some b) :
    m.insert a b = m := by
  refine Finmap.ext_lookup ?_
  intro x
  by_cases hx : x = a
  · rw [hx, Finmap.lookup_insert, h]
  · rw [Finmap.lookup_insert_of_ne m hx]

/-- What was put in can be looked up. -/
theorem lookup_group_putIn (k : κ) (a : α) (b : β) :
    (group (putIn idx k a b) k).lookup a = some b := by
  rw [group_putIn, if_pos rfl]
  exact Finmap.lookup_insert _

/-- The index stays as it is if an entry is put in that is there already, and only then. -/
theorem putIn_eq_self_iff (k : κ) (a : α) (b : β) :
    putIn idx k a b = idx ↔ (group idx k).lookup a = some b := by
  constructor
  · intro heq
    have hput : (group (putIn idx k a b) k).lookup a = some b := lookup_group_putIn k a b
    rw [heq] at hput
    exact hput
  · intro hentry
    have hgroup : idx.lookup k = some (group idx k) := by
      rcases hlookup : idx.lookup k with _ | g
      · rw [group, hlookup, Option.getD_none, Finmap.lookup_empty] at hentry
        cases hentry
      · rw [group, hlookup, Option.getD_some]
    rw [putIn, insert_eq_self a b hentry]
    exact insert_eq_self k _ hgroup

theorem putIn_injective (k : κ) (a : α) (b b' : β) (h : putIn idx k a b = putIn idx k a b') :
    b = b' := by
  have hput : (group (putIn idx k a b) k).lookup a = some b := lookup_group_putIn k a b
  rw [h, lookup_group_putIn] at hput
  exact (Option.some.inj hput).symm

/-- An entry comes, in a place where no entry of another kind is. -/
theorem grouped_put (h : Grouped kind all idx) (a : α) (b : β)
    (hfresh : ∀ b', all.lookup a = some b' → kind b' = kind b) :
    Grouped kind (all.insert a b) (putIn idx (kind b) a b) := by
  refine ⟨?_, ?_⟩
  · intro k x c
    rw [group_putIn]
    by_cases hx : x = a
    · rw [hx, Finmap.lookup_insert]
      by_cases hk : k = kind b
      · rw [if_pos hk, Finmap.lookup_insert, hk]
        refine ⟨fun hc => ⟨hc, ?_⟩, And.left⟩
        rw [Option.some.inj hc]
      · -- What was in this place was of the kind of the new entry.
        rw [if_neg hk, h.entries]
        constructor
        · rintro ⟨hold, hkind⟩
          exact absurd (hkind.symm.trans (hfresh c hold)) hk
        · rintro ⟨hc, hkind⟩
          rw [← Option.some.inj hc] at hkind
          exact absurd hkind.symm hk
    · rw [Finmap.lookup_insert_of_ne all hx, ← h.entries]
      by_cases hk : k = kind b
      · rw [if_pos hk, Finmap.lookup_insert_of_ne _ hx, hk]
      · rw [if_neg hk]
  · intro k g hg
    by_cases hk : k = kind b
    · rw [putIn, hk, Finmap.lookup_insert, Option.some.injEq] at hg
      rw [← hg]
      intro hempty
      have hb := Finmap.lookup_insert (a := a) (b := b) (group idx (kind b))
      rw [hempty, Finmap.lookup_empty] at hb
      cases hb
    · rw [putIn, Finmap.lookup_insert_of_ne idx hk] at hg
      exact h.nonempty k g hg

variable [DecidableEq β]

theorem group_dropFrom (k k' : κ) (a : α) :
    group (dropFrom idx k a) k' = if k' = k then (group idx k).erase a else group idx k' := by
  unfold dropFrom
  split
  · rename_i hempty
    by_cases hk : k' = k
    · rw [if_pos hk, hempty, hk, group, Finmap.lookup_erase, Option.getD_none]
    · rw [if_neg hk, group, Finmap.lookup_erase_ne hk, group]
  · by_cases hk : k' = k
    · rw [if_pos hk, hk, group, Finmap.lookup_insert, Option.getD_some]
    · rw [if_neg hk, group, Finmap.lookup_insert_of_ne idx hk, group]

/-- An entry goes. -/
theorem grouped_drop (h : Grouped kind all idx) (a : α) (b : β) (hb : all.lookup a = some b) :
    Grouped kind (all.erase a) (dropFrom idx (kind b) a) := by
  refine ⟨?_, ?_⟩
  · intro k x c
    rw [group_dropFrom]
    by_cases hx : x = a
    · rw [hx, Finmap.lookup_erase]
      by_cases hk : k = kind b
      · rw [if_pos hk, Finmap.lookup_erase]
        simp only [reduceCtorEq, false_and]
      · rw [if_neg hk, h.entries, hb]
        constructor
        · rintro ⟨hc, hkind⟩
          rw [← Option.some.inj hc] at hkind
          exact absurd hkind.symm hk
        · rintro ⟨hc, -⟩
          cases hc
    · rw [Finmap.lookup_erase_ne hx, ← h.entries]
      by_cases hk : k = kind b
      · rw [if_pos hk, Finmap.lookup_erase_ne hx, hk]
      · rw [if_neg hk]
  · intro k g hg
    unfold dropFrom at hg
    split at hg
    · by_cases hk : k = kind b
      · rw [hk, Finmap.lookup_erase] at hg
        cases hg
      · rw [Finmap.lookup_erase_ne hk] at hg
        exact h.nonempty k g hg
    · rename_i hne
      by_cases hk : k = kind b
      · rw [hk, Finmap.lookup_insert, Option.some.injEq] at hg
        rw [← hg]
        exact hne
      · rw [Finmap.lookup_insert_of_ne idx hk] at hg
        exact h.nonempty k g hg

end Lib
