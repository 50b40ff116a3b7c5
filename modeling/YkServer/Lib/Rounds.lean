import Mathlib.Data.List.Basic

/-!
# Loops of Local Rounds

A loop over some items in which each round changes nothing but what its own item is for,
its key, and may fail. Where no two items have a key in common, every item finds what the
loop began with and leaves what the loop ends with.

## Main definitions

* `Local`: A round changes what is at the key of its item at most.

## Theorems

* `Local.frame`: What no item is for stays.
* `Local.own`: What the loop does to the key of an item is what its round does.
* `foldlM_isSome`: A loop whose rounds do not fail does not fail.
-/

namespace Lib

variable {σ κ V ι : Type} (get : σ → κ → V) (key : ι → κ) (round : σ → ι → Option σ)

/-- A round changes what is at the key of its item at most. -/
def Local : Prop :=
  ∀ s i s', round s i = some s' → ∀ k, k ≠ key i → get s' k = get s k

variable {get key round}

theorem Local.frame (hlocal : Local get key round) (is : List ι) (s s' : σ)
    (hrun : is.foldlM round s = some s') (k : κ) (hk : ∀ i ∈ is, k ≠ key i) :
    get s' k = get s k := by
  induction is generalizing s with
  | nil =>
      cases hrun
      rfl
  | cons i rest ih =>
      rw [List.foldlM_cons] at hrun
      obtain ⟨t, ht, hrest⟩ := Option.bind_eq_some_iff.1 hrun
      rw [ih t hrest (fun j hj => hk j (List.mem_cons_of_mem i hj)),
        hlocal s i t ht k (hk i List.mem_cons_self)]

/-- The round of an item finds at its key what the loop began with, and the loop ends with what
    it leaves there. -/
theorem Local.own (hlocal : Local get key round) (is : List ι)
    (hdistinct : is.Pairwise (fun i j => key i ≠ key j)) (s s' : σ)
    (hrun : is.foldlM round s = some s') (i : ι) (hi : i ∈ is) :
    ∃ t t', get t (key i) = get s (key i) ∧ round t i = some t' ∧
      get s' (key i) = get t' (key i) := by
  induction is generalizing s with
  | nil => cases hi
  | cons j rest ih =>
      rw [List.foldlM_cons] at hrun
      obtain ⟨t, ht, hrest⟩ := Option.bind_eq_some_iff.1 hrun
      obtain ⟨hother, hdistinct⟩ := List.pairwise_cons.1 hdistinct
      rcases List.mem_cons.1 hi with heq | hi
      · rw [heq]
        exact ⟨s, t, rfl, ht, hlocal.frame rest t s' hrest _ hother⟩
      · obtain ⟨u, u', hu, hround, hend⟩ := ih hdistinct t hrest hi
        exact ⟨u, u', hu.trans (hlocal s j t ht _ (hother i hi).symm), hround, hend⟩

theorem foldlM_isSome (is : List ι) (h : ∀ s, ∀ i ∈ is, (round s i).isSome = true) (s : σ) :
    (is.foldlM round s).isSome = true := by
  induction is generalizing s with
  | nil => rfl
  | cons i rest ih =>
      rw [List.foldlM_cons]
      obtain ⟨t, ht⟩ := Option.isSome_iff_exists.1 (h s i List.mem_cons_self)
      rw [ht]
      exact ih (fun u j hj => h u j (List.mem_cons_of_mem i hj)) t

end Lib
