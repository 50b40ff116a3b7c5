import YkServer.Core.Module
import YkServer.Lib.Interleaving
import YkServer.Lib.Weights

/-!
# The Index of the Modules

`m_type2Modules` has the modules of `m_modules` by type. Each of the two locked sections
keeps it so, except when `add` puts a module in the place of one that came in between its
two locks: the old one is then replaced without an `onUnload`, and if it is of another type
it stays in the index.

A module that went out of `m_modules` is unloaded or about to be. One that was overwritten is
neither, and nothing makes up for it later, so whether it happened can be seen at the end.

## Main definitions

* `ModuleManager.pending`: How many calls are about to unload a module.
* `ModuleManager.Vacant`: The place of a module is not taken by another one.
* `ModuleManager.Indexed`: What holds of a manager as long as no module is overwritten.
* `ModuleManager.Behind`: A module will not be unloaded as often as it should be.

## Theorems

* `step_balance`: What a step does to the accounts of a module.
* `step_indexed`, `step_behind`: A step keeps the index, or spoils the accounts for good.
* `run_listByType`: What `listByType` gives while no module is overwritten.
* `index_agrees_iff`: Runs after which the index and the accounts are right.
-/

namespace YkServer

open Lib

/-- How often a call is about to unload a module. -/
def ModulePos.pending : ModulePos → Nat → Nat
  | .unloading m _, x => if x = m then 1 else 0
  | _, _ => 0

theorem pending_rest (rest : Rest) (x : Nat) : rest.pos.pending x = 0 := by
  rcases rest with m | names | _
  · rfl
  · cases names with
    | nil => rfl
    | cons name names => rfl
  · rfl

namespace ModuleManager

def pending (w : ModuleManager) (x : Nat) : Nat := (w.calls.map (fun p => p.pending x)).sum

/-- No call is in progress. -/
def Quiet (w : ModuleManager) : Prop := ∀ p ∈ w.calls, p = .returned

instance (w : ModuleManager) : Decidable w.Quiet :=
  inferInstanceAs (Decidable (∀ p ∈ w.calls, p = .returned))

theorem pending_quiet (w : ModuleManager) (h : w.Quiet) (x : Nat) : w.pending x = 0 := by
  refine List.sum_eq_zero ?_
  intro n hn
  rcases List.mem_map.1 hn with ⟨p, hp, rfl⟩
  rw [h p hp]
  rfl

theorem pending_goto (w : ModuleManager) (i : Nat) (pos pos' : ModulePos)
    (hi : w.calls[i]? = some pos) (x : Nat) :
    (w.goto i pos').pending x + pos.pending x = w.pending x + pos'.pending x :=
  sum_set (fun p => p.pending x) w.calls i pos pos' hi

variable (heap : Nat → Module)

/-- The place of a module is not taken by another one. -/
def Vacant (w : ModuleManager) (m : Nat) : Prop :=
  ∀ old, w.modules.lookup (heap m).id = some old → old = m

/-- Whenever `add` puts in its module, the place of that is not taken. -/
def Unhurried (w : ModuleManager) : Action → Prop
  | .go i => ∀ m, w.calls[i]? = some (.inserting m) → w.Vacant heap m
  | _ => True

/-- Every module is in its place. -/
def Named (w : ModuleManager) : Prop :=
  ∀ name m, w.modules.lookup name = some m → (heap m).id = name

/-- What holds of a manager as long as no module is overwritten. -/
structure Indexed (w : ModuleManager) : Prop where
  named : Named heap w
  grouped : Grouped (fun m => (heap m).type) w.modules w.type2Modules
  settled : ∀ x, w.unloads x + w.pending x = w.removed x

/-- A module will not be unloaded as often as it should be. -/
def Behind (w : ModuleManager) : Prop := ∃ x, w.unloads x + w.pending x < w.removed x

theorem named_new : Named heap new := by
  intro name m hm
  cases hm

theorem indexed_new : Indexed heap new := ⟨named_new heap, grouped_empty, fun _ => rfl⟩

/-! ## The accounts -/

/-- How often a call overwrites a module in its next step. -/
def lost (w : ModuleManager) : ModulePos → Nat → Nat
  | .inserting m, x => if w.modules.lookup (heap m).id = some x ∧ x ≠ m then 1 else 0
  | _, _ => 0

theorem removed_insert (w : ModuleManager) (m x : Nat) :
    (w.insert heap m).removed x = w.removed x + w.lost heap (.inserting m) x := by
  simp only [insert, lost]
  rcases w.modules.lookup (heap m).id with _ | old
  · simp only [reduceCtorEq, false_and, if_false, Nat.add_zero]
  · simp only [Option.some.injEq]
    by_cases hold : old = m
    · rw [if_pos hold, if_neg (fun h => h.2 (h.1.symm.trans hold)), Nat.add_zero]
    · rw [if_neg hold]
      by_cases hx : x = old
      · rw [bump, if_pos hx, if_pos ⟨hx.symm, fun heq => hold (hx.symm.trans heq)⟩]
      · rw [bump, if_neg hx, if_neg (fun h => hx h.1.symm), Nat.add_zero]

/-- What goes out is unloaded later, but for what is overwritten. -/
theorem goOn_balance (w w' : ModuleManager) (i : Nat) (pos : ModulePos)
    (hi : w.calls[i]? = some pos) (hstep : w.goOn heap i pos = some w') (x : Nat) :
    w'.unloads x + w'.pending x + w.removed x + w.lost heap pos x =
      w.unloads x + w.pending x + w'.removed x := by
  cases pos with
  | deleting name rest =>
      simp only [goOn] at hstep
      split at hstep
      · rename_i m hm
        cases hstep
        have hpending := pending_goto (w.erase heap name m) i _ (.unloading m rest) hi x
        simp only [goto, erase, pending, ModulePos.pending, lost, bump] at hpending ⊢
        split <;> split at hpending <;> omega
      · cases hstep
        have hpending := pending_goto w i _ rest.pos hi x
        rw [pending_rest] at hpending
        simp only [goto, pending, ModulePos.pending, lost] at hpending ⊢
        omega
  | unloading m rest =>
      cases hstep
      have hpending := pending_goto { w with unloads := bump w.unloads m } i _ rest.pos hi x
      rw [pending_rest] at hpending
      simp only [goto, pending, ModulePos.pending, lost, bump] at hpending ⊢
      split <;> split at hpending <;> omega
  | inserting m =>
      cases hstep
      have hpending := pending_goto (w.insert heap m) i _ .returned hi x
      have hremoved := removed_insert heap w m x
      simp only [goto, pending, ModulePos.pending, insert] at hpending hremoved ⊢
      omega
  | copying => cases hstep
  | returned => cases hstep

/-- How often a step overwrites a module. -/
def lostBy (w : ModuleManager) (x : Nat) : Action → Nat
  | .go i =>
    match w.calls[i]? with
    | some pos => w.lost heap pos x
    | none => 0
  | _ => 0

/-- A call begins. -/
theorem pending_begin (w : ModuleManager) (pos : ModulePos) (x : Nat) :
    pending { w with calls := w.calls ++ [pos] } x = w.pending x + pos.pending x :=
  sum_concat (fun p : ModulePos => p.pending x) w.calls pos

theorem step_balance (w w' : ModuleManager) (a : Action) (hstep : step heap a w = some w')
    (x : Nat) : w'.unloads x + w'.pending x + w.removed x + w.lostBy heap x a =
      w.unloads x + w.pending x + w'.removed x := by
  cases a with
  | add m =>
      cases hstep
      rw [pending_begin]
      rfl
  | del name =>
      cases hstep
      rw [pending_begin]
      rfl
  | delAll =>
      cases hstep
      rw [pending_begin]
      rfl
  | copy i names =>
      simp only [step] at hstep
      split at hstep
      · rename_i h
        cases hstep
        have hpending := pending_goto w i _ (Rest.sweep names).pos h.1 x
        rw [pending_rest] at hpending
        simp only [goto, pending, ModulePos.pending, lostBy] at hpending ⊢
        omega
      · cases hstep
  | go i =>
      rcases Option.bind_eq_some_iff.1 hstep with ⟨pos, hi, hgo⟩
      have hbalance := goOn_balance heap w w' i pos hi hgo x
      simp only [lostBy, hi]
      exact hbalance

/-- Nothing is overwritten where the place is not taken, and only there. -/
theorem lostBy_eq_zero_iff (w : ModuleManager) (a : Action) :
    (∀ x, w.lostBy heap x a = 0) ↔ w.Unhurried heap a := by
  cases a with
  | go i =>
      simp only [lostBy, Unhurried]
      rcases w.calls[i]? with _ | pos
      · simp
      · cases pos with
        | inserting m =>
            simp only [lost, Option.some.injEq, ModulePos.inserting.injEq, forall_eq', Vacant]
            refine forall_congr' ?_
            intro x
            simp only [ite_eq_right_iff, Nat.succ_ne_zero, imp_false, not_and, not_not]
        | deleting | unloading | copying | returned => simp [lost]
  | add | del | delAll | copy => simp [lostBy, Unhurried]

/-! ## The maps -/

/-- What a step does to the maps. -/
theorem step_maps (w w' : ModuleManager) (a : Action) (hstep : step heap a w = some w') :
    (∃ calls unloads, w' = { w with calls := calls, unloads := unloads }) ∨
    (∃ name m calls, w.modules.lookup name = some m ∧
      w' = { w.erase heap name m with calls := calls }) ∨
    (∃ i m calls, a = .go i ∧ w.calls[i]? = some (.inserting m) ∧
      w' = { w.insert heap m with calls := calls }) := by
  cases a with
  | add | del | delAll =>
      cases hstep
      exact .inl ⟨_, _, rfl⟩
  | copy i names =>
      simp only [step] at hstep
      split at hstep
      · cases hstep
        exact .inl ⟨_, _, rfl⟩
      · cases hstep
  | go i =>
      rcases Option.bind_eq_some_iff.1 hstep with ⟨pos, hi, hgo⟩
      cases pos with
      | deleting name rest =>
          simp only [goOn] at hgo
          split at hgo
          · rename_i m hm
            cases hgo
            exact .inr (.inl ⟨name, m, _, hm, rfl⟩)
          · cases hgo
            exact .inl ⟨_, _, rfl⟩
      | unloading m rest =>
          cases hgo
          exact .inl ⟨_, _, rfl⟩
      | inserting m =>
          cases hgo
          exact .inr (.inr ⟨i, m, _, rfl, hi, rfl⟩)
      | copying => cases hgo
      | returned => cases hgo

theorem named_erase (w : ModuleManager) (h : Named heap w) (name : List UInt8) (m : Nat) :
    Named heap (w.erase heap name m) := by
  intro name' m' hm'
  simp only [erase] at hm'
  by_cases hname : name' = name
  · rw [hname, Finmap.lookup_erase] at hm'
    cases hm'
  · rw [Finmap.lookup_erase_ne hname] at hm'
    exact h name' m' hm'

theorem named_insert (w : ModuleManager) (h : Named heap w) (m : Nat) :
    Named heap (w.insert heap m) := by
  intro name' m' hm'
  simp only [insert] at hm'
  by_cases hname : name' = (heap m).id
  · rw [hname, Finmap.lookup_insert, Option.some.injEq] at hm'
    rw [← hm', hname]
  · rw [Finmap.lookup_insert_of_ne _ hname] at hm'
    exact h name' m' hm'

theorem step_named (w w' : ModuleManager) (a : Action) (h : Named heap w)
    (hstep : step heap a w = some w') : Named heap w' := by
  rcases step_maps heap w w' a hstep with ⟨_, _, rfl⟩ | ⟨name, m, _, -, rfl⟩ | ⟨_, m, _, -, -, rfl⟩
  · exact h
  · exact named_erase heap w h name m
  · exact named_insert heap w h m

/-- Where nothing is overwritten the index stays right. -/
theorem step_indexed (w w' : ModuleManager) (a : Action) (h : Indexed heap w)
    (hvacant : w.Unhurried heap a) (hstep : step heap a w = some w') : Indexed heap w' := by
  refine ⟨step_named heap w w' a h.named hstep, ?_, ?_⟩
  · rcases step_maps heap w w' a hstep with
      ⟨_, _, rfl⟩ | ⟨name, m, _, hm, rfl⟩ | ⟨i, m, _, rfl, hi, rfl⟩
    · exact h.grouped
    · have hdrop := grouped_drop h.grouped name m hm
      simp only [erase, h.named name m hm]
      exact hdrop
    · refine grouped_put h.grouped (heap m).id m ?_
      intro old hold
      rw [hvacant m hi old hold]
  · intro x
    have hbalance := step_balance heap w w' a hstep x
    have hsettled := h.settled x
    have hlost := (lostBy_eq_zero_iff heap w a).2 hvacant x
    omega

/-- Where something is overwritten it is not unloaded. -/
theorem step_falls_behind (w w' : ModuleManager) (a : Action) (h : Indexed heap w)
    (hvacant : ¬w.Unhurried heap a) (hstep : step heap a w = some w') : w'.Behind := by
  rw [← lostBy_eq_zero_iff, not_forall] at hvacant
  rcases hvacant with ⟨x, hlost⟩
  refine ⟨x, ?_⟩
  have hbalance := step_balance heap w w' a hstep x
  have hsettled := h.settled x
  omega

/-- Nothing makes up for it. -/
theorem step_behind (w w' : ModuleManager) (a : Action) (h : w.Behind)
    (hstep : step heap a w = some w') : w'.Behind := by
  rcases h with ⟨x, hx⟩
  refine ⟨x, ?_⟩
  have hbalance := step_balance heap w w' a hstep x
  omega

/-! ## Modules that come and go once -/

/-- Whether a module is in its place. -/
def present (modules : Finmap (fun _ : List UInt8 => Nat)) (x : Nat) : Nat :=
  if modules.lookup (heap x).id = some x then 1 else 0

/-- A module goes out as often as it came in, at most. -/
structure Counted (w : ModuleManager) : Prop where
  named : Named heap w
  once : ∀ x, w.removed x + present heap w.modules x ≤ w.inserted x

theorem counted_new : Counted heap new := ⟨named_new heap, fun _ => Nat.le_refl 0⟩

theorem present_erase_self (modules : Finmap (fun _ : List UInt8 => Nat)) (x : Nat) :
    present heap (modules.erase (heap x).id) x = 0 := by
  rw [present, Finmap.lookup_erase]
  exact if_neg (fun h => by cases h)

theorem counted_erase (w : ModuleManager) (h : Counted heap w) (name : List UInt8) (m : Nat)
    (hm : w.modules.lookup name = some m) (x : Nat) :
    (w.erase heap name m).removed x + present heap (w.erase heap name m).modules x ≤
      w.inserted x := by
  have honce := h.once x
  have hid := h.named name m hm
  simp only [erase, bump]
  by_cases hx : x = m
  · have hpresent : present heap w.modules x = 1 := by
      rw [present, hx, hid]
      exact if_pos hm
    rw [if_pos hx, ← hid, ← hx, present_erase_self]
    omega
  · rw [if_neg hx]
    by_cases hplace : (heap x).id = name
    · rw [← hplace, present_erase_self]
      omega
    · rw [present, Finmap.lookup_erase_ne hplace]
      exact honce

theorem counted_insert (w : ModuleManager) (h : Counted heap w) (m x : Nat) :
    (w.insert heap m).removed x + present heap (w.insert heap m).modules x ≤
      (w.insert heap m).inserted x := by
  have honce := h.once x
  rw [removed_insert]
  simp only [insert, bump]
  simp only [present, lost] at honce ⊢
  by_cases hx : x = m
  · rw [if_pos hx, if_neg (fun hlost => hlost.2 hx), hx, Finmap.lookup_insert, if_pos rfl]
    rw [hx] at honce
    omega
  · rw [if_neg hx]
    by_cases hplace : (heap x).id = (heap m).id
    · -- It was there before and is overwritten, or was not there.
      rw [hplace] at honce ⊢
      rw [Finmap.lookup_insert, if_neg (fun heq => hx (Option.some.inj heq).symm)]
      by_cases hthere : w.modules.lookup (heap m).id = some x
      · rw [if_pos hthere] at honce
        rw [if_pos ⟨hthere, hx⟩]
        exact honce
      · rw [if_neg (fun hlost => hthere hlost.1)]
        omega
    · rw [Finmap.lookup_insert_of_ne _ hplace,
        if_neg (fun hlost => hplace (h.named _ x hlost.1))]
      exact honce

theorem step_counted (w w' : ModuleManager) (a : Action) (h : Counted heap w)
    (hstep : step heap a w = some w') : Counted heap w' := by
  refine ⟨step_named heap w w' a h.named hstep, ?_⟩
  rcases step_maps heap w w' a hstep with ⟨_, _, rfl⟩ | ⟨name, m, _, hm, rfl⟩ | ⟨_, m, _, -, -, rfl⟩
  · exact h.once
  · exact counted_erase heap w h name m hm
  · exact counted_insert heap w h m

/-! ## Lists of modules -/

theorem mem_listByType (w : ModuleManager) (type : UInt32) (m : Nat)
    (h : Grouped (fun m => (heap m).type) w.modules w.type2Modules) :
    m ∈ w.listByType type ↔ ∃ name, w.modules.lookup name = some m ∧ (heap m).type = type := by
  unfold listByType
  rw [Multiset.mem_map]
  constructor
  · rintro ⟨⟨name, m'⟩, hentry, rfl⟩
    exact ⟨name, (h.entries type name m').1 (Finmap.mem_lookup_iff.2 hentry)⟩
  · rintro ⟨name, hm⟩
    exact ⟨⟨name, m⟩, Finmap.mem_lookup_iff.1 ((h.entries type name m).2 hm), rfl⟩

/-- No module is listed twice, since it is in one place only. -/
theorem nodup_listByType (w : ModuleManager) (type : UInt32) (hnamed : Named heap w)
    (h : Grouped (fun m => (heap m).type) w.modules w.type2Modules) :
    (w.listByType type).Nodup := by
  refine Multiset.Nodup.map_on ?_ (Finmap.nodup_entries _)
  rintro ⟨name, m⟩ hentry ⟨name', m'⟩ hentry' heq
  have hm := ((h.entries type name m).1 (Finmap.mem_lookup_iff.2 hentry)).1
  have hm' := ((h.entries type name' m').1 (Finmap.mem_lookup_iff.2 hentry')).1
  cases heq
  rw [← hnamed name m hm, ← hnamed name' m hm']

/-! ## Runs -/

/-- While no module is overwritten, the modules of a type are listed once each, also between
    the steps of other calls. -/
theorem run_listByType (as : List Action) (w : ModuleManager)
    (hall : Along (step heap) (Unhurried heap) as new) (hrun : run (step heap) as new = some w)
    (type : UInt32) :
    (w.listByType type).Nodup ∧
    ∀ m, m ∈ w.listByType type ↔
      w.modules.lookup (heap m).id = some m ∧ (heap m).type = type := by
  have h : Indexed heap w :=
    run_inv (Indexed heap) (fun w a w' => step_indexed heap w w' a) as new w (indexed_new heap)
      hall hrun
  refine ⟨nodup_listByType heap w type h.named h.grouped, ?_⟩
  intro m
  rw [mem_listByType heap w type m h.grouped]
  constructor
  · rintro ⟨name, hm, htype⟩
    rw [h.named name m hm]
    exact ⟨hm, htype⟩
  · rintro ⟨hm, htype⟩
    exact ⟨_, hm, htype⟩

/-- After any run in which all calls have returned: no module went out more often than it was
    added; and the index is the map grouped by type and every module was unloaded as often as
    it was deleted or replaced, exactly if no call of `add` found another module in the place
    of its own when it put it in. -/
theorem index_agrees_iff (as : List Action) (w : ModuleManager)
    (hrun : run (step heap) as new = some w) (hquiet : w.Quiet) :
    (∀ x, w.removed x ≤ w.inserted x) ∧
    (Grouped (fun m => (heap m).type) w.modules w.type2Modules ∧
      (∀ x, w.unloads x = w.removed x) ↔
        Along (step heap) (Unhurried heap) as new) := by
  refine ⟨?_, ?_⟩
  · intro x
    have hcounted : Counted heap w :=
      run_inv (Counted heap) (fun w a w' h _ hstep => step_counted heap w w' a h hstep) as new w
        (counted_new heap) (along_true as new) hrun
    exact Nat.le_trans (Nat.le_add_right _ _) (hcounted.once x)
  · rcases run_good_or_bad (Indexed heap) Behind (fun w a w' => step_indexed heap w w' a)
      (fun w a w' => step_falls_behind heap w w' a) (fun w a w' => step_behind heap w w' a)
      as new w (indexed_new heap) hrun with ⟨hall, hgood⟩ | ⟨hnot, hbad⟩
    · refine iff_of_true ⟨hgood.grouped, ?_⟩ hall
      intro x
      rw [← hgood.settled x, pending_quiet w hquiet, Nat.add_zero]
    · refine iff_of_false ?_ hnot
      rintro ⟨-, hunloads⟩
      rcases hbad with ⟨x, hx⟩
      rw [hunloads x, pending_quiet w hquiet] at hx
      omega

/-- Modules of one name and version, the first of one type and the others of another. -/
def twoTypes (m : Nat) : Module := ⟨ascii "a", ascii "1", if m = 0 then 0 else 1⟩

/-- One module replaces another. -/
theorem index_agrees_replaced : ∃ w, run (step twoTypes)
    [.add 0, .go 0, .go 0, .add 1, .go 1, .go 1, .go 1] new = some w ∧ w.Quiet ∧
    Grouped (fun m => (twoTypes m).type) w.modules w.type2Modules ∧ w.unloads 0 = 1 := by
  have hunhurried : Along (step twoTypes) (Unhurried twoTypes)
      [.add 0, .go 0, .go 0, .add 1, .go 1, .go 1, .go 1] new := by
    refine ⟨trivial, ?_, ?_, trivial, ?_, ?_, ?_, trivial⟩
    · intro m hm
      cases hm
    · intro m hm old hold
      cases hm
      cases hold
    · intro m hm
      cases hm
    · intro m hm
      cases hm
    · intro m hm old hold
      cases hm
      cases hold
  have hagrees : ∀ w, run (step twoTypes) [.add 0, .go 0, .go 0, .add 1, .go 1, .go 1, .go 1] new =
      some w → w.Quiet → Grouped (fun m => (twoTypes m).type) w.modules w.type2Modules := by
    intro w hrun hquiet
    exact ((index_agrees_iff twoTypes _ w hrun hquiet).2.2 hunhurried).1
  exact ⟨_, rfl, by decide, hagrees _ rfl (by decide), rfl⟩

/-- Two calls of `add` that both delete before one of them inserts. The first module is replaced
    and not unloaded, and stays in the index. -/
theorem index_disagrees : ∃ w, run (step twoTypes)
    [.add 0, .add 1, .go 0, .go 1, .go 0, .go 1] new = some w ∧ w.Quiet ∧
    ¬Grouped (fun m => (twoTypes m).type) w.modules w.type2Modules ∧
    w.inserted 0 = 1 ∧ w.removed 0 = 1 ∧ w.unloads 0 = 0 := by
  refine ⟨_, rfl, by decide, ?_, rfl, rfl, rfl⟩
  intro h
  have hstale := ((h.entries 0 (ascii "a/1") 0).1 rfl).1
  revert hstale
  decide

end ModuleManager

end YkServer
