import YkServer.Core.Config
import YkServer.Lib.Interleaving
import YkServer.Lib.Table

/-!
# Listeners

A listener that keeps a copy of a variable is told of a value under one lock, and the
variable is given the value under another. If a call that was first at the listeners is
last at the variable, the copy and the variable stay different.

What the listeners were told last is the value of the last call between its locks, and
the value of the variable if there is none. A call that assigns in its turn keeps it that
way: those that notified before it and are still on their way carry the same value.

## Main definitions

* `ConfigWorld.InTurn`: Calls assign in the order in which they have notified.
* `ConfigWorld.final`: The value the variable is about to have.
* `ConfigWorld.Told`: What holds as long as calls are in turn.

## Theorems

* `told_notify`, `told_assign`: The two halves of a call.
* `listeners_agree`: When all calls have returned, listeners and variable agree.
* `listeners_disagree`: Two calls that cross.
-/

namespace YkServer

open Lib

namespace ConfigWorld

variable {T : Type}

/-- The value of a call. -/
def valueOf (w : ConfigWorld T) (i : Nat) : Option T := w.calls[i]?.map SetCall.value

/-- A call assigns only when those that have notified before it and not assigned yet carry
    the same value. -/
def InTurn (w : ConfigWorld T) : Action T → Prop
  | .assign i => ∀ j ∈ w.between.takeWhile (· ≠ i), w.valueOf j = w.valueOf i
  | _ => True

/-- The value the variable has when the calls between their locks have assigned in turn. -/
def final (w : ConfigWorld T) : Option T :=
  match w.between.getLast? with
  | some i => w.valueOf i
  | none => some w.var.val

/-- Every listener that was told anything was told the final value last. -/
structure Told (w : ConfigWorld T) : Prop where
  between : ∀ i, i ∈ w.between ↔ ∃ v, w.calls[i]? = some ⟨v, .notified⟩
  nodup : w.between.Nodup
  made : ∀ key l, w.var.cbs.lookup key = some l → l < w.made
  unmade : ∀ l, w.made ≤ l → w.heard l = []
  last : ∀ key l, w.var.cbs.lookup key = some l →
    ∀ n, (w.heard l).head? = some n → some n.2 = w.final

theorem mem_listeners (c : ConfigVar T) (l : Nat) :
    l ∈ c.listeners ↔ ∃ key, c.cbs.lookup key = some l := by
  rw [ConfigVar.listeners, Multiset.mem_map]
  constructor
  · rintro ⟨⟨key, l'⟩, hmem, rfl⟩
    exact ⟨key, Finmap.lookup_eq_some_iff.2 hmem⟩
  · rintro ⟨key, hkey⟩
    exact ⟨⟨key, l⟩, Finmap.lookup_eq_some_iff.1 hkey, rfl⟩

theorem told_new (default : T) : Told (new default) := by
  refine ⟨?_, List.nodup_nil, ?_, fun _ _ => rfl, ?_⟩
  · intro i
    constructor
    · intro hi
      exact absurd hi List.not_mem_nil
    · rintro ⟨v, hv⟩
      cases hv
  · intro key l hl
    cases hl
  · intro key l hl
    cases hl

theorem told_setValue (w : ConfigWorld T) (h : Told w) (v : T) :
    Told { w with calls := w.calls ++ [⟨v, .entered⟩] } := by
  have hnotified : ∀ (i : Nat) (u : T),
      (w.calls ++ [SetCall.mk v .entered])[i]? = some (SetCall.mk u .notified) ↔
        w.calls[i]? = some (SetCall.mk u .notified) := by
    intro i u
    constructor
    · intro hi
      rcases getElem?_concat_eq_some w.calls _ _ i hi with hold | ⟨_, hnew⟩
      · exact hold
      · cases hnew
    · exact getElem?_concat_of_some w.calls _ _ i
  refine ⟨?_, h.nodup, h.made, h.unmade, ?_⟩
  · intro i
    simp only [hnotified]
    exact h.between i
  · intro key l hl n hn
    rw [h.last key l hl n hn]
    -- A call between its locks was there before, and so was its value.
    simp only [final]
    rcases hlast : w.between.getLast? with _ | i
    · rfl
    · rcases (h.between i).1 (List.mem_of_getLast? hlast) with ⟨u, hu⟩
      simp only [valueOf, hu, getElem?_concat_of_some w.calls _ _ i hu]

/-- Every listener is told, and the call is behind all others. -/
theorem told_notify (w : ConfigWorld T) (h : Told w) (i : Nat) (v : T)
    (hi : w.calls[i]? = some ⟨v, .entered⟩) :
    Told { w with
      calls := w.calls.set i ⟨v, .notified⟩
      between := w.between ++ [i]
      heard := fun l =>
        if l ∈ w.var.listeners then (w.var.val, v) :: w.heard l else w.heard l } := by
  have hnot : i ∉ w.between := by
    intro hmem
    rcases (h.between i).1 hmem with ⟨u, hu⟩
    rw [hi] at hu
    cases hu
  refine ⟨?_, ?_, h.made, ?_, ?_⟩
  · intro j
    rw [List.mem_append, List.mem_singleton, h.between j, getElem?_update w.calls i _ _ hi]
    by_cases hj : j = i
    · rw [if_pos hj]
      exact iff_of_true (Or.inr hj) ⟨v, rfl⟩
    · rw [if_neg hj]
      exact or_iff_left hj
  · rw [← List.concat_eq_append, List.nodup_concat]
    exact ⟨hnot, h.nodup⟩
  · intro l hl
    have hunknown : l ∉ w.var.listeners := by
      intro hmem
      rcases (mem_listeners w.var l).1 hmem with ⟨key, hkey⟩
      have hlt := h.made key l hkey
      simp only at hl
      omega
    simp only [if_neg hunknown]
    exact h.unmade l hl
  · intro key l hl n hn
    simp only [if_pos ((mem_listeners w.var l).2 ⟨key, hl⟩), List.head?_cons,
      Option.some.injEq] at hn
    simp only [final, List.getLast?_append, List.getLast?_singleton, Option.some_or, valueOf,
      getElem?_update w.calls i _ _ hi, if_true, ← hn, Option.map_some]

/-- The call is out of the way, and who is last carries the same value as before. -/
theorem final_assign (w : ConfigWorld T) (h : Told w) (i : Nat) (v : T)
    (hi : w.calls[i]? = some ⟨v, .notified⟩) (hturn : InTurn w (.assign i)) :
    final { w with
      var := { w.var with val := v }
      calls := w.calls.set i ⟨v, .returned⟩
      between := w.between.erase i } = w.final := by
  have hvalue : ∀ j, (w.calls.set i ⟨v, .returned⟩)[j]?.map SetCall.value = w.valueOf j :=
    view_update SetCall.value w.calls i ⟨v, .notified⟩ ⟨v, .returned⟩ hi rfl
  have hmine : w.valueOf i = some v := by
    rw [valueOf, hi, Option.map_some]
  rcases List.exists_erase_eq ((h.between i).2 ⟨v, hi⟩) with ⟨before, behind, hout, hsplit, herase⟩
  -- Those that have notified earlier are the ones in front.
  have hbefore : ∀ j ∈ before, w.valueOf j = some v := by
    intro j hj
    rw [← hmine]
    refine hturn j ?_
    have hne : ∀ k ∈ before, decide (k ≠ i) = true := by
      intro k hk
      rw [decide_eq_true_eq]
      rintro rfl
      exact hout hk
    rw [hsplit, List.takeWhile_append_of_pos hne]
    exact List.mem_append_left _ hj
  simp only [final, valueOf, hvalue, herase]
  rw [hsplit]
  rcases List.eq_nil_or_concat behind with rfl | ⟨rest, j, rfl⟩
  · -- It was the last one itself.
    rw [List.append_nil, List.getLast?_append, List.getLast?_singleton, Option.some_or]
    rcases hlast : before.getLast? with _ | j
    · exact hmine.symm
    · exact (hbefore j (List.mem_of_getLast? hlast)).trans hmine.symm
  · have hold : (before ++ i :: rest.concat j).getLast? = some j := by
      rw [List.concat_eq_append, ← List.cons_append, ← List.append_assoc, List.getLast?_concat]
    have hnew : (before ++ rest.concat j).getLast? = some j := by
      rw [List.concat_eq_append, ← List.append_assoc, List.getLast?_concat]
    rw [hold, hnew]

theorem told_assign (w : ConfigWorld T) (h : Told w) (i : Nat) (v : T)
    (hi : w.calls[i]? = some ⟨v, .notified⟩) (hturn : InTurn w (.assign i)) :
    Told { w with
      var := { w.var with val := v }
      calls := w.calls.set i ⟨v, .returned⟩
      between := w.between.erase i } := by
  refine ⟨?_, h.nodup.erase i, h.made, h.unmade, ?_⟩
  · intro j
    rw [h.nodup.mem_erase_iff, h.between j, getElem?_update w.calls i _ _ hi]
    by_cases hj : j = i
    · rw [if_pos hj]
      refine iff_of_false (fun hboth => hboth.1 hj) ?_
      rintro ⟨u, hu⟩
      cases hu
    · rw [if_neg hj]
      exact and_iff_right hj
  · intro key l hl n hn
    rw [final_assign w h i v hi hturn]
    exact h.last key l hl n hn

/-- A listener that is new has not been told anything. -/
theorem told_addListener (w : ConfigWorld T) (h : Told w) :
    Told { w with
      var := w.var.addListener (w.funId + 1) w.made
      funId := w.funId + 1
      made := w.made + 1 } := by
  have hentry : ∀ key l, (w.var.cbs.insert (w.funId + 1) w.made).lookup key = some l →
      l = w.made ∨ w.var.cbs.lookup key = some l := by
    intro key l hl
    by_cases hkey : key = w.funId + 1
    · rw [hkey, Finmap.lookup_insert, Option.some.injEq] at hl
      exact Or.inl hl.symm
    · rw [Finmap.lookup_insert_of_ne _ hkey] at hl
      exact Or.inr hl
  refine ⟨h.between, h.nodup, ?_, ?_, ?_⟩
  · intro key l hl
    rcases hentry key l hl with rfl | hold
    · exact Nat.lt_succ_self _
    · exact Nat.lt_succ_of_lt (h.made key l hold)
  · intro l hl
    exact h.unmade l (Nat.le_of_succ_le hl)
  · intro key l hl n hn
    rcases hentry key l hl with rfl | hold
    · simp only [h.unmade w.made (Nat.le_refl _), List.head?_nil, reduceCtorEq] at hn
    · exact h.last key l hold n hn

/-- Listeners go away. -/
theorem told_fewer (w : ConfigWorld T) (h : Told w) (cbs : Finmap (fun _ : UInt64 => Nat))
    (hfewer : ∀ key l, cbs.lookup key = some l → w.var.cbs.lookup key = some l) :
    Told { w with var := { w.var with cbs := cbs } } :=
  ⟨h.between, h.nodup, fun key l hl => h.made key l (hfewer key l hl), h.unmade,
    fun key l hl => h.last key l (hfewer key l hl)⟩

theorem step_told (w w' : ConfigWorld T) (a : Action T) (h : Told w) (hturn : InTurn w a)
    (hstep : step a w = some w') : Told w' := by
  cases a with
  | setValue v =>
      cases hstep
      exact told_setValue w h v
  | notify i =>
      simp only [step] at hstep
      split at hstep
      · rename_i v hi
        cases hstep
        exact told_notify w h i v hi
      · cases hstep
  | assign i =>
      simp only [step] at hstep
      split at hstep
      · rename_i v hi
        cases hstep
        exact told_assign w h i v hi hturn
      · cases hstep
  | addListener =>
      cases hstep
      exact told_addListener w h
  | addElsewhere =>
      cases hstep
      exact ⟨h.between, h.nodup, h.made, h.unmade, h.last⟩
  | delListener key =>
      cases hstep
      refine told_fewer w h _ ?_
      intro key' l hl
      by_cases hkey : key' = key
      · rw [hkey, Finmap.lookup_erase] at hl
        cases hl
      · rw [Finmap.lookup_erase_ne hkey] at hl
        exact hl
  | clearListener =>
      cases hstep
      refine told_fewer w h _ ?_
      intro key l hl
      cases hl

/-- All calls have returned. -/
def Quiet (w : ConfigWorld T) : Prop := ∀ c ∈ w.calls, c.pos = .returned

instance (w : ConfigWorld T) : Decidable (Quiet w) :=
  inferInstanceAs (Decidable (∀ c ∈ w.calls, c.pos = .returned))

/-- In every run in which calls assign in the order in which they have notified, listeners
    and variable agree whenever no call is under way. -/
theorem listeners_agree (default : T) (acts : List (Action T)) (w : ConfigWorld T)
    (hturn : Along step InTurn acts (new default)) (hrun : run step acts (new default) = some w)
    (hquiet : Quiet w) (key : UInt64) (l : Nat) (hl : w.var.cbs.lookup key = some l)
    (n : T × T) (hn : (w.heard l).head? = some n) : n.2 = w.var.getValue := by
  have h := run_inv Told (fun w a w' hw hP hstep => step_told w w' a hw hP hstep) acts
    (new default) w (told_new default) hturn hrun
  have hnone : w.between = [] := by
    rw [List.eq_nil_iff_forall_not_mem]
    intro i hi
    rcases (h.between i).1 hi with ⟨v, hv⟩
    have hpos := hquiet _ (List.mem_of_getElem? hv)
    cases hpos
  have hlast := h.last key l hl n hn
  rw [final, hnone, List.getLast?_nil, Option.some.injEq] at hlast
  exact hlast

/-- Two calls overlap, and the second to notify is the second to assign. -/
theorem listeners_agree_overlapping :
    ∃ w, run step [.addListener, .setValue 1, .setValue 2, .notify 0, .notify 1, .assign 0,
        .assign 1] (new 0) = some w ∧
      Quiet w ∧ w.var.cbs.lookup 1 = some 0 ∧ (w.heard 0).head? = some (0, 2) ∧
      w.var.getValue = 2 := by
  have hturn : Along step InTurn [.addListener, .setValue 1, .setValue 2, .notify 0, .notify 1,
      .assign 0, .assign 1] (new 0) :=
    -- Each call is the first of those between their locks when it assigns.
    ⟨trivial, trivial, trivial, trivial, trivial, fun j hj => absurd hj List.not_mem_nil,
      fun j hj => absurd hj List.not_mem_nil, trivial⟩
  exact ⟨_, rfl, by decide, rfl, rfl,
    (listeners_agree 0 _ _ hturn rfl (by decide) 1 0 rfl (0, 2) rfl).symm⟩

/-- Two calls cross. The listener was told 2 last, and the variable is 1. -/
theorem listeners_disagree :
    ∃ w, run step [.addListener, .setValue 1, .setValue 2, .notify 0, .notify 1, .assign 1,
        .assign 0] (new 0) = some w ∧
      Quiet w ∧ w.var.cbs.lookup 1 = some 0 ∧ (w.heard 0).head? = some (0, 2) ∧
      w.var.getValue = 1 :=
  ⟨_, rfl, by decide, rfl, rfl, rfl⟩

end ConfigWorld

end YkServer
