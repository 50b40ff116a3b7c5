import YkServer.Theory.IOManager.Accounting

/-!
# Removal from the Event Table

A cancelled event, a closed descriptor and a report have one thing in common: some
registered events of one descriptor are removed and whoever waited for them is
queued. `Removes` says just that, with a frame: what stays registered stays with
who waits for it.

## Main definitions

* `IOManager.Removes`: Some events of a descriptor are gone.

## Theorems

* `cancelEvent_removes`, `cancelAll_removes`, `dispatch_removes`: The operations.
* `addEvent_registers`: The one operation that adds an event.
-/

namespace YkServer

open Lib

namespace FdContext

theorem getContext_dropIf (c : FdContext) (m : UInt32) (e e' : Event) :
    (c.dropIf m e).getContext e' = if e' = e ∧ hasBit m e = true then .empty
      else c.getContext e' := by
  unfold dropIf
  by_cases hbit : hasBit m e = true
  · rw [if_pos hbit, getContext_drop]
    simp only [hbit, and_true]
  · rw [if_neg hbit, if_neg (fun h => hbit h.2)]

/-- Who waits for what is left. -/
theorem getContext_remove (c : FdContext) (m : UInt32) (e : Event) (h : hasBit m e = false) :
    (c.remove m).getContext e = c.getContext e := by
  unfold remove
  rw [getContext_dropIf, getContext_dropIf]
  cases e with
  | READ => simp only [h, reduceCtorEq, false_and, if_false, Bool.false_eq_true, and_false]
  | WRITE => simp only [h, reduceCtorEq, false_and, if_false, Bool.false_eq_true, and_false]

theorem hasBit_bit (e e' : Event) : hasBit e.bit e' = decide (e' = e) := by
  cases e <;> cases e' <;> decide

/-- Dropping an event is removing the mask of its bit. -/
theorem remove_bit (c : FdContext) (e : Event) : c.remove e.bit = c.drop e := by
  unfold remove dropIf
  rw [hasBit_bit, hasBit_bit]
  cases e <;> rfl

theorem due_bit (c : FdContext) (e : Event) : c.due e.bit = (c.getContext e).waiter := by
  unfold due dueIf
  rw [hasBit_bit, hasBit_bit]
  cases e with
  | READ => exact List.append_nil _
  | WRITE => rfl

end FdContext

namespace IOManager

/-- The registered events `gone` of a descriptor are removed, and whoever waited for
    them is queued. -/
structure Removes (s : IOManager) (fd : Nat) (gone : Event → Bool) (s' : IOManager) : Prop where
  inv : Inv s'
  was : ∀ e, gone e = true → s.registered fd e = true
  registered : ∀ fd' e, s'.registered fd' e =
    (s.registered fd' e && !(decide (fd' = fd) && gone e))
  context : ∀ fd' e, s'.registered fd' e = true →
    (s'.entry fd').getContext e = (s.entry fd').getContext e
  scheduled : s'.scheduled = s.scheduled ++
    ((if gone .READ then ((s.entry fd).getContext .READ).waiter else []) ++
      (if gone .WRITE then ((s.entry fd).getContext .WRITE).waiter else []))

theorem removes_nothing (s : IOManager) (h : Inv s) (fd : Nat) :
    Removes s fd (fun _ => false) s := by
  refine ⟨h, ?_, ?_, fun _ _ _ => rfl, ?_⟩
  · intro e hgone
    cases hgone
  · intro fd' e
    rw [Bool.and_false, Bool.not_false, Bool.and_true]
  · exact (List.append_nil _).symm

/-- Settling an entry without the events of a mask. -/
theorem removes_mask (s : IOManager) (h : Inv s) (fd : Nat) (m : UInt32)
    (i : Option EpollEvent) (hfd : fd < s.fdContexts.length)
    (hreg : ∀ e, hasBit m e = true → s.registered fd e = true) :
    Removes s fd (hasBit m) (s.settle fd ((s.entry fd).remove m) ((s.entry fd).due m) i) := by
  have hgood := h.good fd
  have hentry := fun fd' => entry_settle s fd fd' ((s.entry fd).remove m) ((s.entry fd).due m) i hfd
  have hleft : ∀ fd' e, (s.settle fd ((s.entry fd).remove m) ((s.entry fd).due m) i).registered
      fd' e = (s.registered fd' e && !(decide (fd' = fd) && hasBit m e)) := by
    intro fd' e
    rw [registered, hentry]
    by_cases hfd' : fd' = fd
    · rw [if_pos hfd', hgood.registered_remove, registered, hfd', decide_eq_true rfl, Bool.true_and]
    · rw [if_neg hfd', decide_eq_false hfd', Bool.false_and, Bool.not_false, Bool.and_true]
      rfl
  refine ⟨inv_settle s h fd _ _ _ hfd (FdContext.good_remove hgood m) ?_, hreg, hleft, ?_, rfl⟩
  · rw [FdContext.fd_remove]
    exact h.fds fd
  · intro fd' e hstays
    rw [hleft, Bool.and_eq_true, Bool.not_eq_true', Bool.and_eq_false_iff,
      decide_eq_false_iff_not] at hstays
    rw [hentry]
    by_cases hfd' : fd' = fd
    · rw [if_pos hfd', hfd']
      exact FdContext.getContext_remove _ m e (hstays.2.resolve_left (not_not_intro hfd'))
    · rw [if_neg hfd']

theorem cancelEvent_removes (s : IOManager) (h : Inv s) (fd : Nat) (e : Event)
    (garbage : UInt32) (ok : Bool) :
    ∃ r s' gone, cancelEvent fd e garbage ok s = .ok r s' ∧ Removes s fd gone s' ∧
      (ok = true → s.registered fd e = true → gone e = true) := by
  -- Either `epoll_ctl` succeeds for a registered event, or nothing changes.
  by_cases hgo : ok = true ∧ s.registered fd e = true
  · rcases hgo with ⟨rfl, hreg⟩
    have hremoves := removes_mask s h fd e.bit (withdrawn (s.entry fd) e garbage)
      (lt_of_registered s fd e hreg) (fun e' hbit => by
        rw [FdContext.hasBit_bit, decide_eq_true_iff] at hbit
        rw [hbit]
        exact hreg)
    rw [FdContext.remove_bit, FdContext.due_bit] at hremoves
    refine ⟨_, _, _, cancelEvent_registered s h fd e garbage hreg, hremoves, fun _ _ => ?_⟩
    rw [FdContext.hasBit_bit]
    exact decide_eq_true rfl
  · have hidle := clear_of_not_both ok _ hgo
    refine ⟨false, s, _, ?_, removes_nothing s h fd, fun hok hreg => absurd ⟨hok, hreg⟩ hgo⟩
    cases ok with
    | false => exact withdraw_fails s fd e garbage _
    | true => exact withdraw_clear s fd e garbage true _ (hidle rfl)

theorem cancelAll_removes (s : IOManager) (h : Inv s) (fd : Nat) (ok : Bool) :
    ∃ r s' gone, cancelAll fd ok s = .ok r s' ∧ Removes s fd gone s' := by
  by_cases hz : (s.entry fd).events = 0
  · exact ⟨_, s, _, cancelAll_none s fd ok hz, removes_nothing s h fd⟩
  · cases ok with
    | false => exact ⟨_, s, _, cancelAll_fails s fd, removes_nothing s h fd⟩
    | true =>
        exact ⟨_, _, _, cancelAll_some s h fd hz,
          removes_mask s h fd (s.entry fd).events none (lt_of_events s fd hz) (fun _ hbit => hbit)⟩

/-- A report that is handled without an assertion in the way. -/
theorem dispatch_removes (s s' : IOManager) (h : Inv s) (fd : Nat) (mask : UInt32) (ok : Bool)
    (hrun : dispatch fd mask ok s = .ok () s') : ∃ gone, Removes s fd gone s' := by
  rcases next_of_perform s s' h (.dispatch fd mask ok) hrun with ⟨hfd, hcalm, _⟩
  by_cases hz : (s.entry fd).events &&& realFor (s.entry fd) mask = 0
  · rw [dispatch_unrelated s fd mask ok hfd hz] at hrun
    cases hrun
    exact ⟨_, removes_nothing s h fd⟩
  · cases ok with
    | false =>
        rw [dispatch_fails s fd mask hfd] at hrun
        cases hrun
        exact ⟨_, removes_nothing s h fd⟩
    | true =>
        -- No assertion has failed, so all that is triggered was registered.
        have hreg := (hcalm rfl).resolve_left
          (fun hno => hz ((unrelated_iff (h.good fd) mask).2 hno))
        rw [dispatch_fresh s h fd mask hfd hz hreg] at hrun
        cases hrun
        exact ⟨_, removes_mask s h fd _ _ hfd hreg⟩

/-- One event more, with the caller waiting for it, and all else as it was. -/
structure Registers (s : IOManager) (fd : Nat) (e : Event) (caller : Caller) (s' : IOManager) :
    Prop where
  inv : Inv s'
  was : s.registered fd e = false
  registered : ∀ fd' e', s'.registered fd' e' =
    (s.registered fd' e' || decide (fd' = fd ∧ e' = e))
  own : (s'.entry fd).getContext e = newContext none caller
  context : ∀ fd' e', ¬(fd' = fd ∧ e' = e) →
    (s'.entry fd').getContext e' = (s.entry fd').getContext e'
  scheduled : s'.scheduled = s.scheduled

/-- `addEvent` registers its fiber, or changes nothing. -/
theorem addEvent_registers (s s' : IOManager) (h : Inv s) (fd : Nat) (e : Event)
    (caller : Caller) (ok : Bool) (rt : Int)
    (hrun : addEvent fd e none caller ok s = .ok rt s') :
    (rt = 0 ∧ Registers s fd e caller s') ∨ (rt ≠ 0 ∧ Inv s' ∧ Unchanged s s') := by
  cases ok with
  | false =>
      rw [addEvent_fails s h fd e none caller] at hrun
      cases hrun
      exact Or.inr ⟨by decide, inv_ensure s h fd, unchanged_ensure s h fd⟩
  | true =>
      by_cases hreg : s.registered fd e = true
      · -- The assertion that the event is not registered fails.
        rcases addEvent_twice s h fd e none caller hreg with ⟨s'', hstop⟩
        rw [hstop] at hrun
        cases hrun
      · rw [Bool.not_eq_true] at hreg
        rcases addEvent_next s h fd e none caller true (fun _ => hreg) with ⟨_, _, hrun', hnext⟩
        rw [hrun] at hrun'
        cases hrun'
        rw [addEvent_clear s h fd e none caller hreg] at hrun
        cases hrun
        -- The table is large enough by now, and the entry is the one there was.
        have hfit := (ensure_fits s h.room fd).1
        have hentry := fun fd' => entry_settle (ensureContext fd s) fd fd'
          ((s.entry fd).add e (newContext none caller)) []
          (some ⟨EPOLLET ||| ((s.entry fd).events ||| e.bit), fd⟩) hfit
        have hget : ∀ e', ((s.entry fd).add e (newContext none caller)).getContext e' =
            if e' = e then newContext none caller else (s.entry fd).getContext e' := by
          intro e'
          rw [FdContext.add, FdContext.getContext_setContext]
          cases e' <;> rfl
        refine Or.inl ⟨rfl, hnext.inv, hreg, ?_, ?_, ?_, ?_⟩
        · intro fd' e'
          rw [hnext.registered, Op.leaves, Bool.true_and, Bool.decide_and]
        · rw [hentry, if_pos rfl, hget, if_pos rfl]
        · intro fd' e' hne
          rw [hentry, entry_ensure s h.room]
          by_cases hfd' : fd' = fd
          · rw [if_pos hfd', hget, if_neg (fun he => hne ⟨hfd', he⟩), hfd']
          · rw [if_neg hfd']
        · rw [hnext.scheduled, Op.due, List.append_nil]

end IOManager

end YkServer
