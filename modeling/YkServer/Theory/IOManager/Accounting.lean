import YkServer.Lib.Reach
import YkServer.Theory.IOManager.Steps

/-!
# Event Accounting

What the event table is for, without contexts, masks and growing vectors: a set
of registered pairs of a descriptor and an event, each with somebody who waits,
and a queue of those who were woken. `Op.leaves` is the set after an operation
and `Op.due` is what the operation queues. `Next` says that a state follows
another as the operation demands, and `perform_next` that the operations of the
code either do that or stop the process on an assertion, and exactly when.

The counter, the bits and the contexts are then right in every state of every
run, because every operation leads from a state with the invariant to a state
with the invariant, whatever the kernel answers.

## Main definitions

* `IOManager.Op.due`, `IOManager.Op.leaves`, `IOManager.Op.tells`: The abstract
  effect of an operation.
* `IOManager.Unchanged`: Same entries, counter, interest and queue.
* `IOManager.Next`: A state follows another by an operation.
* `IOManager.Op.Calm`: The operation meets no assertion.
* `IOManager.Op.Admissible`: Events are added once, and reports are fresh.
* `IOManager.Accounts`: The counter, the bits and the contexts agree.

## Theorems

* `perform_next`: A calm operation does what it should.
* `perform_stops`: An operation that is not calm fails an assertion.
* `accounting`: Every state of every admissible run.
-/

namespace YkServer

open Lib

namespace IOManager

/-- The kernel's answer that the operation is going to get. -/
def Op.ok : Op → Bool
  | .addEvent _ _ _ _ ok => ok
  | .delEvent _ _ _ ok => ok
  | .cancelEvent _ _ _ ok => ok
  | .cancelAll _ ok => ok
  | .dispatch _ _ ok => ok

/-- The descriptor the operation is about. -/
def Op.fd : Op → Nat
  | .addEvent fd _ _ _ _ => fd
  | .delEvent fd _ _ _ => fd
  | .cancelEvent fd _ _ _ => fd
  | .cancelAll fd _ => fd
  | .dispatch fd _ _ => fd

/-- The kernel agrees, and what is to be removed by name is there. -/
def Op.goesOn (s : IOManager) : Op → Bool
  | .addEvent _ _ _ _ ok => ok
  | .delEvent fd e _ ok => ok && s.registered fd e
  | .cancelEvent fd e _ ok => ok && s.registered fd e
  | .cancelAll _ ok => ok
  | .dispatch _ _ ok => ok

/-- What the operation queues: the waiter of each registered event it cancels
    or is told about, and nothing for a withdrawal. -/
def Op.due (s : IOManager) : Op → List (Nat × Task)
  | .addEvent _ _ _ _ _ => []
  | .delEvent _ _ _ _ => []
  | .cancelEvent fd e _ ok =>
    if ok && s.registered fd e then ((s.entry fd).getContext e).waiter else []
  | .cancelAll fd ok => if ok then (s.entry fd).due (s.entry fd).events else []
  | .dispatch fd mask ok => if ok then (s.entry fd).due (realFor (s.entry fd) mask) else []

/-- Which events are registered afterwards. -/
def Op.leaves (s : IOManager) (fd : Nat) (e : Event) : Op → Bool
  | .addEvent fd' e' _ _ ok => s.registered fd e || (ok && decide (fd = fd') && decide (e = e'))
  | .delEvent fd' e' _ ok => s.registered fd e && !(ok && decide (fd = fd') && decide (e = e'))
  | .cancelEvent fd' e' _ ok => s.registered fd e && !(ok && decide (fd = fd') && decide (e = e'))
  | .cancelAll fd' ok => s.registered fd e && !(ok && decide (fd = fd'))
  | .dispatch fd' mask ok =>
    s.registered fd e && !(ok && decide (fd = fd') && hasBit (realFor (s.entry fd') mask) e)

/-- What the kernel is told about the entry the operation leaves. -/
def Op.tells (c : FdContext) : Op → Option EpollEvent
  | .delEvent _ _ garbage _ => if c.events = 0 then none else some ⟨garbage, c.fd⟩
  | .cancelEvent _ _ garbage _ => if c.events = 0 then none else some ⟨garbage, c.fd⟩
  | .addEvent _ _ _ _ _ => c.interest
  | .cancelAll _ _ => c.interest
  | .dispatch _ _ _ => c.interest

/-- The table, the contexts, the counter, the interest list and the queue are as
    they were. The vector may have got longer, by empty entries. -/
structure Unchanged (s s' : IOManager) : Prop where
  table : s.fdContexts <+: s'.fdContexts
  entries : ∀ fd, s'.entry fd = s.entry fd
  pending : s'.pendingEventCount = s.pendingEventCount
  interest : s'.interest = s.interest
  scheduled : s'.scheduled = s.scheduled

/-- The state `s'` follows `s` by the operation. -/
structure Next (s : IOManager) (op : Op) (s' : IOManager) : Prop where
  inv : Inv s'
  grown : s.fdContexts.length ≤ s'.fdContexts.length
  counted : s'.pendingEventCount = s.pendingEventCount +
    ((s'.entry op.fd).registrations - (s.entry op.fd).registrations)
  scheduled : s'.scheduled = s.scheduled ++ op.due s
  registered : ∀ fd e, s'.registered fd e = op.leaves s fd e
  refused : op.ok = false → Unchanged s s'
  told : ∀ fd, (s'.entry fd = s.entry fd ∧ s'.interest fd = s.interest fd) ∨
    (fd = op.fd ∧ op.goesOn s = true ∧ s'.interest fd = op.tells (s'.entry fd))

/-- No assertion is in the way: an event is not added twice, and a report is
    about registered events only or about none. -/
def Op.Calm (s : IOManager) : Op → Prop
  | .addEvent fd e _ _ ok => ok = true → s.registered fd e = false
  | .dispatch fd mask ok => ok = true →
    (∀ e, hasBit (realFor (s.entry fd) mask) e = true → s.registered fd e = false) ∨
    (∀ e, hasBit (realFor (s.entry fd) mask) e = true → s.registered fd e = true)
  | _ => True

/-- A report belongs to an entry of the table. -/
def Op.Known (s : IOManager) : Op → Prop
  | .dispatch fd _ _ => fd < s.fdContexts.length
  | _ => True

theorem unchanged_refl (s : IOManager) : Unchanged s s :=
  ⟨List.prefix_rfl, fun _ => rfl, rfl, rfl, rfl⟩

theorem unchanged_ensure (s : IOManager) (h : Inv s) (fd : Nat) :
    Unchanged s (ensureContext fd s) := by
  have hroom := h.room
  refine ⟨?_, entry_ensure s hroom fd, ?_, ?_, ?_⟩
  · unfold ensureContext
    split
    · exact List.prefix_rfl
    · rw [contextResize, List.take_of_length_le (by omega)]
      exact List.prefix_append _ _
  all_goals
    unfold ensureContext
    split <;> rfl

/-- Leaving everything as it is follows, when nothing is due. -/
theorem next_unchanged (s s' : IOManager) (op : Op) (hinv : Inv s') (hun : Unchanged s s')
    (hdue : op.due s = []) (hleaves : ∀ fd e, op.leaves s fd e = s.registered fd e) :
    Next s op s' := by
  refine ⟨hinv, hun.table.length_le, ?_, ?_, ?_, fun _ => hun, ?_⟩
  · rw [hun.entries, hun.pending, Int.sub_self, Int.add_zero]
  · rw [hdue, List.append_nil, hun.scheduled]
  · intro fd e
    rw [hleaves, IOManager.registered, hun.entries fd]
    rfl
  · intro fd
    rw [hun.interest]
    exact Or.inl ⟨hun.entries fd, rfl⟩

theorem ok_of_goesOn (s : IOManager) (op : Op) (h : op.goesOn s = true) : op.ok = true := by
  cases op with
  | addEvent fd e cb caller ok => exact h
  | delEvent fd e garbage ok => exact ((Bool.and_eq_true _ _).mp h).1
  | cancelEvent fd e garbage ok => exact ((Bool.and_eq_true _ _).mp h).1
  | cancelAll fd ok => exact h
  | dispatch fd mask ok => exact h

/-- Settling an entry follows, when the entry is the one the operation leaves. -/
theorem next_settle (s : IOManager) (h : Inv s) (op : Op) (fd : Nat) (c : FdContext)
    (hop : op.fd = fd) (hgo : op.goesOn s = true) (hc : c.Good) (hfd : c.fd = fd)
    (hself : ∀ e, op.leaves s fd e = c.registered e)
    (hother : ∀ fd' e, fd' ≠ fd → op.leaves s fd' e = s.registered fd' e) :
    Next s op ((ensureContext fd s).settle fd c (op.due s) (op.tells c)) := by
  have hfit := (ensure_fits s h.room fd).1
  have hun := unchanged_ensure s h fd
  have hentry : ∀ fd', ((ensureContext fd s).settle fd c (op.due s) (op.tells c)).entry fd' =
      if fd' = fd then c else s.entry fd' := by
    intro fd'
    rw [entry_settle _ fd fd' c _ _ hfit, hun.entries fd']
  refine ⟨inv_settle _ (inv_ensure s h fd) fd c _ _ hfit hc hfd, ?_, ?_, ?_, ?_, ?_, ?_⟩
  · rw [settle, List.length_set]
    exact hun.table.length_le
  · rw [hop, hentry, if_pos rfl, settle, hun.pending, hun.entries]
  · rw [settle, hun.scheduled]
  · intro fd' e
    rw [IOManager.registered, hentry]
    by_cases heq : fd' = fd
    · rw [if_pos heq, heq, hself]
    · rw [if_neg heq, hother fd' e heq]
      rfl
  · -- An entry is only settled after the kernel has agreed.
    intro hrefused
    rw [ok_of_goesOn s op hgo] at hrefused
    exact absurd hrefused.symm Bool.false_ne_true
  · intro fd'
    rw [hentry]
    -- The kernel's view moves with the entry, and only there.
    by_cases heq : fd' = fd
    · rw [if_pos heq, heq]
      exact Or.inr ⟨hop.symm, hgo, Function.update_self _ _ _⟩
    · rw [if_neg heq]
      refine Or.inl ⟨rfl, ?_⟩
      rw [settle, hun.interest]
      exact Function.update_of_ne heq _ _

theorem ensure_of_lt (s : IOManager) (fd : Nat) (h : fd < s.fdContexts.length) :
    ensureContext fd s = s := if_pos h

/-- Removing a registered event, with or without waking its waiter. -/
theorem next_drop (s : IOManager) (h : Inv s) (op : Op) (fd : Nat) (e : Event)
    (hreg : s.registered fd e = true) (hop : op.fd = fd) (hgo : op.goesOn s = true)
    (hleaves : ∀ fd' e', op.leaves s fd' e' =
      (s.registered fd' e' && !(true && decide (fd' = fd) && decide (e' = e)))) :
    Next s op (s.settle fd ((s.entry fd).drop e) (op.due s) (op.tells ((s.entry fd).drop e))) := by
  have hfd := lt_of_registered s fd e hreg
  have hgood := h.good fd
  have hnext := next_settle s h op fd ((s.entry fd).drop e) hop hgo (FdContext.good_drop hgood e)
    (by rw [FdContext.fd_drop, h.fds fd])
    (by
      intro e'
      rw [hleaves, hgood.registered_drop, registered]
      simp)
    (by
      intro fd' e' hne
      rw [hleaves]
      simp [hne])
  rw [ensure_of_lt s fd hfd] at hnext
  exact hnext

/-- Removing a mask of events and waking their waiters. -/
theorem next_remove (s : IOManager) (h : Inv s) (op : Op) (fd : Nat) (m : UInt32)
    (hfd : fd < s.fdContexts.length) (hop : op.fd = fd) (hgo : op.goesOn s = true)
    (hself : ∀ e, op.leaves s fd e = (s.registered fd e && !hasBit m e))
    (hother : ∀ fd' e, fd' ≠ fd → op.leaves s fd' e = s.registered fd' e) :
    Next s op (s.settle fd ((s.entry fd).remove m) (op.due s)
      (op.tells ((s.entry fd).remove m))) := by
  have hgood := h.good fd
  have hnext := next_settle s h op fd ((s.entry fd).remove m) hop hgo
    (FdContext.good_remove hgood m) (by rw [FdContext.fd_remove, h.fds fd])
    (by
      intro e
      rw [hself, hgood.registered_remove]
      rfl)
    hother
  rw [ensure_of_lt s fd hfd] at hnext
  exact hnext

/-- An event that is not registered has nobody to wake. -/
theorem dueIf_clear {c : FdContext} (h : c.Good) (m : UInt32) (e : Event)
    (hreg : hasBit m e = true → c.registered e = false) : c.dueIf m e = [] := by
  unfold FdContext.dueIf
  split
  · rename_i hbit
    rw [h.empty e (hreg hbit), EventContext.waiter_empty]
  · rfl

theorem due_clear {c : FdContext} (h : c.Good) (m : UInt32)
    (hreg : ∀ e, hasBit m e = true → c.registered e = false) : c.due m = [] := by
  rw [FdContext.due, dueIf_clear h m .READ (hreg .READ), dueIf_clear h m .WRITE (hreg .WRITE)]
  rfl

/-! ## Operations -/

theorem addEvent_next (s : IOManager) (h : Inv s) (fd : Nat) (e : Event) (cb : Option Nat)
    (caller : Caller) (ok : Bool) (hcalm : ok = true → s.registered fd e = false) :
    ∃ r s', addEvent fd e cb caller ok s = .ok r s' ∧ Next s (.addEvent fd e cb caller ok) s' := by
  cases ok with
  | false =>
      refine ⟨_, _, addEvent_fails s h fd e cb caller, ?_⟩
      refine next_unchanged s _ _ (inv_ensure s h fd) (unchanged_ensure s h fd) rfl ?_
      intro fd' e'
      simp only [Op.leaves, Bool.false_and, Bool.or_false]
  | true =>
      have hgood := h.good fd
      refine ⟨_, _, addEvent_clear s h fd e cb caller (hcalm rfl), ?_⟩
      have hnext := next_settle s h (.addEvent fd e cb caller true) fd
        ((s.entry fd).add e (newContext cb caller)) rfl rfl
        (FdContext.good_add hgood e _ (waiting_newContext cb caller))
        (by rw [FdContext.add, FdContext.fd_setContext]; exact h.fds fd)
        (by
          intro e'
          rw [hgood.registered_add, Op.leaves, registered]
          simp)
        (by
          intro fd' e' hne
          simp [Op.leaves, hne])
      -- The mask is not zero: it has the bit that was set.
      have htold : ((s.entry fd).add e (newContext cb caller)).interest =
          some ⟨EPOLLET ||| ((s.entry fd).events ||| e.bit), fd⟩ := by
        have hnz : ¬((s.entry fd).add e (newContext cb caller)).events = 0 := by
          rw [(FdContext.good_add hgood e _ (waiting_newContext cb caller)).events_eq_zero]
          intro hall
          have hbit := hall e
          rw [hgood.registered_add, decide_eq_true rfl, Bool.or_true] at hbit
          exact Bool.false_ne_true hbit.symm
        rw [FdContext.interest, if_neg hnz, FdContext.add, FdContext.events_setContext,
          FdContext.fd_setContext]
        simp only [h.fds fd]
      rw [Op.tells, htold] at hnext
      exact hnext

/-- A removal that the kernel refuses, or that finds nothing registered. -/
theorem next_idle (s : IOManager) (h : Inv s) (op : Op) (fd : Nat) (e : Event) (ok : Bool)
    (hidle : ok = true → s.registered fd e = false) (hdue : op.due s = [])
    (hleaves : ∀ fd' e', op.leaves s fd' e' =
      (s.registered fd' e' && !(ok && decide (fd' = fd) && decide (e' = e)))) : Next s op s := by
  refine next_unchanged s s op h (unchanged_refl s) hdue ?_
  intro fd' e'
  rw [hleaves]
  cases ok with
  | false => simp
  | true =>
      -- The one bit that could go is clear already.
      by_cases heq : fd' = fd
      · by_cases he : e' = e
        · rw [heq, he, hidle rfl]
          rfl
        · simp [he]
      · simp [heq]

/-- A removal that does not go on although the kernel agrees. -/
theorem clear_of_not_both (ok reg : Bool) (h : ¬(ok = true ∧ reg = true)) :
    ok = true → reg = false := by
  intro hok
  rcases hreg : reg
  · rfl
  · exact absurd ⟨hok, hreg⟩ h

theorem delEvent_next (s : IOManager) (h : Inv s) (fd : Nat) (e : Event) (garbage : UInt32)
    (ok : Bool) :
    ∃ r s', delEvent fd e garbage ok s = .ok r s' ∧ Next s (.delEvent fd e garbage ok) s' := by
  by_cases hgo : ok = true ∧ s.registered fd e = true
  · rcases hgo with ⟨rfl, hreg⟩
    exact ⟨_, _, delEvent_registered s h fd e garbage hreg,
      next_drop s h (.delEvent fd e garbage true) fd e hreg rfl hreg (fun _ _ => rfl)⟩
  · have hidle := clear_of_not_both ok _ hgo
    refine ⟨false, s, ?_, next_idle s h _ fd e ok hidle rfl (fun _ _ => rfl)⟩
    cases ok with
    | false => exact withdraw_fails s fd e garbage _
    | true => exact withdraw_clear s fd e garbage true _ (hidle rfl)

theorem cancelEvent_next (s : IOManager) (h : Inv s) (fd : Nat) (e : Event) (garbage : UInt32)
    (ok : Bool) :
    ∃ r s', cancelEvent fd e garbage ok s = .ok r s' ∧
      Next s (.cancelEvent fd e garbage ok) s' := by
  by_cases hgo : ok = true ∧ s.registered fd e = true
  · rcases hgo with ⟨rfl, hreg⟩
    have hnext := next_drop s h (.cancelEvent fd e garbage true) fd e hreg rfl hreg
      (fun _ _ => rfl)
    rw [Op.due, hreg] at hnext
    exact ⟨_, _, cancelEvent_registered s h fd e garbage hreg, hnext⟩
  · have hidle := clear_of_not_both ok _ hgo
    have hdue : (Op.cancelEvent fd e garbage ok).due s = [] := by
      rw [Op.due, if_neg]
      rw [Bool.and_eq_true]
      exact hgo
    refine ⟨false, s, ?_, next_idle s h _ fd e ok hidle hdue (fun _ _ => rfl)⟩
    cases ok with
    | false => exact withdraw_fails s fd e garbage _
    | true => exact withdraw_clear s fd e garbage true _ (hidle rfl)

theorem cancelAll_next (s : IOManager) (h : Inv s) (fd : Nat) (ok : Bool) :
    ∃ r s', cancelAll fd ok s = .ok r s' ∧ Next s (.cancelAll fd ok) s' := by
  have hgood := h.good fd
  by_cases hz : (s.entry fd).events = 0
  · refine ⟨_, _, cancelAll_none s fd ok hz, ?_⟩
    -- Nothing is registered, so nothing is due and nothing goes.
    have hclear := hgood.events_eq_zero.1 hz
    refine next_unchanged s s _ h (unchanged_refl s) ?_ ?_
    · rw [Op.due, due_clear hgood _ (fun e _ => hclear e), ite_self]
    · intro fd' e
      rw [Op.leaves]
      by_cases heq : fd' = fd
      · rw [heq, registered, hclear e]
        rfl
      · simp [heq]
  · cases ok with
    | false =>
        refine ⟨_, _, cancelAll_fails s fd, ?_⟩
        refine next_unchanged s s _ h (unchanged_refl s) rfl ?_
        intro fd' e
        simp only [Op.leaves, Bool.false_and, Bool.not_false, Bool.and_true]
    | true =>
        refine ⟨_, _, cancelAll_some s h fd hz, ?_⟩
        have hfd := lt_of_events s fd hz
        have hnext := next_remove s h (.cancelAll fd true) fd (s.entry fd).events hfd rfl rfl
          (by
            intro e
            rw [Op.leaves, registered, FdContext.registered]
            simp)
          (by
            intro fd' e hne
            simp [Op.leaves, hne])
        have hnone : ((s.entry fd).remove (s.entry fd).events).interest = none := by
          rw [FdContext.interest, if_pos]
          rw [(FdContext.good_remove hgood _).events_eq_zero]
          intro e
          rw [hgood.registered_remove, FdContext.registered, Bool.and_not_self]
        rw [Op.tells, hnone] at hnext
        exact hnext

/-- A report that is about registered events only, or about none. -/
theorem dispatch_next (s : IOManager) (h : Inv s) (fd : Nat) (mask : UInt32) (ok : Bool)
    (hfd : fd < s.fdContexts.length) (hcalm : (Op.dispatch fd mask ok).Calm s) :
    ∃ s', dispatch fd mask ok s = .ok () s' ∧ Next s (.dispatch fd mask ok) s' := by
  have hgood := h.good fd
  by_cases hz : (s.entry fd).events &&& realFor (s.entry fd) mask = 0
  · have hclear := (unrelated_iff hgood mask).1 hz
    refine ⟨_, dispatch_unrelated s fd mask ok hfd hz, ?_⟩
    refine next_unchanged s s _ h (unchanged_refl s) ?_ ?_
    · rw [Op.due, due_clear hgood _ hclear, ite_self]
    · intro fd' e
      rw [Op.leaves]
      by_cases heq : fd' = fd
      · rcases hbit : hasBit (realFor (s.entry fd) mask) e
        · simp
        · rw [heq, registered, hclear e hbit]
          rfl
      · simp [heq]
  · cases ok with
    | false =>
        refine ⟨_, dispatch_fails s fd mask hfd, ?_⟩
        refine next_unchanged s s _ h (unchanged_refl s) rfl ?_
        intro fd' e
        simp only [Op.leaves, Bool.false_and, Bool.not_false, Bool.and_true]
    | true =>
        -- Some reported event is registered, so by calmness all are.
        have hreg := (hcalm rfl).resolve_left (fun hno => hz ((unrelated_iff hgood mask).2 hno))
        refine ⟨_, dispatch_fresh s h fd mask hfd hz hreg, ?_⟩
        exact next_remove s h (.dispatch fd mask true) fd (realFor (s.entry fd) mask) hfd rfl rfl
          (by
            intro e
            rw [Op.leaves]
            simp)
          (by
            intro fd' e hne
            simp [Op.leaves, hne])

/-- What an operation returns is dropped. -/
theorem perform_drop {α : Type} (m : Prog Assertion IOManager α) (s s' : IOManager) (a : α)
    (h : m s = .ok a s') : perform.drop m s = .ok () s' := by
  rw [perform.drop, bind_ok _ _ _ _ _ h]
  rfl

/-- A calm operation returns, in a state that follows. -/
theorem perform_next (s : IOManager) (h : Inv s) (op : Op) (hknown : op.Known s)
    (hcalm : op.Calm s) : ∃ s', perform op s = .ok () s' ∧ Next s op s' := by
  cases op with
  | addEvent fd e cb caller ok =>
      rcases addEvent_next s h fd e cb caller ok hcalm with ⟨r, s', hrun, hnext⟩
      exact ⟨s', perform_drop _ s s' r hrun, hnext⟩
  | delEvent fd e garbage ok =>
      rcases delEvent_next s h fd e garbage ok with ⟨r, s', hrun, hnext⟩
      exact ⟨s', perform_drop _ s s' r hrun, hnext⟩
  | cancelEvent fd e garbage ok =>
      rcases cancelEvent_next s h fd e garbage ok with ⟨r, s', hrun, hnext⟩
      exact ⟨s', perform_drop _ s s' r hrun, hnext⟩
  | cancelAll fd ok =>
      rcases cancelAll_next s h fd ok with ⟨r, s', hrun, hnext⟩
      exact ⟨s', perform_drop _ s s' r hrun, hnext⟩
  | dispatch fd mask ok => exact dispatch_next s h fd mask ok hknown hcalm

/-- The assertion an operation meets when it is not calm. -/
def Op.assertion : Op → Assertion
  | .addEvent _ _ _ _ _ => .contextEmpty
  | .delEvent _ _ _ _ => .registered
  | .cancelEvent _ _ _ _ => .registered
  | .cancelAll _ _ => .noneLeft
  | .dispatch _ _ _ => .registered

/-- An operation that is not calm stops the process. -/
theorem perform_stops (s : IOManager) (h : Inv s) (op : Op) (hknown : op.Known s)
    (hcalm : ¬op.Calm s) : ∃ s', perform op s = .throw op.assertion s' := by
  cases op with
  | addEvent fd e cb caller ok =>
      rw [Op.Calm, Classical.not_imp, Bool.not_eq_false] at hcalm
      rcases hcalm with ⟨rfl, hreg⟩
      rcases addEvent_twice s h fd e cb caller hreg with ⟨s', hrun⟩
      exact ⟨s', bind_throw _ _ _ _ _ hrun⟩
  | delEvent fd e garbage ok => exact absurd trivial hcalm
  | cancelEvent fd e garbage ok => exact absurd trivial hcalm
  | cancelAll fd ok => exact absurd trivial hcalm
  | dispatch fd mask ok =>
      rw [Op.Calm, Classical.not_imp, not_or] at hcalm
      rcases hcalm with ⟨rfl, hrelated, hstale⟩
      -- A reported event is registered, so the report is not skipped.
      have hz : (s.entry fd).events &&& realFor (s.entry fd) mask ≠ 0 :=
        fun hz => hrelated ((unrelated_iff (h.good fd) mask).1 hz)
      rw [not_forall] at hstale
      rcases hstale with ⟨e, he⟩
      rw [Classical.not_imp, Bool.not_eq_true] at he
      exact dispatch_stale s h fd mask hknown hz e he.1 he.2

/-- An operation that returned was calm, and its state follows. -/
theorem next_of_perform (s s' : IOManager) (h : Inv s) (op : Op)
    (hrun : perform op s = .ok () s') : op.Known s ∧ op.Calm s ∧ Next s op s' := by
  -- A report for an entry that is not there would have followed a wild pointer.
  have hknown : op.Known s := by
    cases op with
    | dispatch fd mask ok =>
        by_contra hge
        have hnone : s.fdContexts[fd]? = none := List.getElem?_eq_none (Nat.le_of_not_lt hge)
        simp only [perform, dispatch, hnone] at hrun
        cases hrun
    | _ => trivial
  by_cases hcalm : op.Calm s
  · rcases perform_next s h op hknown hcalm with ⟨s'', hrun', hnext⟩
    rw [hrun] at hrun'
    cases hrun'
    exact ⟨hknown, hcalm, hnext⟩
  · rcases perform_stops s h op hknown hcalm with ⟨s'', hstop⟩
    rw [hrun] at hstop
    cases hstop

/-- The invariant holds wherever a run leads, whatever its operations. -/
theorem reaches_inv (guard : IOManager → Op → Prop) (s : IOManager)
    (h : Reaches perform guard new s) : Inv s :=
  Reaches.inv perform guard new Inv inv_new
    (fun s s' op _ hinv _ hrun => (next_of_perform s s' hinv op hrun).2.2.inv) s h

/-! ## The accounts -/

/-- Events are added once, and a report is fresh: the bits it has for reading
    and writing are those of registered events. Errors and hang-ups may come
    with it. -/
def Op.Admissible (s : IOManager) : Op → Prop
  | .addEvent fd e _ _ _ => s.registered fd e = false
  | .dispatch fd mask _ => fd < s.fdContexts.length ∧
    (mask &&& EPOLLIN ≠ 0 → s.registered fd .READ = true) ∧
    (mask &&& EPOLLOUT ≠ 0 → s.registered fd .WRITE = true)
  | _ => True

instance (s : IOManager) (op : Op) : Decidable (op.Admissible s) :=
  match op with
  | .addEvent fd e _ _ _ => inferInstanceAs (Decidable (s.registered fd e = false))
  | .dispatch fd mask _ => inferInstanceAs (Decidable (fd < s.fdContexts.length ∧
      (mask &&& EPOLLIN ≠ 0 → s.registered fd .READ = true) ∧
      (mask &&& EPOLLOUT ≠ 0 → s.registered fd .WRITE = true)))
  | .delEvent _ _ _ _ => inferInstanceAs (Decidable True)
  | .cancelEvent _ _ _ _ => inferInstanceAs (Decidable True)
  | .cancelAll _ _ => inferInstanceAs (Decidable True)

/-- Counting an error or a hang-up as an event somebody waits for adds no other
    event to a report. -/
theorem hasBit_realFor (c : FdContext) (mask : UInt32) (e : Event)
    (hbit : hasBit (realFor c mask) e = true) : mask &&& e.bit ≠ 0 ∨ c.registered e = true := by
  -- The bits of `real_events` are the bits of the mask it is made from.
  have hreal : ∀ m, hasBit (realEvents m) e = true → m &&& e.bit ≠ 0 := by
    intro m
    by_cases hin : m &&& EPOLLIN = 0 <;> by_cases hout : m &&& EPOLLOUT = 0
    all_goals
      intro hb hz
      simp only [realEvents, hin, hout, if_true, if_false] at hb
      cases e with
      | READ => first | exact absurd hb (by decide) | exact hin hz
      | WRITE => first | exact absurd hb (by decide) | exact hout hz
  have hm := hreal _ hbit
  by_cases herr : mask &&& (EPOLLERR ||| EPOLLHUP) = 0
  · rw [reported, if_pos herr] at hm
    exact Or.inl hm
  · rw [reported, if_neg herr] at hm
    -- A bit that the report did not have comes from the registered events.
    by_cases hmask : mask &&& e.bit = 0
    · right
      have hpart : ((EPOLLIN ||| EPOLLOUT) &&& c.events) &&& e.bit ≠ 0 := by
        have hdist : (mask ||| ((EPOLLIN ||| EPOLLOUT) &&& c.events)) &&& e.bit =
            (mask &&& e.bit) ||| (((EPOLLIN ||| EPOLLOUT) &&& c.events) &&& e.bit) :=
          UInt32.toBitVec_inj.1 BitVec.and_or_distrib_right
        rw [hdist, hmask, UInt32.zero_or] at hm
        exact hm
      rcases hreg : c.registered e
      · have hz : c.events &&& e.bit = 0 := (hasBit_false _ _).1 hreg
        rw [UInt32.and_assoc, hz, UInt32.and_zero] at hpart
        exact absurd rfl hpart
      · rfl
    · exact Or.inl hmask

/-- An admissible operation is calm. -/
theorem calm_of_admissible (s : IOManager) (op : Op) (hadm : op.Admissible s) :
    op.Known s ∧ op.Calm s := by
  cases op with
  | addEvent fd e cb caller ok => exact ⟨trivial, fun _ => hadm⟩
  | dispatch fd mask ok =>
      refine ⟨hadm.1, fun _ => Or.inr ?_⟩
      intro e hbit
      rcases hasBit_realFor (s.entry fd) mask e hbit with hmask | hreg
      · cases e with
        | READ => exact hadm.2.1 hmask
        | WRITE => exact hadm.2.2 hmask
      · exact hreg
  | delEvent fd e garbage ok => exact ⟨trivial, trivial⟩
  | cancelEvent fd e garbage ok => exact ⟨trivial, trivial⟩
  | cancelAll fd ok => exact ⟨trivial, trivial⟩

/-- The counter is the number of registered pairs, somebody waits for exactly
    the registered events, with one thing to schedule, and every other context
    is empty. -/
structure Accounts (s : IOManager) : Prop where
  pending : s.pendingEventCount = s.registrations
  set_iff : ∀ fd e, s.registered fd e = true ↔ ((s.entry fd).getContext e).Waiting
  clear_iff : ∀ fd e, s.registered fd e = false ↔ (s.entry fd).getContext e = .empty
  one_each : ∀ fd e, s.registered fd e = true → ((s.entry fd).getContext e).waiter.length = 1

theorem Inv.accounts {s : IOManager} (h : Inv s) : Accounts s := by
  refine ⟨h.pending, ?_, ?_, ?_⟩
  · intro fd e
    exact (h.good fd).registered_iff e
  · intro fd e
    exact (h.good fd).clear_iff e
  · intro fd e hreg
    exact EventContext.length_waiter _ ((h.good fd).waiting e hreg)

/-- The accounts are right in every state of every run of admissible operations,
    and from there every admissible operation returns: it queues what is due
    and nothing else, registers and removes what it should, and changes nothing
    if the kernel refuses. -/
theorem accounting (s : IOManager) (h : Reaches perform (fun s op => op.Admissible s) new s) :
    Accounts s ∧ ∀ op : Op, op.Admissible s → ∃ s', perform op s = .ok () s' ∧ Accounts s' ∧
      s'.scheduled = s.scheduled ++ op.due s ∧
      (∀ fd e, s'.registered fd e = op.leaves s fd e) ∧
      (op.ok = false → Unchanged s s') := by
  have hinv := reaches_inv _ s h
  refine ⟨hinv.accounts, ?_⟩
  intro op hadm
  rcases calm_of_admissible s op hadm with ⟨hknown, hcalm⟩
  rcases perform_next s hinv op hknown hcalm with ⟨s', hrun, hnext⟩
  exact ⟨s', hrun, hnext.inv.accounts, hnext.scheduled, hnext.registered, hnext.refused⟩

/-- A fiber waits to read and a callback to write; the connection hangs up and
    the report has no other bit. -/
theorem accounting_hangup :
    ∃ s, Reaches perform (fun s op => op.Admissible s) new s ∧ s.pendingEventCount = 2 ∧
      ∃ s', perform (.dispatch 40 EPOLLHUP true) s = .ok () s' ∧ Accounts s' ∧
        s'.scheduled = [(7, .fiber 1), (7, .cb 2)] := by
  refine ⟨_, .step _ _ (.addEvent 40 .WRITE (some 2) ⟨7, 1⟩ true) () (.step _ _
    (.addEvent 40 .READ none ⟨7, 1⟩ true) () .start (by decide) rfl) (by decide) rfl, rfl, ?_⟩
  rcases (accounting _ (.step _ _ (.addEvent 40 .WRITE (some 2) ⟨7, 1⟩ true) () (.step _ _
    (.addEvent 40 .READ none ⟨7, 1⟩ true) () .start (by decide) rfl) (by decide) rfl)).2
    (.dispatch 40 EPOLLHUP true) (by decide) with ⟨s', hrun, hacc, hsched, _⟩
  exact ⟨s', hrun, hacc, hsched⟩

end IOManager

end YkServer
