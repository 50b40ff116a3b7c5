import YkServer.Theory.IOManager.Accounting

/-!
# What the Kernel Was Told

The interest list of the kernel against the event table. Five operations hand an
`epoll_event` over, and three of them fill it in. `delEvent` and `cancelEvent`
leave the mask unset. That does no harm when the descriptor is deleted, because
the kernel does not look at the mask then. When the other event stays, the
descriptor is modified, and the kernel takes whatever the memory held.

So the interest list agrees with the table along a run exactly as long as no
operation removes one of two registered events by name. The condition is on the
operation and the table before it, and it is exact in every state so reached:
if an operation breaks it, some content of the unset memory breaks the
agreement.

## Main definitions

* `IOManager.Agrees`: The kernel knows every entry as it is.
* `IOManager.Op.withMemory`: The same operation with other unset memory.
* `IOManager.Op.Clean`: The operation does not remove one of two events.

## Theorems

* `agrees_next`: One clean operation.
* `interest_agrees`: Every run of clean operations.
* `interest_lost`: A waiter the kernel no longer reports.
-/

namespace YkServer

open Lib

/-- The other event. -/
def Event.other : Event → Event
  | .READ => .WRITE
  | .WRITE => .READ

namespace IOManager

/-- The mask the kernel has for a descriptor is `EPOLLET` and the registered
    events, and it has none when none is registered. Hence it watches for every
    registered event. -/
structure Agrees (s : IOManager) : Prop where
  mask : ∀ fd, s.interest fd = if (s.entry fd).events = 0 then none
    else some ⟨EPOLLET ||| (s.entry fd).events, fd⟩
  watched : ∀ fd e, s.registered fd e = true →
    ∃ ev, s.interest fd = some ev ∧ ev.events &&& e.bit ≠ 0

/-- The operation with other content of the memory it does not set. -/
def Op.withMemory (garbage : UInt32) : Op → Op
  | .delEvent fd e _ ok => .delEvent fd e garbage ok
  | .cancelEvent fd e _ ok => .cancelEvent fd e garbage ok
  | .addEvent fd e cb caller ok => .addEvent fd e cb caller ok
  | .cancelAll fd ok => .cancelAll fd ok
  | .dispatch fd mask ok => .dispatch fd mask ok

/-- The operation does not remove, by name, one of two registered events. -/
def Op.Clean (s : IOManager) : Op → Prop
  | .delEvent fd e _ ok =>
    ¬(ok = true ∧ s.registered fd e = true ∧ s.registered fd e.other = true)
  | .cancelEvent fd e _ ok =>
    ¬(ok = true ∧ s.registered fd e = true ∧ s.registered fd e.other = true)
  | .addEvent _ _ _ _ _ => True
  | .cancelAll _ _ => True
  | .dispatch _ _ _ => True

instance (s : IOManager) (op : Op) : Decidable (op.Clean s) :=
  match op with
  | .delEvent fd e _ ok => inferInstanceAs (Decidable
      (¬(ok = true ∧ s.registered fd e = true ∧ s.registered fd e.other = true)))
  | .cancelEvent fd e _ ok => inferInstanceAs (Decidable
      (¬(ok = true ∧ s.registered fd e = true ∧ s.registered fd e.other = true)))
  | .addEvent _ _ _ _ _ => inferInstanceAs (Decidable True)
  | .cancelAll _ _ => inferInstanceAs (Decidable True)
  | .dispatch _ _ _ => inferInstanceAs (Decidable True)

/-- A mask that is right is watched. -/
theorem agrees_of_interest (s : IOManager) (h : Inv s)
    (hall : ∀ fd, s.interest fd = (s.entry fd).interest) : Agrees s := by
  have hmask : ∀ fd, s.interest fd = if (s.entry fd).events = 0 then none
      else some ⟨EPOLLET ||| (s.entry fd).events, fd⟩ := by
    intro fd
    rw [hall fd, FdContext.interest, h.fds fd]
  refine ⟨hmask, ?_⟩
  intro fd e hreg
  have hbit : (s.entry fd).events &&& e.bit ≠ 0 := (hasBit_true _ _).1 hreg
  have hnz : ¬(s.entry fd).events = 0 := by
    intro hz
    rw [hz, UInt32.zero_and] at hbit
    exact hbit rfl
  refine ⟨_, (hmask fd).trans (if_neg hnz), ?_⟩
  -- `EPOLLET` is above both bits.
  have hkept : ∀ r w : Bool, maskOf r w &&& e.bit ≠ 0 → (EPOLLET ||| maskOf r w) &&& e.bit ≠ 0 := by
    cases e <;> decide
  rw [(h.good fd).bits] at hbit ⊢
  exact hkept _ _ hbit

theorem Agrees.interest {s : IOManager} (ha : Agrees s) (h : Inv s) (fd : Nat) :
    s.interest fd = (s.entry fd).interest := by
  rw [ha.mask fd, FdContext.interest, h.fds fd]

/-- The last event of a descriptor goes: nothing is left registered. -/
theorem events_zero_of_drop (s s' : IOManager) (op : Op) (hnext : Next s op s') (fd : Nat)
    (e : Event) (hleaves : ∀ e', op.leaves s fd e' = (s.registered fd e' && !decide (e' = e)))
    (hother : s.registered fd e.other = false) : (s'.entry fd).events = 0 := by
  rw [(hnext.inv.good fd).events_eq_zero]
  intro e'
  have hreg := hnext.registered fd e'
  rw [hleaves e'] at hreg
  refine hreg.trans ?_
  -- There are two events: the one that goes, and the other one, which was not there.
  by_cases he : e' = e
  · simp [he]
  · have heq : e' = e.other := by
      cases e <;> cases e' <;> first | rfl | exact absurd rfl he
    rw [heq, hother]
    rfl

theorem other_clear (s : IOManager) (fd : Nat) (e : Event) (hreg : s.registered fd e = true)
    (hclean : ¬(true = true ∧ s.registered fd e = true ∧ s.registered fd e.other = true)) :
    s.registered fd e.other = false := by
  rcases hother : s.registered fd e.other
  · rfl
  · exact absurd ⟨rfl, hreg, hother⟩ hclean

/-- A clean operation tells the kernel what it leaves. -/
theorem tells_clean (s s' : IOManager) (op : Op) (hnext : Next s op s') (hclean : op.Clean s)
    (hgo : op.goesOn s = true) :
    op.tells (s'.entry op.fd) = (s'.entry op.fd).interest := by
  cases op with
  | addEvent fd e cb caller ok => rfl
  | cancelAll fd ok => rfl
  | dispatch fd mask ok => rfl
  | delEvent fd e garbage ok =>
      rcases (Bool.and_eq_true _ _).mp hgo with ⟨rfl, hreg⟩
      have hother := other_clear _ _ _ hreg hclean
      have hz := events_zero_of_drop s s' _ hnext fd e (fun _ => by simp [Op.leaves]) hother
      rw [Op.fd, Op.tells, FdContext.interest, if_pos hz, if_pos hz]
  | cancelEvent fd e garbage ok =>
      rcases (Bool.and_eq_true _ _).mp hgo with ⟨rfl, hreg⟩
      have hother := other_clear _ _ _ hreg hclean
      have hz := events_zero_of_drop s s' _ hnext fd e (fun _ => by simp [Op.leaves]) hother
      rw [Op.fd, Op.tells, FdContext.interest, if_pos hz, if_pos hz]

/-- One clean operation keeps the agreement. -/
theorem agrees_next (s s' : IOManager) (h : Inv s) (ha : Agrees s) (op : Op)
    (hclean : op.Clean s) (hrun : perform op s = .ok () s') : Agrees s' := by
  have hnext := (next_of_perform s s' h op hrun).2.2
  refine agrees_of_interest s' hnext.inv ?_
  intro fd
  rcases hnext.told fd with ⟨hentry, hint⟩ | ⟨rfl, hgo, hint⟩
  · -- Neither side of this entry was touched.
    rw [hentry, hint, ha.interest h fd]
  · rw [hint, tells_clean s s' op hnext hclean hgo]

/-- Removing one of two events hands the unset memory over. -/
theorem interest_garbage (s s' : IOManager) (op : Op) (hnext : Next s op s') (fd : Nat)
    (e : Event) (garbage : UInt32) (hreg : s.registered fd e = true)
    (hother : s.registered fd e.other = true)
    (hleaves : ∀ e', op.leaves s fd e' = (s.registered fd e' && !decide (e' = e)))
    (htells : ∀ c : FdContext,
      op.tells c = if c.events = 0 then none else some ⟨garbage, c.fd⟩) :
    s'.registered fd e.other = true ∧ s'.interest fd = some ⟨garbage, fd⟩ := by
  have hne : e.other ≠ e := by cases e <;> decide
  have hstays : s'.registered fd e.other = true := by
    rw [hnext.registered fd, hleaves, hother, decide_eq_false hne]
    rfl
  refine ⟨hstays, ?_⟩
  rcases hnext.told fd with ⟨hentry, _⟩ | ⟨_, _, hint⟩
  · -- The entry did change: the removed event is gone.
    have hgone := hnext.registered fd e
    rw [hleaves, decide_eq_true rfl, Bool.not_true, Bool.and_false, registered, hentry] at hgone
    exact absurd (hgone.symm.trans hreg) Bool.false_ne_true
  · have hnz : ¬(s'.entry fd).events = 0 := by
      intro hz
      have hall := (hnext.inv.good fd).events_eq_zero.1 hz e.other
      exact Bool.false_ne_true (hall.symm.trans hstays)
    rw [hint, htells, if_neg hnz, hnext.inv.fds fd]

/-- A mask of zero watches for nothing. -/
theorem not_agrees_of_zero (s : IOManager) (fd : Nat) (e : Event)
    (hreg : s.registered fd e = true) (hint : s.interest fd = some ⟨0, fd⟩) : ¬Agrees s := by
  intro ha
  rcases ha.watched fd e hreg with ⟨ev, hev, hbit⟩
  rw [hint] at hev
  cases hev
  exact hbit (UInt32.zero_and)

/-- In every state of every run of clean operations the kernel knows the table,
    and from there exactly the clean operations keep it so whatever the memory
    they do not set holds. -/
theorem interest_agrees (s : IOManager) (h : Reaches perform (fun s op => op.Clean s) new s) :
    Agrees s ∧ ∀ op : Op,
      (∀ garbage s', perform (op.withMemory garbage) s = .ok () s' → Agrees s') ↔ op.Clean s := by
  have hinv := reaches_inv _ s h
  have hagrees : Agrees s := by
    refine (Reaches.inv perform _ new (fun s => Inv s ∧ Agrees s) ?_ ?_ s h).2
    · refine ⟨inv_new, agrees_of_interest new inv_new ?_⟩
      intro fd
      rw [new, entry_contextResize 32 _ (Nat.zero_le _)]
      rfl
    · intro s s' op _ hs hclean hrun
      exact ⟨(next_of_perform s s' hs.1 op hrun).2.2.inv,
        agrees_next s s' hs.1 hs.2 op hclean hrun⟩
  refine ⟨hagrees, ?_⟩
  intro op
  constructor
  · -- For an operation that is not clean, zero is a content that loses the other event.
    intro hall
    cases op with
    | addEvent fd e cb caller ok => exact trivial
    | cancelAll fd ok => exact trivial
    | dispatch fd mask ok => exact trivial
    | delEvent fd e garbage ok =>
        rintro ⟨rfl, hreg, hother⟩
        rcases perform_next s hinv (.delEvent fd e 0 true) trivial trivial with ⟨s', hrun, hnext⟩
        rcases interest_garbage s s' _ hnext fd e 0 hreg hother (fun _ => by simp [Op.leaves])
          (fun _ => rfl) with ⟨hstays, hint⟩
        exact not_agrees_of_zero s' fd _ hstays hint (hall 0 s' hrun)
    | cancelEvent fd e garbage ok =>
        rintro ⟨rfl, hreg, hother⟩
        rcases perform_next s hinv (.cancelEvent fd e 0 true) trivial trivial with
          ⟨s', hrun, hnext⟩
        rcases interest_garbage s s' _ hnext fd e 0 hreg hother (fun _ => by simp [Op.leaves])
          (fun _ => rfl) with ⟨hstays, hint⟩
        exact not_agrees_of_zero s' fd _ hstays hint (hall 0 s' hrun)
  · intro hclean garbage s' hrun
    refine agrees_next s s' hinv hagrees _ ?_ hrun
    cases op <;> exact hclean

/-- A reader and a writer on different descriptors; the reader is cancelled. -/
theorem interest_agrees_apart :
    ∃ s, Reaches perform (fun s op => op.Clean s) new s ∧ Agrees s ∧
      s.interest 5 = none ∧ s.interest 6 = some ⟨0x80000004, 6⟩ := by
  refine ⟨_, .step _ _ (.cancelEvent 5 .READ 0xdead true) () (.step _ _
    (.addEvent 6 .WRITE none ⟨7, 1⟩ true) () (.step _ _ (.addEvent 5 .READ none ⟨7, 1⟩ true) ()
    .start (by decide) rfl) (by decide) rfl) (by decide) rfl, ?_, rfl, rfl⟩
  exact (interest_agrees _ (.step _ _ (.cancelEvent 5 .READ 0xdead true) () (.step _ _
    (.addEvent 6 .WRITE none ⟨7, 1⟩ true) () (.step _ _ (.addEvent 5 .READ none ⟨7, 1⟩ true) ()
    .start (by decide) rfl) (by decide) rfl) (by decide) rfl)).1

/-- A reader and a writer on one descriptor; the reader is cancelled and the
    memory on the stack is zero. The writer is still registered, and the kernel
    watches for nothing. -/
theorem interest_lost :
    ¬∀ s, Reaches perform (fun _ _ => True) new s → Agrees s := by
  intro hall
  refine not_agrees_of_zero _ 5 .WRITE ?_ ?_ (hall _ (.step _ _ (.cancelEvent 5 .READ 0 true) ()
    (.step _ _ (.addEvent 5 .WRITE none ⟨7, 2⟩ true) () (.step _ _
    (.addEvent 5 .READ none ⟨7, 1⟩ true) () .start trivial rfl) trivial rfl) trivial rfl))
  · decide
  · rfl

end IOManager

end YkServer
