import YkServer.Theory.IOManager.Accounting
import Mathlib.Algebra.Order.BigOperators.Group.List

/-!
# Stale Reports

A report is made at one time and handled at another. In between, any thread may
add, withdraw or cancel events of the same descriptor, so when `idle` locks the
entry the report may be about events that nobody waits for any more.

The code skips a report that is about no registered event at all. It does not
filter the single events: of a report about two events of which one is left, it
tries to wake both, and the assertion in `triggerEvent` fails for the one that is
gone. A report is handled safely exactly when what it is about is either all
registered or all gone, or the kernel refuses the change. Along a run this is
asked of each report in the state in which it is handled.

## Main definitions

* `World.removed`: How many events of a descriptor a step removed.
* `World.Harmless`: Along a run no assertion on a registered event fails, the
  counter follows what is removed and stays above zero.
* `World.Timely`: Along a run every report is all registered or all gone when it
  is handled.

## Theorems

* `harmless_step`: One step.
* `harmless_iff_timely`: Any interleaving.
* `stale_report_aborts`: A report about two events of which one was cancelled.
-/

namespace YkServer

open Lib

namespace World

/-- How many of the two events of a descriptor were registered and are not. -/
def removed (s s' : IOManager) (fd : Nat) : Int :=
  (if s.registered fd .READ && !s'.registered fd .READ then 1 else 0) +
    (if s.registered fd .WRITE && !s'.registered fd .WRITE then 1 else 0)

/-- The counter went down by one for each event of the report's descriptor that
    was removed. -/
def Counted (w w' : World) : Step → Prop
  | .handle i _ => ∀ fd mask, w.inFlight[i]? = some (fd, mask) →
    w'.manager.pendingEventCount = w.manager.pendingEventCount - removed w.manager w'.manager fd
  | _ => True

/-- Along the run no event is woken that is not registered, what handling a
    report removes is counted, and the counter is never below zero. Another
    assertion ends the run. -/
def Harmless : World → List Step → Prop
  | w, [] => 0 ≤ w.manager.pendingEventCount
  | w, st :: rest => 0 ≤ w.manager.pendingEventCount ∧
    match perform st w with
    | .ok _ w' => Counted w w' st ∧ Harmless w' rest
    | .throw a _ => a ≠ .registered
    | .fault => False
    | .hang => False

/-- The report that is handled is about registered events only, or about none,
    unless the kernel refuses. -/
def Step.Timely (w : World) : Step → Prop
  | .handle i ok => ∀ fd mask, w.inFlight[i]? = some (fd, mask) →
    (IOManager.Op.dispatch fd mask ok).Calm w.manager
  | _ => True

/-- Along the run every report is timely when it is handled. -/
def Timely : World → List Step → Prop
  | _, [] => True
  | w, st :: rest => st.Timely w ∧
    match perform st w with
    | .ok _ w' => Timely w' rest
    | _ => True

/-- The table is in order, and reports are about its descriptors. -/
structure Inv (w : World) : Prop where
  manager : w.manager.Inv
  inFlight : ∀ r ∈ w.inFlight, r.1 < w.manager.fdContexts.length

theorem Inv.pending_nonneg {w : World} (h : Inv w) : 0 ≤ w.manager.pendingEventCount := by
  rw [h.manager.pending, IOManager.registrations]
  refine List.sum_nonneg ?_
  intro x hx
  rcases List.mem_map.1 hx with ⟨c, _, rfl⟩
  exact c.registrations_nonneg

theorem inv_new : Inv new :=
  ⟨IOManager.inv_new, fun _ hr => absurd hr List.not_mem_nil⟩

/-- An operation that goes through keeps the table in order. -/
theorem inv_onManager (w : World) (h : Inv w) (op : IOManager.Op) (s' : IOManager)
    (hnext : w.manager.Next op s') (reports : List (Nat × UInt32))
    (hsub : ∀ r ∈ reports, r ∈ w.inFlight) : Inv ⟨s', reports⟩ := by
  refine ⟨hnext.inv, ?_⟩
  intro r hr
  exact Nat.lt_of_lt_of_le (h.inFlight r (hsub r hr)) hnext.grown

/-- A dispatch removes what the counter goes down by. -/
theorem counted_dispatch (s s' : IOManager) (fd : Nat) (mask : UInt32) (ok : Bool)
    (hnext : s.Next (.dispatch fd mask ok) s') :
    s'.pendingEventCount = s.pendingEventCount - removed s s' fd := by
  have hsub : ∀ e, s'.registered fd e = true → s.registered fd e = true := by
    intro e he
    rw [hnext.registered, IOManager.Op.leaves, Bool.and_eq_true] at he
    exact he.1
  have hdiff : (s'.entry fd).registrations - (s.entry fd).registrations =
      -removed s s' fd := by
    -- Sixteen cases of four bits, of which the two hypotheses leave nine.
    have hbits : ∀ r r' w w' : Bool, (r' = true → r = true) → (w' = true → w = true) →
        ((if r' then (1 : Int) else 0) + (if w' then 1 else 0)) -
          ((if r then 1 else 0) + (if w then 1 else 0)) =
        -((if r && !r' then 1 else 0) + (if w && !w' then 1 else 0)) := by decide
    exact hbits _ _ _ _ (hsub .READ) (hsub .WRITE)
  have hcount := hnext.counted
  rw [IOManager.Op.fd, hdiff] at hcount
  omega

theorem onManager_ok (w : World) (op : IOManager.Op) (s' : IOManager)
    (h : IOManager.perform op w.manager = .ok () s') :
    onManager op w = .ok () { w with manager := s' } := by
  simp only [onManager, h]

theorem onManager_throw (w : World) (op : IOManager.Op) (a : Assertion) (s' : IOManager)
    (h : IOManager.perform op w.manager = .throw a s') :
    onManager op w = .throw a { w with manager := s' } := by
  simp only [onManager, h]

/-- What a step does: a timely one goes through, keeps the table in order and
    counts what it removes, or ends in another assertion; one that is not timely
    fails the assertion on a registered event. -/
theorem harmless_step (w : World) (h : Inv w) (st : Step) :
    (st.Timely w ∧ ((∃ w', perform st w = .ok () w' ∧ Inv w' ∧ Counted w w' st) ∨
      ∃ a w', perform st w = .throw a w' ∧ a ≠ .registered)) ∨
    (¬st.Timely w ∧ ∃ w', perform st w = .throw .registered w') := by
  cases st with
  | report fd mask =>
      refine Or.inl ⟨trivial, Or.inl ?_⟩
      rcases hint : w.manager.interest fd with _ | ev
      · exact ⟨w, by simp only [perform, hint], h, trivial⟩
      · by_cases hmask : mask &&& ~~~(ev.events ||| EPOLLERR ||| EPOLLHUP) = 0
        · refine ⟨⟨w.manager, w.inFlight ++ [(fd, mask)]⟩, ?_, ⟨h.manager, ?_⟩, trivial⟩
          · simp only [perform, hint]
            rw [if_pos hmask]
          · -- The kernel only reports what it watches, and that is in the table.
            intro r hr
            rcases List.mem_append.1 hr with hold | hnew
            · exact h.inFlight r hold
            · rw [List.mem_singleton.1 hnew]
              exact h.manager.watched fd ev hint
        · refine ⟨w, ?_, h, trivial⟩
          simp only [perform, hint]
          rw [if_neg hmask]
  | call op hcall =>
      refine Or.inl ⟨trivial, ?_⟩
      have hknown : op.Known w.manager := by
        cases op <;> first | exact trivial | cases hcall
      by_cases hcalm : op.Calm w.manager
      · rcases IOManager.perform_next w.manager h.manager op hknown hcalm with ⟨s', hrun, hnext⟩
        exact Or.inl ⟨_, onManager_ok w op s' hrun,
          inv_onManager w h op s' hnext w.inFlight (fun _ hr => hr), trivial⟩
      · rcases IOManager.perform_stops w.manager h.manager op hknown hcalm with ⟨s', hrun⟩
        refine Or.inr ⟨_, _, onManager_throw w op _ s' hrun, ?_⟩
        -- Among the public operations only `addEvent` can fail an assertion.
        cases op with
        | addEvent fd e cb caller ok => exact fun hno => by cases hno
        | delEvent fd e garbage ok => exact absurd trivial hcalm
        | cancelEvent fd e garbage ok => exact absurd trivial hcalm
        | cancelAll fd ok => exact absurd trivial hcalm
        | dispatch fd mask ok => cases hcall
  | handle i ok =>
      rcases hrep : w.inFlight[i]? with _ | ⟨fd, mask⟩
      · -- There is no such report, so nothing happens.
        refine Or.inl ⟨?_, Or.inl ⟨w, by simp only [perform, hrep], h, ?_⟩⟩
        · intro fd mask hsome
          rw [hrep] at hsome
          cases hsome
        · intro fd mask hsome
          rw [hrep] at hsome
          cases hsome
      · have hfd := h.inFlight (fd, mask) (List.mem_of_getElem? hrep)
        have htimely : (Step.handle i ok).Timely w ↔
            (IOManager.Op.dispatch fd mask ok).Calm w.manager := by
          constructor
          · intro ht
            exact ht fd mask hrep
          · intro hcalm fd' mask' hsome
            rw [hrep] at hsome
            cases hsome
            exact hcalm
        by_cases hcalm : (IOManager.Op.dispatch fd mask ok).Calm w.manager
        · rcases IOManager.perform_next w.manager h.manager (.dispatch fd mask ok) hfd
            hcalm with ⟨s', hrun, hnext⟩
          refine Or.inl ⟨htimely.2 hcalm, Or.inl ⟨⟨s', w.inFlight.eraseIdx i⟩, ?_, ?_, ?_⟩⟩
          · simp only [perform, hrep]
            exact onManager_ok ⟨w.manager, w.inFlight.eraseIdx i⟩ _ s' hrun
          · exact inv_onManager w h _ s' hnext _ (fun _ hr => List.mem_of_mem_eraseIdx hr)
          · intro fd' mask' hsome
            rw [hrep] at hsome
            cases hsome
            exact counted_dispatch w.manager s' fd mask ok hnext
        · rcases IOManager.perform_stops w.manager h.manager (.dispatch fd mask ok) hfd
            hcalm with ⟨s', hrun⟩
          refine Or.inr ⟨fun ht => hcalm (htimely.1 ht), ⟨s', w.inFlight.eraseIdx i⟩, ?_⟩
          simp only [perform, hrep]
          exact onManager_throw ⟨w.manager, w.inFlight.eraseIdx i⟩ _ _ s' hrun

/-- Along any run from a world in order, by induction over its steps. -/
theorem harmless_iff (steps : List Step) (w : World) (h : Inv w) :
    Harmless w steps ↔ Timely w steps := by
  induction steps generalizing w with
  | nil => exact ⟨fun _ => trivial, fun _ => h.pending_nonneg⟩
  | cons st rest ih =>
      rw [Harmless, Timely]
      rcases harmless_step w h st with ⟨ht, ⟨w', hrun, hinv, hcount⟩ | ⟨a, w', hrun, hne⟩⟩ |
        ⟨hnt, w', hrun⟩
      · rw [hrun]
        simp only []
        rw [ih w' hinv]
        exact ⟨fun hh => ⟨ht, hh.2.2⟩, fun hh => ⟨h.pending_nonneg, hcount, hh.2⟩⟩
      · -- The process has ended with an assertion that is not the one in question.
        rw [hrun]
        exact ⟨fun _ => ⟨ht, trivial⟩, fun _ => ⟨h.pending_nonneg, hne⟩⟩
      · rw [hrun]
        exact ⟨fun hh => absurd rfl hh.2, fun hh => absurd hh.1 hnt⟩

/-- Any interleaving of reports, operations and the handling of reports, from a
    new manager: it is harmless exactly when every report is timely. -/
theorem harmless_iff_timely (steps : List Step) : Harmless new steps ↔ Timely new steps :=
  harmless_iff steps new inv_new

/-- A reader and a writer wait on one descriptor and both events are reported.
    Before the report is handled, the reader is cancelled. -/
theorem stale_report_aborts :
    ¬Harmless new [.call (.addEvent 5 .READ none ⟨7, 1⟩ true) rfl,
      .call (.addEvent 5 .WRITE none ⟨7, 2⟩ true) rfl, .report 5 (EPOLLIN ||| EPOLLOUT),
      .call (.cancelEvent 5 .READ 0 true) rfl, .handle 0 true] := by
  intro h
  exact h.2.2.2.2.2.2.2.2.2 rfl

end World

end YkServer
