import YkServer.Core.Scheduler
import YkServer.Lib.Interleaving
import YkServer.Lib.Table
import Mathlib.Logic.Basic

/-!
# The Moves of the Scheduler

Everything that can happen to a scheduler, one constructor for each kind of step
with what the step needs and what it leaves. What is proved about whole runs is
proved by cases on these, and the step function is opened here only.

## Main definitions

* `Scheduler.Eligible`: A worker may take an item.
* `Scheduler.enqueued`: The items of a call of `schedule`.
* `Scheduler.Move`: What a step does.

## Theorems

* `scan_some`, `scan_none`: What the scan finds.
* `move_of_step`: Every step is a move.
-/

namespace YkServer

open Lib

namespace Scheduler

/-! ## The scan -/

/-- The item is for this worker or for any. -/
def For (w : Nat) (it : FiberAndThread) : Prop := it.thread = none ∨ it.thread = some w

/-- The item can be run at all: it is not a fiber that is still running. -/
def Runnable (s : Scheduler) (it : FiberAndThread) : Prop := s.taskState it.task ≠ some .EXEC

/-- A worker may take an item. -/
def Eligible (s : Scheduler) (w : Nat) (it : FiberAndThread) : Prop := For w it ∧ s.Runnable it

theorem not_for_iff (w : Nat) (it : FiberAndThread) :
    ¬For w it ↔ it.thread ≠ none ∧ it.thread ≠ some w := not_or

/-- The item that is taken is the first that the worker may take, and the rest of the
    queue stays. If `tickle_me` is not set, nothing that can be run is left. -/
theorem scan_some (s : Scheduler) (w : Nat) (l left : List FiberAndThread) (ft : FiberAndThread)
    (tickleMe : Bool) (h : s.scan w l = (some ft, left, tickleMe)) :
    ∃ pre post, l = pre ++ ft :: post ∧ left = pre ++ post ∧ s.Eligible w ft ∧
      (∀ it ∈ pre, ¬s.Eligible w it) ∧
      (tickleMe = false → ∀ it ∈ left, ¬s.Runnable it) := by
  induction l generalizing left tickleMe with
  | nil =>
      simp only [scan, Prod.mk.injEq, reduceCtorEq, false_and] at h
  | cons it rest ih =>
      rw [scan] at h
      split at h
      · next hother =>
          -- Pinned to another thread.
          rcases hrec : s.scan w rest with ⟨ft', left', tickleMe'⟩
          simp only [hrec, Prod.mk.injEq] at h
          rcases h with ⟨rfl, rfl, rfl⟩
          rcases ih left' tickleMe' hrec with ⟨pre, post, rfl, rfl, helig, hpre, -⟩
          refine ⟨it :: pre, post, rfl, rfl, helig, ?_, fun hno => by cases hno⟩
          intro it' hit'
          rcases List.mem_cons.1 hit' with rfl | hmem
          · exact fun helig' => (not_for_iff w it').2 hother helig'.1
          · exact hpre it' hmem
      · split at h
        · next hexec =>
            -- Still running somewhere.
            rcases hrec : s.scan w rest with ⟨ft', left', tickleMe'⟩
            simp only [hrec, Prod.mk.injEq] at h
            rcases h with ⟨rfl, rfl, rfl⟩
            rcases ih left' tickleMe' hrec with ⟨pre, post, rfl, rfl, helig, hpre, hquiet⟩
            refine ⟨it :: pre, post, rfl, rfl, helig, ?_, ?_⟩
            · intro it' hit'
              rcases List.mem_cons.1 hit' with rfl | hmem
              · exact fun helig' => helig'.2 hexec
              · exact hpre it' hmem
            · intro hno it' hit'
              rcases List.mem_cons.1 hit' with rfl | hmem
              · exact fun hrun => hrun hexec
              · exact hquiet hno it' hmem
        · next hother hexec =>
            -- The first one that may be taken: `tickle_me` says whether there is more behind it.
            simp only [Prod.mk.injEq, Option.some.injEq] at h
            rcases h with ⟨rfl, rfl, rfl⟩
            have hfor : For w it := not_not.1 (fun hno => hother ((not_for_iff w it).1 hno))
            refine ⟨[], rest, rfl, rfl, ⟨hfor, hexec⟩,
              fun _ hno => absurd hno List.not_mem_nil, ?_⟩
            intro hempty it' hit'
            rw [Bool.not_eq_false', List.isEmpty_iff] at hempty
            rw [hempty] at hit'
            exact absurd hit' List.not_mem_nil

/-- Nothing is taken if there is nothing that the worker may take. -/
theorem scan_none (s : Scheduler) (w : Nat) (l left : List FiberAndThread) (tickleMe : Bool)
    (h : s.scan w l = (none, left, tickleMe)) :
    (∀ it ∈ l, ¬s.Eligible w it) ∧ (tickleMe = false → ∀ it ∈ l, ¬s.Runnable it) := by
  induction l generalizing left tickleMe with
  | nil => exact ⟨fun _ hno => absurd hno List.not_mem_nil,
      fun _ _ hno => absurd hno List.not_mem_nil⟩
  | cons it rest ih =>
      rw [scan] at h
      split at h
      · -- An item for another thread sets `tickle_me`.
        next hother =>
          rcases hrec : s.scan w rest with ⟨ft', left', tickleMe'⟩
          simp only [hrec, Prod.mk.injEq] at h
          rcases h with ⟨rfl, -, rfl⟩
          refine ⟨fun it' hit' => ?_, fun hno => by cases hno⟩
          rcases List.mem_cons.1 hit' with rfl | hmem
          · exact fun helig => (not_for_iff w it').2 hother helig.1
          · exact (ih left' tickleMe' hrec).1 it' hmem
      · split at h
        · next hexec =>
            rcases hrec : s.scan w rest with ⟨ft', left', tickleMe'⟩
            simp only [hrec, Prod.mk.injEq] at h
            rcases h with ⟨rfl, -, rfl⟩
            rcases ih left' tickleMe' hrec with ⟨hnone, hquiet⟩
            refine ⟨fun it' hit' => ?_, fun hno it' hit' => ?_⟩
            · rcases List.mem_cons.1 hit' with rfl | hmem
              · exact fun helig => helig.2 hexec
              · exact hnone it' hmem
            · rcases List.mem_cons.1 hit' with rfl | hmem
              · exact fun hrun => hrun hexec
              · exact hquiet hno it' hmem
        · -- This item would have been taken.
          simp only [Prod.mk.injEq, reduceCtorEq, false_and] at h

/-! ## What goes into the queue -/

/-- The items that a call of `schedule` makes, with tickets from `n` on. -/
def enqueued (thread : Option Nat) : List (Option Task) → Nat → List FiberAndThread
  | [], _ => []
  | none :: fcs, n => enqueued thread fcs n
  | some task :: fcs, n => ⟨task, thread, n⟩ :: enqueued thread fcs (n + 1)

theorem scheduleAll_snd (thread : Option Nat) (fcs : List (Option Task)) (s : Scheduler) :
    (s.scheduleAll thread fcs).2 = { s with
      fibers := s.fibers ++ enqueued thread fcs s.tickets
      tickets := s.tickets + (enqueued thread fcs s.tickets).length } := by
  induction fcs generalizing s with
  | nil => simp only [scheduleAll, enqueued, List.append_nil, List.length_nil, Nat.add_zero]
  | cons fc fcs ih =>
      rw [scheduleAll]
      refine (ih _).trans ?_
      cases fc with
      | none => rfl
      | some task =>
          simp only [scheduleNoLock, enqueued, List.append_assoc, List.cons_append,
            List.nil_append, List.length_cons, Nat.add_assoc, Nat.add_comm 1]

/-- What goes into an empty queue comes with a call of `tickle`. -/
theorem scheduleAll_fst (thread : Option Nat) (fcs : List (Option Task)) (s : Scheduler)
    (hempty : s.fibers = []) (hsome : enqueued thread fcs s.tickets ≠ []) :
    (s.scheduleAll thread fcs).1 = true := by
  cases fcs with
  | nil => exact absurd rfl hsome
  | cons fc fcs =>
      simp only [scheduleAll, scheduleNoLock, hempty, List.isEmpty_nil, Bool.or_true]

theorem mem_enqueued (thread : Option Nat) (fcs : List (Option Task)) (n : Nat)
    (it : FiberAndThread) (h : it ∈ enqueued thread fcs n) :
    it.thread = thread ∧ some it.task ∈ fcs ∧ n ≤ it.ticket ∧
      it.ticket < n + (enqueued thread fcs n).length := by
  induction fcs generalizing n with
  | nil => exact absurd h List.not_mem_nil
  | cons fc fcs ih =>
      cases fc with
      | none =>
          rcases ih n h with ⟨hthread, htask, hle, hlt⟩
          exact ⟨hthread, List.mem_cons_of_mem _ htask, hle, hlt⟩
      | some task =>
          simp only [enqueued, List.length_cons]
          rcases List.mem_cons.1 h with rfl | hmem
          · exact ⟨rfl, List.mem_cons_self, Nat.le_refl _, Nat.lt_add_of_pos_right (Nat.succ_pos _)⟩
          · rcases ih (n + 1) hmem with ⟨hthread, htask, hle, hlt⟩
            exact ⟨hthread, List.mem_cons_of_mem _ htask, by omega, by omega⟩

theorem nodup_enqueued (thread : Option Nat) (fcs : List (Option Task)) (n : Nat) :
    ((enqueued thread fcs n).map FiberAndThread.ticket).Nodup := by
  induction fcs generalizing n with
  | nil => exact List.nodup_nil
  | cons fc fcs ih =>
      cases fc with
      | none => exact ih n
      | some task =>
          rw [enqueued, List.map_cons, List.nodup_cons]
          refine ⟨fun hmem => ?_, ih (n + 1)⟩
          rcases List.mem_map.1 hmem with ⟨it, hit, hticket⟩
          have hle := (mem_enqueued thread fcs (n + 1) it hit).2.2.1
          rw [hticket] at hle
          exact Nat.not_succ_le_self n hle

/-! ## Moves -/

/-- The fiber has ended. -/
def Ended (st : FiberState) : Prop := st = .TERM ∨ st = .EXCEPT

/-- What the steps do to a scheduler. -/
inductive Move (s : Scheduler) : Action → Scheduler → Prop where
  | start : Move s .start { s with workers := s.workers ++ [⟨.top, none, false⟩] }
  | newFiber : Move s .newFiber { s with states := s.states ++ [.INIT] }
  | schedule (caller : Option Nat) (fcs : List (Option Task)) (thread : Option Nat)
      (hcall : s.mayCall caller = true) (hknown : fcs.all s.known = true) :
      Move s (.schedule caller fcs thread) { s with
        fibers := s.fibers ++ enqueued thread fcs s.tickets
        tickets := s.tickets + (enqueued thread fcs s.tickets).length
        ticklers := s.ticklers + if (s.scheduleAll thread fcs).1 then 1 else 0 }
  | stop : Move s .stop { s with autoStop := true, isStopping := true }
  | tickle : Move s .tickle { s with ticklers := s.ticklers + 1 }
  | test (h : s.ticklers ≠ 0) (hidle : s.io = true ∧ 0 < s.idleThreadCount) :
      Move s .test { s with ticklers := s.ticklers - 1, pokers := s.pokers + 1 }
  | dropTest (h : s.ticklers ≠ 0) (hidle : ¬(s.io = true ∧ 0 < s.idleThreadCount)) :
      Move s .test { s with ticklers := s.ticklers - 1 }
  | poke (h : s.pokers ≠ 0) : Move s .poke { s with pokers := s.pokers - 1, pipe := s.pipe + 1 }
  | take (w : Nat) (x : Worker) (ft : FiberAndThread) (left : List FiberAndThread)
      (tickleMe : Bool) (hx : s.workers[w]? = some x) (hpc : x.pc = .top)
      (hscan : s.scan w s.fibers = (some ft, left, tickleMe)) :
      Move s (.go w) ({ s with
        fibers := left
        activeThreadCount := s.activeThreadCount + 1
        taken := (ft, w) :: s.taken }.goto w x
          (if tickleMe then .tickling (.picked (some ft)) else .picked (some ft)))
  | miss (w : Nat) (x : Worker) (left : List FiberAndThread) (tickleMe : Bool)
      (hx : s.workers[w]? = some x) (hpc : x.pc = .top)
      (hscan : s.scan w s.fibers = (none, left, tickleMe)) :
      Move s (.go w) (s.goto w x (if tickleMe then .tickling (.picked none) else .picked none))
  | ownTest (w : Nat) (x : Worker) (next : Next) (hx : s.workers[w]? = some x)
      (hpc : x.pc = .tickling next) (hidle : s.io = true ∧ 0 < s.idleThreadCount) :
      Move s (.go w) (s.goto w x (.poking next))
  | ownDrop (w : Nat) (x : Worker) (next : Next) (hx : s.workers[w]? = some x)
      (hpc : x.pc = .tickling next) (hidle : ¬(s.io = true ∧ 0 < s.idleThreadCount)) :
      Move s (.go w) (s.goto w x next.pc)
  | ownPoke (w : Nat) (x : Worker) (next : Next) (hx : s.workers[w]? = some x)
      (hpc : x.pc = .poking next) :
      Move s (.go w) ({ s with pipe := s.pipe + 1 }.goto w x next.pc)
  | discard (w : Nat) (x : Worker) (f : Nat) (thread : Option Nat) (ticket : Nat)
      (st : FiberState) (hx : s.workers[w]? = some x)
      (hpc : x.pc = .picked (some ⟨.fiber f, thread, ticket⟩)) (hst : s.states[f]? = some st)
      (hend : Ended st) : Move s (.go w) (s.goto w x .dropping)
  | pickFiber (w : Nat) (x : Worker) (f : Nat) (thread : Option Nat) (ticket : Nat)
      (st : FiberState) (hx : s.workers[w]? = some x)
      (hpc : x.pc = .picked (some ⟨.fiber f, thread, ticket⟩)) (hst : s.states[f]? = some st)
      (hend : ¬Ended st) : Move s (.go w) (s.goto w x (.entering f false ticket))
  | reuse (w : Nat) (x : Worker) (c : Nat) (thread : Option Nat) (ticket g : Nat)
      (st : FiberState) (hx : s.workers[w]? = some x)
      (hpc : x.pc = .picked (some ⟨.cb c, thread, ticket⟩)) (hg : x.cbFiber = some g)
      (hst : s.states[g]? = some st) (hend : Ended st ∨ st = .INIT) :
      Move s (.go w)
        ((s.setState g .INIT).goto w { x with cbFiber := none } (.entering g true ticket))
  | pickCallback (w : Nat) (x : Worker) (c : Nat) (thread : Option Nat) (ticket : Nat)
      (hx : s.workers[w]? = some x)
      (hpc : x.pc = .picked (some ⟨.cb c, thread, ticket⟩)) (hg : x.cbFiber = none) :
      Move s (.go w) (goto { s with states := s.states ++ [.INIT] } w { x with cbFiber := none }
        (.entering s.states.length true ticket))
  | exit (w : Nat) (x : Worker) (hx : s.workers[w]? = some x) (hpc : x.pc = .picked none)
      (hterm : x.idleTerm = true) : Move s (.go w) (s.goto w x .exited)
  | idle (w : Nat) (x : Worker) (hx : s.workers[w]? = some x) (hpc : x.pc = .picked none)
      (hterm : x.idleTerm = false) :
      Move s (.go w) ({ s with idleThreadCount := s.idleThreadCount + 1 }.goto w x .asking)
  | swapIn (w : Nat) (x : Worker) (f : Nat) (isCb : Bool) (ticket : Nat) (st : FiberState)
      (hx : s.workers[w]? = some x) (hpc : x.pc = .entering f isCb ticket)
      (hst : s.states[f]? = some st) (hne : st ≠ .EXEC) :
      Move s (.go w) ({ s.setState f .EXEC with executed := ticket :: s.executed }.goto w x
        (.running f isCb))
  | switch (w : Nat) (x : Worker) (f : Nat) (isCb : Bool) (hx : s.workers[w]? = some x)
      (hpc : x.pc = .leaving f isCb) : Move s (.go w) (s.goto w x (.back f isCb))
  | back (w : Nat) (x : Worker) (f : Nat) (isCb : Bool) (hx : s.workers[w]? = some x)
      (hpc : x.pc = .back f isCb) :
      Move s (.go w) ({ s with activeThreadCount := s.activeThreadCount - 1 }.goto w x
        (.settling f isCb))
  | ready (w : Nat) (x : Worker) (f : Nat) (isCb : Bool) (hx : s.workers[w]? = some x)
      (hpc : x.pc = .settling f isCb) (hst : s.states[f]? = some .READY) :
      Move s (.go w) (s.goto w x (.requeueing f isCb))
  | ended (w : Nat) (x : Worker) (f : Nat) (st : FiberState) (hx : s.workers[w]? = some x)
      (hpc : x.pc = .settling f false) (hst : s.states[f]? = some st) (hend : Ended st) :
      Move s (.go w) (s.goto w x .top)
  | endedCb (w : Nat) (x : Worker) (f : Nat) (st : FiberState) (hx : s.workers[w]? = some x)
      (hpc : x.pc = .settling f true) (hst : s.states[f]? = some st) (hend : Ended st) :
      Move s (.go w) ((s.setState f .INIT).goto w { x with cbFiber := some f } .top)
  | parked (w : Nat) (x : Worker) (f : Nat) (isCb : Bool) (st : FiberState)
      (hx : s.workers[w]? = some x) (hpc : x.pc = .settling f isCb)
      (hst : s.states[f]? = some st) (hready : st ≠ .READY) (hend : ¬Ended st) :
      Move s (.go w) (s.goto w x (.holding f isCb))
  | requeue (w : Nat) (x : Worker) (f : Nat) (isCb : Bool) (hx : s.workers[w]? = some x)
      (hpc : x.pc = .requeueing f isCb) :
      Move s (.go w) (goto { s with
        fibers := s.fibers ++ [⟨.fiber f, none, s.tickets⟩]
        tickets := s.tickets + 1 } w x (if s.fibers.isEmpty then .tickling .top else .top))
  | hold (w : Nat) (x : Worker) (f : Nat) (isCb : Bool) (hx : s.workers[w]? = some x)
      (hpc : x.pc = .holding f isCb) : Move s (.go w) ((s.setState f .HOLD).goto w x .top)
  | drop (w : Nat) (x : Worker) (hx : s.workers[w]? = some x) (hpc : x.pc = .dropping) :
      Move s (.go w) ({ s with activeThreadCount := s.activeThreadCount - 1 }.goto w x .top)
  | handled (w : Nat) (x : Worker) (hx : s.workers[w]? = some x) (hpc : x.pc = .handling) :
      Move s (.go w) (s.goto w x .idleOut)
  | idleOut (w : Nat) (x : Worker) (hx : s.workers[w]? = some x) (hpc : x.pc = .idleOut) :
      Move s (.go w) ({ s with idleThreadCount := s.idleThreadCount - 1 }.goto w x .top)
  | yieldToReady (w : Nat) (x : Worker) (f : Nat) (isCb : Bool) (hx : s.workers[w]? = some x)
      (hpc : x.pc = .running f isCb) :
      Move s (.yieldToReady w) ((s.setState f .READY).goto w x (.leaving f isCb))
  | yieldToHold (w : Nat) (x : Worker) (f : Nat) (isCb : Bool) (hx : s.workers[w]? = some x)
      (hpc : x.pc = .running f isCb) : Move s (.yieldToHold w) (s.goto w x (.leaving f isCb))
  | finish (w : Nat) (x : Worker) (f : Nat) (isCb except : Bool) (st : FiberState)
      (hx : s.workers[w]? = some x) (hpc : x.pc = .running f isCb) (hst : Ended st) :
      Move s (.finish w except) ((s.setState f st).goto w x (.leaving f isCb))
  | askStop (w : Nat) (x : Worker) (quiet : Bool) (hx : s.workers[w]? = some x)
      (hpc : x.pc = .asking) (hstop : s.stopping = true) :
      Move s (.ask w quiet) (s.goto w { x with idleTerm := true } .idleOut)
  | askWait (w : Nat) (x : Worker) (quiet : Bool) (hx : s.workers[w]? = some x)
      (hpc : x.pc = .asking) (hio : s.io = true) : Move s (.ask w quiet) (s.goto w x .waiting)
  | askSpin (w : Nat) (x : Worker) (quiet : Bool) (hx : s.workers[w]? = some x)
      (hpc : x.pc = .asking) (hio : s.io = false) : Move s (.ask w quiet) (s.goto w x .idleOut)
  | wake (w : Nat) (x : Worker) (hx : s.workers[w]? = some x) (hpc : x.pc = .waiting) :
      Move s (.wake w) (s.goto w x .handling)
  | drain (w : Nat) (x : Worker) (hx : s.workers[w]? = some x) (hpc : x.pc = .handling) :
      Move s (.drain w) { s with pipe := 0 }

/-- The steps of a worker on its own. -/
theorem move_of_go (s s' : Scheduler) (w : Nat) (x : Worker) (hx : s.workers[w]? = some x)
    (h : s.go w x = some s') : Move s (.go w) s' := by
  -- One case per place, in the order of `Scheduler::run`.
  unfold go at h
  split at h
  · next hpc =>
      split at h
      · next ft left tickleMe hscan =>
          cases h
          exact .take w x ft left tickleMe hx hpc hscan
      · next left tickleMe hscan =>
          cases h
          exact .miss w x left tickleMe hx hpc hscan
  · next next hpc =>
      split at h
      · next hidle =>
          cases h
          exact .ownTest w x next hx hpc hidle
      · next hidle =>
          cases h
          exact .ownDrop w x next hx hpc hidle
  · next next hpc =>
      cases h
      exact .ownPoke w x next hx hpc
  · next f thread ticket hpc =>
      split at h
      · next hst =>
          cases h
          exact .discard w x f thread ticket .TERM hx hpc hst (Or.inl rfl)
      · next hst =>
          cases h
          exact .discard w x f thread ticket .EXCEPT hx hpc hst (Or.inr rfl)
      · next st hterm hexcept hst =>
          cases h
          exact .pickFiber w x f thread ticket st hx hpc hst (not_or.2 ⟨hterm, hexcept⟩)
      · cases h
  · next c thread ticket hpc =>
      rcases hcb : x.cbFiber with _ | g
      · simp only [callbackFiber, hcb, Option.some.injEq] at h
        cases h
        exact .pickCallback w x c thread ticket hx hpc hcb
      · rcases hst : s.states[g]? with _ | st
        · simp only [callbackFiber, hcb, hst] at h
          cases h
        · have hmove := fun hend => Move.reuse w x c thread ticket g st hx hpc hcb hst hend
          cases st with
          | INIT =>
              simp only [callbackFiber, hcb, hst, Option.some.injEq] at h
              cases h
              exact hmove (Or.inr rfl)
          | TERM =>
              simp only [callbackFiber, hcb, hst, Option.some.injEq] at h
              cases h
              exact hmove (Or.inl (Or.inl rfl))
          | EXCEPT =>
              simp only [callbackFiber, hcb, hst, Option.some.injEq] at h
              cases h
              exact hmove (Or.inl (Or.inr rfl))
          -- The assertion of `reset` fails.
          | HOLD | EXEC | READY =>
              simp only [callbackFiber, hcb, hst] at h
              cases h
  · next hpc =>
      split at h
      · next hterm =>
          cases h
          exact .exit w x hx hpc hterm
      · next hterm =>
          cases h
          exact .idle w x hx hpc (Bool.eq_false_iff.2 hterm)
  · next f isCb ticket hpc =>
      rcases hst : s.states[f]? with _ | st
      · simp only [Scheduler.swapIn, hst] at h
        cases h
      · by_cases hne : st = .EXEC
        · -- The assertion of `swapIn` fails.
          subst hne
          simp only [Scheduler.swapIn, hst] at h
          cases h
        · have hswap : Scheduler.swapIn f s = some (s.setState f .EXEC) := by
            simp only [Scheduler.swapIn, hst]
          simp only [hswap, Option.some.injEq] at h
          subst h
          exact .swapIn w x f isCb ticket st hx hpc hst hne
  · next f isCb hpc =>
      cases h
      exact .switch w x f isCb hx hpc
  · next f isCb hpc =>
      cases h
      exact .back w x f isCb hx hpc
  · next f isCb hpc =>
      -- Only the fiber of a callback is kept when it has ended.
      have hended : ∀ st, s.states[f]? = some st → Ended st →
          some (go.ended w x f isCb s) = some s' → Move s (.go w) s' := by
        intro st hst hend h
        cases isCb with
        | true =>
            cases h
            exact .endedCb w x f st hx hpc hst hend
        | false =>
            cases h
            exact .ended w x f st hx hpc hst hend
      split at h
      · next hst =>
          cases h
          exact .ready w x f isCb hx hpc hst
      · next hst => exact hended .TERM hst (Or.inl rfl) h
      · next hst => exact hended .EXCEPT hst (Or.inr rfl) h
      · next st hready hterm hexcept hst =>
          cases h
          exact .parked w x f isCb st hx hpc hst hready (not_or.2 ⟨hterm, hexcept⟩)
      · cases h
  · next f isCb hpc =>
      cases h
      exact .requeue w x f isCb hx hpc
  · next f isCb hpc =>
      cases h
      exact .hold w x f isCb hx hpc
  · next hpc =>
      cases h
      exact .drop w x hx hpc
  · next hpc =>
      cases h
      exact .handled w x hx hpc
  · next hpc =>
      cases h
      exact .idleOut w x hx hpc
  · cases h

/-- What a running fiber does. -/
theorem running_of_step (w : Nat) (s s' : Scheduler) (k : Worker → Nat → Bool → Scheduler)
    (h : (match s.workers[w]? with
      | some x =>
        match x.pc with
        | .running f isCb => some (k x f isCb)
        | _ => none
      | none => none) = some s') :
    ∃ x f isCb, s.workers[w]? = some x ∧ x.pc = .running f isCb ∧ s' = k x f isCb := by
  split at h
  · next x hx =>
      split at h
      · next f isCb hpc =>
          cases h
          exact ⟨x, f, isCb, hx, hpc, rfl⟩
      · cases h
  · cases h

/-- Every step is a move. -/
theorem move_of_step (s : Scheduler) (a : Action) (s' : Scheduler) (h : step a s = some s') :
    Move s a s' := by
  cases a with
  | start =>
      cases h
      exact .start
  | newFiber =>
      cases h
      exact .newFiber
  | schedule caller fcs thread =>
      rw [step] at h
      split at h
      · next hcall =>
          rw [Bool.and_eq_true] at hcall
          simp only [scheduleAll_snd, Option.some.injEq] at h
          rw [← h]
          exact .schedule caller fcs thread hcall.1 hcall.2
      · cases h
  | stop =>
      cases h
      exact .stop
  | tickle =>
      cases h
      exact .tickle
  | test =>
      rw [step] at h
      split at h
      · cases h
      · next hsome =>
          split at h
          · next hidle =>
              cases h
              exact .test hsome hidle
          · next hidle =>
              cases h
              exact .dropTest hsome hidle
  | poke =>
      rw [step] at h
      split at h
      · cases h
      · next hsome =>
          cases h
          exact .poke hsome
  | go w =>
      rw [step] at h
      split at h
      · next x hx => exact move_of_go s s' w x hx h
      · cases h
  | yieldToReady w =>
      rcases running_of_step w s s' _ h with ⟨x, f, isCb, hx, hpc, rfl⟩
      exact .yieldToReady w x f isCb hx hpc
  | yieldToHold w =>
      rcases running_of_step w s s' _ h with ⟨x, f, isCb, hx, hpc, rfl⟩
      exact .yieldToHold w x f isCb hx hpc
  | finish w except =>
      rcases running_of_step w s s' _ h with ⟨x, f, isCb, hx, hpc, rfl⟩
      refine .finish w x f isCb except _ hx hpc ?_
      cases except with
      | true => exact Or.inr rfl
      | false => exact Or.inl rfl
  | ask w quiet =>
      rw [step] at h
      split at h
      · next x hx =>
          split at h
          · next hpc =>
              split at h
              · next hstop =>
                  rw [Bool.and_eq_true] at hstop
                  cases h
                  exact .askStop w x quiet hx hpc hstop.2
              · split at h
                · next hio =>
                    cases h
                    exact .askWait w x quiet hx hpc hio
                · next hio =>
                    cases h
                    exact .askSpin w x quiet hx hpc (Bool.eq_false_iff.2 hio)
          · cases h
      · cases h
  | wake w =>
      rw [step] at h
      split at h
      · next x hx =>
          split at h
          · next hpc =>
              cases h
              exact .wake w x hx hpc
          · cases h
      · cases h
  | drain w =>
      rw [step] at h
      split at h
      · next x hx =>
          split at h
          · next hpc =>
              cases h
              exact .drain w x hx hpc
          · cases h
      · cases h

/-! ## The workers after a step -/

theorem workers_goto (s : Scheduler) (w w' : Nat) (x y : Worker) (pc : Pc)
    (hx : s.workers[w]? = some x) :
    (s.goto w y pc).workers[w']? = if w' = w then some { y with pc := pc } else s.workers[w']? :=
  getElem?_update s.workers w x { y with pc := pc } hx w'

@[simp]
theorem activeThreadCount_goto (s : Scheduler) (w : Nat) (x : Worker) (pc : Pc) :
    (s.goto w x pc).activeThreadCount = s.activeThreadCount := rfl

@[simp]
theorem idleThreadCount_goto (s : Scheduler) (w : Nat) (x : Worker) (pc : Pc) :
    (s.goto w x pc).idleThreadCount = s.idleThreadCount := rfl

/-- What holds of every worker, after one of them has moved. -/
theorem all_goto (P : Worker → Prop) (s s₁ : Scheduler) (w : Nat) (x y : Worker) (pc : Pc)
    (hworkers : s₁.workers = s.workers) (hx : s.workers[w]? = some x)
    (h : ∀ (w : Nat) (x : Worker), s.workers[w]? = some x → P x) (hy : P { y with pc := pc })
    (w' : Nat) (x' : Worker) (hx' : (s₁.goto w y pc).workers[w']? = some x') : P x' := by
  rw [workers_goto s₁ w w' x y pc (by rw [hworkers]; exact hx), hworkers] at hx'
  by_cases heq : w' = w
  · rw [if_pos heq, Option.some.injEq] at hx'
    rw [← hx']
    exact hy
  · rw [if_neg heq] at hx'
    exact h w' x' hx'

/-- What holds of every worker, after one has started. -/
theorem all_start (P : Worker → Prop) (s : Scheduler)
    (h : ∀ (w : Nat) (x : Worker), s.workers[w]? = some x → P x) (hnew : P ⟨.top, none, false⟩)
    (w' : Nat) (x' : Worker) (hx' : (s.workers ++ [⟨.top, none, false⟩])[w']? = some x') :
    P x' := by
  rcases getElem?_concat_eq_some s.workers _ x' w' hx' with hold | ⟨-, rfl⟩
  · exact h w' x' hold
  · exact hnew

/-- How many workers are in places of some kind. -/
def count (s : Scheduler) (p : Pc → Bool) : Int := s.workers.countP (fun x => p x.pc)

theorem count_nonneg (s : Scheduler) (p : Pc → Bool) : 0 ≤ s.count p := Int.natCast_nonneg _

theorem count_goto (s : Scheduler) (p : Pc → Bool) (w : Nat) (x y : Worker) (pc : Pc)
    (hx : s.workers[w]? = some x) :
    (s.goto w y pc).count p =
      s.count p - (if p x.pc then 1 else 0) + if p pc then 1 else 0 := by
  rcases List.getElem?_eq_some_iff.1 hx with ⟨hlt, hget⟩
  have hset : (s.goto w y pc).workers = s.workers.set w { y with pc := pc } := rfl
  -- The worker itself is among those that are counted, so nothing is lost in the subtraction.
  have hpos : p x.pc = true → 0 < s.workers.countP (fun x => p x.pc) := by
    intro hp
    refine List.countP_pos_iff.2 ⟨x, List.mem_of_getElem? hx, hp⟩
  rw [count, count, hset, List.countP_set hlt, hget]
  split
  · next hp =>
      have := hpos hp
      split <;> omega
  · split <;> omega

/-- A counter of such workers goes along with a worker that moves. -/
theorem count_move (s s₁ : Scheduler) (p : Pc → Bool) (n n₁ : Int) (h : n = s.count p) (w : Nat)
    (x y : Worker) (pc : Pc) (hworkers : s₁.workers = s.workers) (hx : s.workers[w]? = some x)
    (hdiff : n₁ = n - (if p x.pc then 1 else 0) + if p pc then 1 else 0) :
    n₁ = (s₁.goto w y pc).count p := by
  have hcount : s₁.count p = s.count p := by rw [count, count, hworkers]
  rw [count_goto s₁ p w x y pc (by rw [hworkers]; exact hx), hcount, ← h]
  exact hdiff

/-- A worker that has just started is at the top of its loop. -/
theorem count_start (s : Scheduler) (p : Pc → Bool) (hp : p .top = false) :
    ({ s with workers := s.workers ++ [⟨.top, none, false⟩] } : Scheduler).count p = s.count p := by
  simp only [count, List.countP_append, List.countP_cons, List.countP_nil, hp,
    Bool.false_eq_true, if_false, Nat.add_zero]

end Scheduler

end YkServer
