import YkServer.Theory.Scheduler.Dispatch

/-!
# The Stop Condition

`stopping` looks at the queue and the active counter under the lock, but a worker
that gets a fiber back decrements the counter first and puts the fiber in the queue
again later if it is ready. In between the scheduler looks as if nothing was left
to do. `stop_stable` says that this is the only way for the condition to become
true too early: where no worker is in that place, it stays true, and nothing is
executed any more.

## Main definitions

* `Scheduler.Returning`: A worker is about to put a fiber back in the queue.
* `Scheduler.Inside`: No other thread calls `schedule`.
* `Scheduler.Quiet`: Nothing is left to do.

## Theorems

* `quiet_move`: It stays so.
* `stop_stable`: When the stop condition is stable.
* `stop_unstable`: A run in which it is not.
-/

namespace YkServer

open Lib

namespace Scheduler

/-- A worker that has decremented the active counter and is going to put its fiber in
    the queue again. -/
def Returning (s : Scheduler) : Prop :=
  ∃ (w : Nat) (x : Worker) (f : Nat) (isCb : Bool), s.workers[w]? = some x ∧
    (x.pc = .requeueing f isCb ∨
      x.pc = .settling f isCb ∧ s.states[f]? = some .READY)

/-- Not a call of `schedule` by a thread outside of the scheduler. -/
def Inside : Action → Prop
  | .schedule none _ _ => False
  | _ => True

/-- A place in which a worker has nothing to do and makes no work for others. -/
def Calm (s : Scheduler) : Pc → Prop
  | .top => True
  | .tickling (.picked none) => True
  | .tickling .top => True
  | .poking (.picked none) => True
  | .poking .top => True
  | .picked none => True
  | .settling f _ => s.states[f]? ≠ some .READY
  | .holding _ _ => True
  | .asking => True
  | .idleOut => True
  | .exited => True
  | _ => False

/-- `stopping` returns true, and nobody is going to change that. -/
structure Quiet (s : Scheduler) : Prop where
  autoStop : s.autoStop = true
  isStopping : s.isStopping = true
  fibers : s.fibers = []
  active : s.activeThreadCount = 0
  base : s.io = false
  calm : ∀ (w : Nat) (x : Worker), s.workers[w]? = some x → s.Calm x.pc

theorem Quiet.stopping {s : Scheduler} (h : s.Quiet) : s.stopping = true := by
  simp only [Scheduler.stopping, h.autoStop, h.isStopping, h.fibers, h.active, List.isEmpty_nil,
    decide_true, Bool.and_self]

/-! ## Steps -/

/-- Fewer fibers that are ready. -/
theorem calm_mono (s s₁ : Scheduler)
    (hready : ∀ f : Nat, s₁.states[f]? = some .READY → s.states[f]? = some .READY) (pc : Pc)
    (h : s.Calm pc) : s₁.Calm pc := by
  cases pc with
  | settling f isCb => exact fun hst => h (hready f hst)
  | tickling next => rcases next with (_ | ft) | _ <;> exact h
  | poking next => rcases next with (_ | ft) | _ <;> exact h
  | picked ft => cases ft <;> exact h
  | _ => exact h

/-- A worker goes from one calm place to another. -/
theorem quiet_goto (s s₁ : Scheduler) (h : s.Quiet) (w : Nat) (x y : Worker) (pc : Pc)
    (hx : s.workers[w]? = some x) (hworkers : s₁.workers = s.workers)
    (hautoStop : s₁.autoStop = s.autoStop) (hisStopping : s₁.isStopping = s.isStopping)
    (hfibers : s₁.fibers = s.fibers) (hactive : s₁.activeThreadCount = s.activeThreadCount)
    (hio : s₁.io = s.io)
    (hready : ∀ f : Nat, s₁.states[f]? = some .READY → s.states[f]? = some .READY)
    (hpc : s₁.Calm pc) : (s₁.goto w y pc).Quiet := by
  refine ⟨hautoStop.trans h.autoStop, hisStopping.trans h.isStopping, hfibers.trans h.fibers,
    hactive.trans h.active, hio.trans h.base, ?_⟩
  exact all_goto (fun x => s₁.Calm x.pc) s s₁ w x y pc hworkers hx
    (fun w' x' hx' => calm_mono s s₁ hready x'.pc (h.calm w' x' hx')) hpc

/-- A state that is not ready is written. -/
theorem ready_setState (s : Scheduler) (f : Nat) (st : FiberState) (hst : st ≠ .READY) (f' : Nat)
    (h : (s.setState f st).states[f']? = some .READY) : s.states[f']? = some .READY := by
  by_cases heq : f' = f
  · subst heq
    rw [setState, List.getElem?_set_self'] at h
    rcases hold : s.states[f']? with _ | st'
    · rw [hold] at h
      cases h
    · rw [hold] at h
      exact absurd (Option.some.inj h) hst
  · exact (List.getElem?_set_ne (Ne.symm heq)).symm.trans h

theorem ready_newFiber (s : Scheduler) (f : Nat)
    (h : (s.states ++ [.INIT])[f]? = some .READY) : s.states[f]? = some .READY := by
  rcases getElem?_concat_eq_some s.states _ _ f h with hold | ⟨-, hnew⟩
  · exact hold
  · cases hnew

/-- Nobody calls `schedule` from a calm place. -/
theorem caller_outside (s : Scheduler) (h : s.Quiet) (caller : Option Nat)
    (hcall : s.mayCall caller = true) : caller = none := by
  cases caller with
  | none => rfl
  | some w =>
      simp only [mayCall] at hcall
      split at hcall
      · next hx => exact (h.calm w _ hx).elim
      · next hx => exact (h.calm w _ hx).elim
      · cases hcall

theorem quiet_move (s s' : Scheduler) (a : Action) (hmove : Move s a s') (hinside : Inside a)
    (h : s.Quiet) : s'.Quiet ∧ s'.executed = s.executed := by
  -- A worker that moves without touching anything but its own place.
  have hplain : ∀ (w : Nat) (x y : Worker) (pc : Pc), s.workers[w]? = some x → s.Calm pc →
      (s.goto w y pc).Quiet := fun w x y pc hx hpc =>
    quiet_goto s s h w x y pc hx rfl rfl rfl rfl rfl rfl (fun _ hst => hst) hpc
  cases hmove with
  | start =>
      exact ⟨⟨h.autoStop, h.isStopping, h.fibers, h.active, h.base,
        all_start (fun x => s.Calm x.pc) s h.calm trivial⟩, rfl⟩
  | newFiber =>
      refine ⟨⟨h.autoStop, h.isStopping, h.fibers, h.active, h.base, fun w x hx => ?_⟩, rfl⟩
      exact calm_mono s _ (ready_newFiber s) x.pc (h.calm w x hx)
  | schedule caller fcs thread hcall hknown =>
      rw [caller_outside s h caller hcall] at hinside
      exact hinside.elim
  | stop => exact ⟨⟨rfl, rfl, h.fibers, h.active, h.base, h.calm⟩, rfl⟩
  | tickle | test hsome hidle | dropTest hsome hidle | poke hsome =>
      exact ⟨⟨h.autoStop, h.isStopping, h.fibers, h.active, h.base, h.calm⟩, rfl⟩
  | take w x ft left tickleMe hx hpc hscan =>
      -- The queue is empty, so nothing is taken.
      rcases scan_some s w _ left ft tickleMe hscan with ⟨pre, post, hqueue, -⟩
      rw [h.fibers] at hqueue
      exact absurd hqueue.symm (List.append_ne_nil_of_right_ne_nil _ (List.cons_ne_nil _ _))
  | miss w x left tickleMe hx hpc hscan =>
      refine ⟨hplain w x x _ hx ?_, rfl⟩
      cases tickleMe <;> trivial
  | ownTest w x next hx hpc hidle =>
      -- Only an `IOManager` writes to its pipe.
      rw [h.base] at hidle
      exact absurd hidle.1 Bool.false_ne_true
  | ownDrop w x next hx hpc hidle =>
      have hcalm := h.calm w x hx
      rw [hpc] at hcalm
      refine ⟨hplain w x x _ hx ?_, rfl⟩
      rcases next with (_ | ft) | _ <;> exact hcalm
  | ownPoke w x next hx hpc =>
      have hcalm := h.calm w x hx
      rw [hpc] at hcalm
      refine ⟨quiet_goto s _ h w x x _ hx rfl rfl rfl rfl rfl rfl (fun _ hst => hst) ?_, rfl⟩
      rcases next with (_ | ft) | _ <;> exact hcalm
  | exit w x hx hpc hterm => exact ⟨hplain w x x _ hx trivial, rfl⟩
  | idle w x hx hpc hterm =>
      exact ⟨quiet_goto s _ h w x x _ hx rfl rfl rfl rfl rfl rfl (fun _ hst => hst) trivial, rfl⟩
  | ready w x f isCb hx hpc hst =>
      -- The only place that leads back to the queue, and it is excluded.
      have hcalm := h.calm w x hx
      rw [hpc] at hcalm
      exact absurd hst hcalm
  | ended w x f st hx hpc hst hend => exact ⟨hplain w x x _ hx trivial, rfl⟩
  | endedCb w x f st hx hpc hst hend =>
      exact ⟨quiet_goto s _ h w x _ _ hx rfl rfl rfl rfl rfl rfl
        (ready_setState s f .INIT (by decide)) trivial, rfl⟩
  | parked w x f isCb st hx hpc hst hready hend => exact ⟨hplain w x x _ hx trivial, rfl⟩
  | hold w x f isCb hx hpc =>
      exact ⟨quiet_goto s _ h w x _ _ hx rfl rfl rfl rfl rfl rfl
        (ready_setState s f .HOLD (by decide)) trivial, rfl⟩
  | idleOut w x hx hpc =>
      exact ⟨quiet_goto s _ h w x x _ hx rfl rfl rfl rfl rfl rfl (fun _ hst => hst) trivial, rfl⟩
  | askStop w x quiet hx hpc hstop => exact ⟨hplain w x _ _ hx trivial, rfl⟩
  | askSpin w x quiet hx hpc hio => exact ⟨hplain w x _ _ hx trivial, rfl⟩
  | askWait w x quiet hx hpc hio =>
      rw [h.base] at hio
      cases hio
  | _ =>
      -- The other places are not calm.
      have hcalm := h.calm _ _ (by assumption)
      simp only [*, Calm] at hcalm

/-! ## Whole runs -/

/-- Not in `epoll_wait` and not behind it. -/
def dry : Pc → Prop
  | .waiting => False
  | .handling => False
  | _ => True

/-- The workers of a scheduler that is not an `IOManager` are never in `epoll_wait`. -/
structure Base (s : Scheduler) : Prop where
  io : s.io = false
  dispatch : s.Dispatch
  dry : ∀ (w : Nat) (x : Worker), s.workers[w]? = some x → dry x.pc

theorem dry_next (next : Next) : dry next.pc := by
  rcases next with (_ | ft) | _ <;> trivial

theorem base_move (s s' : Scheduler) (a : Action) (hmove : Move s a s') (h : s.Base)
    (hdispatch : s'.Dispatch) : s'.Base := by
  -- A worker moves to a place that is not in or behind `epoll_wait`.
  have hgoto : ∀ (s₁ : Scheduler) (w : Nat) (x y : Worker) (pc : Pc), s₁.io = s.io →
      s₁.workers = s.workers → s.workers[w]? = some x → dry pc → (s₁.goto w y pc).Dispatch →
      (s₁.goto w y pc).Base := fun s₁ w x y pc hio hworkers hx hpc hdispatch =>
    ⟨hio.trans h.io, hdispatch, all_goto (fun x => dry x.pc) s s₁ w x y pc hworkers hx h.dry hpc⟩
  cases hmove with
  | start => exact ⟨h.io, hdispatch, all_start (fun x => dry x.pc) s h.dry trivial⟩
  | newFiber | stop | tickle | test hsome hidle | dropTest hsome hidle | poke hsome =>
      exact ⟨h.io, hdispatch, h.dry⟩
  | schedule caller fcs thread hcall hknown => exact ⟨h.io, hdispatch, h.dry⟩
  | drain w x hx hpc => exact ⟨h.io, hdispatch, h.dry⟩
  | take w x ft left tickleMe hx hpc hscan =>
      refine hgoto _ w x _ _ rfl rfl hx ?_ hdispatch
      cases tickleMe <;> trivial
  | miss w x left tickleMe hx hpc hscan =>
      refine hgoto _ w x _ _ rfl rfl hx ?_ hdispatch
      cases tickleMe <;> trivial
  | ownDrop w x next hx hpc hidle => exact hgoto _ w x _ _ rfl rfl hx (dry_next next) hdispatch
  | ownPoke w x next hx hpc => exact hgoto _ w x _ _ rfl rfl hx (dry_next next) hdispatch
  | requeue w x f isCb hx hpc =>
      refine hgoto _ w x _ _ rfl rfl hx ?_ hdispatch
      cases s.fibers.isEmpty <;> trivial
  | askWait w x quiet hx hpc hio =>
      rw [h.io] at hio
      cases hio
  | wake w x hx hpc =>
      have hdry := h.dry w x hx
      rw [hpc] at hdry
      exact hdry.elim
  | _ => exact hgoto _ _ _ _ _ rfl rfl (by assumption) trivial hdispatch

theorem base_run (as : List Action) (s : Scheduler) (h : run step as (new false) = some s) :
    s.Base := by
  refine run_inv Base (fun s a s' hs _ hstep => ?_) as (new false) s ?_
    (along_true as (new false)) h
  · exact base_move s s' a (move_of_step s a s' hstep) hs (dispatch_step s a s' hs.dispatch hstep)
  · exact ⟨rfl, dispatch_new false, fun w x hx => by cases hx⟩

/-- What `stopping` means where no worker is about to put a fiber back. -/
theorem quiet_of_stopping (s : Scheduler) (h : s.Base) (hstop : s.stopping = true)
    (hback : ¬s.Returning) : s.Quiet := by
  simp only [stopping, Bool.and_eq_true, decide_eq_true_eq, List.isEmpty_iff] at hstop
  rcases hstop with ⟨⟨⟨hauto, hstopping⟩, hfibers⟩, hactive⟩
  refine ⟨hauto, hstopping, hfibers, hactive, h.io, ?_⟩
  intro w x hx
  -- The counter is at zero, so no worker has an item.
  have hidle : x.pc.busy = false := by
    have hzero : s.count Pc.busy = 0 := h.dispatch.active.symm.trans hactive
    have hnone := List.countP_eq_zero.1 (Int.natCast_eq_zero.1 hzero) x (List.mem_of_getElem? hx)
    exact Bool.eq_false_iff.2 hnone
  have hdry := h.dry w x hx
  cases hpc : x.pc with
  | settling f isCb => exact fun hst => hback ⟨w, x, f, isCb, hx, Or.inr ⟨hpc, hst⟩⟩
  | requeueing f isCb => exact absurd ⟨w, x, f, isCb, hx, Or.inl hpc⟩ hback
  | waiting | handling =>
      rw [hpc] at hdry
      exact hdry.elim
  | tickling next | poking next =>
      rw [hpc] at hidle
      rcases next with (_ | ft) | _
      · trivial
      · cases hidle
      · trivial
  | picked ft =>
      rw [hpc] at hidle
      cases ft with
      | none => trivial
      | some ft => cases hidle
  | entering f isCb ticket =>
      rw [hpc] at hidle
      cases hidle
  | running f isCb | leaving f isCb | back f isCb =>
      rw [hpc] at hidle
      cases hidle
  | dropping =>
      rw [hpc] at hidle
      cases hidle
  | top | holding f isCb | asking | idleOut | exited => trivial

/-- Putting a fiber back makes the condition false. -/
theorem stopping_requeue (s : Scheduler) (w : Nat) (x : Worker) (f : Nat) (isCb : Bool)
    (hx : s.workers[w]? = some x) (hpc : x.pc = .requeueing f isCb) :
    ∃ s', step (.go w) s = some s' ∧ s'.stopping = false := by
  refine ⟨goto { s with
      fibers := s.fibers ++ [⟨.fiber f, none, s.tickets⟩]
      tickets := s.tickets + 1 } w x (if s.fibers.isEmpty then .tickling .top else .top), ?_, ?_⟩
  · simp only [step, hx, go, hpc]
    rfl
  · have hsome : ∀ it : FiberAndThread, (s.fibers ++ [it]).isEmpty = false := by
      intro it
      rw [List.isEmpty_eq_false_iff]
      exact List.append_ne_nil_of_right_ne_nil _ (List.cons_ne_nil _ _)
    simp only [stopping, goto, hsome, Bool.and_false, Bool.false_and]

/-- A worker that is about to put a fiber back does so in one or two steps of its own. -/
theorem returning_unstable (s : Scheduler) (h : s.Returning) :
    ∃ bs s', Along step (fun _ a => Inside a) bs s ∧ run step bs s = some s' ∧
      s'.stopping = false := by
  rcases h with ⟨w, x, f, isCb, hx, hpc | ⟨hpc, hst⟩⟩
  · rcases stopping_requeue s w x f isCb hx hpc with ⟨s', hstep, hfalse⟩
    refine ⟨[.go w], s', ⟨trivial, ?_⟩, ?_, hfalse⟩
    · rw [hstep]
      trivial
    · exact run_cons _ _ s s' hstep
  · -- One step more, in which the state of the fiber is looked at.
    have hstep : step (.go w) s = some (s.goto w x (.requeueing f isCb)) := by
      simp only [step, hx, go, hpc, hst]
    have hx₁ := (workers_goto s w w x x (.requeueing f isCb) hx).trans (if_pos rfl)
    rcases stopping_requeue _ w _ f isCb hx₁ rfl with ⟨s', hstep', hfalse⟩
    refine ⟨[.go w, .go w], s', ?_, ?_, hfalse⟩
    · rw [along_cons _ _ s _ hstep, along_cons _ _ _ s' hstep']
      exact ⟨trivial, trivial, trivial⟩
    · rw [run_cons _ _ s _ hstep]
      exact run_cons _ _ _ s' hstep'

/-- Any run of any number of workers, up to a state in which `stopping` returns true.
    Whatever happens from there without a call of `schedule` by other threads, it keeps
    returning true and nothing is executed any more, exactly if no worker is about
    to put a fiber back in the queue. -/
theorem stop_stable (as : List Action) (s : Scheduler) (hrun : run step as (new false) = some s)
    (hstop : s.stopping = true) :
    (∀ bs s', Along step (fun _ a => Inside a) bs s → run step bs s = some s' →
      s'.stopping = true ∧ s'.executed = s.executed) ↔ ¬s.Returning := by
  constructor
  · intro hstable hback
    rcases returning_unstable s hback with ⟨bs, s', hinside, hbs, hfalse⟩
    rw [(hstable bs s' hinside hbs).1] at hfalse
    cases hfalse
  · intro hback bs s' hinside hbs
    have hquiet := quiet_of_stopping s (base_run as s hrun) hstop hback
    have hboth := run_related Quiet (fun s s' => s'.executed = s.executed) (fun _ => rfl)
      (fun _ _ _ h₁₂ h₂₃ => h₂₃.trans h₁₂)
      (fun s a s' hq hin hstep => quiet_move s s' a (move_of_step s a s' hstep) hin hq)
      bs s s' hquiet hinside hbs
    exact ⟨hboth.1.stopping, hboth.2⟩

/-- A worker that has found nothing to do, after `stop`. -/
theorem stop_stable_idle :
    ∃ s, run step [.start, .stop, .go 0, .go 0] (new false) = some s ∧ s.stopping = true ∧
      ∀ bs s', Along step (fun _ a => Inside a) bs s → run step bs s = some s' →
        s'.stopping = true ∧ s'.executed = s.executed := by
  have hrun : run step [.start, .stop, .go 0, .go 0] (new false) =
      some ⟨false, [], 0, 1, true, true, [], [⟨.asking, none, false⟩], 0, 0, 0, 0, [], []⟩ := rfl
  refine ⟨_, hrun, rfl, (stop_stable _ _ hrun rfl).2 ?_⟩
  rintro ⟨w, x, f, isCb, hx, hpc⟩
  rw [List.mem_singleton.1 (List.mem_of_getElem? hx)] at hpc
  rcases hpc with hpc | ⟨hpc, -⟩ <;> cases hpc

/-- The first of two workers gets a fiber back that is ready and has decremented the
    counter. The second asks whether to stop, is told so and leaves its loop. Then
    the first puts the fiber in the queue, takes it out again and runs it. -/
theorem stop_unstable :
    ∃ s s', run step [.start, .start, .newFiber, .schedule none [some (.fiber 0)] none, .stop,
        .go 0, .go 0, .go 0, .yieldToReady 0, .go 1, .go 1, .go 0, .go 0] (new false) = some s ∧
      s.stopping = true ∧
      run step [.ask 1 true, .go 1, .go 1, .go 1, .go 0, .go 0, .go 0, .go 0, .go 0, .go 0] s =
        some s' ∧
      s.executed = [0] ∧ s'.executed = [1, 0] ∧ s'.stopping = false ∧
      s'.workers = [⟨.running 0 false, none, false⟩, ⟨.exited, none, true⟩] := by
  refine ⟨_, _, rfl, rfl, rfl, rfl, rfl, rfl, rfl⟩

end Scheduler

end YkServer
