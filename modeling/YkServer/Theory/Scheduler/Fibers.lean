import YkServer.Theory.Scheduler.Moves
import Mathlib.Logic.Function.Basic

/-!
# One Worker for a Fiber

A fiber may be put in the queue when it is new, by the worker it has just yielded to
as ready, and once for each time it yields to be held. The wake-up for such a yield
can come before the fiber has switched out, or before it has even called
`YieldToHold`, as soon as it has made itself known to whoever is going to wake it.

That is a permit that is handed out and used up. With it, what a fiber can be doing
is a short table: where it is, which state it is in, what is left of its permit and
how often it is in the queue. A fiber that is in the queue and also with a worker
is in state `EXEC`, so no other worker takes it, and the state is changed only when
the worker is done with it.

## Main definitions

* `Permit`: Who may put a fiber in the queue.
* `Waking`: A scheduler whose fibers are woken by permit.
* `Phase`, `Worker.Holds`: What a worker has to do with a fiber.
* `Fits`: The table.

## Theorems

* `Table.step`, `inv_step`: What a step keeps.
* `fiber_alone`: What holds in every run.
-/

namespace YkServer

open Lib

/-- Who may put a fiber in the queue. -/
inductive Permit where
  /-- It is new. -/
  | fresh
  /-- Nobody but the scheduler. -/
  | spent
  /-- It is going to be held, or is, and may be woken. -/
  | granted
  /-- It is going to be held, or is, and was woken. -/
  | used
  deriving DecidableEq, Repr

/-- A scheduler and the permits of its fibers. -/
structure Waking where
  scheduler : Scheduler
  permits : Nat → Permit

namespace Waking

def new (io : Bool) : Waking := ⟨Scheduler.new io, fun _ => .spent⟩

/-- The fiber that a worker runs. -/
def runningOn (s : Scheduler) (w : Nat) : Option Nat :=
  match s.workers[w]? with
  | some ⟨.running f _, _, _⟩ => some f
  | _ => none

/-- The fiber that a worker is about to swap in. -/
def enteringOn (s : Scheduler) (w : Nat) : Option Nat :=
  match s.workers[w]? with
  | some ⟨.entering f _ _, _, _⟩ => some f
  | _ => none

/-- The permits that a call of `schedule` uses up, if it has them. -/
def spend : List (Option Task) → (Nat → Permit) → Option (Nat → Permit)
  | [], p => some p
  | some (.fiber f) :: fcs, p =>
    match p f with
    | .fresh => spend fcs (Function.update p f .spent)
    | .granted => spend fcs (Function.update p f .used)
    | _ => none
  | _ :: fcs, p => spend fcs p

/-- What a step does to the permits, if it is one that respects them. A fiber that has
    made itself known yields to be held before it does anything else. -/
def permitsAfter (a : Scheduler.Action) (s : Scheduler) (p : Nat → Permit) :
    Option (Nat → Permit) :=
  match a with
  | .newFiber => some (Function.update p s.states.length .fresh)
  | .schedule _ fcs _ => spend fcs p
  | .yieldToReady w =>
    match runningOn s w with
    | some f => if p f = .spent then some p else none
    | none => some p
  | .finish w _ =>
    match runningOn s w with
    | some f => if p f = .spent then some p else none
    | none => some p
  | .yieldToHold w =>
    match runningOn s w with
    | some f => some (if p f = .spent then Function.update p f .granted else p)
    | none => some p
  | .go w =>
    match enteringOn s w with
    | some f => some (Function.update p f .spent)
    | none => some p
  | _ => some p

inductive Action where
  | act (a : Scheduler.Action)
  /-- The fiber that a worker runs makes itself known to those that are to wake it. -/
  | announce (w : Nat)
  deriving DecidableEq, Repr

def step : Action → Waking → Option Waking
  | .act a, v =>
    match permitsAfter a v.scheduler v.permits, Scheduler.step a v.scheduler with
    | some p, some s => some ⟨s, p⟩
    | _, _ => none
  | .announce w, v =>
    match runningOn v.scheduler w with
    | some f =>
      if v.permits f = .spent then some ⟨v.scheduler, Function.update v.permits f .granted⟩
      else none
    | none => none

end Waking

/-! ## The table -/

/-- What a worker has to do with a fiber. -/
inductive Phase where
  /-- It is going to swap it in. -/
  | picked
  /-- It runs it. -/
  | running
  /-- It gets it back. -/
  | leaving
  /-- It is going to set it to `HOLD`. -/
  | holding
  /-- It is going to put it in the queue again. -/
  | requeueing
  /-- It keeps it for the next callback. -/
  | cached
  deriving DecidableEq, Repr

/-- The fiber that a place is about. -/
def Pc.holds : Pc → Option (Nat × Phase)
  | .tickling (.picked (some ⟨.fiber f, _, _⟩)) => some (f, .picked)
  | .poking (.picked (some ⟨.fiber f, _, _⟩)) => some (f, .picked)
  | .picked (some ⟨.fiber f, _, _⟩) => some (f, .picked)
  | .entering f _ _ => some (f, .picked)
  | .running f _ => some (f, .running)
  | .leaving f _ => some (f, .leaving)
  | .back f _ => some (f, .leaving)
  | .settling f _ => some (f, .leaving)
  | .requeueing f _ => some (f, .requeueing)
  | .holding f _ => some (f, .holding)
  | _ => none

def Worker.Holds (x : Worker) (f : Nat) (ph : Phase) : Prop :=
  x.pc.holds = some (f, ph) ∨ x.cbFiber = some f ∧ ph = .cached

/-- Where a fiber can be, in which state, with what permit, and how often in the queue. -/
inductive Fits : Option Phase → Option FiberState → Permit → Nat → Prop where
  | absent : Fits none none .spent 0
  | fresh : Fits none (some .INIT) .fresh 0
  | queued : Fits none (some .INIT) .spent 1
  | held : Fits none (some .HOLD) .granted 0
  | woken : Fits none (some .HOLD) .used 1
  | ready : Fits none (some .READY) .spent 1
  | term : Fits none (some .TERM) .spent 0
  | except : Fits none (some .EXCEPT) .spent 0
  | pickedInit : Fits (some .picked) (some .INIT) .spent 0
  | pickedReady : Fits (some .picked) (some .READY) .spent 0
  | pickedHold : Fits (some .picked) (some .HOLD) .used 0
  | running : Fits (some .running) (some .EXEC) .spent 0
  | runningKnown : Fits (some .running) (some .EXEC) .granted 0
  | runningWoken : Fits (some .running) (some .EXEC) .used 1
  | leaving : Fits (some .leaving) (some .EXEC) .granted 0
  | leavingWoken : Fits (some .leaving) (some .EXEC) .used 1
  | leavingReady : Fits (some .leaving) (some .READY) .spent 0
  | leavingTerm : Fits (some .leaving) (some .TERM) .spent 0
  | leavingExcept : Fits (some .leaving) (some .EXCEPT) .spent 0
  | holding : Fits (some .holding) (some .EXEC) .granted 0
  | holdingWoken : Fits (some .holding) (some .EXEC) .used 1
  | requeueing : Fits (some .requeueing) (some .READY) .spent 0
  | cached : Fits (some .cached) (some .INIT) .spent 0

/-! The rows of the table that the steps connect. -/

namespace Fits

variable {pl : Option Phase} {st : FiberState} {p : Permit} {q : Nat}

/-- An item that can be taken is that of a fiber that is with nobody. -/
theorem take {st : Option FiberState} (h : Fits pl st p (q + 1)) (hst : st ≠ some .EXEC) :
    pl = none ∧ Fits (some .picked) st p q := by
  cases h with
  | queued => exact ⟨rfl, .pickedInit⟩
  | woken => exact ⟨rfl, .pickedHold⟩
  | ready => exact ⟨rfl, .pickedReady⟩
  | runningWoken | leavingWoken | holdingWoken => exact absurd rfl hst

theorem not_ended (h : Fits (some .picked) (some st) p q) : ¬Scheduler.Ended st := by
  rintro (rfl | rfl) <;> cases h

theorem not_exec {st : Option FiberState} (h : Fits (some .picked) st p q) :
    st ≠ some .EXEC ∧ st ≠ none := by
  cases h <;> exact ⟨by decide, by decide⟩

theorem swapIn {st : Option FiberState} (h : Fits (some .picked) st p q) :
    Fits (some .running) (some .EXEC) .spent q := by
  cases h <;> exact .running

theorem reuse {st : Option FiberState} (h : Fits (some .cached) st p q) :
    Fits (some .picked) (some .INIT) p q := by
  cases h
  exact .pickedInit

theorem yieldToHold {st : Option FiberState} (h : Fits (some .running) st p q) :
    Fits (some .leaving) st (if p = .spent then .granted else p) q := by
  cases h with
  | running => exact .leaving
  | runningKnown => exact .leaving
  | runningWoken => exact .leavingWoken

theorem yieldToReady {st : Option FiberState} (h : Fits (some .running) st .spent q) :
    Fits (some .leaving) (some .READY) .spent q := by
  cases h
  exact .leavingReady

theorem finish {st' : Option FiberState} (h : Fits (some .running) st' .spent q)
    (hend : Scheduler.Ended st) : Fits (some .leaving) (some st) .spent q := by
  cases h
  rcases hend with rfl | rfl
  · exact .leavingTerm
  · exact .leavingExcept

theorem announce {st : Option FiberState} (h : Fits (some .running) st .spent q) :
    Fits (some .running) st .granted q := by
  cases h
  exact .runningKnown

theorem back (h : Fits (some .leaving) (some .READY) p q) :
    Fits (some .requeueing) (some .READY) p q := by
  cases h
  exact .requeueing

theorem ended (h : Fits (some .leaving) (some st) p q) (hend : Scheduler.Ended st) :
    Fits none (some st) p q := by
  rcases hend with rfl | rfl <;> cases h
  · exact .term
  · exact .except

theorem cache (h : Fits (some .leaving) (some st) p q) (hend : Scheduler.Ended st) :
    Fits (some .cached) (some .INIT) p q := by
  rcases hend with rfl | rfl <;> cases h <;> exact .cached

theorem park (h : Fits (some .leaving) (some st) p q) (hready : st ≠ .READY)
    (hend : ¬Scheduler.Ended st) : Fits (some .holding) (some st) p q := by
  cases h with
  | leaving => exact .holding
  | leavingWoken => exact .holdingWoken
  | leavingReady => exact absurd rfl hready
  | leavingTerm => exact absurd (Or.inl rfl) hend
  | leavingExcept => exact absurd (Or.inr rfl) hend

theorem hold {st : Option FiberState} (h : Fits (some .holding) st p q) :
    Fits none (some .HOLD) p q := by
  cases h with
  | holding => exact .held
  | holdingWoken => exact .woken

theorem requeue {st : Option FiberState} (h : Fits (some .requeueing) st p q) :
    Fits none st p (q + 1) := by
  cases h
  exact .ready

/-- A waker uses its permit. -/
theorem wake {st : Option FiberState} (h : Fits pl st .granted q) :
    Fits pl st .used (q + 1) := by
  cases h with
  | held => exact .woken
  | runningKnown => exact .runningWoken
  | leaving => exact .leavingWoken
  | holding => exact .holdingWoken

theorem start {st : Option FiberState} (h : Fits pl st .fresh q) :
    Fits pl st .spent (q + 1) := by
  cases h
  exact .queued

/-- A fiber is in the queue once at most. -/
theorem once {st : Option FiberState} (h : Fits pl st p q) : q ≤ 1 := by
  cases h <;> decide

end Fits

namespace Waking

open Scheduler

/-! ## The invariant -/

/-- How often a fiber is in the queue. -/
def queued (s : Scheduler) (f : Nat) : Nat := s.fibers.countP (fun it => it.task = .fiber f)

/-- The place belongs to a fiber that runs a callback. -/
def isCallback : Pc → Bool
  | .entering _ isCb _ => isCb
  | .running _ isCb => isCb
  | .leaving _ isCb => isCb
  | .back _ isCb => isCb
  | .settling _ isCb => isCb
  | .requeueing _ isCb => isCb
  | .holding _ isCb => isCb
  | _ => false

/-- Every fiber is where `loc` says and nowhere else, and fits in the table. The fiber
    of a callback that runs is not kept for another one. -/
structure Table (s : Scheduler) (p : Nat → Permit) (loc : Nat → Option (Nat × Phase)) : Prop where
  tracks : ∀ (f w : Nat) (ph : Phase),
    (∃ x, s.workers[w]? = some x ∧ x.Holds f ph) ↔ loc f = some (w, ph)
  fits : ∀ f, Fits ((loc f).map Prod.snd) s.states[f]? (p f) (queued s f)
  own : ∀ (w : Nat) (x : Worker), s.workers[w]? = some x → isCallback x.pc = true →
    x.cbFiber = none

def Inv (v : Waking) : Prop := ∃ loc, Table v.scheduler v.permits loc

theorem inv_new (io : Bool) : (new io).Inv := by
  refine ⟨fun _ => none, ?_, fun f => .absent, fun w x hx => by cases hx⟩
  intro f w ph
  constructor
  · rintro ⟨x, hx, -⟩
    cases hx
  · intro h
    cases h

section Steps

variable {s : Scheduler} {p : Nat → Permit} {loc : Nat → Option (Nat × Phase)}

/-- A fiber that a worker holds is with this worker. -/
theorem Table.loc_eq (h : Table s p loc) (w : Nat) (x : Worker) (f : Nat) (ph : Phase)
    (hx : s.workers[w]? = some x) (hholds : x.Holds f ph) : loc f = some (w, ph) :=
  (h.tracks f w ph).1 ⟨x, hx, hholds⟩

/-- What the table says of a fiber that a worker holds. -/
theorem Table.row (h : Table s p loc) (w : Nat) (x : Worker) (f : Nat) (ph : Phase)
    (hx : s.workers[w]? = some x) (hholds : x.Holds f ph) :
    Fits (some ph) s.states[f]? (p f) (queued s f) := by
  have hfits := h.fits f
  rw [h.loc_eq w x f ph hx hholds] at hfits
  exact hfits

theorem holds_ne_cached (pc : Pc) (f : Nat) : pc.holds ≠ some (f, .cached) := by
  intro h
  unfold Pc.holds at h
  split at h <;> cases h

/-- A fiber that a worker is busy with is not kept for callbacks as well. -/
theorem Table.not_kept (h : Table s p loc) (w : Nat) (x : Worker) (f : Nat) (ph : Phase)
    (hx : s.workers[w]? = some x) (hholds : x.pc.holds = some (f, ph)) : x.cbFiber ≠ some f := by
  intro hcb
  have hone := h.loc_eq w x f ph hx (Or.inl hholds)
  have htwo := h.loc_eq w x f .cached hx (Or.inr ⟨hcb, rfl⟩)
  rw [hone, Option.some.injEq, Prod.mk.injEq] at htwo
  rw [htwo.2] at hholds
  exact holds_ne_cached x.pc f hholds

/-- The general step of a worker: one fiber changes its place, and may change its state,
    its permit and how often it is in the queue; the others stay as they are. -/
theorem Table.goto (h : Table s p loc) (s₁ : Scheduler) (p₁ : Nat → Permit) (w : Nat)
    (x y : Worker) (pc : Pc) (f : Nat) (place : Option Phase) (hx : s.workers[w]? = some x)
    (hworkers : s₁.workers = s.workers) (hmine : ∀ w' ph, loc f = some (w', ph) → w' = w)
    (hf : ∀ ph, ({ y with pc := pc } : Worker).Holds f ph ↔ place = some ph)
    (hothers : ∀ f' ≠ f, ∀ ph, ({ y with pc := pc } : Worker).Holds f' ph ↔ x.Holds f' ph)
    (hown : isCallback pc = true → y.cbFiber = none)
    (hsame : ∀ f' ≠ f, s₁.states[f']? = s.states[f']? ∧ p₁ f' = p f' ∧ queued s₁ f' = queued s f')
    (hfits : Fits place s₁.states[f]? (p₁ f) (queued s₁ f)) :
    ∃ loc', Table (s₁.goto w y pc) p₁ loc' := by
  have hx₁ : s₁.workers[w]? = some x := by rw [hworkers]; exact hx
  refine ⟨Function.update loc f (place.map (fun ph => (w, ph))), ?_, ?_, ?_⟩
  · intro f' w' ph
    rw [workers_goto s₁ w w' x y pc hx₁, hworkers]
    by_cases hw : w' = w
    · -- The worker that moves holds what it holds now.
      simp only [if_pos hw, Option.some.injEq, exists_eq_left']
      by_cases hff : f' = f
      · rw [hff, Function.update_self, hf, hw]
        cases place with
        | none => exact ⟨fun hno => (by cases hno), fun hno => (by cases hno)⟩
        | some ph' =>
            simp only [Option.map_some, Option.some.injEq, Prod.mk.injEq, true_and]
      · -- It holds every other fiber as it did.
        rw [Function.update_of_ne hff, hothers f' hff, hw, ← h.tracks]
        constructor
        · intro hholds
          exact ⟨x, hx, hholds⟩
        · rintro ⟨x', hx', hholds⟩
          rw [hx, Option.some.injEq] at hx'
          rw [hx']
          exact hholds
    · -- No other worker had the fiber, and none has it now.
      simp only [if_neg hw]
      rw [h.tracks]
      by_cases hff : f' = f
      · rw [hff, Function.update_self]
        constructor
        · intro hloc
          exact absurd (hmine w' ph hloc) hw
        · intro hloc
          cases place with
          | none => cases hloc
          | some ph' =>
              rw [Option.map_some, Option.some.injEq, Prod.mk.injEq] at hloc
              exact absurd hloc.1.symm hw
      · rw [Function.update_of_ne hff]
  · intro f'
    by_cases hff : f' = f
    · rw [hff, Function.update_self, Option.map_map]
      have hplace : Option.map (Prod.snd ∘ fun ph => (w, ph)) place = place := Option.map_id'
      rw [hplace]
      exact hfits
    · rcases hsame f' hff with ⟨hstate, hpermit, hqueued⟩
      have hrow := h.fits f'
      rw [Function.update_of_ne hff, hpermit]
      rw [← hstate, ← hqueued] at hrow
      exact hrow
  · exact all_goto (fun x => isCallback x.pc = true → x.cbFiber = none) s s₁ w x y pc hworkers hx
      h.own hown

/-- A worker moves and holds what it held. -/
theorem Table.stay (h : Table s p loc) (s₁ : Scheduler) (w : Nat) (x y : Worker) (pc : Pc)
    (hx : s.workers[w]? = some x) (hworkers : s₁.workers = s.workers)
    (hstates : s₁.states = s.states) (hqueued : ∀ f, queued s₁ f = queued s f)
    (hpc : pc.holds = x.pc.holds) (hcb : y.cbFiber = x.cbFiber)
    (hown : isCallback pc = true → isCallback x.pc = true) :
    ∃ loc', Table (s₁.goto w y pc) p loc' := by
  have hx₁ : s₁.workers[w]? = some x := by rw [hworkers]; exact hx
  refine ⟨loc, ?_, ?_, ?_⟩
  · intro f' w' ph
    rw [workers_goto s₁ w w' x y pc hx₁, hworkers, ← h.tracks]
    by_cases hw : w' = w
    · rw [hw]
      simp only [if_true, hx, Option.some.injEq, exists_eq_left', Worker.Holds, hpc, hcb]
    · rw [if_neg hw]
  · intro f'
    have hrow := h.fits f'
    rw [← hstates, ← hqueued f'] at hrow
    exact hrow
  · refine all_goto (fun x => isCallback x.pc = true → x.cbFiber = none) s s₁ w x y pc hworkers hx
      h.own ?_
    intro hcallback
    exact hcb.trans (h.own w x hx (hown hcallback))

/-- A worker goes on with the fiber that it is busy with, or lets it go. -/
theorem Table.move (h : Table s p loc) (s₁ : Scheduler) (p₁ : Nat → Permit) (w : Nat)
    (x : Worker) (pc : Pc) (f : Nat) (ph : Phase) (place : Option Phase)
    (hx : s.workers[w]? = some x) (hholds : x.pc.holds = some (f, ph))
    (hworkers : s₁.workers = s.workers) (hpc : pc.holds = place.map (fun ph => (f, ph)))
    (hown : isCallback pc = true → isCallback x.pc = true)
    (hsame : ∀ f' ≠ f, s₁.states[f']? = s.states[f']? ∧ p₁ f' = p f' ∧ queued s₁ f' = queued s f')
    (hfits : Fits place s₁.states[f]? (p₁ f) (queued s₁ f)) :
    ∃ loc', Table (s₁.goto w x pc) p₁ loc' := by
  -- `cb_fiber` is another fiber, so only the place decides whether `f` is held.
  have hkept := h.not_kept w x f ph hx hholds
  refine h.goto s₁ p₁ w x x pc f place hx hworkers ?_ ?_ ?_
    (fun hcallback => h.own w x hx (hown hcallback)) hsame hfits
  · intro w' ph' hloc
    rw [h.loc_eq w x f ph hx (Or.inl hholds), Option.some.injEq, Prod.mk.injEq] at hloc
    exact hloc.1.symm
  · intro ph'
    simp only [Worker.Holds, hpc, hkept, false_and, or_false]
    cases place with
    | none => exact ⟨fun hno => (by cases hno), fun hno => (by cases hno)⟩
    | some ph'' => simp only [Option.map_some, Option.some.injEq, Prod.mk.injEq, true_and]
  · intro f' hff ph'
    have hnew : pc.holds ≠ some (f', ph') := by
      rw [hpc]
      cases place with
      | none => exact fun hno => (by cases hno)
      | some ph'' =>
          intro heq
          rw [Option.map_some, Option.some.injEq, Prod.mk.injEq] at heq
          exact hff heq.1.symm
    have hold : x.pc.holds ≠ some (f', ph') := by
      rw [hholds]
      intro heq
      rw [Option.some.injEq, Prod.mk.injEq] at heq
      exact hff heq.1.symm
    simp only [Worker.Holds, hnew, hold, false_or]

/-- A worker that is busy with no fiber begins with one. It may have kept it. -/
theorem Table.begin (h : Table s p loc) (s₁ : Scheduler) (w : Nat) (x y : Worker) (pc : Pc)
    (f : Nat) (hx : s.workers[w]? = some x) (hnone : x.pc.holds = none)
    (hworkers : s₁.workers = s.workers) (hpc : pc.holds = some (f, .picked))
    (hcb : ∀ f', y.cbFiber = some f' ↔ x.cbFiber = some f' ∧ f' ≠ f)
    (hmine : ∀ w' ph, loc f = some (w', ph) → w' = w)
    (hown : isCallback pc = true → y.cbFiber = none)
    (hsame : ∀ f' ≠ f, s₁.states[f']? = s.states[f']? ∧ queued s₁ f' = queued s f')
    (hfits : Fits (some .picked) s₁.states[f]? (p f) (queued s₁ f)) :
    ∃ loc', Table (s₁.goto w y pc) p loc' := by
  refine h.goto s₁ p w x y pc f (some .picked) hx hworkers hmine ?_ ?_ hown
    (fun f' hff => ⟨(hsame f' hff).1, rfl, (hsame f' hff).2⟩) hfits
  · intro ph'
    simp only [Worker.Holds, hpc, hcb, ne_eq, not_true_eq_false, and_false, false_and, or_false,
      Option.some.injEq, Prod.mk.injEq, true_and]
  · intro f' hff ph'
    have hnew : (f, Phase.picked) ≠ (f', ph') := fun heq => hff (congrArg Prod.fst heq).symm
    simp only [Worker.Holds, hpc, hnone, hcb, Option.some.injEq, hnew, false_or, hff, ne_eq,
      not_false_eq_true, and_true, reduceCtorEq]

/-! ## Fibers and queue -/

/-- The state of a fiber is written. -/
theorem states_setState (f : Nat) (st : FiberState) (hsome : s.states[f]? ≠ none) :
    (s.setState f st).states[f]? = some st ∧
      ∀ f' ≠ f, (s.setState f st).states[f']? = s.states[f']? := by
  refine ⟨List.getElem?_set_self ?_, fun f' hff => List.getElem?_set_ne (Ne.symm hff)⟩
  exact Nat.lt_of_not_le (fun hle => hsome (List.getElem?_eq_none hle))

/-- A fiber is made. -/
theorem states_append (s : Scheduler) :
    (s.states ++ [FiberState.INIT])[s.states.length]? = some .INIT ∧
      ∀ f ≠ s.states.length, (s.states ++ [FiberState.INIT])[f]? = s.states[f]? := by
  refine ⟨List.getElem?_concat_length, fun f hf => ?_⟩
  by_cases hlt : f < s.states.length
  · exact List.getElem?_append_left hlt
  · have hle : (s.states ++ [FiberState.INIT]).length ≤ f := by
      rw [List.length_append, List.length_singleton]
      omega
    rw [List.getElem?_eq_none hle, List.getElem?_eq_none (Nat.le_of_not_lt hlt)]

/-- A fiber that a worker holds exists. -/
theorem Table.exists_state (h : Table s p loc) (w : Nat) (x : Worker) (f : Nat) (ph : Phase)
    (hx : s.workers[w]? = some x) (hholds : x.Holds f ph) : s.states[f]? ≠ none := by
  have hrow := h.row w x f ph hx hholds
  intro hnone
  rw [hnone] at hrow
  cases hrow

/-- The next fiber to be made is nowhere yet. -/
theorem Table.absent (h : Table s p loc) (f : Nat) (hf : s.states[f]? = none) :
    loc f = none ∧ p f = .spent ∧ queued s f = 0 := by
  have hrow := h.fits f
  rw [hf] at hrow
  -- Only one row of the table has no state.
  generalize hpl : (loc f).map Prod.snd = pl at hrow
  generalize hp : p f = permit at hrow
  generalize hq : queued s f = q at hrow
  cases hrow
  exact ⟨Option.map_eq_none_iff.1 hpl, rfl, rfl⟩

/-- An item is taken out of the queue. -/
theorem queued_take (pre post : List FiberAndThread) (ft : FiberAndThread) (s₁ : Scheduler)
    (hqueue : s.fibers = pre ++ ft :: post) (hfibers : s₁.fibers = pre ++ post) (f : Nat) :
    queued s f = queued s₁ f + if ft.task = .fiber f then 1 else 0 := by
  simp only [queued, hqueue, hfibers, List.countP_append, List.countP_cons, decide_eq_true_eq]
  omega

/-- An item is put in the queue. -/
theorem queued_append (new : List FiberAndThread) (s₁ : Scheduler)
    (hfibers : s₁.fibers = s.fibers ++ new) (f : Nat) :
    queued s₁ f = queued s f + new.countP (fun it => it.task = .fiber f) := by
  rw [queued, queued, hfibers, List.countP_append]

theorem count_enqueued (thread : Option Nat) (fcs : List (Option Task)) (n f : Nat) :
    (enqueued thread fcs n).countP (fun it => it.task = .fiber f) =
      fcs.countP (fun fc => fc = some (.fiber f)) := by
  induction fcs generalizing n with
  | nil => rfl
  | cons fc fcs ih =>
      cases fc with
      | none => rw [enqueued, ih n, List.countP_cons_of_neg (by simp)]
      | some task =>
          rw [enqueued, List.countP_cons, List.countP_cons, ih (n + 1)]
          simp only [Option.some.injEq]

/-- The permits of a call of `schedule` are enough for what it puts in the queue. -/
theorem spend_fits (pl : Nat → Option Phase) (st : Nat → Option FiberState)
    (fcs : List (Option Task)) (p p' : Nat → Permit) (q : Nat → Nat)
    (h : ∀ f, Fits (pl f) (st f) (p f) (q f)) (hspend : spend fcs p = some p') (f : Nat) :
    Fits (pl f) (st f) (p' f) (q f + fcs.countP (fun fc => fc = some (.fiber f))) := by
  induction fcs generalizing p q with
  | nil =>
      cases hspend
      exact h f
  | cons fc fcs ih =>
      -- One fiber is woken, and has one item more.
      have hwake : ∀ (g : Nat) (permit : Permit), fc = some (.fiber g) →
          Fits (pl g) (st g) permit (q g + 1) → spend fcs (Function.update p g permit) = some p' →
          Fits (pl f) (st f) (p' f)
            (q f + (fc :: fcs).countP (fun fc => fc = some (.fiber f))) := by
        intro g permit hfc hfits hrest
        have hrow := ih (Function.update p g permit) (Function.update q g (q g + 1)) (fun f' => by
          by_cases hff : f' = g
          · rw [hff, Function.update_self, Function.update_self]
            exact hfits
          · rw [Function.update_of_ne hff, Function.update_of_ne hff]
            exact h f') hrest
        rw [hfc, List.countP_cons]
        by_cases hfg : f = g
        · rw [hfg, Function.update_self] at hrow
          simp only [hfg, decide_true, if_true]
          rw [Nat.add_right_comm] at hrow
          exact hrow
        · have hother : ¬(some (Task.fiber g) = some (Task.fiber f)) := by
            intro heq
            cases heq
            exact hfg rfl
          rw [Function.update_of_ne hfg] at hrow
          simp only [hother, decide_false, Bool.false_eq_true, if_false, Nat.add_zero]
          exact hrow
      rcases fc with _ | ⟨g⟩ | ⟨c⟩
      · rw [List.countP_cons_of_neg (by simp)]
        exact ih p q h hspend
      · rw [spend] at hspend
        split at hspend
        · next hfresh => exact hwake g .spent rfl (Fits.start (hfresh ▸ h g)) hspend
        · next hgranted => exact hwake g .used rfl (Fits.wake (hgranted ▸ h g)) hspend
        · cases hspend
      · rw [List.countP_cons_of_neg (by simp)]
        exact ih p q h hspend

/-! ## Steps -/

/-- A worker starts, with no fiber. -/
theorem Table.started (h : Table s p loc) :
    Table { s with workers := s.workers ++ [⟨.top, none, false⟩] } p loc := by
  refine ⟨?_, h.fits, ?_⟩
  · intro f w ph
    rw [← h.tracks]
    constructor
    · rintro ⟨x, hx, hholds⟩
      rcases getElem?_concat_eq_some s.workers _ x w hx with hold | ⟨-, rfl⟩
      · exact ⟨x, hold, hholds⟩
      · rcases hholds with hpc | ⟨hcb, -⟩
        · cases hpc
        · cases hcb
    · rintro ⟨x, hx, hholds⟩
      exact ⟨x, getElem?_concat_of_some s.workers _ x w hx, hholds⟩
  · exact all_start (fun x => isCallback x.pc = true → x.cbFiber = none) s h.own (fun _ => rfl)

/-- A fiber is made. -/
theorem Table.created (h : Table s p loc) :
    Table { s with states := s.states ++ [.INIT] } (Function.update p s.states.length .fresh)
      loc := by
  rcases h.absent s.states.length (List.getElem?_eq_none (Nat.le_refl _)) with ⟨hloc, -, hzero⟩
  refine ⟨h.tracks, ?_, h.own⟩
  intro f
  by_cases hf : f = s.states.length
  · have hrow : Fits none (some .INIT) .fresh 0 := .fresh
    rw [hf, hloc, Function.update_self]
    rw [← hzero, ← (states_append s).1] at hrow
    exact hrow
  · have hrow := h.fits f
    rw [← (states_append s).2 f hf] at hrow
    rw [Function.update_of_ne hf]
    exact hrow

/-- Fibers are put in the queue with their permits. -/
theorem Table.scheduled (h : Table s p loc) (s₁ : Scheduler) (p' : Nat → Permit)
    (thread : Option Nat) (fcs : List (Option Task)) (hspend : spend fcs p = some p')
    (hworkers : s₁.workers = s.workers) (hstates : s₁.states = s.states)
    (hfibers : s₁.fibers = s.fibers ++ enqueued thread fcs s.tickets) : Table s₁ p' loc := by
  refine ⟨by rw [hworkers]; exact h.tracks, ?_, by rw [hworkers]; exact h.own⟩
  intro f
  rw [hstates, queued_append _ s₁ hfibers, count_enqueued]
  exact spend_fits (fun f => (loc f).map Prod.snd) (fun f => s.states[f]?) fcs p p' _ h.fits
    hspend f

/-- A scan takes an item. -/
theorem Table.taken (h : Table s p loc) (s₁ : Scheduler) (w : Nat) (x : Worker) (pc : Pc)
    (ft : FiberAndThread) (pre post : List FiberAndThread) (hx : s.workers[w]? = some x)
    (hpc : x.pc = .top) (hqueue : s.fibers = pre ++ ft :: post)
    (hfibers : s₁.fibers = pre ++ post) (hworkers : s₁.workers = s.workers)
    (hstates : s₁.states = s.states) (hrun : s.Runnable ft)
    (hnew : pc = .picked (some ft) ∨ pc = .tickling (.picked (some ft))) :
    ∃ loc', Table (s₁.goto w x pc) p loc' := by
  have hqueued := queued_take (s := s) pre post ft s₁ hqueue hfibers
  have hidle : isCallback pc = false := by rcases hnew with rfl | rfl <;> rfl
  rcases ft with ⟨⟨f⟩ | ⟨c⟩, thread, ticket⟩
  · -- The item of a fiber: nobody has it, as it can be run.
    have hholds : pc.holds = some (f, .picked) := by rcases hnew with rfl | rfl <;> rfl
    have hrow := h.fits f
    rw [hqueued f, if_pos rfl] at hrow
    rcases hrow.take hrun with ⟨hnone, htaken⟩
    have hloc : loc f = none := Option.map_eq_none_iff.1 hnone
    refine h.begin s₁ w x x pc f hx (by rw [hpc]; rfl) hworkers hholds ?_ ?_ ?_ ?_ ?_
    · intro f'
      refine ⟨fun hcb => ⟨hcb, ?_⟩, And.left⟩
      rintro rfl
      have hno := h.loc_eq w x f' .cached hx (Or.inr ⟨hcb, rfl⟩)
      rw [hloc] at hno
      cases hno
    · intro w' ph hno
      rw [hloc] at hno
      cases hno
    · rw [hidle]
      exact fun hno => (by cases hno)
    · intro f' hff
      refine ⟨by rw [hstates], ?_⟩
      have hother : ¬Task.fiber f = Task.fiber f' := fun heq => hff (Task.fiber.inj heq).symm
      rw [hqueued f', if_neg hother, Nat.add_zero]
    · rw [hstates]
      exact htaken
  · -- The item of a callback, which is no fiber yet.
    have hholds : pc.holds = none := by rcases hnew with rfl | rfl <;> rfl
    refine h.stay s₁ w x x pc hx hworkers hstates (fun f => ?_) (by rw [hholds, hpc]; rfl) rfl
      (by rw [hidle]; exact fun hno => (by cases hno))
    have hcount := hqueued f
    rw [if_neg (fun hno => by cases hno), Nat.add_zero] at hcount
    exact hcount.symm

/-- A worker writes the state of the fiber it is busy with, or the permit changes. -/
theorem Table.write (h : Table s p loc) (s₁ : Scheduler) (p₁ : Nat → Permit) (w : Nat)
    (x : Worker) (pc : Pc) (f : Nat) (ph : Phase) (place : Option Phase) (st : FiberState)
    (hx : s.workers[w]? = some x) (hholds : x.pc.holds = some (f, ph))
    (hworkers : s₁.workers = s.workers) (hfibers : s₁.fibers = s.fibers)
    (hstates : s₁.states = (s.setState f st).states)
    (hpermits : ∀ f' ≠ f, p₁ f' = p f') (hpc : pc.holds = place.map (fun ph => (f, ph)))
    (hown : isCallback pc = true → isCallback x.pc = true)
    (hfits : Fits place (some st) (p₁ f) (queued s f)) :
    ∃ loc', Table (s₁.goto w x pc) p₁ loc' := by
  have hset := states_setState (s := s) f st (h.exists_state w x f ph hx (Or.inl hholds))
  have hqueued : ∀ f', queued s₁ f' = queued s f' := fun f' => by rw [queued, queued, hfibers]
  refine h.move s₁ p₁ w x pc f ph place hx hholds hworkers hpc hown ?_ ?_
  · intro f' hff
    rw [hstates]
    exact ⟨hset.2 f' hff, hpermits f' hff, hqueued f'⟩
  · rw [hstates, hset.1, hqueued]
    exact hfits

/-- Of what a worker does on its own, only `swapIn` changes a permit. -/
theorem permits_go (w : Nat) (x : Worker) (p' : Nat → Permit)
    (hp : permitsAfter (.go w) s p = some p') (hx : s.workers[w]? = some x)
    (hpc : ∀ f isCb ticket, x.pc ≠ .entering f isCb ticket) : p = p' := by
  have hnone : enteringOn s w = none := by
    rw [enteringOn, hx]
    split
    · next f isCb ticket cbFiber idleTerm heq =>
        exact absurd (congrArg Worker.pc (Option.some.inj heq)) (hpc f isCb ticket)
    · rfl
  rw [permitsAfter, hnone] at hp
  exact Option.some.inj hp

theorem runningOn_eq (w : Nat) (x : Worker) (f : Nat) (isCb : Bool) (hx : s.workers[w]? = some x)
    (hpc : x.pc = .running f isCb) : runningOn s w = some f := by
  rcases x with ⟨pc, cbFiber, idleTerm⟩
  simp only at hpc
  subst hpc
  rw [runningOn, hx]

theorem enteringOn_eq (w : Nat) (x : Worker) (f : Nat) (isCb : Bool) (ticket : Nat)
    (hx : s.workers[w]? = some x) (hpc : x.pc = .entering f isCb ticket) :
    enteringOn s w = some f := by
  rcases x with ⟨pc, cbFiber, idleTerm⟩
  simp only at hpc
  subst hpc
  rw [enteringOn, hx]

/-- What comes after `tickle` holds what `tickle` held. -/
theorem holds_next (next : Next) : next.pc.holds = (Pc.tickling next).holds ∧
    (Pc.poking next).holds = (Pc.tickling next).holds ∧ isCallback next.pc = false := by
  rcases next with (_ | ⟨⟨f⟩ | ⟨c⟩, thread, ticket⟩) | _ <;> exact ⟨rfl, rfl, rfl⟩

/-- The fiber of an earlier callback is taken from `cb_fiber`. -/
theorem Table.reused (h : Table s p loc) (w : Nat) (x : Worker) (g ticket : Nat)
    (hx : s.workers[w]? = some x) (hnone : x.pc.holds = none) (hg : x.cbFiber = some g) :
    ∃ loc', Table ((s.setState g .INIT).goto w { x with cbFiber := none }
      (.entering g true ticket)) p loc' := by
  have hkept : x.Holds g .cached := Or.inr ⟨hg, rfl⟩
  have hset := states_setState (s := s) g .INIT (h.exists_state w x g .cached hx hkept)
  refine h.begin _ w x _ _ g hx hnone rfl rfl ?_ ?_ (fun _ => rfl)
    (fun f' hff => ⟨hset.2 f' hff, rfl⟩) ?_
  · intro f'
    simp only [hg, Option.some.injEq, reduceCtorEq, false_iff, not_and, ne_eq, not_not]
    exact Eq.symm
  · intro w' ph hloc
    rw [h.loc_eq w x g .cached hx hkept, Option.some.injEq, Prod.mk.injEq] at hloc
    exact hloc.1.symm
  · rw [hset.1]
    exact (h.row w x g .cached hx hkept).reuse

/-- A fiber is made for a callback, and nobody knows of it. -/
theorem Table.made (h : Table s p loc) (w : Nat) (x : Worker) (ticket : Nat)
    (hx : s.workers[w]? = some x) (hnone : x.pc.holds = none) (hg : x.cbFiber = none) :
    ∃ loc', Table (Scheduler.goto { s with states := s.states ++ [.INIT] } w
      { x with cbFiber := none } (.entering s.states.length true ticket)) p loc' := by
  rcases h.absent s.states.length (List.getElem?_eq_none (Nat.le_refl _)) with
    ⟨hloc, hspent, hzero⟩
  refine h.begin _ w x _ _ s.states.length hx hnone rfl rfl ?_ ?_ (fun _ => rfl)
    (fun f' hff => ⟨(states_append s).2 f' hff, rfl⟩) ?_
  · intro f'
    simp only [hg, reduceCtorEq, false_and]
  · intro w' ph hno
    rw [hloc] at hno
    cases hno
  · have hrow : Fits (some .picked) (some .INIT) .spent 0 := .pickedInit
    rw [← (states_append s).1, ← hspent, ← hzero] at hrow
    exact hrow

/-- A worker looks at the state of the fiber that came back to it, and goes on with it or lets
    it go. -/
theorem Table.settled (h : Table s p loc) (w : Nat) (x : Worker) (pc : Pc) (f : Nat) (isCb : Bool)
    (st : FiberState) (place : Option Phase) (hx : s.workers[w]? = some x)
    (hpc : x.pc = .settling f isCb) (hst : s.states[f]? = some st)
    (hnew : pc.holds = place.map (fun ph => (f, ph)))
    (hown : isCallback pc = true → isCallback x.pc = true)
    (hfits : ∀ permit q, Fits (some .leaving) (some st) permit q →
      Fits place (some st) permit q) :
    ∃ loc', Table (s.goto w x pc) p loc' := by
  have hholds : x.pc.holds = some (f, .leaving) := by rw [hpc]; rfl
  have hrow := h.row w x f .leaving hx (Or.inl hholds)
  refine h.move s p w x pc f .leaving place hx hholds rfl hnew hown
    (fun _ _ => ⟨rfl, rfl, rfl⟩) ?_
  rw [hst] at hrow ⊢
  exact hfits _ _ hrow

/-- The fiber of a callback has ended and goes to `cb_fiber`, which is empty: the fiber was taken
    from there, or made. -/
theorem Table.cached (h : Table s p loc) (w : Nat) (x : Worker) (f : Nat) (st : FiberState)
    (hx : s.workers[w]? = some x) (hpc : x.pc = .settling f true) (hst : s.states[f]? = some st)
    (hend : Ended st) :
    ∃ loc', Table ((s.setState f .INIT).goto w { x with cbFiber := some f } .top) p loc' := by
  have hholds : x.pc.holds = some (f, .leaving) := by rw [hpc]; rfl
  have hrow := h.row w x f .leaving hx (Or.inl hholds)
  have hset := states_setState (s := s) f .INIT (h.exists_state w x f _ hx (Or.inl hholds))
  have hnone : x.cbFiber = none := h.own w x hx (by rw [hpc]; rfl)
  refine h.goto (s.setState f .INIT) p w x _ .top f (some .cached) hx rfl ?_ ?_ ?_
    (fun hno => (by cases hno)) (fun f' hff => ⟨hset.2 f' hff, rfl, rfl⟩) ?_
  · intro w' ph hloc
    rw [h.loc_eq w x f .leaving hx (Or.inl hholds), Option.some.injEq, Prod.mk.injEq] at hloc
    exact hloc.1.symm
  · intro ph
    simp only [Worker.Holds, Pc.holds, reduceCtorEq, true_and, false_or, Option.some.injEq]
    exact eq_comm
  · intro f' hff ph
    have hother : ¬f = f' := fun heq => hff heq.symm
    simp only [Worker.Holds, Pc.holds, hpc, hnone, reduceCtorEq, Option.some.injEq,
      Prod.mk.injEq, hother, false_and, or_self]
  · rw [hset.1]
    rw [hst] at hrow
    exact hrow.cache hend

/-- `schedule` without a permit: the fiber is let go in the same step. -/
theorem Table.requeued (h : Table s p loc) (w : Nat) (x : Worker) (pc : Pc) (f : Nat) (isCb : Bool)
    (hx : s.workers[w]? = some x) (hpc : x.pc = .requeueing f isCb) (hnew : pc.holds = none)
    (hidle : isCallback pc = false) :
    ∃ loc', Table (Scheduler.goto { s with
      fibers := s.fibers ++ [⟨.fiber f, none, s.tickets⟩]
      tickets := s.tickets + 1 } w x pc) p loc' := by
  have hholds : x.pc.holds = some (f, .requeueing) := by rw [hpc]; rfl
  have hrow := h.row w x f .requeueing hx (Or.inl hholds)
  have hqueued := queued_append (s := s) [⟨.fiber f, none, s.tickets⟩] { s with
    fibers := s.fibers ++ [⟨.fiber f, none, s.tickets⟩], tickets := s.tickets + 1 } rfl
  refine h.move _ p w x _ f .requeueing none hx hholds rfl hnew ?_ ?_ ?_
  · rw [hidle]
    exact fun hno => (by cases hno)
  · intro f' hff
    refine ⟨rfl, rfl, (hqueued f').trans ?_⟩
    have hother : ¬f = f' := fun heq => hff heq.symm
    simp only [List.countP_cons, List.countP_nil, Task.fiber.injEq, hother, decide_false,
      Bool.false_eq_true, if_false, Nat.add_zero]
  · rw [hqueued f]
    simp only [List.countP_cons, List.countP_nil, decide_true, if_true, Nat.zero_add]
    exact hrow.requeue

/-- A fiber that has not made itself known writes its state and leaves. -/
theorem Table.leaves (h : Table s p loc) (w : Nat) (x : Worker) (f : Nat) (isCb : Bool)
    (st : FiberState) (hx : s.workers[w]? = some x) (hpc : x.pc = .running f isCb)
    (hspent : p f = .spent)
    (hfits : ∀ st' q, Fits (some .running) st' .spent q → Fits (some .leaving) (some st) .spent q) :
    ∃ loc', Table ((s.setState f st).goto w x (.leaving f isCb)) p loc' := by
  have hholds : x.pc.holds = some (f, .running) := by rw [hpc]; rfl
  have hrow := h.row w x f .running hx (Or.inl hholds)
  refine h.write _ p w x _ f .running (some .leaving) st hx hholds rfl rfl rfl
    (fun _ _ => rfl) rfl (by rw [hpc]; exact id) ?_
  rw [hspent] at hrow ⊢
  exact hfits _ _ hrow

/-- A fiber that leaves to be held is known from here at the latest. -/
theorem Table.leavesHeld (h : Table s p loc) (w : Nat) (x : Worker) (f : Nat) (isCb : Bool)
    (hx : s.workers[w]? = some x) (hpc : x.pc = .running f isCb) :
    ∃ loc', Table (s.goto w x (.leaving f isCb))
      (if p f = .spent then Function.update p f .granted else p) loc' := by
  have hholds : x.pc.holds = some (f, .running) := by rw [hpc]; rfl
  have hrow := h.row w x f .running hx (Or.inl hholds)
  refine h.move s _ w x _ f .running (some .leaving) hx hholds rfl rfl (by rw [hpc]; exact id)
    (fun f' hff => ⟨rfl, ?_, rfl⟩) ?_
  · split
    · exact Function.update_of_ne hff _ _
    · rfl
  · have hheld := hrow.yieldToHold
    by_cases hspent : p f = .spent
    · rw [if_pos hspent] at hheld ⊢
      rw [Function.update_self]
      exact hheld
    · rw [if_neg hspent] at hheld ⊢
      exact hheld

theorem Table.step (h : Table s p loc) (a : Scheduler.Action) (s' : Scheduler)
    (hmove : Move s a s') (p' : Nat → Permit) (hp : permitsAfter a s p = some p') :
    ∃ loc', Table s' p' loc' := by
  cases hmove with
  | start =>
      cases hp
      exact ⟨loc, h.started⟩
  | newFiber =>
      cases hp
      exact ⟨loc, h.created⟩
  | schedule caller fcs thread hcall hknown =>
      exact ⟨loc, h.scheduled _ p' thread fcs hp rfl rfl rfl⟩
  | stop | tickle | test hsome hidle | dropTest hsome hidle | poke hsome =>
      cases hp
      exact ⟨loc, h.tracks, h.fits, h.own⟩
  | drain w x hx hpc =>
      cases hp
      exact ⟨loc, h.tracks, h.fits, h.own⟩
  | take w x ft left tickleMe hx hpc hscan =>
      obtain rfl := permits_go w x p' hp hx (by simp [hpc])
      -- The item could be run, so its fiber is not executed anywhere.
      rcases scan_some s w _ left ft tickleMe hscan with ⟨pre, post, hqueue, rfl, helig, -⟩
      refine h.taken _ w x _ ft pre post hx hpc hqueue rfl rfl rfl helig.2 ?_
      cases tickleMe
      · exact Or.inl rfl
      · exact Or.inr rfl
  | miss w x left tickleMe hx hpc hscan =>
      obtain rfl := permits_go w x p' hp hx (by simp [hpc])
      refine h.stay s w x x _ hx rfl rfl (fun _ => rfl) ?_ rfl ?_ <;>
        rw [hpc] <;> cases tickleMe <;> first | rfl | exact id
  | ownTest w x next hx hpc hidle =>
      obtain rfl := permits_go w x p' hp hx (by simp [hpc])
      refine h.stay s w x x _ hx rfl rfl (fun _ => rfl) ?_ rfl (fun hno => (by cases hno))
      rw [hpc]
      exact (holds_next next).2.1
  | ownDrop w x next hx hpc hidle =>
      obtain rfl := permits_go w x p' hp hx (by simp [hpc])
      refine h.stay s w x x _ hx rfl rfl (fun _ => rfl) ?_ rfl ?_
      · rw [hpc]
        exact (holds_next next).1
      · rw [(holds_next next).2.2]
        exact fun hno => (by cases hno)
  | ownPoke w x next hx hpc =>
      obtain rfl := permits_go w x p' hp hx (by simp [hpc])
      refine h.stay _ w x x _ hx rfl rfl (fun _ => rfl) ?_ rfl ?_
      · rw [hpc, (holds_next next).1, (holds_next next).2.1]
      · rw [(holds_next next).2.2]
        exact fun hno => (by cases hno)
  | discard w x f thread ticket st hx hpc hst hend =>
      -- A fiber that has ended is in no queue, so none is picked.
      have hrow := h.row w x f .picked hx (Or.inl (by rw [hpc]; rfl))
      rw [hst] at hrow
      exact absurd hend hrow.not_ended
  | pickFiber w x f thread ticket st hx hpc hst hend =>
      obtain rfl := permits_go w x p' hp hx (by simp [hpc])
      exact h.stay s w x x _ hx rfl rfl (fun _ => rfl) (by rw [hpc]; rfl) rfl
        (fun hno => (by cases hno))
  | reuse w x c thread ticket g st hx hpc hg hst hend =>
      obtain rfl := permits_go w x p' hp hx (by simp [hpc])
      exact h.reused w x g ticket hx (by rw [hpc]; rfl) hg
  | pickCallback w x c thread ticket hx hpc hg =>
      obtain rfl := permits_go w x p' hp hx (by simp [hpc])
      exact h.made w x ticket hx (by rw [hpc]; rfl) hg
  | exit w x hx hpc hterm =>
      obtain rfl := permits_go w x p' hp hx (by simp [hpc])
      exact h.stay s w x x _ hx rfl rfl (fun _ => rfl) (by rw [hpc]; rfl) rfl
        (fun hno => (by cases hno))
  | idle w x hx hpc hterm =>
      obtain rfl := permits_go w x p' hp hx (by simp [hpc])
      exact h.stay _ w x x _ hx rfl rfl (fun _ => rfl) (by rw [hpc]; rfl) rfl
        (fun hno => (by cases hno))
  | swapIn w x f isCb ticket st hx hpc hst hne =>
      rw [permitsAfter, enteringOn_eq w x f isCb ticket hx hpc, Option.some.injEq] at hp
      subst hp
      have hholds : x.pc.holds = some (f, .picked) := by rw [hpc]; rfl
      refine h.write _ _ w x _ f .picked (some .running) .EXEC hx hholds rfl rfl rfl
        (fun f' hff => Function.update_of_ne hff _ _) rfl (by rw [hpc]; exact id) ?_
      rw [Function.update_self]
      exact (h.row w x f .picked hx (Or.inl hholds)).swapIn
  | switch w x f isCb hx hpc =>
      obtain rfl := permits_go w x p' hp hx (by simp [hpc])
      exact h.stay s w x x _ hx rfl rfl (fun _ => rfl) (by rw [hpc]; rfl) rfl
        (by rw [hpc]; exact id)
  | back w x f isCb hx hpc =>
      obtain rfl := permits_go w x p' hp hx (by simp [hpc])
      exact h.stay _ w x x _ hx rfl rfl (fun _ => rfl) (by rw [hpc]; rfl) rfl
        (by rw [hpc]; exact id)
  | ready w x f isCb hx hpc hst =>
      obtain rfl := permits_go w x p' hp hx (by simp [hpc])
      exact h.settled w x _ f isCb .READY (some .requeueing) hx hpc hst rfl (by rw [hpc]; exact id)
        (fun _ _ hrow => hrow.back)
  | ended w x f st hx hpc hst hend =>
      obtain rfl := permits_go w x p' hp hx (by simp [hpc])
      exact h.settled w x _ f false st none hx hpc hst rfl (fun hno => (by cases hno))
        (fun _ _ hrow => hrow.ended hend)
  | endedCb w x f st hx hpc hst hend =>
      obtain rfl := permits_go w x p' hp hx (by simp [hpc])
      exact h.cached w x f st hx hpc hst hend
  | parked w x f isCb st hx hpc hst hready hend =>
      obtain rfl := permits_go w x p' hp hx (by simp [hpc])
      exact h.settled w x _ f isCb st (some .holding) hx hpc hst rfl (by rw [hpc]; exact id)
        (fun _ _ hrow => hrow.park hready hend)
  | requeue w x f isCb hx hpc =>
      obtain rfl := permits_go w x p' hp hx (by simp [hpc])
      refine h.requeued w x _ f isCb hx hpc ?_ ?_ <;> cases s.fibers.isEmpty <;> rfl
  | hold w x f isCb hx hpc =>
      obtain rfl := permits_go w x p' hp hx (by simp [hpc])
      have hholds : x.pc.holds = some (f, .holding) := by rw [hpc]; rfl
      exact h.write _ p w x _ f .holding none .HOLD hx hholds rfl rfl rfl (fun _ _ => rfl) rfl
        (fun hno => (by cases hno)) (h.row w x f .holding hx (Or.inl hholds)).hold
  | drop w x hx hpc | handled w x hx hpc | idleOut w x hx hpc =>
      obtain rfl := permits_go w x p' hp hx (by simp [hpc])
      exact h.stay _ w x x _ hx rfl rfl (fun _ => rfl) (by rw [hpc]; rfl) rfl
        (fun hno => (by cases hno))
  | yieldToReady w x f isCb hx hpc =>
      -- A fiber that has made itself known does not yield to be ready.
      simp only [permitsAfter, runningOn_eq w x f isCb hx hpc] at hp
      split at hp
      · next hspent =>
          cases hp
          exact h.leaves w x f isCb .READY hx hpc hspent (fun _ _ hrow => hrow.yieldToReady)
      · cases hp
  | yieldToHold w x f isCb hx hpc =>
      simp only [permitsAfter, runningOn_eq w x f isCb hx hpc, Option.some.injEq] at hp
      subst hp
      exact h.leavesHeld w x f isCb hx hpc
  | finish w x f isCb except st hx hpc hend =>
      simp only [permitsAfter, runningOn_eq w x f isCb hx hpc] at hp
      split at hp
      · next hspent =>
          cases hp
          exact h.leaves w x f isCb st hx hpc hspent (fun _ _ hrow => hrow.finish hend)
      · cases hp
  | askStop w x quiet hx hpc hstop =>
      cases hp
      exact h.stay s w x _ _ hx rfl rfl (fun _ => rfl) (by rw [hpc]; rfl) rfl
        (fun hno => (by cases hno))
  | askWait w x quiet hx hpc hio | askSpin w x quiet hx hpc hio =>
      cases hp
      exact h.stay s w x x _ hx rfl rfl (fun _ => rfl) (by rw [hpc]; rfl) rfl
        (fun hno => (by cases hno))
  | wake w x hx hpc =>
      cases hp
      exact h.stay s w x x _ hx rfl rfl (fun _ => rfl) (by rw [hpc]; rfl) rfl
        (fun hno => (by cases hno))

/-- The fiber of a worker makes itself known. -/
theorem Table.announced (h : Table s p loc) (w f : Nat) (hf : runningOn s w = some f)
    (hspent : p f = .spent) : Table s (Function.update p f .granted) loc := by
  have hruns : ∃ x : Worker, s.workers[w]? = some x ∧ x.pc.holds = some (f, .running) := by
    rw [runningOn] at hf
    split at hf
    · next f' isCb cbFiber idleTerm hx =>
        cases hf
        exact ⟨_, hx, rfl⟩
    · cases hf
  rcases hruns with ⟨x, hx, hholds⟩
  have hrow := h.row w x f .running hx (Or.inl hholds)
  rw [hspent] at hrow
  refine ⟨h.tracks, fun f' => ?_, h.own⟩
  by_cases hff : f' = f
  · rw [hff, Function.update_self, h.loc_eq w x f .running hx (Or.inl hholds)]
    exact hrow.announce
  · rw [Function.update_of_ne hff]
    exact h.fits f'

end Steps

/-! ## Whole runs -/

theorem inv_step (v : Waking) (a : Action) (v' : Waking) (h : v.Inv) (hstep : step a v = some v') :
    v'.Inv := by
  rcases h with ⟨loc, htable⟩
  cases a with
  | act a =>
      rw [step] at hstep
      split at hstep
      · next p' s' hp hs =>
          cases hstep
          exact htable.step a s' (move_of_step _ a s' hs) p' hp
      · cases hstep
  | announce w =>
      rw [step] at hstep
      split at hstep
      · next f hf =>
          split at hstep
          · next hspent =>
              cases hstep
              exact ⟨loc, htable.announced w f hf hspent⟩
          · cases hstep
      · cases hstep

/-- In every run of any number of workers and wakers, in which fibers are put in the
    queue by permit only: a fiber is with one worker at most, so it is executed by
    one at most; it is in the queue once at most; and the assertion of `swapIn`
    does not fail. -/
theorem fiber_alone (io : Bool) (as : List Action) (v : Waking)
    (h : run step as (new io) = some v) :
    (∀ (w w' : Nat) (x x' : Worker) (f : Nat) (ph ph' : Phase),
      v.scheduler.workers[w]? = some x → v.scheduler.workers[w']? = some x' →
      x.pc.holds = some (f, ph) → x'.pc.holds = some (f, ph') → w = w') ∧
    (∀ f, v.scheduler.fibers.countP (fun it => it.task = .fiber f) ≤ 1) ∧
    ∀ (w : Nat) (x : Worker) (f : Nat) (isCb : Bool) (ticket : Nat),
      v.scheduler.workers[w]? = some x → x.pc = .entering f isCb ticket →
      v.scheduler.states[f]? ≠ some .EXEC ∧ (v.scheduler.swapIn f).isSome = true := by
  rcases run_inv Inv (fun v a v' hv _ hstep => inv_step v a v' hv hstep) as (new io) v
    (inv_new io) (along_true as (new io)) h with ⟨loc, htable⟩
  refine ⟨?_, fun f => (htable.fits f).once, ?_⟩
  · intro w w' x x' f ph ph' hx hx' hholds hholds'
    have hloc := htable.loc_eq w x f ph hx (Or.inl hholds)
    rw [htable.loc_eq w' x' f ph' hx' (Or.inl hholds'), Option.some.injEq, Prod.mk.injEq] at hloc
    exact hloc.1.symm
  · intro w x f isCb ticket hx hpc
    -- The table has no fiber that is picked while it is executed.
    rcases (htable.row w x f .picked hx (Or.inl (by rw [hpc]; rfl))).not_exec with ⟨hne, hsome⟩
    refine ⟨hne, ?_⟩
    rcases hst : v.scheduler.states[f]? with _ | st
    · exact absurd hst hsome
    · rw [Scheduler.swapIn, hst]
      cases st with
      | EXEC => exact absurd hst hne
      | INIT | HOLD | TERM | READY | EXCEPT => rfl

/-- A fiber makes itself known and is woken while it still runs. The second worker sees
    it in the queue and leaves it there; when the first is done with it, the
    second takes it. -/
theorem fiber_alone_early :
    ∃ v, run step [.act .start, .act .start, .act .newFiber,
        .act (.schedule none [some (.fiber 0)] none), .act (.go 0), .act (.go 0), .act (.go 0),
        .announce 0, .act (.schedule none [some (.fiber 0)] none), .act (.go 1), .act (.go 1),
        .act (.yieldToHold 0), .act (.go 0), .act (.go 0), .act (.go 0), .act (.go 0),
        .act (.ask 1 true), .act (.go 1), .act (.go 1), .act (.go 1)] (new false) = some v ∧
      v.scheduler.workers.map Worker.pc = [.top, .entering 0 false 1] ∧
      v.scheduler.states[0]? ≠ some .EXEC := by
  have hrun : (run step [.act .start, .act .start, .act .newFiber,
      .act (.schedule none [some (.fiber 0)] none), .act (.go 0), .act (.go 0), .act (.go 0),
      .announce 0, .act (.schedule none [some (.fiber 0)] none), .act (.go 1), .act (.go 1),
      .act (.yieldToHold 0), .act (.go 0), .act (.go 0), .act (.go 0), .act (.go 0),
      .act (.ask 1 true), .act (.go 1), .act (.go 1), .act (.go 1)] (new false)).map
      (fun v => v.scheduler.workers) =
      some [⟨.top, none, false⟩, ⟨.entering 0 false 1, none, false⟩] := by decide
  rcases Option.map_eq_some_iff.1 hrun with ⟨v, hv, hworkers⟩
  refine ⟨v, hv, by rw [hworkers]; rfl, ?_⟩
  exact ((fiber_alone false _ v hv).2.2 1 ⟨.entering 0 false 1, none, false⟩ 0 false 1
    (by rw [hworkers]; rfl) rfl).1

end Waking

end YkServer
