import YkServer.Core.Worker
import YkServer.Lib.Interleaving
import YkServer.Lib.Waiters
import Mathlib.Algebra.Order.Ring.Nat
import Mathlib.Data.List.Count

/-!
# Fiber Semaphores

Permits are neither lost nor made up. What there was at the beginning and what `notify`
has added is in the counter or was given out. The counter is a `size_t`, so this is an
equation modulo `2 ^ 64`, and an equation of numbers as long as the left side is below that.

A fiber that queues itself is handed a permit in its turn, and is scheduled once for
it. `notify` looks at the queue first, so there are waiters only when the counter is zero.
In which order those that were scheduled come back is up to the scheduler, and to which of
them has yielded.

## Main definitions

* `SemWorld.Conserved`: What holds of a semaphore and its fibers.
* `SemWorld.Roomy`: The counter does not wrap.

## Theorems

* `wait_spec`, `tryWait_spec`, `notify_spec`: The members.
* `wait_queued`, `notify_queued`: The same among threads.
* `exact_iff_roomy`: Where the counter wraps.
* `semaphore_conserved`: Permits and waiters, in every run.
-/

namespace YkServer

open Lib

namespace FiberSemaphore

variable {α : Type}

theorem toNat_pred (n : UInt64) (h : 0 < n) : (n - 1).toNat + 1 = n.toNat := by
  have hpos : 0 < n.toNat := UInt64.lt_iff_toNat_lt.1 h
  rw [UInt64.toNat_sub_of_le n 1 (UInt64.le_iff_toNat_le.2 hpos), UInt64.toNat_one]
  omega

theorem toNat_succ (n : UInt64) : (n + 1).toNat = (n.toNat + 1) % 2 ^ 64 := by
  rw [UInt64.toNat_add, UInt64.toNat_one]

theorem eq_zero_of_not_pos (n : UInt64) (h : ¬0 < n) : n = 0 := by
  rw [UInt64.lt_iff_toNat_lt, UInt64.toNat_zero, Nat.not_lt, Nat.le_zero] at h
  exact UInt64.toNat_inj.1 h

/-- There was a permit, or the fiber is in the queue now. -/
theorem wait_spec (s s' : FiberSemaphore α) (me : α) (got : Bool) (h : s.wait me = (got, s')) :
    (got = true ∧ s'.waiters = s.waiters ∧ s'.concurrency.toNat + 1 = s.concurrency.toNat) ∨
      (got = false ∧ s.concurrency = 0 ∧ s'.concurrency = 0 ∧ s'.waiters = s.waiters ++ [me]) := by
  unfold wait at h
  split at h
  · rename_i hpos
    cases h
    exact Or.inl ⟨rfl, rfl, toNat_pred s.concurrency hpos⟩
  · rename_i hpos
    cases h
    have hzero := eq_zero_of_not_pos s.concurrency hpos
    exact Or.inr ⟨rfl, hzero, hzero, rfl⟩

theorem tryWait_spec (s s' : FiberSemaphore α) (got : Bool) (h : s.tryWait = (got, s')) :
    (got = true ∧ s'.waiters = s.waiters ∧ s'.concurrency.toNat + 1 = s.concurrency.toNat) ∨
      (got = false ∧ s' = s) := by
  unfold tryWait at h
  split at h
  · rename_i hpos
    cases h
    exact Or.inl ⟨rfl, rfl, toNat_pred s.concurrency hpos⟩
  · cases h
    exact Or.inr ⟨rfl, rfl⟩

/-- A permit goes to the first waiter, or into the counter if there is none. -/
theorem notify_spec (s s' : FiberSemaphore α) (next : Option α) (h : s.notify = (next, s')) :
    (∃ k, next = some k ∧ s.waiters = k :: s'.waiters ∧ s'.concurrency = s.concurrency) ∨
      (next = none ∧ s.waiters = [] ∧ s'.waiters = [] ∧
        s'.concurrency.toNat = (s.concurrency.toNat + 1) % 2 ^ 64) := by
  unfold notify at h
  split at h
  · rename_i k rest hwaiters
    cases h
    exact Or.inl ⟨k, rfl, hwaiters, rfl⟩
  · rename_i hwaiters
    cases h
    exact Or.inr ⟨rfl, hwaiters, hwaiters, toNat_succ s.concurrency⟩

/-! ## Threads in the queue -/

variable {τ : Type} {Waits : τ → Prop}

/-- A thread calls `wait`, and has a permit or is in the queue. -/
theorem wait_queued (s s' : FiberSemaphore Nat) (l : List τ) (h : Queued Waits l s.waiters)
    (i : Nat) (t got queued : τ) (hi : l[i]? = some t) (ht : ¬Waits t) (hqueued : Waits queued)
    (b : Bool) (hrun : s.wait i = (b, s')) :
    Queued Waits (l.set i (if b then got else queued)) s'.waiters ∧
      (b = true ∧ s'.concurrency.toNat + 1 = s.concurrency.toNat ∨
        b = false ∧ s'.concurrency.toNat = 0 ∧ s.concurrency.toNat = 0) := by
  rcases wait_spec s s' i b hrun with ⟨rfl, hwaiters, hcount⟩ | ⟨rfl, hzero, hzero', hwaiters⟩
  · rw [hwaiters]
    exact ⟨queued_set l s.waiters h i t got hi (h.not_mem i t hi ht), Or.inl ⟨rfl, hcount⟩⟩
  · rw [hwaiters, hzero, hzero']
    exact ⟨queued_join l s.waiters h i t queued hi ht hqueued, Or.inr ⟨rfl, rfl, rfl⟩⟩

/-- A permit goes to the first in the queue, who goes on, or into the counter. -/
theorem notify_queued (s s' : FiberSemaphore Nat) (l : List τ) (h : Queued Waits l s.waiters)
    (woken : τ → τ) (next : Option Nat) (hrun : s.notify = (next, s')) :
    (∃ k t, next = some k ∧ l[k]? = some t ∧ Waits t ∧ l.modify k woken = l.set k (woken t) ∧
      s'.concurrency = s.concurrency ∧ Queued Waits (l.set k (woken t)) s'.waiters) ∨
    (next = none ∧ s'.concurrency.toNat = (s.concurrency.toNat + 1) % 2 ^ 64 ∧
      s'.waiters = []) := by
  rcases notify_spec s s' next hrun with ⟨k, rfl, hwaiters, hcount⟩ | ⟨rfl, _, hnobody, hcount⟩
  · rw [hwaiters] at h
    rcases queued_wake l k s'.waiters h woken with ⟨t, hk, hwaits, hmodify, hrest⟩
    exact Or.inl ⟨k, t, rfl, hk, hwaits, hmodify, hcount, hrest⟩
  · exact Or.inr ⟨rfl, hcount, hnobody⟩

end FiberSemaphore

namespace SemWorld

/-- A fiber that was handed a permit and has not come back yet. -/
def handed (w : SemWorld) (f : Nat) : Nat :=
  if w.pos f ≠ .running ∧ f ∉ w.sem.waiters then 1 else 0

/-- Permits, and the fibers that wait for them. -/
structure Conserved (initial : UInt64) (w : SemWorld) : Prop where
  modulo : (initial.toNat + w.notified) % 2 ^ 64 =
    (w.sem.concurrency.toNat + w.granted) % 2 ^ 64
  exact : initial.toNat + w.notified < 2 ^ 64 →
    initial.toNat + w.notified = w.sem.concurrency.toNat + w.granted
  empty : w.sem.waiters ≠ [] → w.sem.concurrency = 0
  order : w.queued = w.scheduled ++ w.sem.waiters
  nodup : w.sem.waiters.Nodup
  waiting : ∀ f ∈ w.sem.waiters, w.pos f ≠ .running
  once : ∀ f, w.scheduled.count f = w.resumed.count f + w.handed f

theorem conserved_new (initial : UInt64) : Conserved initial (new initial) := by
  refine ⟨rfl, fun _ => rfl, ?_, rfl, List.nodup_nil, ?_, ?_⟩
  · intro hne
    exact absurd rfl hne
  · intro f hf
    exact absurd hf List.not_mem_nil
  · intro f
    rfl

/-- A permit is taken out of the counter. -/
theorem conserved_take (initial : UInt64) (w : SemWorld) (h : Conserved initial w)
    (s : FiberSemaphore Nat) (hwaiters : s.waiters = w.sem.waiters)
    (hcount : s.concurrency.toNat + 1 = w.sem.concurrency.toNat) :
    Conserved initial { w with sem := s, granted := w.granted + 1 } := by
  have hsum : s.concurrency.toNat + (w.granted + 1) = w.sem.concurrency.toNat + w.granted := by
    omega
  -- The counter was not zero, so nobody waits.
  have hnobody : s.waiters = [] := by
    rw [hwaiters]
    by_contra hne
    rw [h.empty hne, UInt64.toNat_zero] at hcount
    omega
  refine ⟨?_, ?_, ?_, ?_, ?_, ?_, ?_⟩
  · rw [hsum]
    exact h.modulo
  · rw [hsum]
    exact h.exact
  · intro hne
    exact absurd hnobody hne
  · rw [hwaiters]
    exact h.order
  · rw [hwaiters]
    exact h.nodup
  · rw [hwaiters]
    exact h.waiting
  · intro f
    rw [handed, hwaiters]
    exact h.once f

theorem handed_goto (w : SemWorld) (f g : Nat) (pos : SemPos) (h : g ≠ f) :
    (w.goto f pos).handed g = w.handed g := by
  simp only [handed, goto, if_neg h]

theorem conserved_queue (initial : UInt64) (w : SemWorld) (h : Conserved initial w) (f : Nat)
    (s : FiberSemaphore Nat) (hpos : w.pos f = .running) (hzero : w.sem.concurrency = 0)
    (hzero' : s.concurrency = 0) (hwaiters : s.waiters = w.sem.waiters ++ [f]) :
    Conserved initial (goto { w with sem := s, queued := w.queued ++ [f] } f .queued) := by
  have hnot : f ∉ w.sem.waiters := fun hf => h.waiting f hf hpos
  have hcount : s.concurrency = w.sem.concurrency := hzero'.trans hzero.symm
  refine ⟨?_, ?_, fun _ => hzero', ?_, ?_, ?_, ?_⟩
  · exact hcount ▸ h.modulo
  · exact hcount ▸ h.exact
  · simp only [goto, hwaiters, h.order, List.append_assoc]
  · simp only [goto, hwaiters]
    rw [← List.concat_eq_append, List.nodup_concat]
    exact ⟨hnot, h.nodup⟩
  · intro g hg
    by_cases heq : g = f
    · simp only [goto, if_pos heq]
      exact SemPos.noConfusion
    · simp only [goto, if_neg heq]
      simp only [goto, hwaiters, List.mem_append, List.mem_singleton, heq, or_false] at hg
      exact h.waiting g hg
  · intro g
    by_cases heq : g = f
    · -- It is in the queue now, and was running before.
      have hold : w.handed f = 0 := by
        rw [handed, if_neg (fun hboth => hboth.1 hpos)]
      have hnew : (goto { w with sem := s, queued := w.queued ++ [f] } f .queued).handed f = 0 := by
        rw [handed, if_neg]
        rintro ⟨_, hout⟩
        refine hout ?_
        simp only [goto, hwaiters]
        exact List.mem_append_right _ List.mem_cons_self
      rw [heq, hnew, ← hold]
      exact h.once f
    · rw [handed_goto _ f g _ heq, handed]
      have hmem : g ∈ s.waiters ↔ g ∈ w.sem.waiters := by
        rw [hwaiters, List.mem_append, List.mem_singleton]
        exact or_iff_left heq
      simp only [hmem]
      exact h.once g

/-- The first waiter is handed a permit. -/
theorem conserved_hand (initial : UInt64) (w : SemWorld) (h : Conserved initial w) (f : Nat)
    (s : FiberSemaphore Nat) (hwaiters : w.sem.waiters = f :: s.waiters)
    (hcount : s.concurrency = w.sem.concurrency) :
    Conserved initial { w with
      sem := s
      notified := w.notified + 1
      granted := w.granted + 1
      scheduled := w.scheduled ++ [f] } := by
  have hnodup := h.nodup
  rw [hwaiters, List.nodup_cons] at hnodup
  have hin : f ∈ w.sem.waiters := by
    rw [hwaiters]
    exact List.mem_cons_self
  have hmod := h.modulo
  have hexact := h.exact
  refine ⟨?_, ?_, ?_, ?_, hnodup.2, ?_, ?_⟩
  · simp only [hcount]
    omega
  · simp only [hcount]
    omega
  · intro _
    simp only [hcount]
    exact h.empty (by rw [hwaiters]; exact List.cons_ne_nil _ _)
  · simp only [h.order, hwaiters, List.append_assoc, List.singleton_append]
  · intro g hg
    exact h.waiting g (by rw [hwaiters]; exact List.mem_cons_of_mem _ hg)
  · intro g
    have honce := h.once g
    simp only [List.count_append, List.count_singleton, beq_iff_eq]
    -- The fiber leaves the queue and counts as handed instead.
    by_cases heq : f = g
    · rw [← heq] at honce ⊢
      rw [handed, if_neg (fun hboth => hboth.2 hin)] at honce
      rw [if_pos rfl, handed, if_pos ⟨h.waiting f hin, hnodup.1⟩]
      omega
    · rw [if_neg heq, handed]
      have hmem : g ∈ s.waiters ↔ g ∈ w.sem.waiters := by
        rw [hwaiters, List.mem_cons]
        exact (or_iff_right (fun hgf => heq hgf.symm)).symm
      simp only [hmem]
      exact honce

/-- Nobody waits, and the permit goes into the counter. -/
theorem conserved_give (initial : UInt64) (w : SemWorld) (h : Conserved initial w)
    (s : FiberSemaphore Nat) (hwaiters : w.sem.waiters = []) (hwaiters' : s.waiters = [])
    (hcount : s.concurrency.toNat = (w.sem.concurrency.toNat + 1) % 2 ^ 64) :
    Conserved initial { w with sem := s, notified := w.notified + 1 } := by
  have hmod := h.modulo
  have hexact := h.exact
  have hlt := w.sem.concurrency.toNat_lt
  refine ⟨?_, ?_, ?_, ?_, ?_, ?_, ?_⟩
  · simp only [hcount]
    omega
  · simp only [hcount]
    omega
  · intro hne
    exact absurd hwaiters' hne
  · simp only [hwaiters', h.order, hwaiters]
  · simp only [hwaiters']
    exact List.nodup_nil
  · intro g hg
    simp only [hwaiters'] at hg
    exact absurd hg List.not_mem_nil
  · intro g
    have honce := h.once g
    rw [handed, hwaiters] at honce
    rw [handed]
    simp only [hwaiters']
    exact honce

theorem conserved_yield (initial : UInt64) (w : SemWorld) (h : Conserved initial w) (f : Nat)
    (hpos : w.pos f = .queued) : Conserved initial (w.goto f .held) := by
  refine ⟨h.modulo, h.exact, h.empty, h.order, h.nodup, ?_, ?_⟩
  · intro g hg
    by_cases heq : g = f
    · simp only [goto, if_pos heq]
      exact SemPos.noConfusion
    · simp only [goto, if_neg heq]
      exact h.waiting g hg
  · intro g
    have honce := h.once g
    by_cases heq : g = f
    · rw [heq] at honce ⊢
      simp only [handed, hpos, ne_eq, reduceCtorEq, not_false_iff, true_and] at honce
      simp only [handed, goto, if_true, ne_eq, reduceCtorEq, not_false_iff, true_and]
      exact honce
    · rw [handed_goto w f g _ heq]
      exact honce

theorem conserved_resume (initial : UInt64) (w : SemWorld) (h : Conserved initial w) (f : Nat)
    (hpos : w.pos f = .held) (hsched : w.resumed.count f < w.scheduled.count f) :
    Conserved initial (goto { w with resumed := w.resumed ++ [f] } f .running) := by
  -- It was scheduled once more than it came back, so it is not in the queue.
  have hout : f ∉ w.sem.waiters := by
    intro hin
    have honce := h.once f
    rw [handed, if_neg (fun hboth => hboth.2 hin)] at honce
    omega
  refine ⟨h.modulo, h.exact, h.empty, h.order, h.nodup, ?_, ?_⟩
  · intro g hg
    have hne : g ≠ f := by
      rintro rfl
      exact hout hg
    simp only [goto, if_neg hne]
    exact h.waiting g hg
  · intro g
    have honce := h.once g
    by_cases heq : g = f
    · -- It is neither running nor queued before, and running after.
      rw [heq] at honce ⊢
      rw [handed, if_pos ⟨by rw [hpos]; exact SemPos.noConfusion, hout⟩] at honce
      rw [handed, if_neg (by simp only [goto, if_true, ne_eq, not_true, false_and, not_false_iff])]
      simp only [goto, List.count_append, List.count_singleton_self]
      omega
    · rw [handed_goto _ f g _ heq]
      simp only [goto, List.count_append, List.count_singleton, beq_iff_eq,
        if_neg (fun hfg : f = g => heq hfg.symm)]
      exact honce

theorem step_conserved (initial : UInt64) (w w' : SemWorld) (a : Action)
    (h : Conserved initial w) (hstep : step a w = some w') : Conserved initial w' := by
  cases a with
  | wait f =>
      simp only [step] at hstep
      split at hstep
      · rename_i hpos
        -- `wait` returns at once, or the fiber is behind the others.
        rcases hwait : w.sem.wait f with ⟨got, s⟩
        rw [hwait] at hstep
        rcases FiberSemaphore.wait_spec w.sem s f got hwait with
          ⟨rfl, hwaiters, hcount⟩ | ⟨rfl, hzero, hzero', hwaiters⟩
        · cases hstep
          exact conserved_take initial w h s hwaiters hcount
        · cases hstep
          exact conserved_queue initial w h f s hpos hzero hzero' hwaiters
      · cases hstep
  | tryWait f =>
      simp only [step] at hstep
      split at hstep
      · rcases htry : w.sem.tryWait with ⟨got, s⟩
        rw [htry] at hstep
        rcases FiberSemaphore.tryWait_spec w.sem s got htry with
          ⟨rfl, hwaiters, hcount⟩ | ⟨rfl, rfl⟩
        · cases hstep
          exact conserved_take initial w h s hwaiters hcount
        · cases hstep
          exact h
      · cases hstep
  | notify =>
      simp only [step] at hstep
      rcases hnotify : w.sem.notify with ⟨next, s⟩
      rw [hnotify] at hstep
      rcases FiberSemaphore.notify_spec w.sem s next hnotify with
        ⟨f, rfl, hwaiters, hcount⟩ | ⟨rfl, hwaiters, hwaiters', hcount⟩
      · cases hstep
        exact conserved_hand initial w h f s hwaiters hcount
      · cases hstep
        exact conserved_give initial w h s hwaiters hwaiters' hcount
  | yieldToHold f =>
      simp only [step] at hstep
      split at hstep
      · rename_i hpos
        cases hstep
        exact conserved_yield initial w h f hpos
      · cases hstep
  | resume f =>
      simp only [step] at hstep
      split at hstep
      · rename_i hboth
        cases hstep
        exact conserved_resume initial w h f hboth.1 hboth.2
      · cases hstep

/-! ## The bound of the counter -/

/-- The action is no `notify` that finds the counter at its largest value and nobody
    waiting. -/
def Roomy (w : SemWorld) (a : Action) : Prop :=
  a = .notify → w.sem.waiters = [] → w.sem.concurrency ≠ 0xFFFFFFFFFFFFFFFF

/-- What a step does to the two sides of the equation: both change by the same, or a
    permit goes into the counter. -/
theorem step_balance (w w' : SemWorld) (a : Action) (hstep : step a w = some w') :
    w'.notified + (w.sem.concurrency.toNat + w.granted) =
      w.notified + (w'.sem.concurrency.toNat + w'.granted) ∨
    a = .notify ∧ w.sem.waiters = [] ∧ w'.notified = w.notified + 1 ∧ w'.granted = w.granted ∧
      w'.sem.concurrency.toNat = (w.sem.concurrency.toNat + 1) % 2 ^ 64 := by
  cases a with
  | wait f =>
      left
      simp only [step] at hstep
      split at hstep
      · rcases hwait : w.sem.wait f with ⟨got, s⟩
        rw [hwait] at hstep
        rcases FiberSemaphore.wait_spec w.sem s f got hwait with
          ⟨rfl, -, hcount⟩ | ⟨rfl, hzero, hzero', -⟩
        · cases hstep
          simp only []
          omega
        · cases hstep
          simp only [goto, hzero, hzero']
      · cases hstep
  | tryWait f =>
      left
      simp only [step] at hstep
      split at hstep
      · rcases htry : w.sem.tryWait with ⟨got, s⟩
        rw [htry] at hstep
        rcases FiberSemaphore.tryWait_spec w.sem s got htry with ⟨rfl, -, hcount⟩ | ⟨rfl, rfl⟩
        · cases hstep
          simp only []
          omega
        · cases hstep
          rfl
      · cases hstep
  | notify =>
      simp only [step] at hstep
      rcases hnotify : w.sem.notify with ⟨next, s⟩
      rw [hnotify] at hstep
      rcases FiberSemaphore.notify_spec w.sem s next hnotify with
        ⟨f, rfl, -, hcount⟩ | ⟨rfl, hwaiters, -, hcount⟩
      · cases hstep
        left
        simp only [hcount]
        omega
      · cases hstep
        exact Or.inr ⟨rfl, hwaiters, rfl, rfl, hcount⟩
  | yieldToHold f =>
      left
      simp only [step] at hstep
      split at hstep
      · cases hstep
        rfl
      · cases hstep
  | resume f =>
      left
      simp only [step] at hstep
      split at hstep
      · cases hstep
        rfl
      · cases hstep

/-- The equation of numbers holds as long as there is room in the counter, and never again
    once there was none. -/
theorem exact_iff_roomy (initial : UInt64) (acts : List Action) (w : SemWorld)
    (hrun : run step acts (new initial) = some w) :
    initial.toNat + w.notified = w.sem.concurrency.toNat + w.granted ↔
      Along step Roomy acts (new initial) := by
  have hmax : (0xFFFFFFFFFFFFFFFF : UInt64).toNat = 2 ^ 64 - 1 := rfl
  rcases run_good_or_bad (P := Roomy)
    (fun w => initial.toNat + w.notified = w.sem.concurrency.toNat + w.granted)
    (fun w => w.sem.concurrency.toNat + w.granted < initial.toNat + w.notified)
    (by
      intro w a w' heq hroom hstep
      rcases step_balance w w' a hstep with hsame | ⟨rfl, hnobody, hnot, hgrant, hcount⟩
      · omega
      · -- There was room, so the counter is one more.
        have hne : w.sem.concurrency.toNat ≠ 2 ^ 64 - 1 := by
          intro hfull
          exact hroom rfl hnobody (UInt64.toNat_inj.1 (hfull.trans hmax.symm))
        have hlt := w.sem.concurrency.toNat_lt
        omega)
    (by
      intro w a w' heq hroom hstep
      rw [Roomy, not_forall] at hroom
      rcases hroom with ⟨rfl, hroom⟩
      rw [not_forall] at hroom
      rcases hroom with ⟨hnobody, hfull⟩
      rw [not_not] at hfull
      rcases step_balance w w' .notify hstep with hsame | ⟨-, -, hnot, hgrant, hcount⟩
      · -- Nobody was handed the permit.
        simp only [step, FiberSemaphore.notify, hnobody, Option.some.injEq] at hstep
        rw [← hstep] at hsame
        simp only [FiberSemaphore.toNat_succ, hfull, hmax] at hsame
        omega
      · rw [hfull, hmax] at heq hcount
        omega)
    (by
      intro w a w' hlt hstep
      have hbound := w.sem.concurrency.toNat_lt
      rcases step_balance w w' a hstep with hsame | ⟨-, -, hnot, hgrant, hcount⟩
      · omega
      · omega)
    acts (new initial) w rfl hrun with ⟨hall, heq⟩ | ⟨hnot, hlt⟩
  · exact iff_of_true heq hall
  · exact iff_of_false (Nat.ne_of_gt hlt) hnot

/-- In every run the permits of a semaphore are in its counter or were given out, as long as
    there is room in the counter; those who wait for one are scheduled in the order in which
    they queued, and once each. -/
theorem semaphore_conserved (initial : UInt64) (acts : List Action) (w : SemWorld)
    (hrun : run step acts (new initial) = some w) :
    (initial.toNat + w.notified) % 2 ^ 64 = (w.sem.concurrency.toNat + w.granted) % 2 ^ 64 ∧
    (initial.toNat + w.notified < 2 ^ 64 →
      initial.toNat + w.notified = w.sem.concurrency.toNat + w.granted) ∧
    (initial.toNat + w.notified = w.sem.concurrency.toNat + w.granted ↔
      Along step Roomy acts (new initial)) ∧
    (w.sem.waiters ≠ [] → w.sem.concurrency = 0) ∧
    w.queued = w.scheduled ++ w.sem.waiters ∧ w.sem.waiters.Nodup ∧
    ∀ f, w.scheduled.count f =
      w.resumed.count f + if w.pos f ≠ .running ∧ f ∉ w.sem.waiters then 1 else 0 := by
  have h := run_inv (Conserved initial) (fun w a w' hw _ hstep => step_conserved initial w w' a hw
    hstep) acts (new initial) w (conserved_new initial) (along_true acts (new initial)) hrun
  exact ⟨h.modulo, h.exact, exact_iff_roomy initial acts w hrun, h.empty, h.order, h.nodup,
    h.once⟩

/-- Two fibers wait, and the first is handed a permit before it has yielded. -/
theorem semaphore_conserved_early :
    ∃ w, run step [.wait 1, .wait 2, .wait 3, .notify, .yieldToHold 2, .resume 2] (new 1) = some w ∧
      w.queued = [2, 3] ∧ w.scheduled = [2] ∧ w.sem.waiters = [3] ∧
      (1 : UInt64).toNat + w.notified = w.sem.concurrency.toNat + w.granted := by
  have hall : (run step [.wait 1, .wait 2, .wait 3, .notify, .yieldToHold 2, .resume 2]
      (new 1)).map (fun w => (w.queued, w.scheduled, w.sem.waiters, w.notified)) =
      some ([2, 3], [2], [3], 1) := rfl
  rcases Option.map_eq_some_iff.1 hall with ⟨w, hrun, hw⟩
  simp only [Prod.mk.injEq] at hw
  rcases hw with ⟨hqueued, hsched, hwaiters, hnotified⟩
  have hexact := (semaphore_conserved 1 _ w hrun).2.1
  exact ⟨w, hrun, hqueued, hsched, hwaiters, hexact (by rw [hnotified]; decide)⟩

/-- The counter starts with as many permits as a `size_t` can hold, and one more is lost. And
    of two waiters the second comes back first: both have been handed a permit, and the second
    is the first to yield. -/
theorem semaphore_wraps :
    (∃ w, run step [.notify] (new 0xFFFFFFFFFFFFFFFF) = some w ∧
      (0xFFFFFFFFFFFFFFFF : UInt64).toNat + w.notified ≠
        w.sem.concurrency.toNat + w.granted) ∧
    ∃ w, run step [.wait 2, .wait 3, .notify, .notify, .yieldToHold 3, .resume 3,
        .yieldToHold 2, .resume 2] (new 0) = some w ∧
      w.queued = [2, 3] ∧ w.scheduled = [2, 3] ∧ w.resumed = [3, 2] := by
  constructor
  · refine ⟨_, rfl, ?_⟩
    decide
  · exact ⟨_, rfl, rfl, rfl, rfl⟩

end SemWorld

end YkServer
