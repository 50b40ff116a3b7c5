import YkServer.Lib.Table
import YkServer.Lib.Weights
import YkServer.Theory.Worker.Semaphore

/-!
# Worker Groups

The permits of a group are in the counter of its semaphore, with a thread, or lost. A call
of `schedule` has one from `wait` on and passes it to the callback, the first
`waitAll` collects them, and a callback that throws takes its permit with it.

So as many callbacks as there are permits can be accepted and not finished, and when
`waitAll` has got all of them there is none. When nothing is under way the permits that
are missing are those of the callbacks that have thrown.

## Main definitions

* `GroupPos.held`: The permits of a thread.
* `WorkerGroup.Permits`: Where the permits are, and who waits.
* `WorkerGroup.Quiet`: Nothing is under way.
* `WorkerGroup.taken`, `WorkerGroup.lost`: The permits that `waitAll` has, and that are lost.

## Theorems

* `step_permits`: Every step keeps the permits.
* `group_bounded`: The bound and the barrier, in every run.
* `permits_survive_iff`: When the permits are all there again.
-/

namespace YkServer

open Lib

/-- How many permits a thread has, and those that it has lost. -/
def GroupPos.held (batch : Nat) : GroupPos → Nat
  | .scheduling | .accepted | .running | .finished | .thrown => 1
  | .drain i | .drainQueued i => i
  | .drained => batch
  | _ => 0

/-- The permits that `waitAll` has got. -/
def GroupPos.taken (batch : Nat) : GroupPos → Nat
  | .drain i | .drainQueued i => i
  | .drained => batch
  | _ => 0

/-- The permits that are lost. -/
def GroupPos.lost : GroupPos → Nat
  | .thrown => 1
  | _ => 0

/-- A thread that is in the queue of the semaphore. -/
def GroupPos.Waiting : GroupPos → Prop
  | .scheduleQueued | .drainQueued _ => True
  | _ => False

/-- Who is handed a permit has one more. -/
theorem GroupPos.held_woken (batch : Nat) (pos : GroupPos) (h : pos.Waiting) :
    pos.woken.held batch = pos.held batch + 1 := by
  cases pos with
  | scheduleQueued | drainQueued => rfl
  | scheduleWait | scheduling | scheduled | waitAll | drain | drained | skipped | accepted
  | running | finished | ended | thrown => exact h.elim

namespace WorkerGroup

/-- Where the permits are, and who waits for one. -/
structure Permits (g : WorkerGroup) : Prop where
  total : g.sem.concurrency.toNat + (g.threads.map (GroupPos.held g.batchSize.toNat)).sum =
    g.batchSize.toNat
  nodup : g.sem.waiters.Nodup
  waiting : ∀ k ∈ g.sem.waiters, ∃ pos, g.threads[k]? = some pos ∧ pos.Waiting

theorem permits_new (batchSize : UInt32) : Permits (new batchSize) := by
  refine ⟨?_, List.nodup_nil, ?_⟩
  · simp only [new, FiberSemaphore.new, List.map_nil, List.sum_nil, Nat.add_zero]
    exact UInt32.toNat_toUInt64 batchSize
  · intro k hk
    exact absurd hk List.not_mem_nil

theorem Permits.queued {g : WorkerGroup} (h : Permits g) :
    Queued GroupPos.Waiting g.threads g.sem.waiters :=
  ⟨h.nodup, h.waiting⟩

/-- A thread that does not wait goes on, and the semaphore keeps its queue. -/
theorem queued_goto (g : WorkerGroup) (h : Permits g) (i : Nat) (pos pos' : GroupPos)
    (hi : g.threads[i]? = some pos) (hpos : ¬pos.Waiting) :
    Queued GroupPos.Waiting (g.threads.set i pos') g.sem.waiters :=
  queued_set g.threads _ h.queued i pos pos' hi (h.queued.not_mem i pos hi hpos)

/-- A thread goes on with the same permits. -/
theorem permits_goto (g : WorkerGroup) (h : Permits g) (i : Nat) (pos pos' : GroupPos)
    (hi : g.threads[i]? = some pos) (hpos : ¬pos.Waiting)
    (hheld : pos'.held g.batchSize.toNat = pos.held g.batchSize.toNat) :
    Permits (g.goto i pos') := by
  have hqueue := queued_goto g h i pos pos' hi hpos
  refine ⟨?_, hqueue.nodup, hqueue.waits⟩
  have hsum := sum_set (GroupPos.held g.batchSize.toNat) g.threads i pos pos' hi
  have htotal := h.total
  simp only [goto]
  omega

/-- A thread calls `wait`, and has a permit or is in the queue. -/
theorem permits_wait (g : WorkerGroup) (h : Permits g) (i : Nat) (pos got queued : GroupPos)
    (hi : g.threads[i]? = some pos) (hpos : ¬pos.Waiting)
    (hgot : got.held g.batchSize.toNat = pos.held g.batchSize.toNat + 1)
    (hqueued : queued.held g.batchSize.toNat = pos.held g.batchSize.toNat)
    (hwait : queued.Waiting) (b : Bool) (s : FiberSemaphore Nat) (hrun : g.sem.wait i = (b, s)) :
    Permits (goto { g with sem := s } i (if b then got else queued)) := by
  have htotal := h.total
  have hsum := sum_set (GroupPos.held g.batchSize.toNat) g.threads i pos
  rcases FiberSemaphore.wait_queued g.sem s g.threads h.queued i pos got queued hi hpos hwait b
    hrun with ⟨hqueue, ⟨rfl, hcount⟩ | ⟨rfl, hzero, hzero'⟩⟩
  · -- There was a permit, and it is with the thread now.
    refine ⟨?_, hqueue.nodup, hqueue.waits⟩
    have hnew := hsum got hi
    simp only [goto, if_true]
    omega
  · refine ⟨?_, hqueue.nodup, hqueue.waits⟩
    have hnew := hsum queued hi
    simp only [goto, Bool.false_eq_true, if_false]
    omega

/-- A thread gives its permit back. -/
theorem permits_notify (g : WorkerGroup) (h : Permits g) (i : Nat) (pos pos' : GroupPos)
    (hi : g.threads[i]? = some pos) (hpos : ¬pos.Waiting)
    (hheld : pos'.held g.batchSize.toNat + 1 = pos.held g.batchSize.toNat) :
    Permits (notify (g.goto i pos')) := by
  have htotal := h.total
  have hsum := sum_set (GroupPos.held g.batchSize.toNat) g.threads i pos pos' hi
  unfold notify
  rcases hrun : (g.goto i pos').sem.notify with ⟨next, s⟩
  rcases FiberSemaphore.notify_queued g.sem s (g.threads.set i pos')
    (queued_goto g h i pos pos' hi hpos) GroupPos.woken next hrun with
    ⟨k, p, rfl, hk, hwait, hmodify, hcount, hqueue⟩ | ⟨rfl, hcount, hnobody⟩
  · -- The first in the queue has it now.
    have hwoken := sum_set (GroupPos.held g.batchSize.toNat) (g.threads.set i pos') k p p.woken hk
    have hone := GroupPos.held_woken g.batchSize.toNat p hwait
    simp only [goto, hmodify]
    refine ⟨?_, hqueue.nodup, hqueue.waits⟩
    simp only [hcount]
    omega
  · have hsmall := g.batchSize.toNat_lt
    have hqueue : Queued GroupPos.Waiting (g.threads.set i pos') s.waiters := by
      rw [hnobody]
      exact queued_nil _
    refine ⟨?_, hqueue.nodup, hqueue.waits⟩
    -- There are not more permits than at the beginning, so the counter does not wrap.
    simp only [goto, hcount]
    omega

theorem permits_concat (g : WorkerGroup) (h : Permits g) (pos : GroupPos)
    (hheld : pos.held g.batchSize.toNat = 0) :
    Permits { g with threads := g.threads ++ [pos] } := by
  have hqueue := queued_concat g.threads _ h.queued pos
  refine ⟨?_, hqueue.nodup, hqueue.waits⟩
  have htotal := h.total
  simp only [sum_concat, hheld, Nat.add_zero]
  exact htotal

/-- A call of `schedule` passes its permit to the callback. -/
theorem permits_schedule (g : WorkerGroup) (h : Permits g) (i : Nat)
    (hi : g.threads[i]? = some .scheduling) :
    Permits { g with threads := g.threads.set i .scheduled ++ [.accepted] } := by
  have htotal := h.total
  have hsum := sum_set (GroupPos.held g.batchSize.toNat) g.threads i .scheduling .scheduled hi
  have hqueue := queued_concat _ _ (queued_goto g h i .scheduling .scheduled hi (fun hw => hw))
    .accepted
  refine ⟨?_, hqueue.nodup, hqueue.waits⟩
  simp only [sum_concat, GroupPos.held] at hsum htotal ⊢
  omega

theorem goOn_permits (g g' : WorkerGroup) (h : Permits g) (i : Nat) (pos : GroupPos)
    (hi : g.threads[i]? = some pos) (hstep : g.goOn i pos = some g') : Permits g' := by
  cases pos with
  | scheduleWait =>
      simp only [goOn] at hstep
      rcases hrun : g.sem.wait i with ⟨b, s⟩
      have hnew := permits_wait g h i .scheduleWait .scheduling .scheduleQueued hi
        (fun hw => hw) rfl rfl trivial b s hrun
      rw [hrun] at hstep
      cases b <;> cases hstep <;> exact hnew
  | scheduling =>
      cases hstep
      exact permits_schedule g h i hi
  | waitAll =>
      simp only [goOn] at hstep
      split at hstep
      · cases hstep
        exact permits_goto g h i .waitAll .skipped hi (fun hw => hw) rfl
      · cases hstep
        have hnew := permits_goto g h i .waitAll (.drain 0) hi (fun hw => hw) rfl
        exact ⟨hnew.total, hnew.nodup, hnew.waiting⟩
  -- `waitAll` takes one permit after another, up to the size of the batch.
  | drain n =>
      simp only [goOn] at hstep
      split at hstep
      · rcases hrun : g.sem.wait i with ⟨b, s⟩
        have hnew := permits_wait g h i (.drain n) (.drain (n + 1)) (.drainQueued n) hi
          (fun hw => hw) rfl rfl trivial b s hrun
        rw [hrun] at hstep
        cases b <;> cases hstep <;> exact hnew
      · rename_i hall
        cases hstep
        -- It has no more than there are.
        have hle := le_sum (GroupPos.held g.batchSize.toNat) g.threads _ (List.mem_of_getElem? hi)
        have htotal := h.total
        refine permits_goto g h i (.drain n) .drained hi (fun hw => hw) ?_
        simp only [GroupPos.held] at hle ⊢
        omega
  | accepted =>
      cases hstep
      exact permits_goto g h i .accepted .running hi (fun hw => hw) rfl
  | running =>
      cases hstep
      exact permits_goto g h i .running .finished hi (fun hw => hw) rfl
  | finished =>
      cases hstep
      exact permits_notify g h i .finished .ended hi (fun hw => hw) rfl
  | scheduleQueued | scheduled | drainQueued | drained | skipped | ended | thrown => cases hstep

theorem step_permits (g g' : WorkerGroup) (a : Action) (h : Permits g)
    (hstep : step a g = some g') : Permits g' := by
  cases a with
  | schedule =>
      cases hstep
      exact permits_concat g h .scheduleWait rfl
  | waitAll =>
      cases hstep
      exact permits_concat g h .waitAll rfl
  | go i =>
      rcases Option.bind_eq_some_iff.1 hstep with ⟨pos, hi, hgo⟩
      exact goOn_permits g g' h i pos hi hgo
  | throw i =>
      simp only [step] at hstep
      split at hstep
      · rename_i hi
        cases hstep
        -- The callback does not come to its `notify`, and keeps the permit for good.
        exact permits_goto g h i .running .thrown hi (fun hw => hw) rfl
      · cases hstep

theorem run_permits (batchSize : UInt32) (acts : List Action) (g : WorkerGroup)
    (hrun : run step acts (new batchSize) = some g) : Permits g :=
  run_inv Permits (fun g a g' hg _ hstep => step_permits g g' a hg hstep) acts (new batchSize) g
    (permits_new batchSize) (along_true acts (new batchSize)) hrun

/-! ## The bound and the barrier -/

/-- A callback that was accepted and has not ended. -/
def unfinished (pos : GroupPos) : Bool := pos = .accepted || pos = .running

theorem step_batchSize (g g' : WorkerGroup) (a : Action) (hstep : step a g = some g') :
    g'.batchSize = g.batchSize := by
  cases a with
  | schedule | waitAll =>
      cases hstep
      rfl
  | go i =>
      rcases Option.bind_eq_some_iff.1 hstep with ⟨pos, _, hgo⟩
      cases pos with
      | scheduleWait =>
          simp only [goOn] at hgo
          split at hgo <;> cases hgo <;> rfl
      | waitAll =>
          simp only [goOn] at hgo
          split at hgo <;> cases hgo <;> rfl
      | drain n =>
          simp only [goOn] at hgo
          split at hgo
          · split at hgo <;> cases hgo <;> rfl
          · cases hgo
            rfl
      | finished =>
          cases hgo
          unfold notify
          split <;> rfl
      | scheduling | accepted | running =>
          cases hgo
          rfl
      | scheduleQueued | scheduled | drainQueued | drained | skipped | ended | thrown => cases hgo
  | throw i =>
      simp only [step] at hstep
      split at hstep <;> cases hstep
      rfl

theorem run_batchSize (batchSize : UInt32) (acts : List Action) (g : WorkerGroup)
    (hrun : run step acts (new batchSize) = some g) : g.batchSize = batchSize :=
  run_inv (fun g => g.batchSize = batchSize)
    (fun g a g' hg _ hstep => (step_batchSize g g' a hstep).trans hg) acts (new batchSize) g rfl
    (along_true acts (new batchSize)) hrun

/-- In every run at most as many callbacks as the batch has are accepted and not finished,
    and none is any more once the first `waitAll` has returned. -/
theorem group_bounded (batchSize : UInt32) (acts : List Action) (g : WorkerGroup)
    (hrun : run step acts (new batchSize) = some g) :
    g.threads.countP unfinished ≤ batchSize.toNat ∧
    (.drained ∈ g.threads → ∀ pos ∈ g.threads, pos ≠ .accepted ∧ pos ≠ .running) := by
  have h := run_permits batchSize acts g hrun
  have hsize := run_batchSize batchSize acts g hrun
  have htotal := h.total
  rw [hsize] at htotal
  refine ⟨?_, ?_⟩
  · have hcount : g.threads.countP unfinished ≤
        (g.threads.map (GroupPos.held batchSize.toNat)).sum := by
      refine countP_le_sum unfinished (GroupPos.held batchSize.toNat) g.threads ?_
      intro pos hpos
      rw [unfinished, Bool.or_eq_true, decide_eq_true_iff, decide_eq_true_iff] at hpos
      rcases hpos with rfl | rfl <;> exact Nat.le_refl 1
    omega
  · intro hdrained pos hpos
    -- All permits are with `waitAll`, and a callback would have one more.
    have hnone : pos ≠ .drained → pos.held batchSize.toNat = 0 := by
      intro hne
      have hle := add_le_sum (GroupPos.held batchSize.toNat) g.threads .drained pos hdrained hpos
        hne.symm
      have hdef : GroupPos.held batchSize.toNat .drained = batchSize.toNat := rfl
      omega
    refine ⟨?_, ?_⟩
    · rintro rfl
      have hzero := hnone GroupPos.noConfusion
      simp only [GroupPos.held] at hzero
      omega
    · rintro rfl
      have hzero := hnone GroupPos.noConfusion
      simp only [GroupPos.held] at hzero
      omega

/-- A batch of one: the second `schedule` waits for the first callback, and `waitAll` for the
    second. -/
theorem group_bounded_one :
    ∃ g, run step [.schedule, .go 0, .go 0, .schedule, .go 2, .go 1, .go 1, .go 1, .go 2, .waitAll,
        .go 4, .go 4, .go 3, .go 3, .go 3, .go 4] (new 1) = some g ∧
      .drained ∈ g.threads ∧ g.threads.countP unfinished ≤ (1 : UInt32).toNat ∧
      ∀ pos ∈ g.threads, pos ≠ .accepted ∧ pos ≠ .running := by
  have hall : run step [.schedule, .go 0, .go 0, .schedule, .go 2, .go 1, .go 1, .go 1, .go 2,
      .waitAll, .go 4, .go 4, .go 3, .go 3, .go 3, .go 4] (new 1) =
      some ⟨1, true, ⟨0, []⟩, [.scheduled, .ended, .scheduled, .ended, .drained]⟩ := rfl
  have hbound := group_bounded 1 _ _ hall
  exact ⟨_, hall, by decide, hbound.1, hbound.2 (by decide)⟩

/-! ## Exceptions -/

/-- No callback is accepted and not ended, none has a `notify` before it, and no permit is on
    its way to a callback. -/
def Quiet (g : WorkerGroup) : Prop :=
  ∀ pos ∈ g.threads, pos ≠ .scheduling ∧ pos ≠ .accepted ∧ pos ≠ .running ∧ pos ≠ .finished

def taken (g : WorkerGroup) : Nat := (g.threads.map (GroupPos.taken g.batchSize.toNat)).sum

def lost (g : WorkerGroup) : Nat := (g.threads.map GroupPos.lost).sum

/-- When nothing is under way a permit is with `waitAll` or lost. -/
theorem held_quiet (batch : Nat) (l : List GroupPos)
    (h : ∀ pos ∈ l, pos ≠ .scheduling ∧ pos ≠ .accepted ∧ pos ≠ .running ∧ pos ≠ .finished) :
    (l.map (GroupPos.held batch)).sum =
      (l.map (GroupPos.taken batch)).sum + (l.map GroupPos.lost).sum := by
  induction l with
  | nil => rfl
  | cons pos l ih =>
      have hrest := ih (fun p hp => h p (List.mem_cons_of_mem _ hp))
      have hone : pos.held batch = pos.taken batch + pos.lost := by
        rcases h pos List.mem_cons_self with ⟨h₁, h₂, h₃, h₄⟩
        cases pos with
        | scheduling => exact absurd rfl h₁
        | accepted => exact absurd rfl h₂
        | running => exact absurd rfl h₃
        | finished => exact absurd rfl h₄
        | drain | drainQueued | drained => exact (Nat.add_zero _).symm
        | scheduleWait | scheduleQueued | scheduled | waitAll | skipped | ended | thrown => rfl
      simp only [List.map_cons, List.sum_cons]
      omega

theorem lost_set (g : WorkerGroup) (i : Nat) (pos pos' : GroupPos)
    (hi : g.threads[i]? = some pos) (h : pos'.lost = pos.lost) :
    ((g.threads.set i pos').map GroupPos.lost).sum = g.lost := by
  have hsum := sum_set GroupPos.lost g.threads i pos pos' hi
  unfold lost
  omega

theorem lost_notify (g : WorkerGroup) : g.notify.lost = g.lost := by
  unfold notify
  rcases hrun : g.sem.notify with ⟨next, s⟩
  rcases next with _ | k
  · rfl
  · simp only [lost]
    rw [List.modify_eq_set_getElem?]
    rcases hk : g.threads[k]? with _ | pos
    · rfl
    · -- Who is woken goes on, and has lost nothing.
      refine lost_set g k pos pos.woken hk ?_
      cases pos <;> rfl

/-- Only an exception loses a permit. -/
theorem goOn_lost (g g' : WorkerGroup) (i : Nat) (pos : GroupPos)
    (hi : g.threads[i]? = some pos) (hstep : g.goOn i pos = some g') : g'.lost = g.lost := by
  cases pos with
  | scheduleWait =>
      simp only [goOn] at hstep
      split at hstep <;> cases hstep <;> exact lost_set g i _ _ hi rfl
  | scheduling =>
      cases hstep
      have hsame := lost_set g i .scheduling .scheduled hi rfl
      simp only [lost, goto, sum_concat, GroupPos.lost, Nat.add_zero] at hsame ⊢
      exact hsame
  | waitAll =>
      simp only [goOn] at hstep
      split at hstep <;> cases hstep <;> exact lost_set g i _ _ hi rfl
  | drain n =>
      simp only [goOn] at hstep
      split at hstep
      · split at hstep <;> cases hstep <;> exact lost_set g i _ _ hi rfl
      · cases hstep
        exact lost_set g i _ _ hi rfl
  | finished =>
      cases hstep
      rw [lost_notify]
      exact lost_set g i _ _ hi rfl
  | accepted | running =>
      cases hstep
      exact lost_set g i _ _ hi rfl
  | scheduleQueued | scheduled | drainQueued | drained | skipped | ended | thrown => cases hstep

def isThrow : Action → Bool
  | .throw _ => true
  | _ => false

theorem step_lost (g g' : WorkerGroup) (a : Action) (hstep : step a g = some g') :
    g'.lost = g.lost + if isThrow a then 1 else 0 := by
  cases a with
  | schedule | waitAll =>
      cases hstep
      simp only [lost, sum_concat, GroupPos.lost, isThrow, Bool.false_eq_true, if_false]
  | go i =>
      rcases Option.bind_eq_some_iff.1 hstep with ⟨pos, hi, hgo⟩
      exact goOn_lost g g' i pos hi hgo
  | throw i =>
      simp only [step] at hstep
      split at hstep
      · rename_i hi
        cases hstep
        have hsum := sum_set GroupPos.lost g.threads i .running .thrown hi
        exact hsum
      · cases hstep

/-- As many permits are lost as callbacks have thrown, by induction over the run. -/
theorem run_lost (acts : List Action) (g g' : WorkerGroup) (hrun : run step acts g = some g') :
    g'.lost = g.lost + acts.countP isThrow := by
  induction acts generalizing g with
  | nil =>
      cases hrun
      rfl
  | cons a acts ih =>
      rcases run_cons_eq_some a acts g g' hrun with ⟨g₁, hstep, hrest⟩
      rw [ih g₁ hrest, step_lost g g₁ a hstep, List.countP_cons]
      omega

/-- When nothing is under way, the permits that `waitAll` has not got are all in the counter
    if and only if no callback has thrown. -/
theorem permits_survive_iff (batchSize : UInt32) (acts : List Action) (g : WorkerGroup)
    (hrun : run step acts (new batchSize) = some g) (hquiet : Quiet g) :
    g.sem.concurrency.toNat + g.taken = batchSize.toNat ↔ ∀ i, Action.throw i ∉ acts := by
  have htotal := (run_permits batchSize acts g hrun).total
  rw [run_batchSize batchSize acts g hrun, held_quiet batchSize.toNat g.threads hquiet] at htotal
  have hlost : g.lost = acts.countP isThrow := by
    rw [run_lost acts _ g hrun]
    exact Nat.zero_add _
  have htaken : g.taken = (g.threads.map (GroupPos.taken batchSize.toNat)).sum := by
    rw [taken, run_batchSize batchSize acts g hrun]
  have hnone : acts.countP isThrow = 0 ↔ ∀ i, Action.throw i ∉ acts := by
    rw [List.countP_eq_zero]
    constructor
    · intro hall i hi
      exact hall _ hi rfl
    · intro hall a ha hthrow
      cases a with
      | throw i => exact hall i ha
      | schedule | waitAll | go => cases hthrow
  rw [← hnone, ← hlost, lost]
  omega

/-- A callback returns, and the permit is there again. -/
theorem permits_survive_returned :
    ∃ g, run step [.schedule, .go 0, .go 0, .go 1, .go 1, .go 1] (new 1) = some g ∧ Quiet g ∧
      g.sem.concurrency.toNat + g.taken = (1 : UInt32).toNat := by
  have hall : run step [.schedule, .go 0, .go 0, .go 1, .go 1, .go 1] (new 1) =
      some ⟨1, false, ⟨1, []⟩, [.scheduled, .ended]⟩ := rfl
  have hquiet : Quiet ⟨1, false, ⟨1, []⟩, [.scheduled, .ended]⟩ := by
    intro pos hpos
    simp only [List.mem_cons, List.not_mem_nil, or_false] at hpos
    rcases hpos with rfl | rfl <;> decide
  refine ⟨_, hall, hquiet, (permits_survive_iff 1 _ _ hall hquiet).2 ?_⟩
  intro i
  simp only [List.mem_cons, reduceCtorEq, List.not_mem_nil, or_false, not_false_iff]

/-- The only callback of a batch of one throws, and nothing can be scheduled any more. -/
theorem permits_leak :
    ∃ g, run step [.schedule, .go 0, .go 0, .go 1, .throw 1, .waitAll, .go 2, .go 2] (new 1) =
        some g ∧
      Quiet g ∧ g.sem.concurrency.toNat + g.taken ≠ (1 : UInt32).toNat ∧
      g.threads[2]? = some (.drainQueued 0) := by
  refine ⟨⟨1, true, ⟨0, [2]⟩, [.scheduled, .thrown, .drainQueued 0]⟩, rfl, ?_, by decide, rfl⟩
  intro pos hpos
  simp only [List.mem_cons, List.not_mem_nil, or_false] at hpos
  rcases hpos with rfl | rfl | rfl <;> decide

end WorkerGroup

end YkServer
