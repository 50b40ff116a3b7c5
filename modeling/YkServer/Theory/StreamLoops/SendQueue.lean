import YkServer.Theory.StreamLoops.Permits

/-!
# The Send Queue

`enqueue` notifies `m_sem` only when the queue was empty, and after it has released the
lock. So a queue that is not empty has been noticed, or is about to be: there is a permit,
or the thread that made the queue non-empty is on its way to `notify`, or the writer
has a permit and is on its way to the queue. `m_sem` is a counter of 64 bits and gets a
permit from every `innerClose`, so this holds as long as it has not wrapped. The counter
is never above the number of calls of `notify`, so that takes `2 ^ 64` of them.

Until `innerClose` is called or `doSend` fails there is only one writer, ever, since the
reader that was started with it ends in `innerClose` and there is no other connection
before that. So what was queued is what was sent, then what the writer has in its hands,
then the queue. A writer that ends before throws the rest of the queue away, and sends
nothing any more.

## Main definitions

* `StreamLoops.Roomy`: The counter does not wrap.
* `StreamLoops.Noticed`: The queue and who looks after it.
* `StreamLoops.Intact`: What was queued and what was sent.

## Theorems

* `step_noticed`, `step_intact`: Every step keeps these.
* `roomy_of_small`: When the counter may wrap.
* `send_queue_kept`: The queue, in every run.
* `send_queue_wraps`: A message that nobody looks after.
-/

namespace YkServer

open Lib

namespace StreamLoops

/-- `m_sem.notify()` gives a permit to a writer that waits, or to the counter. -/
theorem notify_cases (w : StreamLoops) (h : Queued LoopThread.WaitsToSend w.threads w.sem.waiters) :
    ∃ s l, w.notify = { w with sem := s, threads := l, notified := w.notified + 1 } ∧
      ((∃ k, w.threads[k]? = some (.write .queued) ∧ l = w.threads.set k (.write .swap) ∧
          s.concurrency = w.sem.concurrency) ∨
        (l = w.threads ∧ w.sem.waiters = [] ∧
          s.concurrency.toNat = (w.sem.concurrency.toNat + 1) % 2 ^ 64)) := by
  unfold notify
  rcases hrun : w.sem.notify with ⟨next, s⟩
  rcases FiberSemaphore.notify_queued w.sem s w.threads h LoopThread.woken next hrun with
    ⟨k, u, rfl, hk, hu, hmodify, hcount, _⟩ | ⟨rfl, hcount, _⟩
  · rw [LoopThread.WaitsToSend] at hu
    rw [hu] at hk hmodify
    exact ⟨s, _, by simp only [hmodify, LoopThread.woken], Or.inl ⟨k, hk, rfl, hcount⟩⟩
  · rcases FiberSemaphore.notify_spec w.sem s none hrun with ⟨k, hno, -⟩ | ⟨-, hnobody, -⟩
    · cases hno
    · exact ⟨s, w.threads, rfl, Or.inr ⟨rfl, hnobody, hcount⟩⟩

/-- `m_waitSem.notify()` moves at most a call of `start`. -/
theorem notifyWait_cases (w : StreamLoops)
    (h : Queued LoopThread.Waits w.threads w.waitSem.waiters) :
    ∃ s l, w.notifyWait = { w with waitSem := s, threads := l } ∧
      (l = w.threads ∨ ∃ k t, w.threads[k]? = some t ∧ t.Waits ∧ l = w.threads.set k t.woken) := by
  unfold notifyWait
  rcases hrun : w.waitSem.notify with ⟨next, s⟩
  rcases FiberSemaphore.notify_queued w.waitSem s w.threads h LoopThread.woken next hrun with
    ⟨k, u, rfl, hk, hu, hmodify, _, _⟩ | ⟨rfl, _, _⟩
  · exact ⟨s, _, by simp only [hmodify], Or.inr ⟨k, u, hk, hu, rfl⟩⟩
  · exact ⟨s, w.threads, rfl, Or.inl rfl⟩

/-! ## Nothing is stuck -/

/-- Somebody is about to notify the writer, or the writer is about to look. -/
def Prompt (l : List LoopThread) : Prop := .enqueue true ∈ l ∨ .write .swap ∈ l

/-- The action is no `m_sem.notify()` that finds the counter at its largest value and nobody
    waiting. -/
def Roomy (w : StreamLoops) (a : Action) : Prop :=
  ∀ i result p now, a = .go i result p now →
    (w.threads[i]? = some (.enqueue true) ∨
      ∃ caller, w.threads[i]? = some (.innerClose caller .notify)) →
    w.sem.waiters = [] → w.sem.concurrency ≠ 0xFFFFFFFFFFFFFFFF

/-- Somebody looks after a queue that is not empty. -/
def Noticed (w : StreamLoops) : Prop :=
  w.queue ≠ [] → 0 < w.sem.concurrency.toNat ∨ Prompt w.threads

theorem noticed_new (connected : Bool) (now : UInt64) : Noticed (new connected now) :=
  fun hne => absurd rfl hne

theorem prompt_set (l : List LoopThread) (i : Nat) (t t' : LoopThread) (hi : l[i]? = some t)
    (hpush : t ≠ .enqueue true) (hswap : t ≠ .write .swap) (h : Prompt l) :
    Prompt (l.set i t') := by
  -- Nobody but the thread that goes on can get lost.
  have hother : ∀ u, u ∈ l → t ≠ u → u ∈ l.set i t' := by
    intro u hu hne
    rcases at_or_mem_set l i u t' hu with hat | hmem
    · rw [hi, Option.some.injEq] at hat
      exact absurd hat hne
    · exact hmem
  exact h.imp (fun hu => hother _ hu hpush) (fun hu => hother _ hu hswap)

/-- A thread that nobody relies on goes on. -/
theorem noticed_goto (w w' : StreamLoops) (h : Noticed w) (i : Nat) (t t' : LoopThread)
    (hi : w.threads[i]? = some t) (hsem : w'.sem.concurrency = w.sem.concurrency)
    (hqueue : w'.queue = w.queue ∨ w'.queue = []) (hthreads : w'.threads = w.threads.set i t')
    (hpush : t ≠ .enqueue true) (hswap : t ≠ .write .swap) : Noticed w' := by
  intro hne
  rw [hsem, hthreads]
  rcases hqueue with hsame | hempty
  · rw [hsame] at hne
    exact (h hne).imp_right (prompt_set w.threads i t t' hi hpush hswap)
  · -- There is nothing in the queue any more.
    exact absurd hempty hne

/-- A permit for the writer is enough, where there is room for it in the counter. -/
theorem noticed_notify (w : StreamLoops)
    (hsending : Queued LoopThread.WaitsToSend w.threads w.sem.waiters)
    (hroom : w.sem.waiters = [] → w.sem.concurrency ≠ 0xFFFFFFFFFFFFFFFF) : Noticed w.notify := by
  rcases notify_cases w hsending with
    ⟨s, l, heq, ⟨k, hk, rfl, -⟩ | ⟨rfl, hnobody, hcount⟩⟩
  · rw [heq]
    -- The writer was waiting, and looks next.
    exact fun _ => Or.inr (Or.inr (mem_set_self w.threads k _ _ hk))
  · rw [heq]
    -- Nobody was waiting, and the counter is one more.
    have hne : w.sem.concurrency.toNat ≠ 2 ^ 64 - 1 :=
      fun hfull => hroom hnobody (UInt64.toNat_inj.1 hfull)
    have hlt := w.sem.concurrency.toNat_lt
    intro _
    left
    simp only [hcount]
    omega

theorem noticed_notifyWait (w : StreamLoops) (h : Noticed w)
    (hqueued : Queued LoopThread.Waits w.threads w.waitSem.waiters) : Noticed w.notifyWait := by
  rcases notifyWait_cases w hqueued with ⟨s, l, heq, rfl | ⟨k, t, hk, ⟨second, rfl⟩, rfl⟩⟩
  · rw [heq]
    exact h
  · rw [heq]
    exact noticed_goto w _ h k _ _ hk rfl (Or.inl rfl) rfl LoopThread.noConfusion
      LoopThread.noConfusion

theorem noticed_spawn (w w' : StreamLoops) (h : Noticed w) (t : LoopThread)
    (hsem : w'.sem = w.sem) (hqueue : w'.queue = w.queue)
    (hthreads : w'.threads = w.threads ++ [t]) : Noticed w' := by
  intro hne
  rw [hqueue] at hne
  rw [hsem, hthreads]
  exact (h hne).imp_right (Or.imp (List.mem_append_left _) (List.mem_append_left _))

theorem goes_noticed (w w' : StreamLoops) (hpermits : Permits w) (h : Noticed w) (i : Nat)
    (t : LoopThread) (hi : w.threads[i]? = some t) (hgoes : Goes w i t w')
    (hroom : (t = .enqueue true ∨ ∃ caller, t = .innerClose caller .notify) →
      w.sem.waiters = [] → w.sem.concurrency ≠ 0xFFFFFFFFFFFFFFFF) : Noticed w' := by
  have hqueued := fun t' => queued_set w.threads _ hpermits.queued i t t' hi
    (hpermits.queued.not_mem i t hi hgoes.awake.1)
  have hsending := fun t' => queued_set w.threads _ hpermits.sending i t t' hi
    (hpermits.sending.not_mem i t hi hgoes.awake.2)
  have hgoto := fun w' t' => noticed_goto w w' h i t t' hi
  cases hgoes with
  | moves t t' hmoves =>
      -- None of these is the thread somebody relies on.
      refine hgoto _ t' rfl (Or.inl rfl) rfl ?_ ?_ <;> rintro rfl <;> cases hmoves
  | wait | cancel | clearTimer | reconnect | armStart | armRead | store | sent | notSent | shut
  | closeCancel | closeShut =>
      exact hgoto _ _ rfl (Or.inl rfl) rfl (fun hno => by cases hno) (fun hno => by cases hno)
  -- These empty the queue.
  | leave | clear =>
      exact hgoto _ _ rfl (Or.inr rfl) rfl (fun hno => by cases hno) (fun hno => by cases hno)
  | startRead =>
      have hset := hgoto (w.goto i (.start .startWrite)) _ rfl (Or.inl rfl) rfl
        (fun hno => by cases hno) (fun hno => by cases hno)
      exact noticed_spawn _ _ hset (.read .top) rfl rfl rfl
  | startWrite =>
      have hset := hgoto (w.goto i (.start (.returned true))) _ rfl (Or.inl rfl) rfl
        (fun hno => by cases hno) (fun hno => by cases hno)
      exact noticed_spawn _ _ hset (.write .top) rfl rfl rfl
  | notifyStart | notifyRead | notifyWrite =>
      exact noticed_notifyWait _ (hgoto _ _ rfl (Or.inl rfl) rfl (fun hno => by cases hno)
        (fun hno => by cases hno)) (hqueued _)
  -- The writer takes everything there is.
  | swap => exact fun hne => absurd rfl hne
  | semWait got s hrun =>
      rcases FiberSemaphore.wait_spec w.sem s i got hrun with
        ⟨rfl, -, -⟩ | ⟨rfl, hzero, hzero', -⟩
      · -- It has the permit, and looks at the queue next.
        exact fun _ => Or.inr (Or.inr (mem_set_self w.threads i _ _ hi))
      · exact hgoto _ _ (hzero'.trans hzero.symm) (Or.inl rfl) rfl (fun hno => by cases hno)
          (fun hno => by cases hno)
  | notify caller => exact noticed_notify _ (hsending _) (hroom (Or.inr ⟨caller, rfl⟩))
  | enqueued => exact noticed_notify _ (hsending _) (hroom (Or.inl rfl))

theorem step_noticed (w w' : StreamLoops) (a : Action) (hpermits : Permits w) (h : Noticed w)
    (hroom : Roomy w a) (hstep : step a w = some w') : Noticed w' := by
  cases step_happens w w' a hstep with
  | connect | setAutoConnect | listExpiredCb => exact h
  | start | callback => exact noticed_spawn w _ h (.start (.wait false)) rfl rfl rfl
  | enqueue x =>
      intro _
      -- Who finds the queue empty is going to notify, and otherwise somebody already is.
      by_cases hempty : w.queue = []
      · refine Or.inr (Or.inl ?_)
        simp only [spawn, hempty, List.isEmpty_nil]
        exact List.mem_append_right _ List.mem_cons_self
      · exact (h hempty).imp_right
          (Or.imp (List.mem_append_left _) (List.mem_append_left _))
  | close => exact noticed_spawn w _ h (.close .ifTimer) rfl rfl rfl
  | go i result p now t w' hi hgoes =>
      refine goes_noticed w w' hpermits h i t hi hgoes ?_
      rintro (rfl | ⟨caller, rfl⟩)
      · exact hroom i result p now rfl (Or.inl hi)
      · exact hroom i result p now rfl (Or.inr ⟨caller, hi⟩)

/-! ## The counter of the queue -/

/-- The counter is not above the number of calls of `m_sem.notify()`. -/
def Counted (w : StreamLoops) : Prop := w.sem.concurrency.toNat ≤ w.notified

theorem counted_notify (w : StreamLoops) (h : Counted w)
    (hsending : Queued LoopThread.WaitsToSend w.threads w.sem.waiters) :
    Counted w.notify ∧ w.notify.notified = w.notified + 1 := by
  rcases notify_cases w hsending with ⟨s, l, heq, ⟨k, -, -, hcount⟩ | ⟨-, -, hcount⟩⟩
  · rw [heq]
    refine ⟨?_, rfl⟩
    rw [Counted] at h ⊢
    simp only [hcount]
    omega
  · rw [heq]
    refine ⟨?_, rfl⟩
    rw [Counted] at h ⊢
    simp only [hcount]
    omega

theorem notifyWait_counted (w : StreamLoops) :
    w.notifyWait.sem = w.sem ∧ w.notifyWait.notified = w.notified := by
  unfold notifyWait
  split <;> exact ⟨rfl, rfl⟩

/-- The calls of `m_sem.notify()` are counted, and no other step adds to the counter. -/
theorem goes_counted (w w' : StreamLoops) (hpermits : Permits w) (h : Counted w) (i : Nat)
    (t : LoopThread) (hi : w.threads[i]? = some t) (hgoes : Goes w i t w') :
    Counted w' ∧ w.notified ≤ w'.notified ∧
      ((t = .enqueue true ∨ ∃ caller, t = .innerClose caller .notify) →
        w'.notified = w.notified + 1) := by
  have hsending := fun t' => queued_set w.threads _ hpermits.sending i t t' hi
    (hpermits.sending.not_mem i t hi hgoes.awake.2)
  have hno : ¬(t = .enqueue true ∨ ∃ caller, t = .innerClose caller .notify) →
      w'.sem = w.sem → w'.notified = w.notified → Counted w' ∧ w.notified ≤ w'.notified ∧
        ((t = .enqueue true ∨ ∃ caller, t = .innerClose caller .notify) →
          w'.notified = w.notified + 1) := by
    intro hnone hsem hnotified
    refine ⟨?_, Nat.le_of_eq hnotified.symm, fun hsome => absurd hsome hnone⟩
    rw [Counted, hsem, hnotified]
    exact h
  cases hgoes with
  | notify caller =>
      rcases counted_notify (w.goto i (.innerClose caller .clear)) h (hsending _) with ⟨hc, hone⟩
      exact ⟨hc, by rw [hone]; exact Nat.le_succ _, fun _ => hone⟩
  | enqueued =>
      rcases counted_notify (w.goto i (.enqueue false)) h (hsending _) with ⟨hc, hone⟩
      exact ⟨hc, by rw [hone]; exact Nat.le_succ _, fun _ => hone⟩
  | notifyStart | notifyRead | notifyWrite =>
      exact hno (by simp) (notifyWait_counted _).1 (notifyWait_counted _).2
  | semWait got s hrun =>
      -- The writer only takes a permit out.
      refine ⟨?_, Nat.le_refl _, fun hsome => absurd hsome (by simp)⟩
      rw [Counted] at h ⊢
      simp only [goto]
      rcases FiberSemaphore.wait_spec w.sem s i got hrun with
        ⟨-, -, hcount⟩ | ⟨-, hzero, hzero', -⟩
      · omega
      · rw [hzero', ← hzero]
        exact h
  | moves t t' hmoves => exact hno (by cases hmoves <;> simp) rfl rfl
  | wait | cancel | clearTimer | reconnect | startRead | startWrite | armStart | armRead | store
  | swap | sent | notSent | leave | shut | clear | closeCancel | closeShut =>
      exact hno (by simp) rfl rfl

theorem step_counted (w w' : StreamLoops) (a : Action) (hpermits : Permits w) (h : Counted w)
    (hstep : step a w = some w') :
    Counted w' ∧ w.notified ≤ w'.notified ∧ (¬Roomy w a → 2 ^ 64 ≤ w'.notified) := by
  have hsame : Counted w' → w'.notified = w.notified → (∀ i result p now, a ≠ .go i result p now) →
      Counted w' ∧ w.notified ≤ w'.notified ∧ (¬Roomy w a → 2 ^ 64 ≤ w'.notified) := by
    intro hc hnotified hgo
    refine ⟨hc, Nat.le_of_eq hnotified.symm, fun hno => absurd ?_ hno⟩
    exact fun i result p now ha => absurd ha (hgo i result p now)
  cases step_happens w w' a hstep with
  | connect | setAutoConnect | listExpiredCb | start | enqueue | close | callback =>
      exact hsame h rfl (fun _ _ _ _ => Action.noConfusion)
  | go i result p now t w' hi hgoes =>
      rcases goes_counted w w' hpermits h i t hi hgoes with ⟨hc, hle, hone⟩
      refine ⟨hc, hle, ?_⟩
      intro hno
      by_contra hsmall
      -- The counter is below the number of calls, which is not that large.
      refine hno ?_
      intro j result' p' now' ha hj _ hfull
      cases ha
      rw [Counted, hfull] at h
      have hmax : (0xFFFFFFFFFFFFFFFF : UInt64).toNat = 2 ^ 64 - 1 := rfl
      simp only [hi, Option.some.injEq] at hj
      have hnext := hone hj
      omega

/-- There is room in the counter for less than `2 ^ 64` calls of `m_sem.notify()`. -/
theorem roomy_of_small (connected : Bool) (now : UInt64) (acts : List Action) (w : StreamLoops)
    (hrun : run step acts (new connected now) = some w) (hsmall : w.notified < 2 ^ 64) :
    Along step Roomy acts (new connected now) := by
  rcases run_good_or_bad (P := Roomy) (fun w => Permits w ∧ Counted w)
    (fun w => (Permits w ∧ Counted w) ∧ 2 ^ 64 ≤ w.notified)
    (fun w a w' h _ hstep =>
      ⟨step_permits w w' a h.1 hstep, (step_counted w w' a h.1 h.2 hstep).1⟩)
    (by
      intro w a w' h hno hstep
      have hc := step_counted w w' a h.1 h.2 hstep
      exact ⟨⟨step_permits w w' a h.1 hstep, hc.1⟩, hc.2.2 hno⟩)
    (by
      rintro w a w' ⟨h, hlarge⟩ hstep
      have hc := step_counted w w' a h.1 h.2 hstep
      exact ⟨⟨step_permits w w' a h.1 hstep, hc.1⟩, Nat.le_trans hlarge hc.2.1⟩)
    acts (new connected now) w ⟨permits_new connected now, Nat.zero_le _⟩ hrun with
    ⟨hall, -⟩ | ⟨-, -, hlarge⟩
  · exact hall
  · exact absurd hlarge (Nat.not_le_of_lt hsmall)

end StreamLoops

/-! ## The order -/

namespace LoopThread

/-- A thread that is or was a writer, or may start one. -/
def everWrite : LoopThread → Nat
  | .start .startWrite | .write _ | .innerClose .doWrite _ => 1
  | t => t.coming

/-- A thread that has closed the socket in `innerClose`. -/
def closing : LoopThread → Nat
  | .innerClose _ .notify | .innerClose _ .clear | .read .notify => 1
  | _ => 0

/-- A writer that has left its loop and has cleared the queue. -/
def cleared : LoopThread → Nat
  | .write .notify | .write .ended => 1
  | _ => 0

/-- What a writer has taken out of the queue and has not sent. -/
def inHand : LoopThread → List Nat
  | .write (.doSend ctxs) => ctxs
  | _ => []

theorem inHand_of_not_write (t : LoopThread) (h : t.everWrite = 0) : t.inHand = [] := by
  cases t with
  | write => cases h
  | start | read | innerClose | enqueue | close => rfl

theorem cleared_le (t : LoopThread) : t.cleared ≤ t.everWrite := by
  cases t with
  | write pos => cases pos <;> exact (by first | exact Nat.zero_le _ | exact Nat.le_refl 1)
  | start | read | innerClose | enqueue | close => exact Nat.zero_le _

/-- A step of a thread that has no part in what is sent. -/
def Neutral (t t' : LoopThread) : Prop :=
  t'.closing ≤ t.closing ∧ t'.everWrite + t.readSide ≤ t.everWrite + t'.readSide ∧
    t.cleared ≤ t'.cleared ∧ t'.inHand = t.inHand

instance (t t' : LoopThread) : Decidable (Neutral t t') :=
  inferInstanceAs (Decidable (t'.closing ≤ t.closing ∧
    t'.everWrite + t.readSide ≤ t.everWrite + t'.readSide ∧ t.cleared ≤ t'.cleared ∧
    t'.inHand = t.inHand))

end LoopThread

namespace StreamLoops

open LoopThread (everWrite closing cleared inHand Neutral)

/-- What was queued is what was sent, what the writer has, and the queue. When the writer has
    left its loop some of it may be lost. -/
structure Intact (w : StreamLoops) : Prop where
  closing : (w.threads.map closing).sum = 0
  ever : (w.threads.map everWrite).sum ≤ (w.threads.map LoopThread.readSide).sum
  order : ∃ lost, w.pushed = w.sent ++ w.threads.flatMap inHand ++ lost ++ w.queue ∧
    (lost ≠ [] → 0 < (w.threads.map cleared).sum)

theorem intact_new (connected : Bool) (now : UInt64) : Intact (new connected now) :=
  ⟨rfl, Nat.le_refl _, [], rfl, fun hne => absurd rfl hne⟩

theorem intact_set (w w' : StreamLoops) (h : Intact w) (i : Nat) (t t' : LoopThread)
    (hi : w.threads[i]? = some t) (hpushed : w'.pushed = w.pushed) (hsent : w'.sent = w.sent)
    (hqueue : w'.queue = w.queue) (hthreads : w'.threads = w.threads.set i t')
    (hneutral : Neutral t t') : Intact w' := by
  rcases hneutral with ⟨hclosing, hever, hcleared, hhand⟩
  have hsumc := sum_set closing w.threads i t t' hi
  have hsume := sum_set everWrite w.threads i t t' hi
  have hsumr := sum_set LoopThread.readSide w.threads i t t' hi
  have hsuml := sum_set cleared w.threads i t t' hi
  have hnone := h.closing
  have hle := h.ever
  rcases h.order with ⟨lost, horder, hlost⟩
  refine ⟨?_, ?_, lost, ?_, ?_⟩
  · rw [hthreads]
    omega
  · rw [hthreads]
    omega
  · rw [hpushed, hsent, hqueue, hthreads, flatMap_set inHand w.threads i t t' hi hhand]
    exact horder
  · intro hne
    have hpos := hlost hne
    rw [hthreads]
    omega

theorem intact_spawn (w w' : StreamLoops) (h : Intact w) (t : LoopThread)
    (hpushed : w'.pushed = w.pushed) (hsent : w'.sent = w.sent) (hqueue : w'.queue = w.queue)
    (hthreads : w'.threads = w.threads ++ [t]) (hclosing : t.closing = 0) (hever : t.everWrite = 0)
    (hcleared : t.cleared = 0) : Intact w' := by
  have hhand := t.inHand_of_not_write hever
  have hle := h.ever
  rcases h.order with ⟨lost, horder, hlost⟩
  refine ⟨?_, ?_, lost, ?_, ?_⟩
  · rw [hthreads, sum_concat, hclosing]
    exact h.closing
  · rw [hthreads, sum_concat, sum_concat, hever]
    omega
  · rw [hpushed, hsent, hqueue, hthreads, List.flatMap_append, List.flatMap_singleton, hhand,
      List.append_nil]
    exact horder
  · rw [hthreads, sum_concat, hcleared]
    exact hlost

/-- A call of `start` starts a loop. -/
theorem intact_pass (w : StreamLoops) (h : Intact w) (i : Nat) (t t' loop : LoopThread)
    (hi : w.threads[i]? = some t) (hclosing : t'.closing + loop.closing = t.closing)
    (hever : t'.everWrite + loop.everWrite + t.readSide ≤
      t.everWrite + t'.readSide + loop.readSide)
    (hcleared : t'.cleared + loop.cleared = t.cleared) (hhand : t'.inHand = t.inHand)
    (hloop : loop.inHand = []) : Intact ((w.goto i t').spawn loop) := by
  have hsumc := sum_set closing w.threads i t t' hi
  have hsume := sum_set everWrite w.threads i t t' hi
  have hsumr := sum_set LoopThread.readSide w.threads i t t' hi
  have hsuml := sum_set cleared w.threads i t t' hi
  have hnone := h.closing
  have hle := h.ever
  rcases h.order with ⟨lost, horder, hlost⟩
  refine ⟨?_, ?_, lost, ?_, ?_⟩
  · simp only [spawn, goto, sum_concat]
    omega
  · simp only [spawn, goto, sum_concat]
    omega
  · simp only [spawn, goto, List.flatMap_append, List.flatMap_singleton, hloop, List.append_nil]
    rw [flatMap_set inHand w.threads i t t' hi hhand]
    exact horder
  · intro hne
    have hpos := hlost hne
    simp only [spawn, goto, sum_concat]
    omega

theorem intact_notify (w : StreamLoops) (h : Intact w)
    (hsending : Queued LoopThread.WaitsToSend w.threads w.sem.waiters) : Intact w.notify := by
  rcases notify_cases w hsending with ⟨s, l, heq, ⟨k, hk, rfl, _⟩ | ⟨rfl, _⟩⟩
  · rw [heq]
    exact intact_set w _ h k _ _ hk rfl rfl rfl rfl (by decide)
  · rw [heq]
    exact ⟨h.closing, h.ever, h.order⟩

theorem intact_notifyWait (w : StreamLoops) (h : Intact w)
    (hqueued : Queued LoopThread.Waits w.threads w.waitSem.waiters) : Intact w.notifyWait := by
  rcases notifyWait_cases w hqueued with ⟨s, l, heq, rfl | ⟨k, t, hk, ⟨second, rfl⟩, rfl⟩⟩
  · rw [heq]
    exact ⟨h.closing, h.ever, h.order⟩
  · rw [heq]
    refine intact_set w _ h k _ _ hk rfl rfl rfl rfl ?_
    cases second <;> decide

/-- The writer is the only one there was, and nothing is lost. -/
theorem Intact.alone {w : StreamLoops} (h : Intact w) (hpermits : Permits w) (i : Nat)
    (t : LoopThread) (hi : w.threads[i]? = some t) (hwrite : t.everWrite = 1)
    (hcleared : t.cleared = 0) :
    w.pushed = w.sent ++ t.inHand ++ w.queue ∧
      ∀ t', t'.everWrite = 1 → (w.threads.set i t').flatMap inHand = t'.inHand := by
  -- There has been one reader at most, and so one writer.
  have hone : (w.threads.map everWrite).sum ≤ 1 := h.ever.trans hpermits.readers
  have hexcept := sum_le_except cleared everWrite w.threads i t hi LoopThread.cleared_le
  rcases h.order with ⟨lost, horder, hlost⟩
  -- Something would be lost only if another writer had left.
  have hnothing : lost = [] := by
    by_contra hne
    have hpos := hlost hne
    omega
  refine ⟨?_, ?_⟩
  · rw [horder, hnothing, List.append_nil, flatMap_alone everWrite inHand
      LoopThread.inHand_of_not_write w.threads i t hi (by omega)]
  · intro t' hwrite'
    have hsum := sum_set everWrite w.threads i t t' hi
    have hnew : (w.threads.set i t')[i]? = some t' :=
      (getElem?_update w.threads i t t' hi i).trans (if_pos rfl)
    exact flatMap_alone everWrite inHand LoopThread.inHand_of_not_write _ i t' hnew (by omega)

/-- The sums when a writer stays one. -/
theorem intact_write (w : StreamLoops) (h : Intact w) (i : Nat) (pos pos' : WritePos)
    (hi : w.threads[i]? = some (.write pos)) (w' : StreamLoops)
    (hthreads : w'.threads = w.threads.set i (.write pos'))
    (horder : ∃ lost, w'.pushed = w'.sent ++ w'.threads.flatMap inHand ++ lost ++ w'.queue ∧
      (lost ≠ [] → 0 < (w'.threads.map cleared).sum)) : Intact w' := by
  have hsumc := sum_set closing w.threads i _ (.write pos') hi
  have hsume := sum_set everWrite w.threads i _ (.write pos') hi
  have hsumr := sum_set LoopThread.readSide w.threads i _ (.write pos') hi
  have hnone := h.closing
  have hle := h.ever
  have hdef : (LoopThread.write pos').closing = 0 ∧ (LoopThread.write pos).closing = 0 ∧
      (LoopThread.write pos').readSide = 0 ∧ (LoopThread.write pos).readSide = 0 ∧
      (LoopThread.write pos').everWrite = 1 ∧ (LoopThread.write pos).everWrite = 1 :=
    ⟨rfl, rfl, rfl, rfl, rfl, rfl⟩
  refine ⟨?_, ?_, horder⟩
  · rw [hthreads]
    omega
  · rw [hthreads]
    omega

theorem intact_swap (w : StreamLoops) (hpermits : Permits w) (h : Intact w) (i : Nat)
    (hi : w.threads[i]? = some (.write .swap)) :
    Intact (goto { w with queue := [] } i (.write (.doSend w.queue))) := by
  rcases h.alone hpermits i _ hi rfl rfl with ⟨hpushed, hhand⟩
  refine intact_write w h i .swap (.doSend w.queue) hi _ rfl ⟨[], ?_, fun hne => absurd rfl hne⟩
  simp only [goto, hhand (.write (.doSend w.queue)) rfl, List.append_nil]
  simp only [inHand, List.append_nil] at hpushed ⊢
  exact hpushed

theorem intact_sent (w : StreamLoops) (hpermits : Permits w) (h : Intact w) (i x : Nat)
    (ctxs : List Nat) (hi : w.threads[i]? = some (.write (.doSend (x :: ctxs)))) :
    Intact (goto { w with sent := w.sent ++ [x] } i (.write (.doSend ctxs))) := by
  rcases h.alone hpermits i _ hi rfl rfl with ⟨hpushed, hhand⟩
  refine intact_write w h i _ (.doSend ctxs) hi _ rfl ⟨[], ?_, fun hne => absurd rfl hne⟩
  simp only [goto, hhand (.write (.doSend ctxs)) rfl, List.append_nil]
  simp only [inHand] at hpushed ⊢
  -- The first of what is in hand goes to the end of what was sent.
  rw [hpushed, List.append_assoc w.sent [x], List.singleton_append]

/-- The writer leaves, and what is in the queue is lost. -/
theorem intact_leave (w : StreamLoops) (h : Intact w) (i : Nat)
    (hi : w.threads[i]? = some (.write .clear)) :
    Intact (goto { w with queue := [] } i (.write .notify)) := by
  rcases h.order with ⟨lost, horder, _⟩
  refine intact_write w h i .clear .notify hi _ rfl ⟨lost ++ w.queue, ?_, ?_⟩
  · simp only [goto, flatMap_set inHand w.threads i _ (.write .notify) hi rfl, List.append_nil]
    rw [horder, List.append_assoc _ lost]
  · intro _
    -- The writer itself is the one that has left.
    have hle := le_sum cleared (w.threads.set i (.write .notify)) (.write .notify)
      (mem_set_self w.threads i _ _ hi)
    exact Nat.lt_of_lt_of_le Nat.zero_lt_one hle

theorem Moves.neutral {w : StreamLoops} {t t' : LoopThread} (h : Moves w t t') : Neutral t t' := by
  cases h with
  | timer failed | noTimer failed => cases failed <;> decide
  | connected | disconnected | accepted | refused | threw | retry | giveUp | receive
  | leaveRead | received | notReceived | thrown | readAgain | readEnds | write | leaveWrite
  | written | closeTimer | closeNoTimer => decide

/-- Until something breaks. -/
theorem goes_intact (w w' : StreamLoops) (hpermits : Permits w) (h : Intact w) (i : Nat)
    (t : LoopThread) (hi : w.threads[i]? = some t) (hgoes : Goes w i t w')
    (hbroken : w'.broken = false) : Intact w' := by
  have hqueued := fun t' => queued_set w.threads _ hpermits.queued i t t' hi
    (hpermits.queued.not_mem i t hi hgoes.awake.1)
  have hsending := fun t' => queued_set w.threads _ hpermits.sending i t t' hi
    (hpermits.sending.not_mem i t hi hgoes.awake.2)
  have hset := fun w' t' => intact_set w w' h i t t' hi
  -- Nobody has got that far in `innerClose`.
  have hopen : t.closing = 0 := by
    have hle := le_sum closing w.threads t (List.mem_of_getElem? hi)
    have hnone := h.closing
    omega
  cases hgoes with
  | moves t t' hmoves => exact hset _ t' rfl rfl rfl rfl hmoves.neutral
  | wait second got s hrun =>
      refine hset _ _ rfl rfl rfl rfl ?_
      cases got <;> cases second <;> decide
  | cancel failed | clearTimer failed =>
      refine hset _ _ rfl rfl rfl rfl ?_
      cases failed <;> decide
  | reconnect b =>
      refine hset _ _ rfl rfl rfl rfl ?_
      cases b <;> decide
  | startRead =>
      exact intact_pass w h i _ (.start .startWrite) (.read .top) hi rfl (by decide) rfl rfl rfl
  | startWrite =>
      exact intact_pass w h i _ (.start (.returned true)) (.write .top) hi rfl (by decide) rfl rfl
        rfl
  | notifyStart second =>
      refine intact_notifyWait _ (hset _ _ rfl rfl rfl rfl ?_) (hqueued _)
      cases second <;> decide
  -- A reader notifies behind `innerClose` only.
  | notifyRead => cases hopen
  | notifyWrite =>
      exact intact_notifyWait _ (hset _ _ rfl rfl rfl rfl (by decide)) (hqueued _)
  | armStart | store =>
      exact hset _ _ rfl rfl rfl rfl ⟨Nat.le_refl 0, Nat.le_refl 0, Nat.le_refl 0, rfl⟩
  | armRead | closeCancel | closeShut => exact hset _ _ rfl rfl rfl rfl (by decide)
  | semWait got s hrun =>
      refine hset _ _ rfl rfl rfl rfl ?_
      cases got <;> decide
  | swap => exact intact_swap w hpermits h i hi
  | sent x ctxs => exact intact_sent w hpermits h i x ctxs hi
  | leave => exact intact_leave w h i hi
  -- These are what breaks it.
  | notSent | shut => cases hbroken
  | notify | clear => cases hopen
  | enqueued => exact intact_notify _ (hset _ _ rfl rfl rfl rfl (by decide)) (hsending _)

theorem step_intact (w w' : StreamLoops) (a : Action) (hpermits : Permits w) (h : Intact w)
    (hstep : step a w = some w') (hbroken : w'.broken = false) : Intact w' := by
  cases step_happens w w' a hstep with
  | connect | setAutoConnect | listExpiredCb => exact ⟨h.closing, h.ever, h.order⟩
  | start | callback => exact intact_spawn w _ h (.start (.wait false)) rfl rfl rfl rfl rfl rfl rfl
  | enqueue x =>
      rcases h.order with ⟨lost, horder, hlost⟩
      have hpush : Intact { w with queue := w.queue ++ [x], pushed := w.pushed ++ [x] } := by
        refine ⟨h.closing, h.ever, lost, ?_, hlost⟩
        -- It goes to the end of both.
        simp only [horder, List.append_assoc]
      exact intact_spawn _ _ hpush (.enqueue w.queue.isEmpty) rfl rfl rfl rfl rfl rfl rfl
  | close => exact intact_spawn w _ h (.close .ifTimer) rfl rfl rfl rfl rfl rfl rfl
  | go i result p now t w' hi hgoes => exact goes_intact w w' hpermits h i t hi hgoes hbroken

/-- What is broken stays broken. -/
theorem step_broken (w w' : StreamLoops) (a : Action) (hstep : step a w = some w')
    (hbroken : w'.broken = false) : w.broken = false := by
  cases step_happens w w' a hstep with
  | connect | setAutoConnect | start | enqueue | close | listExpiredCb | callback => exact hbroken
  | go i result p now t w' hi hgoes =>
      cases hgoes with
      | notSent | shut => cases hbroken
      | notifyStart | notifyRead | notifyWrite =>
          unfold notifyWait at hbroken
          split at hbroken <;> exact hbroken
      | notify | enqueued =>
          unfold notify at hbroken
          split at hbroken <;> exact hbroken
      | moves | wait | cancel | clearTimer | reconnect | startRead | startWrite | armStart
      | armRead | store | semWait | swap | sent | leave | clear | closeCancel | closeShut =>
          exact hbroken

/-- All of it together. -/
structure Sending (w : StreamLoops) : Prop where
  permits : Permits w
  intact : w.broken = false → Intact w

theorem run_sending (connected : Bool) (now : UInt64) (acts : List Action) (w : StreamLoops)
    (hrun : run step acts (new connected now) = some w) : Sending w := by
  refine run_inv Sending ?_ acts (new connected now) w ?_ (along_true acts _) hrun
  · intro w a w' h _ hstep
    refine ⟨step_permits w w' a h.permits hstep, ?_⟩
    intro hbroken
    exact step_intact w w' a h.permits (h.intact (step_broken w w' a hstep hbroken)) hstep hbroken
  · exact ⟨permits_new connected now, fun _ => intact_new connected now⟩

theorem run_noticed (connected : Bool) (now : UInt64) (acts : List Action) (w : StreamLoops)
    (hrun : run step acts (new connected now) = some w)
    (hroom : Along step Roomy acts (new connected now)) : Noticed w :=
  (run_inv (fun w => Permits w ∧ Noticed w)
    (fun w a w' h hroom hstep =>
      ⟨step_permits w w' a h.1 hstep, step_noticed w w' a h.1 h.2 hroom hstep⟩)
    acts (new connected now) w ⟨permits_new connected now, noticed_new connected now⟩ hroom
    hrun).2

/-- In every run what was sent is a prefix of what was queued until `doSend` fails or `innerClose`
    is called. And as long as no `m_sem.notify()` has found the counter at its largest value and
    nobody waiting, which takes at least `2 ^ 64` calls of it, a queue that is not empty has a
    permit, or a thread between its push and its notify, or the writer between its wait and its
    swap. -/
theorem send_queue_kept (connected : Bool) (now : UInt64) (acts : List Action) (w : StreamLoops)
    (hrun : run step acts (new connected now) = some w) :
    (w.broken = false → w.sent <+: w.pushed) ∧
    (Along step Roomy acts (new connected now) → w.queue ≠ [] →
      0 < w.sem.concurrency ∨ .enqueue true ∈ w.threads ∨ .write .swap ∈ w.threads) ∧
    (w.notified < 2 ^ 64 → Along step Roomy acts (new connected now)) := by
  refine ⟨?_, ?_, roomy_of_small connected now acts w hrun⟩
  · intro hbroken
    -- Whatever was lost stands behind what was sent.
    rcases ((run_sending connected now acts w hrun).intact hbroken).order with ⟨lost, horder, _⟩
    rw [horder, List.append_assoc, List.append_assoc]
    exact List.prefix_append _ _
  · intro hroom hne
    exact (run_noticed connected now acts w hrun hroom hne).imp_left
      (fun hpos => UInt64.lt_iff_toNat_lt.2 hpos)

/-- The writer has sent one of two contexts when a third one is queued. -/
def sendsOne : List Action :=
  Action.start :: List.replicate 7 (Action.go 0 .ok 0 0) ++
    [Action.enqueue 7, .enqueue 8, .go 3 .ok 0 0] ++ List.replicate 4 (Action.go 2 .ok 0 0) ++
    [Action.enqueue 9]

theorem send_queue_kept_one :
    ∃ w, run step sendsOne (new true 0) = some w ∧ w.sent = [7] ∧ w.pushed = [7, 8, 9] ∧
      w.sent <+: w.pushed ∧ w.queue = [9] ∧
      (0 < w.sem.concurrency ∨ .enqueue true ∈ w.threads ∨ .write .swap ∈ w.threads) := by
  have hall : (run step sendsOne (new true 0)).map
      (fun w => (w.sent, w.pushed, w.queue, w.notified, w.broken)) =
      some ([7], [7, 8, 9], [9], 1, false) := rfl
  rcases Option.map_eq_some_iff.1 hall with ⟨w, hrun, hw⟩
  simp only [Prod.mk.injEq] at hw
  rcases hw with ⟨hsent, hpushed, hqueue, hnotified, hbroken⟩
  rcases send_queue_kept true 0 sendsOne w hrun with ⟨horder, hnoticed, hroom⟩
  refine ⟨w, hrun, hsent, hpushed, horder hbroken, hqueue, hnoticed (hroom ?_) ?_⟩
  · rw [hnotified]
    decide
  · rw [hqueue]
    exact List.cons_ne_nil _ _

/-! ## The counter wraps -/

/-- A call of `start` that cannot connect. -/
def failedStart (k : Nat) : List Action :=
  Action.start :: List.replicate 4 (Action.go k .ok 0 0) ++
    Action.go k .fail 0 0 :: List.replicate 6 (Action.go k .ok 0 0)

/-- It leaves a permit in `m_sem`. -/
theorem run_failedStart (w : StreamLoops) (hconnected : w.connected = false)
    (hauto : w.autoConnect = false) (htimer : w.timer = none) (hwait : w.waitSem = ⟨2, []⟩)
    (hsem : w.sem.waiters = []) (hqueue : w.queue = []) :
    run step (failedStart w.threads.length) w = some { w with
      sem := ⟨w.sem.concurrency + 1, []⟩
      threads := w.threads ++ [.start (.returned false)]
      broken := true
      notified := w.notified + 1
      reconnects := w.reconnects + 1 } := by
  rcases w with ⟨connected, auto, timer, timers, pending, queue, ⟨count, waiters⟩, waitSem,
    threads, pushed, sent, broken, notified, reconnects⟩
  simp only at hconnected hauto htimer hwait hsem hqueue
  subst hconnected hauto htimer hwait hsem hqueue
  simp [failedStart, run, step, spawn, goOn, goStart, goInnerClose, goto, notify, notifyWait,
    FiberSemaphore.wait, FiberSemaphore.notify, InnerCloseCaller.after, LoopThread.afterTimer]

/-- A stream on which `n` calls of `start` have failed. -/
structure Failed (n : Nat) (w : StreamLoops) : Prop where
  disconnected : w.connected = false ∧ w.autoConnect = false ∧ w.timer = none
  free : w.waitSem = ⟨2, []⟩ ∧ w.sem.waiters = [] ∧ w.queue = []
  count : w.sem.concurrency = UInt64.ofNat n
  threads : ∀ t ∈ w.threads, t = .start (.returned false)

theorem run_failed (n : Nat) : ∃ acts w, run step acts (new false 0) = some w ∧ Failed n w := by
  induction n with
  | zero =>
      refine ⟨[], new false 0, rfl, ⟨rfl, rfl, rfl⟩, ⟨rfl, rfl, rfl⟩, rfl, ?_⟩
      intro t ht
      exact absurd ht List.not_mem_nil
  | succ n ih =>
      rcases ih with ⟨acts, w, hrun, ⟨hconnected, hauto, htimer⟩, ⟨hwait, hsem, hqueue⟩, hcount,
        hthreads⟩
      -- One more call of `start` fails, and the counter is one more.
      have hnext := run_failedStart w hconnected hauto htimer hwait hsem hqueue
      refine ⟨acts ++ failedStart w.threads.length, _, (run_append acts _ _ w hrun).trans hnext,
        ⟨hconnected, hauto, htimer⟩, ⟨hwait, rfl, hqueue⟩, ?_, ?_⟩
      · simp only [hcount]
        exact (UInt64.ofNat_add n 1).symm
      · intro t ht
        rcases List.mem_append.1 ht with hold | hnew
        · exact hthreads t hold
        · exact List.mem_singleton.1 hnew

/-- After `2 ^ 64 - 1` of them a context is queued, its `notify` makes the counter zero, and
    nobody looks after it. -/
theorem send_queue_wraps :
    ∃ acts w, run step acts (new false 0) = some w ∧ w.queue ≠ [] ∧ ¬0 < w.sem.concurrency ∧
      .enqueue true ∉ w.threads ∧ .write .swap ∉ w.threads := by
  rcases run_failed (2 ^ 64 - 1) with ⟨acts, w, hrun, _, ⟨_, hsem, hqueue⟩, hcount, hthreads⟩
  have hnext : run step [.enqueue 0, .go w.threads.length .ok 0 0] w = some { w with
      queue := [0]
      pushed := w.pushed ++ [0]
      sem := ⟨w.sem.concurrency + 1, []⟩
      threads := w.threads ++ [.enqueue false]
      notified := w.notified + 1 } := by
    simp [run, step, spawn, hqueue, goOn, goto, notify, FiberSemaphore.notify, hsem]
  -- All the threads there are have returned.
  have hnobody : ∀ t, t ≠ .start (.returned false) → t ≠ .enqueue false →
      t ∉ w.threads ++ [.enqueue false] := by
    intro t hold hnew ht
    rcases List.mem_append.1 ht with hmem | hmem
    · exact hold (hthreads t hmem)
    · exact hnew (List.mem_singleton.1 hmem)
  refine ⟨acts ++ _, _, (run_append acts _ _ w hrun).trans hnext, List.cons_ne_nil _ _, ?_, ?_, ?_⟩
  · simp only [hcount]
    decide
  · exact hnobody _ (by decide) (by decide)
  · exact hnobody _ (by decide) (by decide)

end StreamLoops

end YkServer
