import YkServer.Theory.StreamLoops.SendQueue
import YkServer.Theory.Timer.Callbacks

/-!
# Closing a Stream

What a call of `close` does on its way. It clears `m_autoConnect` when it is called, and
it cancels the timer in `m_timer`. If that timer is the only one that is armed, none is
left when `close` returns, since nobody arms another one in the meantime: a thread that
would has found `m_autoConnect` set before. The timer may expire before it is cancelled,
and then its closure is on its way.

## Main definitions

* `LoopThread.settled`: A thread that does not lead to another connection.
* `StreamLoops.Closable`: Nothing but the timer in `m_timer` leads to another connection.
* `StreamLoops.Unexpired`: No timer expires.
* `StreamLoops.Closing`: A call of `close` is under way.

## Theorems

* `run_timers`: The timers are a set of one-shot timers.
* `step_closing`: Every step of others than the user keeps it.
* `run_closing`: What a call of `close` leaves.
-/

namespace YkServer

open Lib

namespace LoopThread

/-- A thread that does not lead to another connection once `m_autoConnect` is clear. -/
def settled : LoopThread → Bool
  | .start (.notify _) | .start .ifAuto | .start (.store _) | .start (.returned _)
  | .start .thrown => true
  | .start _ | .read .addTimer => false
  | _ => true

/-- One that does not have an armed timer to store either. -/
def harmless : LoopThread → Bool
  | .start (.store _) => false
  | t => t.settled

theorem settled_of_harmless (t : LoopThread) (h : t.harmless = true) : t.settled = true := by
  cases t with
  | start pos =>
      cases pos with
      | store => cases h
      | _ => exact h
  | _ => exact h

end LoopThread

namespace StreamLoops

/-! ## The timers -/

/-- The timers are in order, those that have a callback, and one-shot timers. -/
def TimersKept (w : StreamLoops) : Prop := w.timers.Inv ∧ w.timers.OneShot

theorem timers_notify (w : StreamLoops) : w.notify.timers = w.timers := by
  unfold notify
  split <;> rfl

theorem timers_notifyWait (w : StreamLoops) : w.notifyWait.timers = w.timers := by
  unfold notifyWait
  split <;> rfl

theorem goes_timers (w w' : StreamLoops) (i : Nat) (t : LoopThread) (h : TimersKept w)
    (hgoes : Goes w i t w') : TimersKept w' := by
  cases hgoes with
  | armStart p now b s hrun | armRead p now b s hrun =>
      have hadd := TimerManager.addTimer_cbOf w.timers s h.1 h.2 p _ 0 now b hrun
      exact ⟨hadd.1, hadd.2.1⟩
  | cancel failed b p s htimer hrun | closeCancel b p s htimer hrun =>
      have hcancel := TimerManager.cancel_cbOf w.timers s h.1 h.2 p b hrun
      exact ⟨hcancel.1, hcancel.2.1⟩
  | notifyStart | notifyRead | notifyWrite =>
      rw [TimersKept, timers_notifyWait]
      exact h
  | notify | enqueued =>
      rw [TimersKept, timers_notify]
      exact h
  | moves | wait | clearTimer | reconnect | startRead | startWrite | store | semWait | swap
  | sent | notSent | leave | shut | clear | closeShut => exact h

theorem step_timers (w w' : StreamLoops) (a : Action) (h : TimersKept w)
    (hstep : step a w = some w') : TimersKept w' := by
  cases step_happens w w' a hstep with
  | connect | setAutoConnect | start | enqueue | close | callback => exact h
  | listExpiredCb now nowTimer cbs s hrun =>
      have hlist := TimerManager.listExpiredCb_cbOf w.timers s h.1 h.2 now nowTimer cbs hrun
      exact ⟨hlist.1, hlist.2.1⟩
  | go i result p now t w' hi hgoes => exact goes_timers w w' i t h hgoes

theorem run_timers (connected : Bool) (now : UInt64) (acts : List Action) (w : StreamLoops)
    (hrun : run step acts (new connected now) = some w) : TimersKept w :=
  run_inv TimersKept (fun w a w' hw _ hstep => step_timers w w' a hw hstep) acts
    (new connected now) w
    ⟨TimerManager.inv_new now, fun _ _ hno => by cases hno⟩ (along_true acts _) hrun

/-! ## A call of `close` -/

/-- Nothing but the timer in `m_timer` leads to another connection once `m_autoConnect` is
    clear. -/
structure Closable (w : StreamLoops) : Prop where
  pending : w.pending = 0
  timers : ∀ p ∈ w.timers.timers, w.timer = some p
  harmless : ∀ t ∈ w.threads, t.harmless = true

/-- The user neither starts the stream nor sets `m_autoConnect`. -/
def Untouched (a : Action) : Prop := a ≠ .start ∧ ∀ b, a ≠ .setAutoConnect b

/-- No timer expires. -/
def Unexpired (w : StreamLoops) (a : Action) : Prop :=
  ∀ now nowTimer cbs s, a = .listExpiredCb now nowTimer →
    TimerManager.listExpiredCb now nowTimer w.timers = .ok cbs s → cbs = []

/-- The call is past `m_timer->cancel()`. -/
def passed : ClosePos → Bool
  | .ifTimer | .cancel => false
  | .shut | .returned => true

/-- The thread at `k` is a call of `close`. When it is past `m_timer->cancel()` no timer is
    armed. -/
structure Closing (k : Nat) (w : StreamLoops) : Prop where
  auto : w.autoConnect = false
  closable : Closable w
  place : ∃ pos, w.threads[k]? = some (.close pos) ∧ (passed pos = true → w.timers.timers = [])

/-- The call starts. -/
theorem closing_start (w w' : StreamLoops) (h : Closable w) (hstep : step .close w = some w') :
    Closing w.threads.length w' := by
  cases hstep
  refine ⟨rfl, ⟨h.pending, h.timers, ?_⟩, .ifTimer, List.getElem?_concat_length, ?_⟩
  · intro t ht
    rcases List.mem_append.1 ht with hold | hnew
    · exact h.harmless t hold
    · rw [List.mem_singleton.1 hnew]
      rfl
  · exact fun hno => by cases hno

/-- A thread goes on, and no timer is armed. -/
theorem closing_set (k : Nat) (w w' : StreamLoops) (h : Closing k w) (i : Nat)
    (t t' : LoopThread) (hi : w.threads[i]? = some t) (hthreads : w'.threads = w.threads.set i t')
    (hauto : w'.autoConnect = w.autoConnect) (hpending : w'.pending = w.pending)
    (htimer : w'.timer = w.timer) (htimers : ∀ p ∈ w'.timers.timers, p ∈ w.timers.timers)
    (hharmless : t'.harmless = true)
    (hmine : ∀ pos, t = .close pos → ∃ pos', t' = .close pos' ∧
      (passed pos' = true → passed pos = true ∨ w'.timers.timers = [])) : Closing k w' := by
  refine ⟨hauto.trans h.auto, ⟨hpending.trans h.closable.pending, ?_, ?_⟩, ?_⟩
  · intro p hp
    rw [htimer]
    exact h.closable.timers p (htimers p hp)
  · intro u hu
    rw [hthreads] at hu
    rcases List.mem_or_eq_of_mem_set hu with hold | rfl
    · exact h.closable.harmless u hold
    · exact hharmless
  · rcases h.place with ⟨pos, hk, hempty⟩
    -- There are no more timers than before.
    have hfewer : w.timers.timers = [] → w'.timers.timers = [] := by
      intro hnone
      refine List.eq_nil_iff_forall_not_mem.2 ?_
      intro p hp
      have hmem := htimers p hp
      rw [hnone] at hmem
      exact absurd hmem List.not_mem_nil
    rw [hthreads]
    by_cases hki : k = i
    · rw [hki, hi, Option.some.injEq] at hk
      rcases hmine pos hk with ⟨pos', rfl, hpassed⟩
      refine ⟨pos', (getElem?_update w.threads i t _ hi k).trans (if_pos hki), ?_⟩
      intro hpos'
      rcases hpassed hpos' with hpos | hnone
      · exact hfewer (hempty hpos)
      · exact hnone
    · refine ⟨pos, ?_, fun hpos => hfewer (hempty hpos)⟩
      rw [getElem?_update w.threads i t t' hi k, if_neg hki]
      exact hk

theorem closing_spawn (k : Nat) (w w' : StreamLoops) (h : Closing k w) (t : LoopThread)
    (hthreads : w'.threads = w.threads ++ [t]) (hauto : w'.autoConnect = false)
    (hpending : w'.pending = w.pending) (htimer : w'.timer = w.timer)
    (htimers : w'.timers = w.timers) (hharmless : t.harmless = true) : Closing k w' := by
  rcases h.place with ⟨pos, hk, hempty⟩
  refine ⟨hauto, ⟨hpending.trans h.closable.pending, ?_, ?_⟩, pos, ?_, ?_⟩
  · rw [htimer, htimers]
    exact h.closable.timers
  · intro u hu
    rw [hthreads] at hu
    rcases List.mem_append.1 hu with hold | hnew
    · exact h.closable.harmless u hold
    · rw [List.mem_singleton.1 hnew]
      exact hharmless
  · rw [hthreads]
    exact getElem?_concat_of_some w.threads t _ k hk
  · rw [htimers]
    exact hempty

theorem closing_notify (k : Nat) (w : StreamLoops) (h : Closing k w)
    (hsending : Queued LoopThread.WaitsToSend w.threads w.sem.waiters) : Closing k w.notify := by
  rcases notify_cases w hsending with ⟨s, l, heq, ⟨j, hj, rfl, -⟩ | ⟨rfl, -⟩⟩
  · rw [heq]
    exact closing_set k w _ h j _ _ hj rfl rfl rfl rfl (fun _ hp => hp) rfl
      (fun pos hno => by cases hno)
  · rw [heq]
    exact ⟨h.auto, ⟨h.closable.pending, h.closable.timers, h.closable.harmless⟩, h.place⟩

/-- No call of `start` waits. -/
theorem closing_notifyWait (k : Nat) (w : StreamLoops) (h : Closing k w)
    (hqueued : Queued LoopThread.Waits w.threads w.waitSem.waiters) : Closing k w.notifyWait := by
  rcases notifyWait_cases w hqueued with ⟨s, l, heq, rfl | ⟨j, t, hj, ⟨second, rfl⟩, rfl⟩⟩
  · rw [heq]
    exact ⟨h.auto, ⟨h.closable.pending, h.closable.timers, h.closable.harmless⟩, h.place⟩
  · cases h.closable.harmless _ (List.mem_of_getElem? hj)

/-- What cancelling `m_timer` leaves: nothing. -/
theorem closing_cancel (w : StreamLoops) (h : Closable w) (hkept : TimersKept w) (p : Nat)
    (b : Bool) (s : TimerManager) (htimer : w.timer = some p)
    (hrun : TimerManager.cancel p w.timers = .ok b s) : s.timers = [] := by
  rcases TimerManager.cancel_cbOf w.timers s hkept.1 hkept.2 p b hrun with ⟨hinv, -, -, hcb⟩
  refine List.eq_nil_iff_forall_not_mem.2 ?_
  intro q hq
  -- Who still has a callback had one before, so it was in `m_timer` and is cancelled.
  rw [hinv.mem_cbOf, hcb] at hq
  split at hq
  · cases hq
  · rename_i hne
    have hmem := h.timers q ((hkept.1.mem_cbOf q).2 hq)
    rw [htimer, Option.some.injEq] at hmem
    exact hne hmem.symm

theorem Moves.closing {k : Nat} {w : StreamLoops} {t t' : LoopThread} (h : Moves w t t')
    (hc : Closing k w) (hharmless : t.harmless = true) :
    t'.harmless = true ∧ ∀ pos, t = .close pos → ∃ pos', t' = .close pos' ∧
      (passed pos' = true → passed pos = true ∨ w.timers.timers = []) := by
  cases h with
  -- Both ask `m_autoConnect` first.
  | retry hset | readAgain hset =>
      rw [hc.auto] at hset
      cases hset
  -- These are in a call of `start` that has not failed, and there is none.
  | timer | noTimer | connected | disconnected | accepted | refused | threw => cases hharmless
  | giveUp | receive | leaveRead | received | notReceived | thrown | readEnds | write
  | leaveWrite | written => exact ⟨rfl, fun pos hno => by cases hno⟩
  | closeTimer => exact ⟨rfl, fun pos _ => ⟨.cancel, rfl, fun hno => by cases hno⟩⟩
  | closeNoTimer hnone =>
      -- The timers that are armed are in `m_timer`, where there is nothing.
      refine ⟨rfl, fun pos _ => ⟨.shut, rfl, fun _ => Or.inr ?_⟩⟩
      refine List.eq_nil_iff_forall_not_mem.2 ?_
      intro p hp
      have hmem := hc.closable.timers p hp
      rw [hnone] at hmem
      cases hmem

theorem goes_closing (k : Nat) (w w' : StreamLoops) (hpermits : Permits w) (hkept : TimersKept w)
    (h : Closing k w) (i : Nat) (t : LoopThread) (hi : w.threads[i]? = some t)
    (hgoes : Goes w i t w') : Closing k w' := by
  have hqueued := fun t' => queued_set w.threads _ hpermits.queued i t t' hi
    (hpermits.queued.not_mem i t hi hgoes.awake.1)
  have hsending := fun t' => queued_set w.threads _ hpermits.sending i t t' hi
    (hpermits.sending.not_mem i t hi hgoes.awake.2)
  have hharmless := h.closable.harmless t (List.mem_of_getElem? hi)
  -- The steps of other threads than a call of `close`, which leave the timers.
  have hother : ∀ w' t', w'.threads = w.threads.set i t' → w'.autoConnect = w.autoConnect →
      w'.pending = w.pending → w'.timer = w.timer → w'.timers = w.timers →
      t'.harmless = true → (∀ pos, t ≠ .close pos) → Closing k w' := by
    intro w' t' hthreads hauto hpending htimer htimers hharmless' hnot
    refine closing_set k w w' h i t t' hi hthreads hauto hpending htimer ?_ hharmless'
      (fun pos hpos => absurd hpos (hnot pos))
    intro p hp
    rw [← htimers]
    exact hp
  cases hgoes with
  | moves t t' hmoves =>
      rcases hmoves.closing h hharmless with ⟨hharmless', hmine⟩
      exact closing_set k w _ h i t t' hi rfl rfl rfl rfl (fun _ hp => hp) hharmless' hmine
  -- Everything that connects, starts a loop, arms or stores a timer is not harmless.
  | wait | cancel | clearTimer | reconnect | startRead | startWrite | armStart | armRead
  | store => cases hharmless
  | notifyStart second =>
      refine closing_notifyWait k _ (hother _ _ rfl rfl rfl rfl rfl ?_ ?_) (hqueued _)
      · cases second <;> rfl
      · exact fun pos hno => by cases hno
  | notifyRead | notifyWrite =>
      exact closing_notifyWait k _
        (hother _ _ rfl rfl rfl rfl rfl rfl (fun pos hno => by cases hno)) (hqueued _)
  | notify | enqueued =>
      exact closing_notify k _ (hother _ _ rfl rfl rfl rfl rfl rfl (fun pos hno => by cases hno))
        (hsending _)
  | semWait got s hrun =>
      refine hother _ _ rfl rfl rfl rfl rfl ?_ (fun pos hno => by cases hno)
      cases got <;> rfl
  | swap | sent | leave | shut =>
      exact hother _ _ rfl rfl rfl rfl rfl rfl (fun pos hno => by cases hno)
  | notSent x ctxs t' ht' =>
      rcases ht' with rfl | rfl
      · exact hother _ _ rfl rfl rfl rfl rfl rfl (fun pos hno => by cases hno)
      · exact hother _ _ rfl rfl rfl rfl rfl rfl (fun pos hno => by cases hno)
  | clear caller =>
      refine hother _ _ rfl rfl rfl rfl rfl ?_ (fun pos hno => by cases hno)
      cases caller <;> rfl
  | closeCancel b p s htimer hrun =>
      have hnone := closing_cancel w h.closable hkept p b s htimer hrun
      refine closing_set k w _ h i _ (.close .shut) hi rfl rfl rfl rfl ?_ rfl ?_
      · intro q hq
        simp only [goto, hnone] at hq
        exact absurd hq List.not_mem_nil
      · exact fun pos _ => ⟨.shut, rfl, fun _ => Or.inr hnone⟩
  | closeShut =>
      refine closing_set k w _ h i _ (.close .returned) hi rfl rfl rfl rfl (fun _ hp => hp) rfl ?_
      intro pos hpos
      cases hpos
      exact ⟨.returned, rfl, fun _ => Or.inl rfl⟩

theorem step_closing (k : Nat) (w w' : StreamLoops) (a : Action) (hpermits : Permits w)
    (hkept : TimersKept w) (h : Closing k w) (ha : Untouched a) (hnone : Unexpired w a)
    (hstep : step a w = some w') : Closing k w' := by
  cases step_happens w w' a hstep with
  | start => exact absurd rfl ha.1
  | setAutoConnect b => exact absurd rfl (ha.2 b)
  | connect =>
      exact ⟨h.auto, ⟨h.closable.pending, h.closable.timers, h.closable.harmless⟩, h.place⟩
  | enqueue x =>
      exact closing_spawn k w _ h (.enqueue w.queue.isEmpty) rfl h.auto rfl rfl rfl rfl
  | close => exact closing_spawn k w _ h (.close .ifTimer) rfl rfl rfl rfl rfl rfl
  | callback hpos =>
      rw [h.closable.pending] at hpos
      exact absurd hpos (Nat.lt_irrefl 0)
  | listExpiredCb now nowTimer cbs s hrun =>
      -- Nothing is handed out, so the timers are those of before.
      have hcbs := hnone now nowTimer cbs s rfl hrun
      rcases TimerManager.listExpiredCb_cbOf w.timers s hkept.1 hkept.2 now nowTimer cbs hrun with
        ⟨hinv, -, -, -, -, hcb⟩
      have htimers : ∀ p, p ∈ s.timers → p ∈ w.timers.timers := by
        intro p hp
        rw [hinv.mem_cbOf, hcb, hcbs, List.map_nil, if_neg List.not_mem_nil] at hp
        exact (hkept.1.mem_cbOf p).2 hp
      rcases h.place with ⟨pos, hk, hempty⟩
      refine ⟨h.auto, ⟨?_, fun p hp => h.closable.timers p (htimers p hp),
        h.closable.harmless⟩, pos, hk, ?_⟩
      · simp only [hcbs, List.filterMap_nil, List.length_nil, h.closable.pending]
      · intro hpos
        refine List.eq_nil_iff_forall_not_mem.2 ?_
        intro p hp
        have hmem := htimers p hp
        rw [hempty hpos] at hmem
        exact List.not_mem_nil hmem
  | go i result p now t w' hi hgoes => exact goes_closing k w w' hpermits hkept h i t hi hgoes

/-- What a call of `close` leaves, of the user nothing and no timer that expires coming in
    between. -/
theorem run_closing (connected : Bool) (now : UInt64) (acts during : List Action)
    (w w' : StreamLoops) (hrun : run step acts (new connected now) = some w) (h : Closable w)
    (hduring : Along step (fun w a => Untouched a ∧ Unexpired w a) (.close :: during) w)
    (hrun' : run step (.close :: during) w = some w') : Closing w.threads.length w' := by
  have hpermits := run_permits connected now acts w hrun
  have hkept := run_timers connected now acts w hrun
  rcases run_cons_eq_some .close during w w' hrun' with ⟨w₁, hstep, hrest⟩
  rw [along_cons .close during w w₁ hstep] at hduring
  exact (run_inv (fun w₁ => Permits w₁ ∧ TimersKept w₁ ∧ Closing w.threads.length w₁)
    (fun w₁ a w₂ hw hP hstep => ⟨step_permits w₁ w₂ a hw.1 hstep, step_timers w₁ w₂ a hw.2.1 hstep,
      step_closing _ w₁ w₂ a hw.1 hw.2.1 hw.2.2 hP.1 hP.2 hstep⟩)
    during w₁ w' ⟨step_permits w w₁ .close hpermits hstep, step_timers w w₁ .close hkept hstep,
      closing_start w w₁ h hstep⟩ hduring.2 hrest).2.2

end StreamLoops

end YkServer
