import YkServer.Theory.StreamLoops.Closing

/-!
# Closed Streams

`close` clears `m_autoConnect` and cancels the timer in `m_timer`. A call of `start` that is
under way looks at neither of them before it connects, and the timer that `doRead` arms when
it ends is not in `m_timer`. So a stream may be connected again after `close` has returned.

It stays closed if nothing of that kind is there when `close` returns: no call of `start`
that has not failed, no thread that has found `m_autoConnect` set and is about to arm a
timer, no timer and no closure that a timer has handed out. When `close` is called, a timer
may be there, if it is the one in `m_timer`.

## Main definitions

* `LoopThread.isLoop`: A call of `doRead` or `doWrite`.
* `StreamLoops.Closed`: Nothing leads to another connection.

## Theorems

* `step_closed`: Every step of others than the user keeps it.
* `closed_stays`: A closed stream stays closed.
* `closed_reconnects`: A stream that is connected again.
-/

namespace YkServer

open Lib

namespace LoopThread

/-- A call of `doRead` or `doWrite`, also one that has ended. -/
def isLoop : LoopThread → Bool
  | .read _ | .write _ => true
  | .innerClose caller _ => caller != .start
  | _ => false

end LoopThread

namespace TimerManager

/-- There is nothing to cancel in an empty set. -/
theorem cancel_nil (s s' : TimerManager) (p : Nat) (b : Bool) (hrun : cancel p s = .ok b s')
    (h : s.timers = []) : s'.timers = [] := by
  rcases bind_eq_ok _ _ s s' b hrun with ⟨t, s₁, hload, hrest⟩
  unfold load at hload
  split at hload
  · rename_i hp
    cases hload
    by_cases hcb : t.cb.isSome = true
    · -- The timer has a callback and is not in the set, so it is the end that is erased.
      simp only [hcb, if_true] at hrest
      have hfind : find p (s.withTimer p { t with cb := none }) =
          .ok none (s.withTimer p { t with cb := none }) := by
        simp only [find, withTimer, h, List.getElem?_nil]
      rw [bind_ok _ _ s _ _ (store_out s p { t with cb := none } t hp (by simp only [h,
        List.not_mem_nil, not_false_iff])), bind_ok _ _ _ _ _ hfind, bind_fault _ _ _ rfl] at hrest
      cases hrest
    · rw [if_neg hcb] at hrest
      cases hrest
      exact h
  · cases hload

theorem listExpiredCb_nil (s s' : TimerManager) (now : UInt64) (nowTimer : Nat)
    (cbs : List (Nat × Option Nat)) (hrun : listExpiredCb now nowTimer s = .ok cbs s')
    (h : s.timers = []) : cbs = [] ∧ s' = s := by
  rw [listExpiredCb, bind_ok _ _ _ _ _ (get_apply s)] at hrun
  simp only [h] at hrun
  cases hrun
  exact ⟨rfl, rfl⟩

end TimerManager

namespace StreamLoops

/-- `close` has returned, and nothing leads to another connection. -/
structure Closed (w : StreamLoops) : Prop where
  returned : .close .returned ∈ w.threads
  auto : w.autoConnect = false
  pending : w.pending = 0
  timers : w.timers.timers = []
  settled : ∀ t ∈ w.threads, t.settled = true

/-- The connections and the loops there have been so far. -/
def SameLoops (w w' : StreamLoops) : Prop :=
  w'.reconnects = w.reconnects ∧
    w'.threads.countP LoopThread.isLoop = w.threads.countP LoopThread.isLoop

theorem closed_set (w w' : StreamLoops) (h : Closed w) (i : Nat) (t t' : LoopThread)
    (hi : w.threads[i]? = some t) (hauto : w'.autoConnect = w.autoConnect)
    (hpending : w'.pending = w.pending) (htimers : w'.timers.timers = [])
    (hreconnects : w'.reconnects = w.reconnects) (hthreads : w'.threads = w.threads.set i t')
    (hnot : t ≠ .close .returned) (hsettled : t'.settled = true) (hloop : t'.isLoop = t.isLoop) :
    Closed w' ∧ SameLoops w w' := by
  refine ⟨⟨?_, ?_, ?_, htimers, ?_⟩, hreconnects, ?_⟩
  · rw [hthreads]
    -- The thread that moves is another one than the call of `close` that has returned.
    rcases at_or_mem_set w.threads i _ t' h.returned with hat | hmem
    · rw [hi, Option.some.injEq] at hat
      exact absurd hat hnot
    · exact hmem
  · rw [hauto]
    exact h.auto
  · rw [hpending]
    exact h.pending
  · intro u hu
    rw [hthreads] at hu
    rcases List.mem_or_eq_of_mem_set hu with hold | rfl
    · exact h.settled u hold
    · exact hsettled
  · -- Only one thread changes, and it stays what it was, a loop or none.
    have hsum := sum_set (fun t => t.isLoop.toNat) w.threads i t t' hi
    simp only [hloop] at hsum
    rw [sum_toNat, sum_toNat] at hsum
    rw [hthreads]
    omega

theorem closed_spawn (w w' : StreamLoops) (h : Closed w) (t : LoopThread)
    (hauto : w'.autoConnect = false) (hpending : w'.pending = w.pending)
    (htimers : w'.timers = w.timers) (hreconnects : w'.reconnects = w.reconnects)
    (hthreads : w'.threads = w.threads ++ [t]) (hsettled : t.settled = true)
    (hloop : t.isLoop = false) : Closed w' ∧ SameLoops w w' := by
  refine ⟨⟨?_, hauto, ?_, ?_, ?_⟩, hreconnects, ?_⟩
  · rw [hthreads]
    exact List.mem_append_left _ h.returned
  · rw [hpending]
    exact h.pending
  · rw [htimers]
    exact h.timers
  · intro u hu
    rw [hthreads] at hu
    rcases List.mem_append.1 hu with hold | hnew
    · exact h.settled u hold
    · rw [List.mem_singleton.1 hnew]
      exact hsettled
  · rw [hthreads, List.countP_append, List.countP_singleton, hloop]
    rfl

theorem closed_notify (w : StreamLoops) (h : Closed w)
    (hsending : Queued LoopThread.WaitsToSend w.threads w.sem.waiters) :
    Closed w.notify ∧ SameLoops w w.notify := by
  rcases notify_cases w hsending with ⟨s, l, heq, ⟨k, hk, rfl, _⟩ | ⟨rfl, _⟩⟩
  · rw [heq]
    exact closed_set w _ h k _ _ hk rfl rfl h.timers rfl rfl (fun hno => by cases hno) rfl rfl
  · rw [heq]
    exact ⟨⟨h.returned, h.auto, h.pending, h.timers, h.settled⟩, rfl, rfl⟩

/-- No call of `start` waits. -/
theorem closed_notifyWait (w : StreamLoops) (h : Closed w)
    (hqueued : Queued LoopThread.Waits w.threads w.waitSem.waiters) :
    Closed w.notifyWait ∧ SameLoops w w.notifyWait := by
  rcases notifyWait_cases w hqueued with ⟨s, l, heq, rfl | ⟨k, t, hk, ⟨second, rfl⟩, rfl⟩⟩
  · rw [heq]
    exact ⟨⟨h.returned, h.auto, h.pending, h.timers, h.settled⟩, rfl, rfl⟩
  · cases h.settled _ (List.mem_of_getElem? hk)

theorem Moves.closed {w : StreamLoops} {t t' : LoopThread} (h : Moves w t t')
    (hauto : w.autoConnect = false) (hsettled : t.settled = true) :
    t ≠ .close .returned ∧ t'.settled = true ∧ t'.isLoop = t.isLoop := by
  cases h with
  -- Both ask `m_autoConnect` first.
  | retry hset | readAgain hset =>
      rw [hauto] at hset
      cases hset
  -- These are in a call of `start` that has not failed, and there is none.
  | timer | noTimer | connected | disconnected | accepted | refused | threw => cases hsettled
  | giveUp | receive | leaveRead | received | notReceived | thrown | readEnds | write
  | leaveWrite | written | closeTimer | closeNoTimer => exact ⟨by decide, rfl, rfl⟩

theorem sameLoops_trans (w₁ w₂ w₃ : StreamLoops) (h : SameLoops w₁ w₂) (h' : SameLoops w₂ w₃) :
    SameLoops w₁ w₃ :=
  ⟨h'.1.trans h.1, h'.2.trans h.2⟩

theorem goes_closed (w w' : StreamLoops) (hpermits : Permits w) (h : Closed w) (i : Nat)
    (t : LoopThread) (hi : w.threads[i]? = some t) (hgoes : Goes w i t w') :
    Closed w' ∧ SameLoops w w' := by
  have hqueued := fun t' => queued_set w.threads _ hpermits.queued i t t' hi
    (hpermits.queued.not_mem i t hi hgoes.awake.1)
  have hsending := fun t' => queued_set w.threads _ hpermits.sending i t t' hi
    (hpermits.sending.not_mem i t hi hgoes.awake.2)
  have hsettled := h.settled t (List.mem_of_getElem? hi)
  have hset := fun w' t' hauto hpending => closed_set w w' h i t t' hi hauto hpending
  -- A step that also notifies is one of the thread and one of the semaphore.
  have hwait : ∀ t', t ≠ .close .returned → t'.settled = true → t'.isLoop = t.isLoop →
      Closed (notifyWait (w.goto i t')) ∧ SameLoops w (notifyWait (w.goto i t')) := by
    intro t' hnot hsettled' hloop
    have hgoto := hset (w.goto i t') t' rfl rfl h.timers rfl rfl hnot hsettled' hloop
    have hrest := closed_notifyWait _ hgoto.1 (hqueued t')
    exact ⟨hrest.1, sameLoops_trans w _ _ hgoto.2 hrest.2⟩
  have hsend : ∀ t', t ≠ .close .returned → t'.settled = true → t'.isLoop = t.isLoop →
      Closed (notify (w.goto i t')) ∧ SameLoops w (notify (w.goto i t')) := by
    intro t' hnot hsettled' hloop
    have hgoto := hset (w.goto i t') t' rfl rfl h.timers rfl rfl hnot hsettled' hloop
    have hrest := closed_notify _ hgoto.1 (hsending t')
    exact ⟨hrest.1, sameLoops_trans w _ _ hgoto.2 hrest.2⟩
  cases hgoes with
  | moves t t' hmoves =>
      rcases hmoves.closed h.auto hsettled with ⟨hnot, hsettled', hloop⟩
      exact hset _ t' rfl rfl h.timers rfl rfl hnot hsettled' hloop
  -- Everything that connects, starts a loop or arms a timer is not settled.
  | wait | cancel | clearTimer | reconnect | startRead | startWrite | armStart | armRead =>
      cases hsettled
  | notifyStart second =>
      exact hwait _ (fun hno => by cases hno) (by cases second <;> rfl) rfl
  | notifyRead | notifyWrite => exact hwait _ (fun hno => by cases hno) rfl rfl
  | notify | enqueued => exact hsend _ (fun hno => by cases hno) rfl rfl
  | semWait got s hrun =>
      refine hset _ _ rfl rfl h.timers rfl rfl (fun hno => by cases hno) ?_ ?_ <;>
        cases got <;> rfl
  | store | swap | sent | leave | shut | closeShut =>
      exact hset _ _ rfl rfl h.timers rfl rfl (fun hno => by cases hno) rfl rfl
  | notSent x ctxs t' ht' =>
      rcases ht' with rfl | rfl <;>
        exact hset _ _ rfl rfl h.timers rfl rfl (fun hno => by cases hno) rfl rfl
  | clear caller =>
      refine hset _ _ rfl rfl h.timers rfl rfl (fun hno => by cases hno) ?_ ?_ <;>
        cases caller <;> rfl
  -- Another call of `close` finds no timer to cancel.
  | closeCancel b p s htimer hrun =>
      exact hset _ _ rfl rfl (TimerManager.cancel_nil w.timers s p b hrun h.timers) rfl rfl
        (fun hno => by cases hno) rfl rfl

theorem step_closed (w w' : StreamLoops) (a : Action) (hpermits : Permits w) (h : Closed w)
    (ha : Untouched a) (hstep : step a w = some w') : Closed w' ∧ SameLoops w w' := by
  cases step_happens w w' a hstep with
  | start => exact absurd rfl ha.1
  | setAutoConnect b => exact absurd rfl (ha.2 b)
  | connect => exact ⟨⟨h.returned, h.auto, h.pending, h.timers, h.settled⟩, rfl, rfl⟩
  | enqueue x => exact closed_spawn w _ h (.enqueue w.queue.isEmpty) h.auto rfl rfl rfl rfl rfl rfl
  | close => exact closed_spawn w _ h (.close .ifTimer) rfl rfl rfl rfl rfl rfl rfl
  | listExpiredCb now nowTimer cbs s hrun =>
      -- No timer is there to expire, so no closure is handed out.
      rcases TimerManager.listExpiredCb_nil w.timers s now nowTimer cbs hrun h.timers with
        ⟨rfl, rfl⟩
      exact ⟨⟨h.returned, h.auto, h.pending, h.timers, h.settled⟩, rfl, rfl⟩
  | callback hpos =>
      rw [h.pending] at hpos
      exact absurd hpos (Nat.lt_irrefl 0)
  | go i result p now t w' hi hgoes => exact goes_closed w w' hpermits h i t hi hgoes

/-- What a call of `close` leaves when it returns. -/
theorem Closing.closed {k : Nat} {w : StreamLoops} (h : Closing k w)
    (hreturned : w.threads[k]? = some (.close .returned)) : Closed w := by
  rcases h.place with ⟨pos, hk, hempty⟩
  rw [hreturned] at hk
  cases hk
  exact ⟨List.mem_of_getElem? hreturned, h.auto, h.closable.pending, hempty rfl,
    fun t ht => t.settled_of_harmless (h.closable.harmless t ht)⟩

/-- When nothing leads to another connection at the time `close` returns, then without the user
    there is none, and no loop is started any more. That is so if the timer in `m_timer` is all
    there is when `close` is called, and it does not expire before `close` cancels it. -/
theorem closed_stays (connected : Bool) (now : UInt64) (acts : List Action) (w : StreamLoops)
    (hrun : run step acts (new connected now) = some w) :
    (Closed w → ∀ more w', (∀ a ∈ more, Untouched a) → run step more w = some w' →
      w'.reconnects = w.reconnects ∧
        w'.threads.countP LoopThread.isLoop = w.threads.countP LoopThread.isLoop) ∧
    (Closable w → ∀ during w',
      Along step (fun w a => Untouched a ∧ Unexpired w a) (.close :: during) w →
      run step (.close :: during) w = some w' →
      w'.threads[w.threads.length]? = some (.close .returned) → Closed w') := by
  have hpermits := run_permits connected now acts w hrun
  refine ⟨?_, ?_⟩
  · intro hclosed more w' hmore hrun'
    -- The permits are carried along: without them a notify might wake a thread that does not
    -- wait.
    have hstep : ∀ w a w', Permits w ∧ Closed w → Untouched a → step a w = some w' →
        (Permits w' ∧ Closed w') ∧ SameLoops w w' := by
      rintro w a w' ⟨hp, hc⟩ ha hstep
      rcases step_closed w w' a hp hc ha hstep with ⟨hc', hsame⟩
      exact ⟨⟨step_permits w w' a hp hstep, hc'⟩, hsame⟩
    exact (run_related (fun w => Permits w ∧ Closed w) SameLoops (fun _ => ⟨rfl, rfl⟩)
      sameLoops_trans hstep more w w' ⟨hpermits, hclosed⟩ (along_of_mem more w hmore) hrun').2
  · intro hclosable during w' hduring hrun' hreturned
    exact (run_closing connected now acts during w w' hrun hclosable hduring hrun').closed
      hreturned

/-- A call of `start` cannot connect, and its timer is in `m_timer`. -/
def startsLater : List Action :=
  Action.setAutoConnect true :: .start :: List.replicate 4 (Action.go 0 .ok 0 0) ++
    Action.go 0 .fail 0 0 :: List.replicate 9 (Action.go 0 .ok 0 0)

/-- What `close` does then. -/
def closesTimer : List Action := List.replicate 3 (Action.go 1 .ok 0 0)

/-- The socket is connected again, and the time of the timer passes. -/
def timePasses : List Action := [.connect, .listExpiredCb 5000 1]

theorem closed_stays_timer :
    ∃ w w₁ w', run step startsLater (new false 0) = some w ∧ w.timer = some 0 ∧
      w.timers.timers = [0] ∧ run step (.close :: closesTimer) w = some w₁ ∧
      w₁.timers.timers = [] ∧ run step timePasses w₁ = some w' ∧ w'.connected = true ∧
      w'.reconnects = w₁.reconnects ∧
      w'.threads.countP LoopThread.isLoop = w₁.threads.countP LoopThread.isLoop := by
  have hall : (run step startsLater (new false 0)).map
      (fun w => (w.pending, w.timer, w.timers.timers, w.threads)) =
      some (0, some 0, [0], [.start (.returned false)]) := rfl
  rcases Option.map_eq_some_iff.1 hall with ⟨w, hrun, hw⟩
  simp only [Prod.mk.injEq] at hw
  rcases hw with ⟨hpending, htimer, htimers, hthreads⟩
  have hclosable : Closable w := by
    refine ⟨hpending, ?_, ?_⟩
    · intro p hp
      rw [htimers, List.mem_singleton] at hp
      rw [htimer, hp]
    · intro t ht
      rw [hthreads, List.mem_singleton] at ht
      rw [ht]
      rfl
  have hclose : (run step (startsLater ++ .close :: closesTimer) (new false 0)).map
      StreamLoops.threads = some [.start (.returned false), .close .returned] := rfl
  rw [run_append startsLater _ _ w hrun] at hclose
  rcases Option.map_eq_some_iff.1 hclose with ⟨w₁, hrun₁, hthreads₁⟩
  -- Nobody interferes and no timer expires while `close` is under way.
  have hduring : Along step (fun w a => Untouched a ∧ Unexpired w a) (.close :: closesTimer) w := by
    refine along_mono
      (P := fun _ a => Untouched a ∧ ∀ now nowTimer, a ≠ .listExpiredCb now nowTimer)
      ?_ _ _ (along_of_mem (.close :: closesTimer) w ?_)
    · rintro w a ⟨ha, hno⟩
      exact ⟨ha, fun now nowTimer cbs s heq => absurd heq (hno now nowTimer)⟩
    · intro a ha
      simp only [closesTimer, List.mem_cons, List.mem_replicate] at ha
      rcases ha with rfl | ⟨-, rfl⟩ <;>
        exact ⟨⟨Action.noConfusion, fun _ => Action.noConfusion⟩,
          fun _ _ => Action.noConfusion⟩
  have hclosed := (closed_stays false 0 startsLater w hrun).2 hclosable closesTimer w₁ hduring
    hrun₁ (by rw [hthreads₁, hthreads]; rfl)
  have hend : (run step ((startsLater ++ .close :: closesTimer) ++ timePasses) (new false 0)).map
      StreamLoops.connected = some true := rfl
  have hboth := (run_append startsLater (.close :: closesTimer) _ w hrun).trans hrun₁
  rw [run_append _ timePasses _ w₁ hboth] at hend
  rcases Option.map_eq_some_iff.1 hend with ⟨w', hrun', hconnected⟩
  have hsame := (closed_stays false 0 _ w₁ hboth).1 hclosed timePasses w' ?_ hrun'
  · exact ⟨w, w₁, w', hrun, htimer, htimers, hrun₁, hclosed.timers, hrun', hconnected, hsame⟩
  · intro a ha
    simp only [timePasses, List.mem_cons, List.not_mem_nil, or_false] at ha
    rcases ha with rfl | rfl <;> exact ⟨Action.noConfusion, fun _ => Action.noConfusion⟩

/-- The reader has ended and armed its timer when `close` is called. -/
def closesLate : List Action :=
  Action.setAutoConnect true :: .start :: List.replicate 7 (Action.go 0 .ok 0 0) ++
    Action.go 1 .ok 0 0 :: List.replicate 11 (Action.go 1 .fail 0 0) ++
    Action.close :: List.replicate 2 (Action.go 3 .ok 0 0)

/-- The writer ends, the timer fires, and `start` connects the socket. -/
def startsAgain : List Action :=
  List.replicate 3 (Action.go 2 .ok 0 0) ++ Action.listExpiredCb 10 1 :: .callback ::
    List.replicate 8 (Action.go 4 .ok 0 0)

theorem closed_reconnects :
    ∃ w w', run step closesLate (new true 0) = some w ∧ .close .returned ∈ w.threads ∧
      w.autoConnect = false ∧ (∀ a ∈ startsAgain, Untouched a) ∧
      run step startsAgain w = some w' ∧ w'.reconnects ≠ w.reconnects ∧
      w'.threads.countP LoopThread.isLoop ≠ w.threads.countP LoopThread.isLoop := by
  have hall : (run step closesLate (new true 0)).map
      (fun w => (w.autoConnect, w.reconnects, w.threads)) =
      some (false, 0, [.start (.returned true), .read .ended, .write .top, .close .returned]) := by
    decide +kernel
  rcases Option.map_eq_some_iff.1 hall with ⟨w, hrun, hw⟩
  simp only [Prod.mk.injEq] at hw
  rcases hw with ⟨hauto, hreconnects, hthreads⟩
  -- One connection more, and two loops beside the two that have ended.
  have hend : (run step (closesLate ++ startsAgain) (new true 0)).map
      (fun w => (w.reconnects, w.threads.countP LoopThread.isLoop)) = some (1, 4) := by
    decide +kernel
  rw [run_append closesLate startsAgain _ w hrun] at hend
  rcases Option.map_eq_some_iff.1 hend with ⟨w', hrun', hw'⟩
  simp only [Prod.mk.injEq] at hw'
  refine ⟨w, w', hrun, ?_, hauto, ?_, hrun', ?_, ?_⟩
  · rw [hthreads]
    decide
  · intro a ha
    simp only [startsAgain, List.mem_append, List.mem_cons, List.mem_replicate] at ha
    rcases ha with ⟨_, rfl⟩ | rfl | rfl | ⟨_, rfl⟩ <;>
      exact ⟨Action.noConfusion, fun _ => Action.noConfusion⟩
  · rw [hw'.1, hreconnects]
    decide
  · rw [hw'.2, hthreads]
    decide

end StreamLoops

end YkServer
