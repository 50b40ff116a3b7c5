import YkServer.Core.StreamLoops

/-!
# Steps of a Stream

What the next step of a thread may be. Most steps only move the thread, and those are a
relation of their own. The others are listed with what they do to the stream.

## Main definitions

* `StreamLoops.Moves`: The steps that only move the thread.
* `StreamLoops.Goes`: The steps of a thread.
* `StreamLoops.Happens`: What an action does.

## Theorems

* `goOn_goes`, `step_happens`: Every step is one of these.
-/

namespace YkServer

open Lib

namespace StreamLoops

/-- A step of a thread that does nothing to the stream. -/
inductive Moves (w : StreamLoops) : LoopThread → LoopThread → Prop where
  | timer (failed : Bool) : Moves w (.start (.ifTimer failed)) (.start (.cancel failed))
  | noTimer (failed : Bool) : Moves w (.start (.ifTimer failed)) (.afterTimer failed)
  | connected : Moves w (.start .test) (.start .connectCb)
  | disconnected : Moves w (.start .test) (.start .reconnect)
  | accepted : Moves w (.start .connectCb) (.start .startRead)
  | refused : Moves w (.start .connectCb) (.innerClose .start .shut)
  | threw : Moves w (.start .connectCb) (.start .thrown)
  | retry (h : w.autoConnect = true) : Moves w (.start .ifAuto) (.start (.ifTimer true))
  | giveUp : Moves w (.start .ifAuto) (.start (.returned false))
  | receive : Moves w (.read .top) (.read .doRecv)
  | leaveRead : Moves w (.read .top) (.innerClose .doRead .shut)
  | received : Moves w (.read .doRecv) (.read .top)
  | notReceived : Moves w (.read .doRecv) (.innerClose .doRecv .shut)
  | thrown : Moves w (.read .doRecv) (.innerClose .doRead .shut)
  | readAgain (h : w.autoConnect = true) : Moves w (.read .ifAuto) (.read .addTimer)
  | readEnds : Moves w (.read .ifAuto) (.read .ended)
  | write : Moves w (.write .top) (.write .wait)
  | leaveWrite : Moves w (.write .top) (.write .clear)
  | written : Moves w (.write (.doSend [])) (.write .top)
  | closeTimer : Moves w (.close .ifTimer) (.close .cancel)
  | closeNoTimer (h : w.timer = none) : Moves w (.close .ifTimer) (.close .shut)

/-- A step of the thread at `i`. -/
inductive Goes (w : StreamLoops) (i : Nat) : LoopThread → StreamLoops → Prop where
  | moves (t t' : LoopThread) (h : Moves w t t') : Goes w i t (w.goto i t')
  | wait (second got : Bool) (s : FiberSemaphore Nat) (h : w.waitSem.wait i = (got, s)) :
      Goes w i (.start (.wait second)) (goto { w with waitSem := s } i
        (if got then .start (if second then .ifTimer false else .wait true)
          else .start (.queued second)))
  | cancel (failed b : Bool) (p : Nat) (s : TimerManager) (h : w.timer = some p)
      (hrun : TimerManager.cancel p w.timers = .ok b s) :
      Goes w i (.start (.cancel failed)) (goto { w with timers := s } i (.start (.clear failed)))
  | clearTimer (failed : Bool) :
      Goes w i (.start (.clear failed)) (goto { w with timer := none } i (.afterTimer failed))
  | reconnect (b : Bool) :
      Goes w i (.start .reconnect) (goto { w with
        connected := b
        reconnects := w.reconnects + 1 } i
        (if b then .start .connectCb else .innerClose .start .shut))
  | startRead : Goes w i (.start .startRead) ((w.goto i (.start .startWrite)).spawn (.read .top))
  | startWrite :
      Goes w i (.start .startWrite) ((w.goto i (.start (.returned true))).spawn (.write .top))
  | notifyStart (second : Bool) : Goes w i (.start (.notify second))
      (notifyWait (w.goto i (.start (if second then .ifAuto else .notify true))))
  | notifyRead : Goes w i (.read .notify) (notifyWait (w.goto i (.read .ifAuto)))
  | notifyWrite : Goes w i (.write .notify) (notifyWait (w.goto i (.write .ended)))
  | armStart (p : Nat) (now : UInt64) (b : Bool) (s : TimerManager)
      (hrun : TimerManager.addTimer p 2000 0 false now w.timers = .ok b s) :
      Goes w i (.start .addTimer) (goto { w with timers := s } i (.start (.store p)))
  | armRead (p : Nat) (now : UInt64) (b : Bool) (s : TimerManager)
      (hrun : TimerManager.addTimer p 10 0 false now w.timers = .ok b s) :
      Goes w i (.read .addTimer) (goto { w with timers := s } i (.read .ended))
  | store (p : Nat) :
      Goes w i (.start (.store p)) (goto { w with timer := some p } i (.start (.returned false)))
  | semWait (got : Bool) (s : FiberSemaphore Nat) (h : w.sem.wait i = (got, s)) :
      Goes w i (.write .wait) (goto { w with sem := s } i
        (if got then .write .swap else .write .queued))
  | swap : Goes w i (.write .swap) (goto { w with queue := [] } i (.write (.doSend w.queue)))
  | sent (x : Nat) (ctxs : List Nat) : Goes w i (.write (.doSend (x :: ctxs)))
      (goto { w with sent := w.sent ++ [x] } i (.write (.doSend ctxs)))
  | notSent (x : Nat) (ctxs : List Nat) (t : LoopThread)
      (ht : t = .innerClose .doWrite .shut ∨ t = .write .clear) :
      Goes w i (.write (.doSend (x :: ctxs)))
        (goto { w with sent := w.sent ++ [x], broken := true } i t)
  | leave : Goes w i (.write .clear) (goto { w with queue := [] } i (.write .notify))
  | shut (caller : InnerCloseCaller) : Goes w i (.innerClose caller .shut)
      (goto { w with connected := false, broken := true } i (.innerClose caller .notify))
  | notify (caller : InnerCloseCaller) : Goes w i (.innerClose caller .notify)
      (notify (w.goto i (.innerClose caller .clear)))
  | clear (caller : InnerCloseCaller) :
      Goes w i (.innerClose caller .clear) (goto { w with queue := [] } i caller.after)
  | enqueued : Goes w i (.enqueue true) (StreamLoops.notify (w.goto i (.enqueue false)))
  | closeCancel (b : Bool) (p : Nat) (s : TimerManager) (h : w.timer = some p)
      (hrun : TimerManager.cancel p w.timers = .ok b s) :
      Goes w i (.close .cancel) (goto { w with timers := s } i (.close .shut))
  | closeShut :
      Goes w i (.close .shut) (goto { w with connected := false } i (.close .returned))

theorem cancel_eq_some (w w' : StreamLoops) (h : w.cancel = some w') :
    ∃ p b s, w.timer = some p ∧ TimerManager.cancel p w.timers = .ok b s ∧
      w' = { w with timers := s } := by
  unfold cancel at h
  split at h
  · rename_i p htimer
    split at h
    · rename_i b s hrun
      cases h
      exact ⟨p, b, s, htimer, hrun, rfl⟩
    · cases h
  · cases h

theorem addTimer_eq_some (w w' : StreamLoops) (ms : UInt64) (p : Nat) (now : UInt64)
    (h : w.addTimer ms p now = some w') :
    ∃ b s, TimerManager.addTimer p ms 0 false now w.timers = .ok b s ∧
      w' = { w with timers := s } := by
  unfold addTimer at h
  split at h
  · rename_i b s hrun
    cases h
    exact ⟨b, s, hrun, rfl⟩
  · cases h

theorem goStart_goes (w w' : StreamLoops) (i : Nat) (result : LoopResult) (p : Nat)
    (now : UInt64) (pos : StartPos) (h : w.goStart i result p now pos = some w') :
    Goes w i (.start pos) w' := by
  cases pos with
  | wait second =>
      simp only [goStart] at h
      -- Both outcomes of `wait` are one step, with the state the semaphore is left in.
      rcases hrun : w.waitSem.wait i with ⟨got, s⟩
      have hgoes := Goes.wait second got s hrun
      rw [hrun] at h
      cases got <;> cases h <;> exact hgoes
  | ifTimer failed =>
      simp only [goStart] at h
      split at h <;> cases h
      · exact .moves _ _ (.timer failed)
      · exact .moves _ _ (.noTimer failed)
  | cancel failed =>
      rcases Option.bind_eq_some_iff.1 h with ⟨w₁, hcancel, hgo⟩
      rcases cancel_eq_some w w₁ hcancel with ⟨q, b, s, htimer, hrun, rfl⟩
      cases hgo
      exact .cancel failed b q s htimer hrun
  | clear failed =>
      cases h
      exact .clearTimer failed
  | test =>
      simp only [goStart] at h
      cases h
      split
      · exact .moves _ _ .connected
      · exact .moves _ _ .disconnected
  | reconnect =>
      cases h
      -- The outcome of `reconnect` comes with the step.
      have hgoes : Goes w i _ _ := .reconnect (decide (result = .ok))
      simp only [decide_eq_true_eq] at hgoes
      exact hgoes
  | connectCb =>
      -- The callback returns true or false, or throws.
      cases result <;> cases h
      · exact .moves _ _ .accepted
      · exact .moves _ _ .refused
      · exact .moves _ _ .threw
  | startRead =>
      cases h
      exact .startRead
  | startWrite =>
      cases h
      exact .startWrite
  | notify second =>
      cases h
      exact .notifyStart second
  | ifAuto =>
      simp only [goStart] at h
      cases h
      split
      · rename_i hauto
        exact .moves _ _ (.retry hauto)
      · exact .moves _ _ .giveUp
  | addTimer =>
      rcases Option.bind_eq_some_iff.1 h with ⟨w₁, hadd, hgo⟩
      rcases addTimer_eq_some w w₁ 2000 p now hadd with ⟨b, s, hrun, rfl⟩
      cases hgo
      exact .armStart p now b s hrun
  | store q =>
      cases h
      exact .store q
  | queued | returned | thrown => cases h

theorem goRead_goes (w w' : StreamLoops) (i : Nat) (result : LoopResult) (p : Nat)
    (now : UInt64) (pos : ReadPos) (h : w.goRead i result p now pos = some w') :
    Goes w i (.read pos) w' := by
  cases pos with
  | top =>
      simp only [goRead] at h
      cases h
      split
      · exact .moves _ _ .receive
      · exact .moves _ _ .leaveRead
  | doRecv =>
      -- `doRecv` returns, fails, or throws.
      cases result <;> cases h
      · exact .moves _ _ .received
      · exact .moves _ _ .notReceived
      · exact .moves _ _ .thrown
  | notify =>
      cases h
      exact .notifyRead
  | ifAuto =>
      simp only [goRead] at h
      cases h
      split
      · rename_i hauto
        exact .moves _ _ (.readAgain hauto)
      · exact .moves _ _ .readEnds
  | addTimer =>
      rcases Option.bind_eq_some_iff.1 h with ⟨w₁, hadd, hgo⟩
      rcases addTimer_eq_some w w₁ 10 p now hadd with ⟨b, s, hrun, rfl⟩
      cases hgo
      exact .armRead p now b s hrun
  | ended => cases h

theorem goWrite_goes (w w' : StreamLoops) (i : Nat) (result : LoopResult) (pos : WritePos)
    (h : w.goWrite i result pos = some w') : Goes w i (.write pos) w' := by
  cases pos with
  | top =>
      simp only [goWrite] at h
      cases h
      split
      · exact .moves _ _ .write
      · exact .moves _ _ .leaveWrite
  | wait =>
      simp only [goWrite] at h
      rcases hrun : w.sem.wait i with ⟨got, s⟩
      have hgoes := Goes.semWait got s hrun
      rw [hrun] at h
      cases got <;> cases h <;> exact hgoes
  | swap =>
      cases h
      exact .swap
  | doSend ctxs =>
      rcases ctxs with _ | ⟨x, ctxs⟩
      · cases h
        exact .moves _ _ .written
      · -- `doSend` returns, fails, or throws.
        cases result <;> cases h
        · exact .sent x ctxs
        · exact .notSent x ctxs _ (Or.inl rfl)
        · exact .notSent x ctxs _ (Or.inr rfl)
  | clear =>
      cases h
      exact .leave
  | notify =>
      cases h
      exact .notifyWrite
  | queued | ended => cases h

theorem goOn_goes (w w' : StreamLoops) (i : Nat) (result : LoopResult) (p : Nat) (now : UInt64)
    (t : LoopThread) (h : w.goOn i result p now t = some w') : Goes w i t w' := by
  cases t with
  | start pos => exact goStart_goes w w' i result p now pos h
  | read pos => exact goRead_goes w w' i result p now pos h
  | write pos => exact goWrite_goes w w' i result pos h
  | innerClose caller pos =>
      cases pos <;> cases h
      · exact .shut caller
      · exact .notify caller
      · exact .clear caller
  | enqueue empty =>
      cases empty <;> cases h
      exact .enqueued
  | close pos =>
      cases pos with
      | ifTimer =>
          simp only [goOn, goClose] at h
          cases h
          split
          · exact .moves _ _ .closeTimer
          · rename_i hnone
            exact .moves _ _ (.closeNoTimer (Option.not_isSome_iff_eq_none.1 hnone))
      | cancel =>
          rcases Option.bind_eq_some_iff.1 h with ⟨w₁, hcancel, hgo⟩
          rcases cancel_eq_some w w₁ hcancel with ⟨q, b, s, htimer, hrun, rfl⟩
          cases hgo
          exact .closeCancel b q s htimer hrun
      | shut =>
          cases h
          exact .closeShut
      | returned => cases h

/-- What an action does. -/
inductive Happens (w : StreamLoops) : Action → StreamLoops → Prop where
  | connect : Happens w .connect { w with connected := true }
  | setAutoConnect (b : Bool) : Happens w (.setAutoConnect b) { w with autoConnect := b }
  | start : Happens w .start (w.spawn (.start (.wait false)))
  | enqueue (x : Nat) : Happens w (.enqueue x)
      (spawn { w with queue := w.queue ++ [x], pushed := w.pushed ++ [x] }
        (.enqueue w.queue.isEmpty))
  | close : Happens w .close (spawn { w with autoConnect := false } (.close .ifTimer))
  | listExpiredCb (now : UInt64) (nowTimer : Nat) (cbs : List (Nat × Option Nat))
      (s : TimerManager) (hrun : TimerManager.listExpiredCb now nowTimer w.timers = .ok cbs s) :
      Happens w (.listExpiredCb now nowTimer) { w with
        timers := s
        pending := w.pending + (cbs.filterMap Prod.snd).length }
  | callback (h : 0 < w.pending) :
      Happens w .callback (spawn { w with pending := w.pending - 1 } (.start (.wait false)))
  | go (i : Nat) (result : LoopResult) (p : Nat) (now : UInt64) (t : LoopThread)
      (w' : StreamLoops) (hi : w.threads[i]? = some t) (h : Goes w i t w') :
      Happens w (.go i result p now) w'

theorem step_happens (w w' : StreamLoops) (a : Action) (h : step a w = some w') :
    Happens w a w' := by
  cases a with
  | connect =>
      cases h
      exact .connect
  | setAutoConnect b =>
      cases h
      exact .setAutoConnect b
  | start =>
      cases h
      exact .start
  | enqueue x =>
      cases h
      exact .enqueue x
  | close =>
      cases h
      exact .close
  | listExpiredCb now nowTimer =>
      simp only [step] at h
      split at h
      · rename_i cbs s hrun
        cases h
        exact .listExpiredCb now nowTimer cbs s hrun
      · cases h
  | callback =>
      simp only [step] at h
      split at h
      · rename_i hpending
        cases h
        exact .callback hpending
      · cases h
  | go i result p now =>
      rcases Option.bind_eq_some_iff.1 h with ⟨t, hi, hgo⟩
      exact .go i result p now t w' hi (goOn_goes w w' i result p now t hgo)

end StreamLoops

end YkServer
