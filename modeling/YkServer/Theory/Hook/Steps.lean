import YkServer.Core.Hook

/-!
# Steps of Hooked Calls

What each step of `YkServer.Core.Hook` did, from the fact that it could be taken: the
call it belongs to, where that was, and the world after it. Nothing below unfolds
`step` again.

## Theorems

* `callAt_eq_some`, `onManager_eq_some`, `onTimers_eq_some`: The parts of a step.
* `call_step` to `dispatch_step`: One for each action.
-/

namespace YkServer

open Lib

namespace HookWorld

variable {w w' : HookWorld} {i k : Nat} {ok : Bool}

theorem callAt_eq_some {pos : HookPos} {c : HookCall} (h : w.callAt i pos = some c) :
    w.calls[i]? = some c ∧ c.pos = pos := by
  rw [callAt, Option.filter_eq_some_iff, decide_eq_true_iff] at h
  exact h

theorem onManager_eq_some {α : Type} {m : Prog Assertion IOManager α} {a : α}
    (h : onManager m w = some (a, w')) :
    ∃ s, m w.manager = .ok a s ∧ w' = { w with manager := s } := by
  unfold onManager at h
  split at h
  · rename_i a' s hm
    cases h
    exact ⟨s, hm, rfl⟩
  · cases h

theorem onTimers_eq_some {α : Type} {m : Prog Empty TimerManager α} {a : α}
    (h : onTimers m w = some (a, w')) :
    ∃ s, m w.timers = .ok a s ∧ w' = { w with timers := s } := by
  unfold onTimers at h
  split at h
  · rename_i a' s hm
    cases h
    exact ⟨s, hm, rfl⟩
  · cases h

/-- Cancelling the timer of a call, if it has one. -/
theorem cancelTimerOf_eq_some {c : HookCall} (h : cancelTimerOf c w = some w') :
    (c.timer = none ∧ w' = w) ∨ ∃ p a s, c.timer = some p ∧
      TimerManager.cancel p w.timers = .ok a s ∧ w' = { w with timers := s } := by
  unfold cancelTimerOf at h
  split at h
  · rename_i p hp
    rcases Option.map_eq_some_iff.1 h with ⟨⟨a, w₁⟩, hrun, rfl⟩
    rcases onTimers_eq_some hrun with ⟨s, hs, rfl⟩
    exact Or.inr ⟨p, a, s, hp, hs, rfl⟩
  · rename_i hp
    cases h
    exact Or.inl ⟨hp, rfl⟩

/-! ## The calls -/

theorem call_step {r : HookRequest} (h : step (.call r) w = some w') :
    w.busy r.caller.fiber = false ∧ (w' = w ∨ ∃ timeout,
      w' = { w with calls := w.calls ++ [⟨r.fn, r.fd, r.caller, timeout, 0, none, .trying⟩] }) := by
  simp only [step] at h
  split at h
  · cases h
  · rename_i hbusy
    refine ⟨Bool.eq_false_iff.2 hbusy, ?_⟩
    split at h
    · cases h
      exact Or.inr ⟨_, rfl⟩
    · cases h
      exact Or.inl rfl

theorem attempt_step {r : Attempt} (h : step (.attempt i r) w = some w') :
    ∃ c pos, w.calls[i]? = some c ∧ c.pos = .trying ∧ (pos = .blocked ∨ pos = .returned .original) ∧
      (w' = w ∨ w' = w.setCall i { c with pos := pos }) := by
  rcases Option.bind_eq_some_iff.1 h with ⟨c, hc, hstep⟩
  rcases callAt_eq_some hc with ⟨hcall, hpos⟩
  split at hstep
  · cases hstep
    exact ⟨c, _, hcall, hpos, Or.inl rfl, Or.inr rfl⟩
  · cases hstep
    exact ⟨c, _, hcall, hpos, Or.inl rfl, Or.inl rfl⟩
  · cases hstep
    exact ⟨c, _, hcall, hpos, Or.inr rfl, Or.inr rfl⟩

theorem arm_step {p : Nat} {now : UInt64} (h : step (.arm i p now) w = some w') :
    ∃ c, w.calls[i]? = some c ∧ c.pos = .blocked ∧
      ((c.timeout = noTimeout ∧ w' = w.setCall i { c with pos := .armed }) ∨
        ∃ a s, TimerManager.addTimer p c.timeout i false now w.timers = .ok a s ∧
          w' = setCall { w with timers := s } i { c with timer := some p, pos := .armed }) := by
  rcases Option.bind_eq_some_iff.1 h with ⟨c, hc, hstep⟩
  rcases callAt_eq_some hc with ⟨hcall, hpos⟩
  refine ⟨c, hcall, hpos, ?_⟩
  -- A call without a timeout arms no timer.
  by_cases hto : c.timeout ≠ noTimeout
  · rw [if_pos hto] at hstep
    rcases Option.bind_eq_some_iff.1 hstep with ⟨⟨a, w₁⟩, hadd, hend⟩
    rcases onTimers_eq_some hadd with ⟨s, hs, rfl⟩
    cases hend
    exact Or.inr ⟨a, s, hs, rfl⟩
  · rw [if_neg hto] at hstep
    cases hstep
    exact Or.inl ⟨not_not.1 hto, rfl⟩

theorem addEvent_step (h : step (.addEvent i ok) w = some w') :
    ∃ c rt s, w.calls[i]? = some c ∧ c.pos = .armed ∧
      IOManager.addEvent c.fd c.event none c.caller ok w.manager = .ok rt s ∧
      w' = setCall { w with manager := s } i
        { c with pos := if rt = 0 then .added else .failed } := by
  rcases Option.bind_eq_some_iff.1 h with ⟨c, hc, hstep⟩
  rcases callAt_eq_some hc with ⟨hcall, hpos⟩
  rcases Option.bind_eq_some_iff.1 hstep with ⟨⟨rt, w₁⟩, hadd, hend⟩
  rcases onManager_eq_some hadd with ⟨s, hs, rfl⟩
  cases hend
  exact ⟨c, rt, s, hcall, hpos, hs, rfl⟩

/-- After a failed `addEvent`, and behind `YieldToHold`: the timer is cancelled. -/
theorem cancels_step {pos : HookPos} (f : HookCall → HookPos)
    (h : (do
      let c ← w.callAt i pos
      let w ← cancelTimerOf c w
      some (w.setCall i { c with pos := f c })) = some w') :
    ∃ c s, w.calls[i]? = some c ∧ c.pos = pos ∧
      ((c.timer = none ∧ s = w.timers) ∨ ∃ p a, c.timer = some p ∧
        TimerManager.cancel p w.timers = .ok a s) ∧
      w' = setCall { w with timers := s } i { c with pos := f c } := by
  rcases Option.bind_eq_some_iff.1 h with ⟨c, hc, hstep⟩
  rcases callAt_eq_some hc with ⟨hcall, hpos⟩
  rcases Option.bind_eq_some_iff.1 hstep with ⟨w₁, hcancel, hend⟩
  cases hend
  rcases cancelTimerOf_eq_some hcancel with ⟨htimer, rfl⟩ | ⟨p, a, s, htimer, hrun, rfl⟩
  · exact ⟨c, w₁.timers, hcall, hpos, Or.inl ⟨htimer, rfl⟩, rfl⟩
  · exact ⟨c, s, hcall, hpos, Or.inr ⟨p, a, htimer, hrun⟩, rfl⟩

theorem yieldToHold_step (h : step (.yieldToHold i) w = some w') :
    ∃ c, w.calls[i]? = some c ∧ c.pos = .added ∧ w' = w.setCall i { c with pos := .parked } := by
  rcases Option.bind_eq_some_iff.1 h with ⟨c, hc, hstep⟩
  rcases callAt_eq_some hc with ⟨hcall, hpos⟩
  cases hstep
  exact ⟨c, hcall, hpos, rfl⟩

theorem resume_step (h : step (.resume i) w = some w') :
    ∃ c, w.calls[i]? = some c ∧ c.pos = .parked ∧
      w.scheduled c.fiber ≠ w.resumed.count c.fiber ∧
      w' = { w.setCall i { c with pos := .woken } with resumed := c.fiber :: w.resumed } := by
  rcases Option.bind_eq_some_iff.1 h with ⟨c, hc, hstep⟩
  rcases callAt_eq_some hc with ⟨hcall, hpos⟩
  split at hstep
  · cases hstep
  · rename_i hqueued
    cases hstep
    rw [unscheduled, decide_eq_true_iff] at hqueued
    exact ⟨c, hcall, hpos, hqueued, rfl⟩

theorem check_step (h : step (.check i) w = some w') :
    ∃ c timer pos, w.calls[i]? = some c ∧ c.pos = .checking ∧
      (timer = c.timer ∨ timer = none) ∧ (pos = .trying ∨ ∃ r, pos = .returned r) ∧
      w' = w.setCall i { c with timer := timer, pos := pos } := by
  rcases Option.bind_eq_some_iff.1 h with ⟨c, hc, hstep⟩
  rcases callAt_eq_some hc with ⟨hcall, hpos⟩
  -- With `cancelled` set the call fails, otherwise it tries again or is done.
  by_cases hset : c.cancelled ≠ 0
  · rw [if_pos hset] at hstep
    cases hstep
    exact ⟨c, c.timer, _, hcall, hpos, Or.inl rfl, Or.inr ⟨_, rfl⟩, rfl⟩
  · rw [if_neg hset] at hstep
    split at hstep
    · cases hstep
      exact ⟨c, none, _, hcall, hpos, Or.inr rfl, Or.inl rfl, rfl⟩
    · cases hstep
      exact ⟨c, c.timer, _, hcall, hpos, Or.inl rfl, Or.inr ⟨_, rfl⟩, rfl⟩

/-! ## The callbacks -/

theorem listExpiredCb_step {now : UInt64} {nowTimer : Nat}
    (h : step (.listExpiredCb now nowTimer) w = some w') :
    ∃ cbs s, TimerManager.listExpiredCb now nowTimer w.timers = .ok cbs s ∧
      w' = { w with
        timers := s
        pending := w.pending ++ cbs.filterMap (fun x => x.2.map (fun i => (x.1, i))) } := by
  rcases Option.bind_eq_some_iff.1 h with ⟨⟨cbs, w₁⟩, hlist, hend⟩
  rcases onTimers_eq_some hlist with ⟨s, hs, rfl⟩
  cases hend
  exact ⟨cbs, s, hs, rfl⟩

theorem enter_step (h : step (.enter k) w = some w') :
    ∃ p j c bs, w.pending[k]? = some (p, j) ∧ w.calls[j]? = some c ∧
      w' = { w with pending := w.pending.eraseIdx k, running := w.running ++ bs } ∧
      (c.active = true → c.cancelled = 0 → bs = [⟨p, j, false⟩]) := by
  rcases Option.bind_eq_some_iff.1 h with ⟨⟨p, j⟩, hpending, hstep⟩
  rcases Option.bind_eq_some_iff.1 hstep with ⟨c, hc, hend⟩
  simp only [] at hend
  split at hend
  · cases hend
    exact ⟨p, j, c, _, hpending, hc, rfl, fun _ _ => rfl⟩
  · -- The weak pointer is gone, or `cancelled` is set.
    rename_i hdead
    cases hend
    refine ⟨p, j, c, [], hpending, hc, by rw [List.append_nil], ?_⟩
    intro hactive hclear
    rw [infoAlive, hactive, Bool.true_or, Bool.true_and, decide_eq_true_iff] at hdead
    exact absurd hclear hdead

theorem mark_step (h : step (.mark k) w = some w') :
    ∃ b c, w.running[k]? = some b ∧ w.calls[b.call]? = some c ∧
      w' = { w.setCall b.call { c with cancelled := ETIMEDOUT } with
        running := w.running.set k { b with marked := true } } := by
  rcases Option.bind_eq_some_iff.1 h with ⟨b, hb, hstep⟩
  rcases Option.bind_eq_some_iff.1 hstep with ⟨c, hc, hend⟩
  split at hend
  · cases hend
  · cases hend
    exact ⟨b, c, hb, hc, rfl⟩

theorem cancelEvent_step {garbage : UInt32} (h : step (.cancelEvent k garbage ok) w = some w') :
    ∃ b c a s, w.running[k]? = some b ∧ w.calls[b.call]? = some c ∧
      IOManager.cancelEvent c.fd c.event garbage ok w.manager = .ok a s ∧
      w' = { w with manager := s, running := w.running.eraseIdx k } := by
  rcases Option.bind_eq_some_iff.1 h with ⟨b, hb, hstep⟩
  rcases Option.bind_eq_some_iff.1 hstep with ⟨c, hc, hend⟩
  split at hend
  · rcases Option.bind_eq_some_iff.1 hend with ⟨⟨a, w₁⟩, hcancel, hlast⟩
    rcases onManager_eq_some hcancel with ⟨s, hs, rfl⟩
    cases hlast
    exact ⟨b, c, a, s, hb, hc, hs, rfl⟩
  · cases hend

/-! ## The table -/

theorem cancelAll_step {fd : Nat} (h : step (.cancelAll fd ok) w = some w') :
    ∃ a s, IOManager.cancelAll fd ok w.manager = .ok a s ∧ w' = { w with manager := s } := by
  rcases Option.map_eq_some_iff.1 h with ⟨⟨a, w₁⟩, hrun, rfl⟩
  rcases onManager_eq_some hrun with ⟨s, hs, rfl⟩
  exact ⟨a, s, hs, rfl⟩

theorem dispatch_step {fd : Nat} {mask : UInt32} (h : step (.dispatch fd mask ok) w = some w') :
    ∃ s, IOManager.dispatch fd mask ok w.manager = .ok () s ∧ w' = { w with manager := s } := by
  rcases Option.map_eq_some_iff.1 h with ⟨⟨a, w₁⟩, hrun, rfl⟩
  rcases onManager_eq_some hrun with ⟨s, hs, rfl⟩
  exact ⟨s, hs, rfl⟩

end HookWorld

end YkServer
