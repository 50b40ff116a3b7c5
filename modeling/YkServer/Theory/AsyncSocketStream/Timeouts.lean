import YkServer.Theory.AsyncSocketStream.Contexts
import YkServer.Theory.Timer.Callbacks

/-!
# Timeouts of Requests

A request that has armed its timer and still has its fiber will be looked after. The
timer is in the set, or its callback was handed out, or a thread is working on the
context. A timer is cancelled only by a thread that is working on the context it belongs
to, whether or not `request` has got to store it there.

## Main definitions

* `RockCall.Armed`: Where a call is, and its timer.
* `RockStream.Timed`: Timers and the requests that armed them.
* `RockStream.TimersMove`: What becomes of the timers.

## Theorems

* `step_timed`: Every step keeps it.
-/

namespace YkServer

open Lib

/-- A call has armed a timer from `addTimer` on, and there is no other in its context. -/
def RockCall.Armed (c : RockCall) : Prop :=
  (c.armed = none ↔ c.pos = .created ∨ c.pos = .added) ∧
    ∀ p, c.ctx.timer = some p → c.armed = some p

/-- A write leaves the timer or clears it. -/
theorem Writes.timer {pos pos' : JobPos} {ctx ctx' : RockCtx} (h : Writes pos ctx ctx' pos')
    (p : Nat) (hp : ctx'.timer = some p) : ctx.timer = some p := by
  cases h with
  | clear => cases hp
  | timed | result | ioError | response | mark => exact hp

namespace RockStream

theorem Moves.kept {w : RockStream} {a : Action} {r : Nat} {c c' : RockCall}
    (h : Moves w a r c c') (harmed : c.Armed) : c'.Armed := by
  cases h with
  | same => exact harmed
  | added ha hpos =>
      refine ⟨?_, harmed.2⟩
      have hnone := harmed.1.2 (Or.inl hpos)
      exact ⟨fun _ => Or.inr rfl, fun _ => hnone⟩
  | armed p now ha hpos =>
      have hnone := harmed.1.2 (Or.inr hpos)
      refine ⟨by simp, ?_⟩
      intro q hq
      -- Nothing is stored in the context before the timer is armed.
      have hold := harmed.2 q hq
      rw [hnone] at hold
      cases hold
  | stored hpos =>
      refine ⟨?_, fun _ hp => hp⟩
      have hsome := harmed.1
      simp only [hpos, reduceCtorEq, or_self, iff_false] at hsome ⊢
      exact hsome
  | queued hpos | yielded hpos | returned hpos =>
      refine ⟨?_, harmed.2⟩
      have hsome := harmed.1
      simp only [hpos, reduceCtorEq, or_self, iff_false] at hsome ⊢
      exact hsome
  | write j ctx pos hj hr hwrite =>
      exact ⟨harmed.1, fun p hp => harmed.2 p (hwrite.timer p hp)⟩
  | wake j hj hr hpos => exact harmed

/-- Who has armed a timer does not arm another one, and a fiber does not come back. -/
theorem Moves.armed_or {w : RockStream} {a : Action} {r : Nat} {c c' : RockCall}
    (h : Moves w a r c c') :
    (c'.armed = c.armed ∨ ∃ p now, a = .addTimer r p now ∧ c'.armed = some p) ∧
      (c'.ctx.fiber.isSome = true → c.ctx.fiber.isSome = true) := by
  cases h with
  | armed p now ha hpos => exact ⟨Or.inr ⟨p, now, ha, rfl⟩, fun hfiber => hfiber⟩
  | write j ctx pos hj hr hwrite =>
      refine ⟨Or.inl rfl, fun hfiber => ?_⟩
      rw [← hwrite.frame.2.2]
      exact hfiber
  | wake j hj hr hpos => exact ⟨Or.inl rfl, fun hfiber => Bool.noConfusion hfiber⟩
  | same | added | stored | queued | yielded | returned =>
      exact ⟨Or.inl rfl, fun hfiber => hfiber⟩

/-- Timers, and the requests that armed them. -/
structure Timed (w : RockStream) : Prop where
  timers : w.timers.Inv
  oneShot : w.timers.OneShot
  call : ∀ (r : Nat) (c : RockCall), w.calls[r]? = some c → c.Armed
  armed : ∀ (r : Nat) (c : RockCall) (p : Nat), w.calls[r]? = some c → c.armed = some p →
    (w.timers.heap p).isSome = true ∧ ∀ q, w.timers.cbOf p = some q → q = r
  due : ∀ (r : Nat) (c : RockCall) (p : Nat), w.calls[r]? = some c → c.armed = some p →
    c.ctx.fiber.isSome = true →
    (w.timers.cbOf p).isSome = true ∨ (p, r) ∈ w.pending ∨ Tended w r

theorem timed_new (now : UInt64) : Timed (new now) := by
  refine ⟨TimerManager.inv_new now, ?_, ?_, ?_, ?_⟩
  · intro p t hp
    cases hp
  · intro r c hc
    cases hc
  · intro r c p hc
    cases hc
  · intro r c p hc
    cases hc

theorem calls_armed (w w' : RockStream) (a : Action) (h : Timed w) (hcalls : CallsMove w a w') :
    ∀ (r : Nat) (c : RockCall), w'.calls[r]? = some c → c.Armed := by
  intro r c' hc'
  rcases hcalls.origin r c' hc' with ⟨c, hc, hmove⟩ | ⟨_, sn, timeout, caller, rfl⟩
  · exact hmove.kept (h.call r c hc)
  · refine ⟨by simp, ?_⟩
    intro p hp
    cases hp

/-- A timer that was armed before a step, and its owner. -/
theorem armed_before (w w' : RockStream) (a : Action) (hcalls : CallsMove w a w') (r p : Nat)
    (c' : RockCall) (hc' : w'.calls[r]? = some c') (hp : c'.armed = some p) :
    (∃ c, w.calls[r]? = some c ∧ c.armed = some p ∧
      (c'.ctx.fiber.isSome = true → c.ctx.fiber.isSome = true)) ∨
    ∃ now, a = .addTimer r p now := by
  rcases hcalls.origin r c' hc' with ⟨c, hc, hmove⟩ | ⟨_, sn, timeout, caller, rfl⟩
  · rcases hmove.armed_or with ⟨hsame | ⟨q, now, ha, hq⟩, hfiber⟩
    · exact Or.inl ⟨c, hc, hsame.symm.trans hp, hfiber⟩
    · rw [hp, Option.some.injEq] at hq
      rw [hq]
      exact Or.inr ⟨now, ha⟩
  · cases hp

/-- No timer is armed, and what was due still is. -/
theorem timed_moves (w w' : RockStream) (a : Action) (hcounts : Counts w) (h : Timed w)
    (hstep : step a w = some w') (ha : ∀ r p now, a ≠ .addTimer r p now)
    (htimers : w'.timers.Inv) (hshot : w'.timers.OneShot)
    (hknown : ∀ p, (w'.timers.heap p).isSome = (w.timers.heap p).isSome)
    (hcb : ∀ p q, w'.timers.cbOf p = some q → w.timers.cbOf p = some q)
    (hdue : ∀ (r : Nat) (c : RockCall) (p : Nat), w.calls[r]? = some c → c.armed = some p →
      (w.timers.cbOf p).isSome = true ∨ (p, r) ∈ w.pending →
      (w'.timers.cbOf p).isSome = true ∨ (p, r) ∈ w'.pending ∨ Tended w' r) : Timed w' := by
  have hcalls := step_moves w w' a hstep
  refine ⟨htimers, hshot, calls_armed w w' a h hcalls, ?_, ?_⟩
  · intro r c' p hc' hp
    rcases armed_before w w' a hcalls r p c' hc' hp with ⟨c, hc, harmed, _⟩ | ⟨now, hadd⟩
    · rcases h.armed r c p hc harmed with ⟨hheap, howner⟩
      exact ⟨(hknown p).trans hheap, fun q hq => howner q (hcb p q hq)⟩
    · exact absurd hadd (ha r p now)
  · intro r c' p hc' hp hfiber
    rcases armed_before w w' a hcalls r p c' hc' hp with ⟨c, hc, harmed, hfib⟩ | ⟨now, hadd⟩
    · -- What is due is followed to where it is after the step; a thread stays or wakes the fiber.
      rcases h.due r c p hc harmed (hfib hfiber) with hlive | hpending | htended
      · exact hdue r c p hc harmed (Or.inl hlive)
      · exact hdue r c p hc harmed (Or.inr hpending)
      · rcases step_tended w w' a hcounts hstep r htended with hstill | ⟨d, hd, hgone⟩
        · exact Or.inr (Or.inr hstill)
        · rw [hc', Option.some.injEq] at hd
          rw [hd, hgone] at hfiber
          cases hfiber
    · exact absurd hadd (ha r p now)

/-- Neither the timers nor the callbacks that were handed out are touched. -/
theorem timed_quiet (w w' : RockStream) (a : Action) (hcounts : Counts w) (h : Timed w)
    (hstep : step a w = some w') (ha : ∀ r p now, a ≠ .addTimer r p now)
    (htimers : w'.timers = w.timers) (hpending : w'.pending = w.pending) : Timed w' := by
  refine timed_moves w w' a hcounts h hstep ha ?_ ?_ ?_ ?_ ?_
  · rw [htimers]
    exact h.timers
  · rw [htimers]
    exact h.oneShot
  · intro p
    rw [htimers]
  · intro p q hq
    rw [htimers] at hq
    exact hq
  · intro r c p _ _ hdue
    rw [htimers, hpending]
    exact hdue.elim Or.inl (fun hmem => Or.inr (Or.inl hmem))

theorem timed_addTimer (w w' : RockStream) (r p : Nat) (now : UInt64) (h : Timed w)
    (hstep : step (.addTimer r p now) w = some w') : Timed w' := by
  have hcalls := step_moves w w' _ hstep
  rcases addTimer_step hstep with ⟨c₀, b, s, _, _, hrun, rfl⟩
  rcases TimerManager.addTimer_cbOf w.timers s h.timers h.oneShot p _ r now b hrun
    with ⟨hinv, hshot, hfree, hknown, hcb⟩
  -- The memory was free, so it is not the timer of anybody else.
  have hother : ∀ (q : Nat) (c : RockCall) (p' : Nat), w.calls[q]? = some c →
      c.armed = some p' → p' ≠ p := by
    intro q c p' hc harmed heq
    have hheap := (h.armed q c p' hc harmed).1
    rw [heq, hfree] at hheap
    cases hheap
  have hmine : s.cbOf p = some r := (hcb p).trans (if_pos rfl)
  refine ⟨hinv, hshot, calls_armed w _ _ h hcalls, ?_, ?_⟩
  · intro q c' p' hc' hp'
    rcases armed_before w _ _ hcalls q p' c' hc' hp' with ⟨c, hc, harmed, _⟩ | ⟨now', hadd⟩
    · rcases h.armed q c p' hc harmed with ⟨hheap, howner⟩
      refine ⟨(hknown p').trans (by rw [hheap]; rfl), ?_⟩
      intro x hx
      refine howner x ?_
      rw [← hx]
      exact ((hcb p').trans (if_neg (hother q c p' hc harmed))).symm
    · cases hadd
      refine ⟨(hknown p).trans (by rw [decide_eq_true rfl, Bool.or_true]), ?_⟩
      intro x hx
      exact Option.some.inj (hx.symm.trans hmine)
  · intro q c' p' hc' hp' hfiber
    rcases armed_before w _ _ hcalls q p' c' hc' hp' with ⟨c, hc, harmed, hfib⟩ | ⟨now', hadd⟩
    · have hsame : s.cbOf p' = w.timers.cbOf p' :=
        (hcb p').trans (if_neg (hother q c p' hc harmed))
      rcases h.due q c p' hc harmed (hfib hfiber) with hlive | hrest
      · exact Or.inl ((congrArg Option.isSome hsame).trans hlive)
      · exact Or.inr hrest
    · cases hadd
      exact Or.inl (congrArg Option.isSome hmine)

theorem timed_listExpiredCb (w w' : RockStream) (now : UInt64) (nowTimer : Nat)
    (hcounts : Counts w) (h : Timed w)
    (hstep : step (.listExpiredCb now nowTimer) w = some w') : Timed w' := by
  have hstep' := hstep
  rcases listExpiredCb_step hstep with ⟨cbs, s, hrun, rfl⟩
  rcases TimerManager.listExpiredCb_cbOf w.timers s h.timers h.oneShot now nowTimer cbs hrun
    with ⟨hinv, hshot, hknown, _, hhanded, hcb⟩
  refine timed_moves w _ _ hcounts h hstep' (fun _ _ _ => Action.noConfusion) hinv hshot hknown
    ?_ ?_
  · intro p q hq
    have hold := (hcb p).symm.trans hq
    by_cases hmem : p ∈ cbs.map Prod.fst
    · rw [if_pos hmem] at hold
      cases hold
    · rw [if_neg hmem] at hold
      exact hold
  · intro r c p hc harmed hdue
    rcases hdue with hlive | hpending
    · by_cases hmem : p ∈ cbs.map Prod.fst
      · -- It expires, and what it had is the callback of this request.
        refine Or.inr (Or.inl (List.mem_append_right _ ?_))
        rcases List.mem_map.1 hmem with ⟨⟨p', cb⟩, hx, rfl⟩
        rcases hhanded _ hx with ⟨hcbOf, _⟩
        rcases Option.isSome_iff_exists.1 hlive with ⟨q, hq⟩
        have hown := (h.armed r c _ hc harmed).2 q hq
        refine List.mem_filterMap.2 ⟨(p', cb), hx, ?_⟩
        rw [hcbOf, hq, hown]
        rfl
      · exact Or.inl ((congrArg Option.isSome ((hcb p).trans (if_neg hmem))).trans hlive)
    · exact Or.inr (Or.inl (List.mem_append_left _ hpending))

theorem timed_onTimeOut (w w' : RockStream) (k : Nat) (hcounts : Counts w) (h : Timed w)
    (hstep : step (.onTimeOut k) w = some w') : Timed w' := by
  have hstep' := hstep
  rcases onTimeOut_step hstep with ⟨p₀, r₀, hk, rfl⟩
  refine timed_moves w _ _ hcounts h hstep' (fun _ _ _ => Action.noConfusion) h.timers h.oneShot
    (fun _ => rfl) (fun _ _ hq => hq) ?_
  intro r c p _ _ hdue
  rcases hdue with hlive | hpending
  · exact Or.inl hlive
  · rcases at_or_mem_eraseIdx w.pending k (p, r) hpending with hat | hstays
    · -- The callback that was handed out becomes a thread with this context.
      rw [hk, Option.some.injEq, Prod.mk.injEq] at hat
      refine Or.inr (Or.inr ⟨⟨r₀, .erase, []⟩, ?_, hat.2⟩)
      exact List.mem_append_right _ List.mem_cons_self
    · exact Or.inr (Or.inl hstays)

/-- A thread that works on a context cancels the timer of that request. -/
theorem timed_cancel (w : RockStream) (k : Nat) (j : Job) (c : RockCall) (p : Nat) (b : Bool)
    (s : TimerManager) (hcounts : Counts w) (h : Timed w) (hj : w.jobs[k]? = some j)
    (hc : w.calls[j.ctx]? = some c) (htimer : c.ctx.timer = some p)
    (hrun : TimerManager.cancel p w.timers = .ok b s)
    (hstep : step (.go k) w = some (goto { w with timers := s } k j (.doRsp .clear))) :
    Timed (goto { w with timers := s } k j (.doRsp .clear)) := by
  rcases TimerManager.cancel_cbOf w.timers s h.timers h.oneShot p b hrun
    with ⟨hinv, hshot, hknown, hcb⟩
  have hmine : c.armed = some p := (h.call j.ctx c hc).2 p htimer
  refine timed_moves w _ _ hcounts h hstep (fun _ _ _ => Action.noConfusion) hinv hshot hknown
    ?_ ?_
  · intro p' q hq
    have hold := (hcb p').symm.trans hq
    by_cases hp : p' = p
    · rw [if_pos hp] at hold
      cases hold
    · rw [if_neg hp] at hold
      exact hold
  · intro r d p' hd harmed hdue
    rcases hdue with hlive | hpending
    · by_cases hp : p' = p
      · -- The timer that is cancelled has one owner, and the thread works on its context.
        rcases Option.isSome_iff_exists.1 hlive with ⟨q, hq⟩
        have hthis := (h.armed r d p' hd harmed).2 q hq
        have hthat := (h.armed j.ctx c p hc hmine).2 q (by rw [← hp]; exact hq)
        refine Or.inr (Or.inr ⟨{ j with pos := .doRsp .clear }, ?_, hthat.symm.trans hthis⟩)
        exact mem_set_self w.jobs k j _ hj
      · exact Or.inl ((congrArg Option.isSome ((hcb p').trans (if_neg hp))).trans hlive)
    · exact Or.inr (Or.inl hpending)

/-- What a step makes of the timers, and of the callbacks that were handed out. -/
inductive TimersMove (w : RockStream) (a : Action) (w' : RockStream) : Prop
  | same (ha : ∀ r p now, a ≠ .addTimer r p now) (htimers : w'.timers = w.timers)
    (hpending : w'.pending = w.pending)
  | addTimer (r p : Nat) (now : UInt64) (ha : a = .addTimer r p now)
  | listExpiredCb (now : UInt64) (nowTimer : Nat) (ha : a = .listExpiredCb now nowTimer)
  | onTimeOut (k : Nat) (ha : a = .onTimeOut k)
  | cancel (k : Nat) (j : Job) (c : RockCall) (p : Nat) (b : Bool) (s : TimerManager)
    (ha : a = .go k) (hj : w.jobs[k]? = some j) (hc : w.calls[j.ctx]? = some c)
    (htimer : c.ctx.timer = some p) (hrun : TimerManager.cancel p w.timers = .ok b s)
    (hw : w' = goto { w with timers := s } k j (.doRsp .clear))

theorem step_timersMove (w w' : RockStream) (a : Action) (hstep : step a w = some w') :
    TimersMove w a w' := by
  cases step_happens w w' a hstep with
  | addTimer r p now => exact .addTimer r p now rfl
  | listExpiredCb now nowTimer => exact .listExpiredCb now nowTimer rfl
  | onTimeOut k => exact .onTimeOut k rfl
  | cancel k j c p b s hj hc hpos htimer hrun =>
      exact .cancel k j c p b s rfl hj hc htimer hrun rfl
  | connect | notConnect | request | addCtx | storeTimer | enqueue | yieldToHold | resume | doWrite
  | unknown | ignored | answer | innerClose | erase | write | look | wake | ended =>
      exact .same (fun _ _ _ => Action.noConfusion) rfl rfl

theorem step_timed (w w' : RockStream) (a : Action) (hcounts : Counts w) (h : Timed w)
    (hstep : step a w = some w') : Timed w' := by
  cases step_timersMove w w' a hstep with
  | same ha htimers hpending => exact timed_quiet w w' a hcounts h hstep ha htimers hpending
  | addTimer r p now ha =>
      rw [ha] at hstep
      exact timed_addTimer w w' r p now h hstep
  | listExpiredCb now nowTimer ha =>
      rw [ha] at hstep
      exact timed_listExpiredCb w w' now nowTimer hcounts h hstep
  | onTimeOut k ha =>
      rw [ha] at hstep
      exact timed_onTimeOut w w' k hcounts h hstep
  | cancel k j c p b s ha hj hc htimer hrun hw =>
      rw [ha, hw] at hstep
      rw [hw]
      exact timed_cancel w k j c p b s hcounts h hj hc htimer hrun hstep

end RockStream

end YkServer
