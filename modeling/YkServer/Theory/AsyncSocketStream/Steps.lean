import YkServer.Core.AsyncSocketStream
import YkServer.Lib.Table

/-!
# Steps of Requests

What each step of `YkServer.Core.AsyncSocketStream` did, from the fact that it could be
taken. The steps of a thread with a context are of six kinds: it has taken the context
out of the map, written into it, only looked at it, cancelled its timer, scheduled its
fiber, or found that there is nothing to do.

## Main definitions

* `Writes`, `Looks`: The steps that write into a context or look at it.
* `RockStream.Went`: The steps of a thread with a context.
* `RockStream.Happens`: All steps.

## Theorems

* `go_step`: What a thread has done.
* `request_step` to `innerClose_step`: The other actions.
* `step_happens`: What any action has done.
-/

namespace YkServer

open Lib

/-- A step that writes into the context. -/
inductive Writes : JobPos → RockCtx → RockCtx → JobPos → Prop
  | timed (ctx : RockCtx) : Writes .setTimed ctx { ctx with timed := true } (.doRsp .test)
  | result (ctx : RockCtx) (v : UInt32) (m : RockMessage) :
    Writes (.setResult v (some m)) ctx { ctx with result := v } (.setResponse m)
  | ioError (ctx : RockCtx) (v : UInt32) :
    Writes (.setResult v none) ctx { ctx with result := v } (.doRsp .test)
  | response (ctx : RockCtx) (m : RockMessage) :
    Writes (.setResponse m) ctx { ctx with response := some m } (.doRsp .test)
  | clear (ctx : RockCtx) : Writes (.doRsp .clear) ctx { ctx with timer := none } (.doRsp .mark)
  | mark (ctx : RockCtx) (h : ctx.timed = true) :
    Writes (.doRsp .mark) ctx { ctx with result := TIMEOUT } (.doRsp .wake)

/-- A step of `doRsp` that looks at the context and goes on. -/
inductive Looks : JobPos → JobPos → Prop
  | test : Looks (.doRsp .test) (.doRsp .ifTimer)
  | timer : Looks (.doRsp .ifTimer) (.doRsp .cancel)
  | noTimer : Looks (.doRsp .ifTimer) (.doRsp .mark)
  | notTimed : Looks (.doRsp .mark) (.doRsp .wake)

namespace RockStream

/-- What a thread may have done with its context. -/
inductive Went (w : RockStream) (k : Nat) (j : Job) (c : RockCall) : RockStream → Prop
  | erase (h : j.pos = .erase) : Went w k j c
    (goto { w.eraseCtx c.ctx.sn with erased := j.ctx :: w.erased } k j .setTimed)
  | write (ctx : RockCtx) (pos : JobPos) (h : Writes j.pos c.ctx ctx pos) : Went w k j c
    ((w.setCtx j.ctx c ctx).goto k j pos)
  | look (pos : JobPos) (h : Looks j.pos pos)
    (hfiber : j.pos = .doRsp .test → c.ctx.fiber.isSome = true) : Went w k j c (w.goto k j pos)
  | cancel (p : Nat) (a : Bool) (s : TimerManager) (h : j.pos = .doRsp .cancel)
    (htimer : c.ctx.timer = some p) (hrun : TimerManager.cancel p w.timers = .ok a s) :
    Went w k j c (goto { w with timers := s } k j (.doRsp .clear))
  | wake (h : j.pos = .doRsp .wake) (hfiber : c.ctx.fiber.isSome = true) : Went w k j c
    (finish { w.setCtx j.ctx c { c.ctx with fiber := none } with
      scheduled := j.ctx :: w.scheduled } k j)
  | ended (h : c.ctx.scheduler = none ∨ c.ctx.fiber = none) : Went w k j c (w.finish k j)

theorem goOn_went (w w' : RockStream) (k : Nat) (j : Job) (c : RockCall)
    (h : w.goOn k j c = some w') : Went w k j c w' := by
  unfold goOn at h
  split at h
  · rename_i hpos
    cases h
    exact .erase hpos
  · rename_i hpos
    cases h
    exact .write _ _ (hpos ▸ .timed c.ctx)
  · rename_i result rsp hpos
    cases h
    cases rsp with
    | none => exact .write _ _ (hpos ▸ .ioError c.ctx result)
    | some m => exact .write _ _ (hpos ▸ .result c.ctx result m)
  · rename_i m hpos
    cases h
    exact .write _ _ (hpos ▸ .response c.ctx m)
  · rename_i hpos
    -- `doRsp` returns at once if the fiber was scheduled before.
    by_cases hnull : (c.ctx.scheduler.isNone || c.ctx.fiber.isNone) = true
    · rw [if_pos hnull] at h
      cases h
      rw [Bool.or_eq_true, Option.isNone_iff_eq_none, Option.isNone_iff_eq_none] at hnull
      exact .ended hnull
    · rw [if_neg hnull] at h
      cases h
      rw [Bool.or_eq_true, not_or, Option.isNone_iff_eq_none, Option.isNone_iff_eq_none] at hnull
      exact .look _ (hpos ▸ .test) (fun _ => Option.isSome_iff_ne_none.2 hnull.2)
  · rename_i hpos
    cases h
    have hpast : j.pos = .doRsp .test → c.ctx.fiber.isSome = true := by
      rw [hpos]
      intro htest
      cases htest
    by_cases htimer : c.ctx.timer.isSome = true
    · rw [if_pos htimer]
      exact .look _ (hpos ▸ .timer) hpast
    · rw [if_neg htimer]
      exact .look _ (hpos ▸ .noTimer) hpast
  · rename_i hpos
    split at h
    · rename_i p htimer
      split at h
      · rename_i a s hrun
        cases h
        exact .cancel p a s hpos htimer hrun
      · cases h
    · cases h
  · rename_i hpos
    cases h
    exact .write _ _ (hpos ▸ .clear c.ctx)
  · rename_i hpos
    cases h
    by_cases htimed : c.ctx.timed = true
    · rw [if_pos htimed]
      exact .write _ _ (hpos ▸ .mark c.ctx htimed)
    · rw [if_neg htimed]
      -- The result stays what the response or `innerClose` has set.
      refine .look _ (hpos ▸ .notTimed) ?_
      rw [hpos]
      intro htest
      cases htest
  · rename_i hpos
    split at h
    · rename_i f hfiber
      cases h
      exact .wake hpos (by rw [hfiber]; rfl)
    · -- Another thread has come first: `schedule` gets a null pointer.
      rename_i hfiber
      cases h
      exact .ended (Or.inr hfiber)

variable {w w' : RockStream} {r k : Nat}

theorem callAt_eq_some {pos : RequestPos} {c : RockCall} (h : w.callAt r pos = some c) :
    w.calls[r]? = some c ∧ c.pos = pos := by
  rw [callAt, Option.filter_eq_some_iff, decide_eq_true_iff] at h
  exact h

theorem go_step (h : step (.go k) w = some w') :
    ∃ j c, w.jobs[k]? = some j ∧ w.calls[j.ctx]? = some c ∧ Went w k j c w' := by
  rcases Option.bind_eq_some_iff.1 h with ⟨j, hj, hstep⟩
  rcases Option.bind_eq_some_iff.1 hstep with ⟨c, hc, hend⟩
  exact ⟨j, c, hj, hc, goOn_went w w' k j c hend⟩

/-! ## The calls -/

theorem request_step {sn timeout : UInt32} {caller : Caller}
    (h : step (.request sn timeout caller) w = some w') :
    w' = w ∨ w' = { w with calls := w.calls ++
      [⟨⟨sn, timeout, 0, false, some caller.scheduler, some caller.fiber, none, none⟩, .created,
        none⟩] } := by
  simp only [step] at h
  split at h
  · cases h
    exact Or.inr rfl
  · cases h
    exact Or.inl rfl

theorem addCtx_step (h : step (.addCtx r) w = some w') :
    ∃ c, w.calls[r]? = some c ∧ c.pos = .created ∧
      w' = (w.addCtx c.ctx.sn r).setCall r { c with pos := .added } := by
  rcases Option.bind_eq_some_iff.1 h with ⟨c, hc, hend⟩
  rcases callAt_eq_some hc with ⟨hcall, hpos⟩
  cases hend
  exact ⟨c, hcall, hpos, rfl⟩

theorem addTimer_step {p : Nat} {now : UInt64} (h : step (.addTimer r p now) w = some w') :
    ∃ c a s, w.calls[r]? = some c ∧ c.pos = .added ∧
      TimerManager.addTimer p c.ctx.timeout.toUInt64 r false now w.timers = .ok a s ∧
      w' = setCall { w with timers := s } r { c with pos := .armed, armed := some p } := by
  rcases Option.bind_eq_some_iff.1 h with ⟨c, hc, hend⟩
  rcases callAt_eq_some hc with ⟨hcall, hpos⟩
  split at hend
  · rename_i a s hrun
    cases hend
    exact ⟨c, a, s, hcall, hpos, hrun, rfl⟩
  · cases hend

theorem storeTimer_step (h : step (.storeTimer r) w = some w') :
    ∃ c, w.calls[r]? = some c ∧ c.pos = .armed ∧
      w' = w.setCall r { c with ctx := { c.ctx with timer := c.armed }, pos := .stored } := by
  rcases Option.bind_eq_some_iff.1 h with ⟨c, hc, hend⟩
  rcases callAt_eq_some hc with ⟨hcall, hpos⟩
  cases hend
  exact ⟨c, hcall, hpos, rfl⟩

theorem enqueue_step (h : step (.enqueue r) w = some w') :
    ∃ c, w.calls[r]? = some c ∧ c.pos = .stored ∧
      w' = setCall { w with queue := w.queue ++ [r] } r { c with pos := .queued } := by
  rcases Option.bind_eq_some_iff.1 h with ⟨c, hc, hend⟩
  rcases callAt_eq_some hc with ⟨hcall, hpos⟩
  cases hend
  exact ⟨c, hcall, hpos, rfl⟩

theorem yieldToHold_step (h : step (.yieldToHold r) w = some w') :
    ∃ c, w.calls[r]? = some c ∧ c.pos = .queued ∧ w' = w.setCall r { c with pos := .yielded } := by
  rcases Option.bind_eq_some_iff.1 h with ⟨c, hc, hend⟩
  rcases callAt_eq_some hc with ⟨hcall, hpos⟩
  cases hend
  exact ⟨c, hcall, hpos, rfl⟩

theorem resume_step (h : step (.resume r) w = some w') :
    ∃ c, w.calls[r]? = some c ∧ c.pos = .yielded ∧ r ∈ w.scheduled ∧
      w' = w.setCall r { c with pos := .returned c.ctx.result c.ctx.response } := by
  rcases Option.bind_eq_some_iff.1 h with ⟨c, hc, hend⟩
  rcases callAt_eq_some hc with ⟨hcall, hpos⟩
  split at hend
  · rename_i hmem
    cases hend
    exact ⟨c, hcall, hpos, hmem, rfl⟩
  · cases hend

/-! ## Where threads come from -/

theorem doRecv_step {m : RockMessage} (h : step (.doRecv m) w = some w') :
    (∃ sn, w.ctxs.lookup sn = none ∧ w' = w.eraseCtx sn) ∨ w' = w ∨
      ∃ sn result r, m.getSn = some sn ∧ m.getResult = some result ∧ w.ctxs.lookup sn = some r ∧
        w' = { w.eraseCtx sn with
          jobs := w.jobs ++ [⟨r, .setResult result (some m), []⟩]
          answered := (r, m) :: w.answered } := by
  cases m with
  | request sn cmd body =>
      cases h
      exact Or.inr (Or.inl rfl)
  | notify code body =>
      cases h
      exact Or.inr (Or.inl rfl)
  | response sn cmd result str body =>
      simp only [step, getAndDelCtx] at h
      -- `getAndDelCtx` erases the number in both cases.
      rcases hfind : w.ctxs.lookup sn with _ | r
      · rw [hfind] at h
        cases h
        exact Or.inl ⟨sn, hfind, rfl⟩
      · rw [hfind] at h
        cases h
        exact Or.inr (Or.inr ⟨sn, result, r, rfl, rfl, hfind, rfl⟩)

theorem listExpiredCb_step {now : UInt64} {nowTimer : Nat}
    (h : step (.listExpiredCb now nowTimer) w = some w') :
    ∃ cbs s, TimerManager.listExpiredCb now nowTimer w.timers = .ok cbs s ∧
      w' = { w with
        timers := s
        pending := w.pending ++ cbs.filterMap (fun x => x.2.map (fun r => (x.1, r))) } := by
  simp only [step] at h
  split at h
  · rename_i cbs s hrun
    cases h
    exact ⟨cbs, s, hrun, rfl⟩
  · cases h

theorem onTimeOut_step (h : step (.onTimeOut k) w = some w') :
    ∃ p r, w.pending[k]? = some (p, r) ∧
      w' = { w with
        pending := w.pending.eraseIdx k
        jobs := w.jobs ++ [⟨r, .erase, []⟩] } := by
  rcases Option.bind_eq_some_iff.1 h with ⟨⟨p, r⟩, hk, hend⟩
  cases hend
  exact ⟨p, r, hk, rfl⟩

theorem innerClose_step {order : List (Σ _ : UInt32, Nat)}
    (h : step (.innerClose order) w = some w') :
    ∃ taken bs, (∀ r, r ∈ taken ↔ ∃ sn, w.ctxs.lookup sn = some r) ∧
      (bs = [] ∨ ∃ r rest, taken = r :: rest ∧ bs = [⟨r, .setResult IO_ERROR none, rest⟩]) ∧
      w' = { w with
        connected := false
        ctxs := ∅
        queue := []
        closed := w.closed ++ taken
        jobs := w.jobs ++ bs } := by
  simp only [step] at h
  split at h
  · rename_i hperm
    -- The order is one of the entries of the map, so the contexts are the same.
    have hmem : ∀ r, r ∈ order.map Sigma.snd ↔ ∃ sn, w.ctxs.lookup sn = some r := by
      intro r
      rw [List.mem_map]
      constructor
      · rintro ⟨x, hx, rfl⟩
        exact ⟨x.1, AList.mem_lookup_iff.2 (hperm.mem_iff.1 hx)⟩
      · rintro ⟨sn, hsn⟩
        exact ⟨⟨sn, r⟩, hperm.mem_iff.2 (AList.mem_lookup_iff.1 hsn), rfl⟩
    split at h
    · rename_i htaken
      cases h
      refine ⟨_, [], hmem, Or.inl rfl, ?_⟩
      rw [List.append_nil]
    · rename_i r rest htaken
      cases h
      exact ⟨_, _, hmem, Or.inr ⟨r, rest, htaken, rfl⟩, rfl⟩
  · cases h

/-! ## All steps -/

/-- What a thread that is done with its context leaves behind: the others, and itself with
    the next of its contexts. -/
def Done (before : List Job) (j : Job) (jobs : List Job) : Prop :=
  (∀ x ∈ before, x = j ∨ x ∈ jobs) ∧
    ∀ x ∈ jobs, x ∈ before ∨
      ∃ r rest, j.rest = r :: rest ∧ x = ⟨r, .setResult IO_ERROR none, rest⟩

theorem finish_spec (w : RockStream) (k : Nat) (j : Job) (hj : w.jobs[k]? = some j) :
    ∃ jobs, w.finish k j = { w with jobs := jobs } ∧ Done w.jobs j jobs := by
  -- Only a thread in `innerClose` has contexts left.
  rcases hrest : j.rest with _ | ⟨r, rest⟩
  · refine ⟨w.jobs.eraseIdx k, by simp only [finish, hrest], ?_, ?_⟩
    · intro x hx
      rcases at_or_mem_eraseIdx w.jobs k x hx with hat | hstays
      · rw [hj, Option.some.injEq] at hat
        exact Or.inl hat.symm
      · exact Or.inr hstays
    · intro x hx
      exact Or.inl (List.mem_of_mem_eraseIdx hx)
  · refine ⟨w.jobs.set k ⟨r, .setResult IO_ERROR none, rest⟩, by simp only [finish, hrest], ?_, ?_⟩
    · intro x hx
      rcases at_or_mem_set w.jobs k x ⟨r, .setResult IO_ERROR none, rest⟩ hx with hat | hstays
      · rw [hj, Option.some.injEq] at hat
        exact Or.inl hat.symm
      · exact Or.inr hstays
    · intro x hx
      rcases List.mem_or_eq_of_mem_set hx with hold | hnew
      · exact Or.inl hold
      · exact Or.inr ⟨r, rest, hrest, hnew⟩

/-- What an action can do. -/
inductive Happens (w : RockStream) : Action → RockStream → Prop
  | connect : Happens w .connect { w with connected := true }
  | notConnect (sn timeout : UInt32) (caller : Caller) : Happens w (.request sn timeout caller) w
  | request (sn timeout : UInt32) (caller : Caller) :
    Happens w (.request sn timeout caller) { w with calls := w.calls ++
      [⟨⟨sn, timeout, 0, false, some caller.scheduler, some caller.fiber, none, none⟩, .created,
        none⟩] }
  | addCtx (r : Nat) (c : RockCall) (hc : w.calls[r]? = some c) (hpos : c.pos = .created) :
    Happens w (.addCtx r) ((w.addCtx c.ctx.sn r).setCall r { c with pos := .added })
  | addTimer (r p : Nat) (now : UInt64) (c : RockCall) (s : TimerManager)
    (hc : w.calls[r]? = some c) (hpos : c.pos = .added) : Happens w (.addTimer r p now)
    (setCall { w with timers := s } r { c with pos := .armed, armed := some p })
  | storeTimer (r : Nat) (c : RockCall) (hc : w.calls[r]? = some c) (hpos : c.pos = .armed) :
    Happens w (.storeTimer r)
      (w.setCall r { c with ctx := { c.ctx with timer := c.armed }, pos := .stored })
  | enqueue (r : Nat) (c : RockCall) (hc : w.calls[r]? = some c) (hpos : c.pos = .stored) :
    Happens w (.enqueue r) (setCall { w with queue := w.queue ++ [r] } r { c with pos := .queued })
  | yieldToHold (r : Nat) (c : RockCall) (hc : w.calls[r]? = some c) (hpos : c.pos = .queued) :
    Happens w (.yieldToHold r) (w.setCall r { c with pos := .yielded })
  | resume (r : Nat) (c : RockCall) (hc : w.calls[r]? = some c) (hpos : c.pos = .yielded)
    (hsched : r ∈ w.scheduled) : Happens w (.resume r)
    (w.setCall r { c with pos := .returned c.ctx.result c.ctx.response })
  | doWrite : Happens w .doWrite { w with queue := [] }
  | unknown (m : RockMessage) (sn : UInt32) (hnone : w.ctxs.lookup sn = none) :
    Happens w (.doRecv m) (w.eraseCtx sn)
  | ignored (m : RockMessage) : Happens w (.doRecv m) w
  | answer (m : RockMessage) (sn result : UInt32) (r : Nat) (hsn : m.getSn = some sn)
    (hresult : m.getResult = some result) (hfind : w.ctxs.lookup sn = some r) :
    Happens w (.doRecv m) { w.eraseCtx sn with
      jobs := w.jobs ++ [⟨r, .setResult result (some m), []⟩]
      answered := (r, m) :: w.answered }
  | listExpiredCb (now : UInt64) (nowTimer : Nat) (s : TimerManager) (cbs : List (Nat × Nat)) :
    Happens w (.listExpiredCb now nowTimer) { w with timers := s, pending := w.pending ++ cbs }
  | onTimeOut (k p r : Nat) (hk : w.pending[k]? = some (p, r)) : Happens w (.onTimeOut k) { w with
      pending := w.pending.eraseIdx k
      jobs := w.jobs ++ [⟨r, .erase, []⟩] }
  | innerClose (order : List (Σ _ : UInt32, Nat)) (taken : List Nat) (bs : List Job)
    (htaken : ∀ r, r ∈ taken ↔ ∃ sn, w.ctxs.lookup sn = some r)
    (hbs : bs = [] ∨ ∃ r rest, taken = r :: rest ∧ bs = [⟨r, .setResult IO_ERROR none, rest⟩]) :
    Happens w (.innerClose order) { w with
      connected := false
      ctxs := ∅
      queue := []
      closed := w.closed ++ taken
      jobs := w.jobs ++ bs }
  | erase (k : Nat) (j : Job) (c : RockCall) (hj : w.jobs[k]? = some j)
    (hc : w.calls[j.ctx]? = some c) (hpos : j.pos = .erase) : Happens w (.go k)
    (goto { w.eraseCtx c.ctx.sn with erased := j.ctx :: w.erased } k j .setTimed)
  | write (k : Nat) (j : Job) (c : RockCall) (ctx : RockCtx) (pos : JobPos)
    (hj : w.jobs[k]? = some j) (hc : w.calls[j.ctx]? = some c)
    (hwrite : Writes j.pos c.ctx ctx pos) :
    Happens w (.go k) ((w.setCtx j.ctx c ctx).goto k j pos)
  | look (k : Nat) (j : Job) (c : RockCall) (pos : JobPos) (hj : w.jobs[k]? = some j)
    (hc : w.calls[j.ctx]? = some c) (hlook : Looks j.pos pos)
    (hfiber : j.pos = .doRsp .test → c.ctx.fiber.isSome = true) :
    Happens w (.go k) (w.goto k j pos)
  | cancel (k : Nat) (j : Job) (c : RockCall) (p : Nat) (a : Bool) (s : TimerManager)
    (hj : w.jobs[k]? = some j) (hc : w.calls[j.ctx]? = some c) (hpos : j.pos = .doRsp .cancel)
    (htimer : c.ctx.timer = some p) (hrun : TimerManager.cancel p w.timers = .ok a s) :
    Happens w (.go k) (goto { w with timers := s } k j (.doRsp .clear))
  | wake (k : Nat) (j : Job) (c : RockCall) (jobs : List Job) (hj : w.jobs[k]? = some j)
    (hc : w.calls[j.ctx]? = some c) (hpos : j.pos = .doRsp .wake)
    (hfiber : c.ctx.fiber.isSome = true) (hdone : Done w.jobs j jobs) : Happens w (.go k)
    { w.setCtx j.ctx c { c.ctx with fiber := none } with
      scheduled := j.ctx :: w.scheduled
      jobs := jobs }
  | ended (k : Nat) (j : Job) (c : RockCall) (jobs : List Job) (hj : w.jobs[k]? = some j)
    (hc : w.calls[j.ctx]? = some c) (hnull : c.ctx.scheduler = none ∨ c.ctx.fiber = none)
    (hdone : Done w.jobs j jobs) : Happens w (.go k) { w with jobs := jobs }

theorem step_happens (w w' : RockStream) (a : Action) (h : step a w = some w') :
    Happens w a w' := by
  cases a with
  | connect =>
      cases h
      exact .connect
  | request sn timeout caller =>
      rcases request_step h with rfl | rfl
      · exact .notConnect sn timeout caller
      · exact .request sn timeout caller
  | addCtx r =>
      rcases addCtx_step h with ⟨c, hc, hpos, rfl⟩
      exact .addCtx r c hc hpos
  | addTimer r p now =>
      rcases addTimer_step h with ⟨c, _, s, hc, hpos, _, rfl⟩
      exact .addTimer r p now c s hc hpos
  | storeTimer r =>
      rcases storeTimer_step h with ⟨c, hc, hpos, rfl⟩
      exact .storeTimer r c hc hpos
  | enqueue r =>
      rcases enqueue_step h with ⟨c, hc, hpos, rfl⟩
      exact .enqueue r c hc hpos
  | yieldToHold r =>
      rcases yieldToHold_step h with ⟨c, hc, hpos, rfl⟩
      exact .yieldToHold r c hc hpos
  | resume r =>
      rcases resume_step h with ⟨c, hc, hpos, hsched, rfl⟩
      exact .resume r c hc hpos hsched
  | doWrite =>
      cases h
      exact .doWrite
  | doRecv m =>
      rcases doRecv_step h with ⟨sn, hnone, rfl⟩ | rfl | ⟨sn, result, r, hsn, hres, hfind, rfl⟩
      · exact .unknown m sn hnone
      · exact .ignored m
      · exact .answer m sn result r hsn hres hfind
  | listExpiredCb now nowTimer =>
      rcases listExpiredCb_step h with ⟨cbs, s, _, rfl⟩
      exact .listExpiredCb now nowTimer s _
  | onTimeOut k =>
      rcases onTimeOut_step h with ⟨p, r, hk, rfl⟩
      exact .onTimeOut k p r hk
  | innerClose order =>
      rcases innerClose_step h with ⟨taken, bs, htaken, hbs, rfl⟩
      exact .innerClose order taken bs htaken hbs
  | go k =>
      rcases go_step h with ⟨j, c, hj, hc, hwent⟩
      cases hwent with
      | erase hpos => exact .erase k j c hj hc hpos
      | write ctx pos hwrite => exact .write k j c ctx pos hj hc hwrite
      | look pos hlook hfiber => exact .look k j c pos hj hc hlook hfiber
      | cancel p a s hpos htimer hrun => exact .cancel k j c p a s hj hc hpos htimer hrun
      | wake hpos hfiber =>
          rcases finish_spec { w.setCtx j.ctx c { c.ctx with fiber := none } with
            scheduled := j.ctx :: w.scheduled } k j hj with ⟨jobs, hfin, hdone⟩
          rw [hfin]
          exact .wake k j c jobs hj hc hpos hfiber hdone
      | ended hnull =>
          rcases finish_spec w k j hj with ⟨jobs, hfin, hdone⟩
          rw [hfin]
          exact .ended k j c jobs hj hc hnull hdone

end RockStream

end YkServer
