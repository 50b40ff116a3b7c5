import YkServer.Theory.AsyncSocketStream.Steps

/-!
# Calls, Threads and the Map

What a step does to one call of `request`, where the threads come from that are there
after it, and what it does to the map. Invariants about one of these go over the cases
of `Moves`, `JobMoves` or `MapMoves`, and not over the actions.

## Main definitions

* `RockStream.Moves`: What becomes of a call.
* `RockStream.CallsMove`: What becomes of the calls.
* `RockStream.Tended`: A thread is working on a context.
* `RockStream.JobMoves`: The threads that were not there before, or not at that place.
* `RockStream.MapMoves`: What becomes of the map.

## Theorems

* `step_moves`: The calls.
* `step_jobMoves`: The threads.
* `step_mapMoves`: The map.
-/

namespace YkServer

open Lib

/-- A write leaves the number, the scheduler and the fiber. -/
theorem Writes.frame {pos pos' : JobPos} {ctx ctx' : RockCtx} (h : Writes pos ctx ctx' pos') :
    ctx'.sn = ctx.sn ∧ ctx'.scheduler = ctx.scheduler ∧ ctx'.fiber = ctx.fiber := by
  cases h <;> exact ⟨rfl, rfl, rfl⟩

namespace RockStream

/-! ## Calls -/

/-- What an action makes of a call. -/
inductive Moves (w : RockStream) (a : Action) (r : Nat) (c : RockCall) : RockCall → Prop
  | same : Moves w a r c c
  | added (ha : a = .addCtx r) (h : c.pos = .created) : Moves w a r c { c with pos := .added }
  | armed (p : Nat) (now : UInt64) (ha : a = .addTimer r p now) (h : c.pos = .added) :
    Moves w a r c { c with pos := .armed, armed := some p }
  | stored (h : c.pos = .armed) :
    Moves w a r c { c with ctx := { c.ctx with timer := c.armed }, pos := .stored }
  | queued (h : c.pos = .stored) : Moves w a r c { c with pos := .queued }
  | yielded (h : c.pos = .queued) : Moves w a r c { c with pos := .yielded }
  | returned (h : c.pos = .yielded) (hsched : r ∈ w.scheduled) :
    Moves w a r c { c with pos := .returned c.ctx.result c.ctx.response }
  | write (j : Job) (ctx : RockCtx) (pos : JobPos) (hj : j ∈ w.jobs) (hr : j.ctx = r)
    (h : Writes j.pos c.ctx ctx pos) : Moves w a r c { c with ctx := ctx }
  | wake (j : Job) (hj : j ∈ w.jobs) (hr : j.ctx = r) (h : j.pos = .doRsp .wake) :
    Moves w a r c { c with ctx := { c.ctx with fiber := none } }

/-- A call keeps its number and its scheduler, and does not go back. -/
theorem Moves.frame {w : RockStream} {a : Action} {r : Nat} {c c' : RockCall}
    (h : Moves w a r c c') :
    c'.ctx.sn = c.ctx.sn ∧ c'.ctx.scheduler = c.ctx.scheduler ∧
      (c'.pos = .created → c.pos = .created) := by
  cases h with
  | same => exact ⟨rfl, rfl, fun hpos => hpos⟩
  | write j ctx pos hj hr hwrite =>
      exact ⟨hwrite.frame.1, hwrite.frame.2.1, fun hpos => hpos⟩
  | wake => exact ⟨rfl, rfl, fun hpos => hpos⟩
  | added | armed | stored | queued | yielded | returned =>
      exact ⟨rfl, rfl, fun hpos => RequestPos.noConfusion hpos⟩

/-- What an action makes of the calls. -/
structure CallsMove (w : RockStream) (a : Action) (w' : RockStream) : Prop where
  moved : ∀ (r : Nat) (c : RockCall), w.calls[r]? = some c →
    ∃ c', w'.calls[r]? = some c' ∧ Moves w a r c c'
  fresh : ∀ (r : Nat) (c : RockCall), w.calls[r]? = none → w'.calls[r]? = some c →
    ∃ (sn timeout : UInt32) (caller : Caller),
      c = ⟨⟨sn, timeout, 0, false, some caller.scheduler, some caller.fiber, none, none⟩,
        .created, none⟩

/-- Where a call comes from. -/
theorem CallsMove.origin {w w' : RockStream} {a : Action} (h : CallsMove w a w') (r : Nat)
    (c' : RockCall) (hc' : w'.calls[r]? = some c') :
    (∃ c, w.calls[r]? = some c ∧ Moves w a r c c') ∨
      (w.calls[r]? = none ∧ ∃ (sn timeout : UInt32) (caller : Caller),
        c' = ⟨⟨sn, timeout, 0, false, some caller.scheduler, some caller.fiber, none, none⟩,
          .created, none⟩) := by
  rcases hc : w.calls[r]? with _ | c
  · exact Or.inr ⟨rfl, h.fresh r c' hc hc'⟩
  · rcases h.moved r c hc with ⟨d, hd, hmove⟩
    rw [hc', Option.some.injEq] at hd
    rw [hd]
    exact Or.inl ⟨c, rfl, hmove⟩

theorem callsMove_same (w w' : RockStream) (a : Action) (hcalls : w'.calls = w.calls) :
    CallsMove w a w' := by
  refine ⟨?_, ?_⟩
  · intro r c hc
    exact ⟨c, by rw [hcalls]; exact hc, .same⟩
  · intro r c hnone hc
    rw [hcalls, hnone] at hc
    cases hc

theorem callsMove_set (w w' : RockStream) (a : Action) (r : Nat) (c c' : RockCall)
    (hc : w.calls[r]? = some c) (hcalls : w'.calls = w.calls.set r c') (hmove : Moves w a r c c') :
    CallsMove w a w' := by
  refine ⟨?_, ?_⟩
  · intro q d hd
    rw [hcalls, getElem?_update w.calls r c c' hc]
    by_cases hq : q = r
    · rw [hq, hc, Option.some.injEq] at hd
      rw [if_pos hq, hq, ← hd]
      exact ⟨c', rfl, hmove⟩
    · rw [if_neg hq]
      exact ⟨d, hd, .same⟩
  · intro q d hnone hd
    rw [hcalls] at hd
    rcases update_cases w.calls r c c' hc q d hd with ⟨rfl, -⟩ | ⟨-, hold⟩
    · rw [hc] at hnone
      cases hnone
    · rw [hnone] at hold
      cases hold

theorem step_moves (w w' : RockStream) (a : Action) (hstep : step a w = some w') :
    CallsMove w a w' := by
  cases step_happens w w' a hstep with
  | request sn timeout caller =>
      refine ⟨?_, ?_⟩
      · intro r c hc
        exact ⟨c, getElem?_concat_of_some w.calls _ c r hc, .same⟩
      · intro r c hnone hc
        rcases getElem?_concat_eq_some w.calls _ c r hc with hold | ⟨_, hnew⟩
        · rw [hnone] at hold
          cases hold
        · exact ⟨sn, timeout, caller, hnew⟩
  | addCtx r c hc hpos => exact callsMove_set w _ _ r c _ hc rfl (.added rfl hpos)
  | addTimer r p now c s hc hpos =>
      exact callsMove_set w _ _ r c _ hc rfl (.armed p now rfl hpos)
  | storeTimer r c hc hpos => exact callsMove_set w _ _ r c _ hc rfl (.stored hpos)
  | enqueue r c hc hpos => exact callsMove_set w _ _ r c _ hc rfl (.queued hpos)
  | yieldToHold r c hc hpos => exact callsMove_set w _ _ r c _ hc rfl (.yielded hpos)
  | resume r c hc hpos hsched => exact callsMove_set w _ _ r c _ hc rfl (.returned hpos hsched)
  | write k j c ctx pos hj hc hwrite =>
      exact callsMove_set w _ _ j.ctx c _ hc rfl
        (.write j ctx pos (List.mem_of_getElem? hj) rfl hwrite)
  | wake k j c jobs hj hc hpos =>
      exact callsMove_set w _ _ j.ctx c _ hc rfl (.wake j (List.mem_of_getElem? hj) rfl hpos)
  | connect | notConnect | doWrite | unknown | ignored | answer | listExpiredCb | onTimeOut
  | innerClose | erase | look | cancel | ended =>
      -- These do not touch the calls.
      exact callsMove_same w _ _ rfl

/-! ## Threads -/

/-- Some thread is working on the context. -/
def Tended (w : RockStream) (r : Nat) : Prop := ∃ j ∈ w.jobs, j.ctx = r

/-- A thread that was not there, or not at that place, before a step from `w` to `w'`. -/
inductive JobMoves (w w' : RockStream) : Job → Prop
  | erased (j : Job) (hj : j ∈ w.jobs) (h : j.pos = .erase) (herased : j.ctx ∈ w'.erased) :
    JobMoves w w' { j with pos := .setTimed }
  | wrote (j : Job) (c : RockCall) (ctx : RockCtx) (pos : JobPos) (hj : j ∈ w.jobs)
    (hc : w.calls[j.ctx]? = some c) (h : Writes j.pos c.ctx ctx pos)
    (hc' : w'.calls[j.ctx]? = some { c with ctx := ctx }) :
    JobMoves w w' { j with pos := pos }
  | looked (j : Job) (c : RockCall) (pos : JobPos) (hj : j ∈ w.jobs)
    (hc : w.calls[j.ctx]? = some c) (h : Looks j.pos pos)
    (hfiber : j.pos = .doRsp .test → c.ctx.fiber.isSome = true) :
    JobMoves w w' { j with pos := pos }
  | cancelled (j : Job) (hj : j ∈ w.jobs) (h : j.pos = .doRsp .cancel) :
    JobMoves w w' { j with pos := .doRsp .clear }
  | next (j : Job) (r : Nat) (rest : List Nat) (hj : j ∈ w.jobs) (h : j.rest = r :: rest) :
    JobMoves w w' ⟨r, .setResult IO_ERROR none, rest⟩
  | answer (sn : UInt32) (r : Nat) (m : RockMessage) (result : UInt32)
    (hfind : w.ctxs.lookup sn = some r) (hm : m.getResult = some result)
    (h : (r, m) ∈ w'.answered) : JobMoves w w' ⟨r, .setResult result (some m), []⟩
  | timeout (p r : Nat) (h : (p, r) ∈ w.pending) : JobMoves w w' ⟨r, .erase, []⟩
  | close (r : Nat) (rest : List Nat) (h : ∀ q ∈ r :: rest, q ∈ w'.closed) :
    JobMoves w w' ⟨r, .setResult IO_ERROR none, rest⟩

theorem step_jobMoves (w w' : RockStream) (a : Action) (hstep : step a w = some w') :
    ∀ j ∈ w'.jobs, j ∈ w.jobs ∨ JobMoves w w' j := by
  intro b hb
  -- A thread that goes on is in the place of what it was.
  have hset : ∀ (k : Nat) (j : Job) (pos : JobPos), b ∈ w.jobs.set k { j with pos := pos } →
      b ∈ w.jobs ∨ b = { j with pos := pos } :=
    fun k j pos hin => List.mem_or_eq_of_mem_set hin
  cases step_happens w w' a hstep with
  | answer m sn result r hsn hresult hfind =>
      rcases List.mem_append.1 hb with hold | hnew
      · exact Or.inl hold
      · rw [List.mem_singleton] at hnew
        rw [hnew]
        exact Or.inr (.answer sn r m result hfind hresult List.mem_cons_self)
  | onTimeOut k p r hk =>
      rcases List.mem_append.1 hb with hold | hnew
      · exact Or.inl hold
      · rw [List.mem_singleton] at hnew
        rw [hnew]
        exact Or.inr (.timeout p r (List.mem_of_getElem? hk))
  | innerClose order taken bs htaken hbs =>
      rcases List.mem_append.1 hb with hold | hnew
      · exact Or.inl hold
      · rcases hbs with rfl | ⟨r, rest, hfirst, rfl⟩
        · exact absurd hnew List.not_mem_nil
        · rw [List.mem_singleton] at hnew
          rw [hnew, hfirst]
          exact Or.inr (.close r rest (fun q hq => List.mem_append_right _ hq))
  | erase k j c hj hc hpos =>
      rcases hset k j _ hb with hold | rfl
      · exact Or.inl hold
      · exact Or.inr (.erased j (List.mem_of_getElem? hj) hpos List.mem_cons_self)
  | write k j c ctx pos hj hc hwrite =>
      rcases hset k j _ hb with hold | rfl
      · exact Or.inl hold
      · refine Or.inr (.wrote j c ctx pos (List.mem_of_getElem? hj) hc hwrite ?_)
        exact (getElem?_update w.calls j.ctx c _ hc j.ctx).trans (if_pos rfl)
  | look k j c pos hj hc hlook hfiber =>
      rcases hset k j _ hb with hold | rfl
      · exact Or.inl hold
      · exact Or.inr (.looked j c pos (List.mem_of_getElem? hj) hc hlook hfiber)
  | cancel k j c p a s hj hc hpos =>
      rcases hset k j _ hb with hold | rfl
      · exact Or.inl hold
      · exact Or.inr (.cancelled j (List.mem_of_getElem? hj) hpos)
  | wake k j c jobs hj hc hpos hfiber hdone =>
      rcases hdone.2 b hb with hold | ⟨r, rest, hrest, rfl⟩
      · exact Or.inl hold
      · exact Or.inr (.next j r rest (List.mem_of_getElem? hj) hrest)
  | ended k j c jobs hj hc hnull hdone =>
      rcases hdone.2 b hb with hold | ⟨r, rest, hrest, rfl⟩
      · exact Or.inl hold
      · exact Or.inr (.next j r rest (List.mem_of_getElem? hj) hrest)
  | connect | notConnect | request | addCtx | addTimer | storeTimer | enqueue | yieldToHold
  | resume | doWrite | unknown | ignored | listExpiredCb => exact Or.inl hb

/-! ## The map -/

/-- What a step makes of the map, and of what is known about the contexts that are not in it. -/
inductive MapMoves (w : RockStream) (a : Action) (w' : RockStream) : Prop
  | same (hmap : ∀ sn, w'.ctxs.lookup sn = w.ctxs.lookup sn) (hans : w'.answered = w.answered)
    (hclosed : w'.closed = w.closed) (herased : w'.erased = w.erased)
    (ha : ∀ r, a ≠ .addCtx r)
  | added (r : Nat) (c : RockCall) (ha : a = .addCtx r) (hc : w.calls[r]? = some c)
    (hpos : c.pos = .created) (hc' : w'.calls[r]? = some { c with pos := .added })
    (hctxs : w'.ctxs = (w.addCtx c.ctx.sn r).ctxs) (hans : w'.answered = w.answered)
    (hclosed : w'.closed = w.closed) (herased : w'.erased = w.erased)
  | answered (sn : UInt32) (r : Nat) (m : RockMessage) (hm : m.getSn = some sn)
    (hfind : w.ctxs.lookup sn = some r) (htended : Tended w' r)
    (hcalls : w'.calls = w.calls) (hctxs : w'.ctxs = w.ctxs.erase sn)
    (hans : w'.answered = (r, m) :: w.answered) (hclosed : w'.closed = w.closed)
    (herased : w'.erased = w.erased) (ha : ∀ r, a ≠ .addCtx r)
  | closed (taken : List Nat) (htaken : ∀ r, r ∈ taken ↔ ∃ sn, w.ctxs.lookup sn = some r)
    (hcalls : w'.calls = w.calls) (hctxs : w'.ctxs = ∅) (hans : w'.answered = w.answered)
    (hclosed : w'.closed = w.closed ++ taken) (herased : w'.erased = w.erased)
    (ha : ∀ r, a ≠ .addCtx r)
  | erased (k : Nat) (j : Job) (c : RockCall) (ha : a = .go k) (hj : w.jobs[k]? = some j)
    (hpos : j.pos = .erase) (hc : w.calls[j.ctx]? = some c) (hcalls : w'.calls = w.calls)
    (hctxs : w'.ctxs = w.ctxs.erase c.ctx.sn) (hans : w'.answered = w.answered)
    (hclosed : w'.closed = w.closed) (herased : w'.erased = j.ctx :: w.erased)

theorem step_mapMoves (w w' : RockStream) (a : Action) (hstep : step a w = some w') :
    MapMoves w a w' := by
  cases step_happens w w' a hstep with
  | addCtx r c hc hpos =>
      refine .added r c rfl hc hpos ?_ rfl rfl rfl rfl
      exact (getElem?_update w.calls r c _ hc r).trans (if_pos rfl)
  | unknown m sn hnone =>
      -- `erase` of a number that is not there.
      refine .same (fun sn' => ?_) rfl rfl rfl (fun _ => Action.noConfusion)
      by_cases hsn : sn' = sn
      · rw [hsn, hnone]
        exact AList.lookup_erase sn w.ctxs
      · exact AList.lookup_erase_ne hsn
  | answer m sn result r hsn hresult hfind =>
      refine .answered sn r m hsn hfind ?_ rfl rfl rfl rfl rfl (fun _ => Action.noConfusion)
      exact ⟨_, List.mem_append_right _ List.mem_cons_self, rfl⟩
  | innerClose order taken bs htaken hbs =>
      exact .closed taken htaken rfl rfl rfl rfl rfl (fun _ => Action.noConfusion)
  | erase k j c hj hc hpos => exact .erased k j c rfl hj hpos hc rfl rfl rfl rfl rfl
  | connect | notConnect | request | addTimer | storeTimer | enqueue | yieldToHold | resume
  | doWrite | ignored | listExpiredCb | onTimeOut | write | look | cancel | wake | ended =>
      exact .same (fun _ => rfl) rfl rfl rfl (fun _ => Action.noConfusion)

end RockStream

end YkServer
