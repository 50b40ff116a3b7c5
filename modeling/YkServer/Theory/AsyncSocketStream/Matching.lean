import YkServer.Lib.Interleaving
import YkServer.Theory.AsyncSocketStream.Timeouts

/-!
# Requests and Responses

How a request is resolved. A thread that goes into `doRsp` has a reason for it: it has
stored a response, set `timed`, or found the context in what `innerClose` took. A
context is taken for one response at most, so the response in a context is the one it was
taken for, and so is the result, unless the timeout has come in between.

## Main definitions

* `RockStream.Settled`, `RockStream.Reason`: Why a request is resolved.
* `RockStream.JobOk`: What a thread has done before it is where it is.
* `RockStream.Resolves`: How requests are resolved.
* `RockStream.Matched`: All that holds of the requests of a stream.

## Theorems

* `step_resolves`: Every step keeps it.
* `requests_matched`: Requests and responses, in every run.
-/

namespace YkServer

open Lib

/-- A result comes from a thread that has one, or stays, unless the request has timed out. -/
theorem Writes.result_or {pos pos' : JobPos} {ctx ctx' : RockCtx} (h : Writes pos ctx ctx' pos') :
    ctx'.timed = true ∨ ctx'.result = ctx.result ∨ ∃ rsp, pos = .setResult ctx'.result rsp := by
  cases h with
  | timed => exact Or.inl rfl
  | result _ v m => exact Or.inr (Or.inr ⟨some m, rfl⟩)
  | ioError _ v => exact Or.inr (Or.inr ⟨none, rfl⟩)
  | response | clear => exact Or.inr (Or.inl rfl)
  | mark _ htimed => exact Or.inl htimed

/-- A response comes from a thread that has one, or stays, and `timed` is never taken back. -/
theorem Writes.response_or {pos pos' : JobPos} {ctx ctx' : RockCtx}
    (h : Writes pos ctx ctx' pos') :
    (ctx.timed = true → ctx'.timed = true) ∧
      (ctx'.response = ctx.response ∨ ∃ m, pos = .setResponse m ∧ ctx'.response = some m) := by
  cases h with
  | timed => exact ⟨fun _ => rfl, Or.inl rfl⟩
  | response _ m => exact ⟨fun htimed => htimed, Or.inr ⟨m, rfl, rfl⟩⟩
  | result | ioError | clear | mark => exact ⟨fun htimed => htimed, Or.inl rfl⟩

namespace RockStream

/-- The context was taken for the response, and has its result. -/
def Settled (w : RockStream) (r : Nat) (c : RockCall) (m : RockMessage) : Prop :=
  (r, m) ∈ w.answered ∧ (c.ctx.timed = true ∨ m.getResult = some c.ctx.result)

/-- What there is to resolve a request with. -/
def Reason (w : RockStream) (r : Nat) (c : RockCall) : Prop :=
  c.ctx.response.isSome = true ∨ c.ctx.timed = true ∨ r ∈ w.closed

/-- What a thread at a place has done. -/
def JobOk (w : RockStream) (j : Job) : Prop :=
  (∀ q ∈ j.rest, q ∈ w.closed) ∧
    match j.pos with
    | .erase => True
    | .setTimed => True
    | .setResult result (some m) => (j.ctx, m) ∈ w.answered ∧ m.getResult = some result
    | .setResult _ none => j.ctx ∈ w.closed
    | .setResponse m => ∃ c, w.calls[j.ctx]? = some c ∧ Settled w j.ctx c m
    | .doRsp _ => ∃ c, w.calls[j.ctx]? = some c ∧ Reason w j.ctx c

/-- How requests are resolved. -/
structure Resolves (w : RockStream) : Prop where
  job : ∀ j ∈ w.jobs, JobOk w j
  stored : ∀ (r : Nat) (c : RockCall) (m : RockMessage), w.calls[r]? = some c →
    c.ctx.response = some m → Settled w r c m
  resolved : ∀ (r : Nat) (c : RockCall), w.calls[r]? = some c → c.ctx.fiber = none → Reason w r c
  returned : ∀ (r : Nat) (c : RockCall) (result : UInt32) (rsp : Option RockMessage),
    w.calls[r]? = some c → c.pos = .returned result rsp → c.ctx.fiber = none ∧
      (rsp = none → c.ctx.timed = true ∨ r ∈ w.closed) ∧
      ∀ m, rsp = some m → (r, m) ∈ w.answered ∧ (c.ctx.timed = true ∨ m.getResult = some result)
  handled : ∀ (r : Nat) (c : RockCall) (m : RockMessage), w.calls[r]? = some c →
    (r, m) ∈ w.answered → c.ctx.fiber.isSome = true → Tended w r

theorem resolves_new (now : UInt64) : Resolves (new now) := by
  refine ⟨?_, ?_, ?_, ?_, ?_⟩
  · intro j hj
    exact absurd hj List.not_mem_nil
  · intro r c m hc
    cases hc
  · intro r c hc
    cases hc
  · intro r c result rsp hc
    cases hc
  · intro r c m hc
    cases hc

/-! ## One call -/

section Call

variable {w w' : RockStream} {a : Action} {r : Nat} {c c' : RockCall}

/-- `timed` is never taken back, and a response is never lost. -/
theorem Moves.grows (h : Moves w a r c c') :
    (c.ctx.timed = true → c'.ctx.timed = true) ∧
      (c'.ctx.response = c.ctx.response ∨
        ∃ j ∈ w.jobs, j.ctx = r ∧ ∃ m, j.pos = .setResponse m ∧ c'.ctx.response = some m) := by
  cases h with
  | write j ctx pos hj hr hwrite =>
      rcases hwrite.response_or with ⟨htimed, hsame | ⟨m, hpos, hrsp⟩⟩
      · exact ⟨htimed, Or.inl hsame⟩
      · exact ⟨htimed, Or.inr ⟨j, hj, hr, m, hpos, hrsp⟩⟩
  | same | added | armed | stored | queued | yielded | returned | wake =>
      exact ⟨fun htimed => htimed, Or.inl rfl⟩

theorem Moves.reason (h : Moves w a r c c') (hclosed : w.closed ⊆ w'.closed)
    (hreason : Reason w r c) : Reason w' r c' := by
  rcases hreason with hrsp | htimed | hmem
  · left
    rcases h.grows.2 with hsame | ⟨_, _, _, m, _, hnew⟩
    · rw [hsame]
      exact hrsp
    · rw [hnew]
      rfl
  · exact Or.inr (Or.inl (h.grows.1 htimed))
  · exact Or.inr (Or.inr (hclosed hmem))

/-- The only threads that write a result are the one that has the response, and that of
    `innerClose`, which has not got the context. -/
theorem Moves.settled (h : Moves w a r c c') (hmap : Mapped w)
    (hjobs : ∀ j ∈ w.jobs, JobOk w j) (hans : w.answered ⊆ w'.answered) (m : RockMessage)
    (hsettled : Settled w r c m) : Settled w' r c' m := by
  refine ⟨hans hsettled.1, ?_⟩
  rcases hsettled.2 with htimed | hres
  · exact Or.inl (h.grows.1 htimed)
  · cases h with
    | write j ctx pos hj hr hwrite =>
        rcases hwrite.result_or with htimed | hsame | ⟨rsp, hpos⟩
        · exact Or.inl htimed
        · exact Or.inr (hres.trans (congrArg some hsame.symm))
        · have hok := (hjobs j hj).2
          simp only [hpos] at hok
          rcases rsp with _ | m'
          · -- It was taken for a response, so `innerClose` did not take it.
            rw [hr] at hok
            exact absurd hok (hmap.apart r m hsettled.1)
          · rw [hr] at hok
            -- The thread has the same response, so it writes the same result.
            rw [hmap.once r m m' hsettled.1 hok.1]
            exact Or.inr hok.2
    | same | added | armed | stored | queued | yielded | returned | wake => exact Or.inr hres

theorem Moves.fiber_or (h : Moves w a r c c') (hfiber : c'.ctx.fiber = none) :
    c.ctx.fiber = none ∨ ∃ j ∈ w.jobs, j.ctx = r ∧ j.pos = .doRsp .wake := by
  cases h with
  | write j ctx pos hj hr hwrite => exact Or.inl (hwrite.frame.2.2.symm.trans hfiber)
  | wake j hj hr hpos => exact Or.inr ⟨j, hj, hr, hpos⟩
  | same | added | armed | stored | queued | yielded | returned => exact Or.inl hfiber

theorem Moves.returned_or (h : Moves w a r c c') (result : UInt32) (rsp : Option RockMessage)
    (hpos : c'.pos = .returned result rsp) :
    c.pos = .returned result rsp ∨
      r ∈ w.scheduled ∧ c'.ctx = c.ctx ∧ result = c.ctx.result ∧ rsp = c.ctx.response := by
  cases h with
  | returned hyielded hsched =>
      cases hpos
      exact Or.inr ⟨hsched, rfl, rfl, rfl⟩
  | same | write | wake => exact Or.inl hpos
  | added | armed | stored | queued | yielded => cases hpos

/-- A fiber that is gone does not come back. -/
theorem Moves.gone (h : Moves w a r c c') (hfiber : c.ctx.fiber = none) :
    c'.ctx.fiber = none := by
  cases h with
  | write j ctx pos hj hr hwrite => exact hwrite.frame.2.2.trans hfiber
  | wake => rfl
  | same | added | armed | stored | queued | yielded | returned => exact hfiber

end Call

/-! ## Threads -/

/-- A thread that did not move. -/
theorem jobOk_kept (w w' : RockStream) (a : Action) (hmap : Mapped w)
    (hjobs : ∀ j ∈ w.jobs, JobOk w j) (hstep : step a w = some w') (j : Job) (hj : j ∈ w.jobs) :
    JobOk w' j := by
  have hcalls := step_moves w w' a hstep
  rcases step_taken w w' a hstep with ⟨hans, hclosed, _⟩
  rcases hjobs j hj with ⟨hrest, hok⟩
  refine ⟨fun q hq => hclosed (hrest q hq), ?_⟩
  rcases j with ⟨r, pos, rest⟩
  cases pos with
  | erase => trivial
  | setTimed => trivial
  | setResult result rsp =>
      rcases rsp with _ | m
      · exact hclosed hok
      · exact ⟨hans hok.1, hok.2⟩
  | setResponse m =>
      rcases hok with ⟨c, hc, hsettled⟩
      -- Other threads may write into the context, but none takes a response or a reason away.
      rcases hcalls.moved r c hc with ⟨c', hc', hmove⟩
      exact ⟨c', hc', hmove.settled hmap hjobs hans m hsettled⟩
  | doRsp pos =>
      rcases hok with ⟨c, hc, hreason⟩
      rcases hcalls.moved r c hc with ⟨c', hc', hmove⟩
      exact ⟨c', hc', hmove.reason hclosed hreason⟩

/-- A thread that has written into its context. -/
theorem jobOk_wrote (w w' : RockStream) (j : Job) (c : RockCall) (ctx : RockCtx) (pos : JobPos)
    (hans : w.answered ⊆ w'.answered) (hclosed : w.closed ⊆ w'.closed) (hok : JobOk w j)
    (hc : w.calls[j.ctx]? = some c) (hwrite : Writes j.pos c.ctx ctx pos)
    (hc' : w'.calls[j.ctx]? = some { c with ctx := ctx }) : JobOk w' { j with pos := pos } := by
  rcases j with ⟨r, jpos, rest⟩
  rcases c with ⟨cctx, cpos, carmed⟩
  rcases hok with ⟨hrest, hok⟩
  refine ⟨fun q hq => hclosed (hrest q hq), ?_⟩
  dsimp only at hwrite hc hc' hok
  cases hwrite with
  | timed => exact ⟨_, hc', Or.inr (Or.inl rfl)⟩
  | result => exact ⟨_, hc', hans hok.1, Or.inr hok.2⟩
  | ioError => exact ⟨_, hc', Or.inr (Or.inr (hclosed hok))⟩
  | response => exact ⟨_, hc', Or.inl rfl⟩
  | clear =>
      rcases hok with ⟨d, hd, hreason⟩
      rw [hc, Option.some.injEq] at hd
      rw [← hd] at hreason
      exact ⟨_, hc', hreason.imp_right (Or.imp_right (fun hmem => hclosed hmem))⟩
  | mark _ htimed => exact ⟨_, hc', Or.inr (Or.inl htimed)⟩

theorem step_jobOk (w w' : RockStream) (a : Action) (hmap : Mapped w)
    (hjobs : ∀ j ∈ w.jobs, JobOk w j) (hstep : step a w = some w') :
    ∀ j ∈ w'.jobs, JobOk w' j := by
  intro b hb
  rcases step_taken w w' a hstep with ⟨hans, hclosed, _⟩
  have hkept := jobOk_kept w w' a hmap hjobs hstep
  rcases step_jobMoves w w' a hstep b hb with hold | hmove
  · exact hkept b hold
  · cases hmove with
    | erased j hj hpos herased => exact ⟨(hkept j hj).1, trivial⟩
    | wrote j c ctx pos hj hc hwrite hc' =>
        exact jobOk_wrote w w' j c ctx pos hans hclosed (hjobs j hj) hc hwrite hc'
    | looked j c pos hj hc hlook hfiber =>
        rcases hkept j hj with ⟨hrest, hok⟩
        refine ⟨hrest, ?_⟩
        rcases j with ⟨r, jpos, rest⟩
        dsimp only at hlook hok ⊢
        cases hlook <;> exact hok
    | cancelled j hj hpos =>
        rcases hkept j hj with ⟨hrest, hok⟩
        refine ⟨hrest, ?_⟩
        simp only [hpos] at hok
        exact hok
    | next j r rest hj hrest =>
        have hall := (hkept j hj).1
        rw [hrest] at hall
        exact ⟨fun q hq => hall q (List.mem_cons_of_mem _ hq), hall r List.mem_cons_self⟩
    | answer sn r m result hfind hm hmem =>
        exact ⟨fun q hq => absurd hq List.not_mem_nil, hmem, hm⟩
    | timeout p r hp => exact ⟨fun q hq => absurd hq List.not_mem_nil, trivial⟩
    | close r rest hall =>
        exact ⟨fun q hq => hall q (List.mem_cons_of_mem _ hq), hall r List.mem_cons_self⟩

/-! ## Requests -/

theorem Counts.gone {w : RockStream} (h : Counts w) (r : Nat) (c : RockCall)
    (hc : w.calls[r]? = some c) (hsched : r ∈ w.scheduled) : c.ctx.fiber = none := by
  have hcount := (h.each r c hc).2
  have hpos := List.count_pos_iff.2 hsched
  rcases hfiber : c.ctx.fiber with _ | f
  · rfl
  · -- A fiber that is in its context was not scheduled.
    rw [hfiber, Option.isSome_some, if_pos rfl] at hcount
    omega

theorem step_resolves (w w' : RockStream) (a : Action) (hcounts : Counts w) (hmap : Mapped w)
    (h : Resolves w) (hstep : step a w = some w') : Resolves w' := by
  have hcalls := step_moves w w' a hstep
  rcases step_taken w w' a hstep with ⟨hans, hclosed, hnew⟩
  refine ⟨step_jobOk w w' a hmap h.job hstep, ?_, ?_, ?_, ?_⟩
  · intro r c' m hc' hrsp
    rcases hcalls.origin r c' hc' with ⟨c, hc, hmove⟩ | ⟨_, sn, timeout, caller, rfl⟩
    · rcases hmove.grows.2 with hsame | ⟨j, hj, hr, m', hpos, hnew'⟩
      · exact hmove.settled hmap h.job hans m (h.stored r c m hc (hsame.symm.trans hrsp))
      · -- The response is stored by a thread that has set the result before.
        have hok := (h.job j hj).2
        simp only [hpos, hr] at hok
        rcases hok with ⟨d, hd, hsettled⟩
        rw [hc, Option.some.injEq] at hd
        rw [hrsp, Option.some.injEq] at hnew'
        rw [← hd, ← hnew'] at hsettled
        exact hmove.settled hmap h.job hans m hsettled
    · cases hrsp
  · intro r c' hc' hfiber
    rcases hcalls.origin r c' hc' with ⟨c, hc, hmove⟩ | ⟨_, sn, timeout, caller, rfl⟩
    · rcases hmove.fiber_or hfiber with hgone | ⟨j, hj, hr, hpos⟩
      · exact hmove.reason hclosed (h.resolved r c hc hgone)
      · -- The fiber is scheduled by a thread that has come through `doRsp`, for a reason.
        have hok := (h.job j hj).2
        simp only [hpos, hr] at hok
        rcases hok with ⟨d, hd, hreason⟩
        rw [hc, Option.some.injEq] at hd
        rw [← hd] at hreason
        exact hmove.reason hclosed hreason
    · cases hfiber
  · intro r c' result rsp hc' hpos
    rcases hcalls.origin r c' hc' with ⟨c, hc, hmove⟩ | ⟨_, sn, timeout, caller, rfl⟩
    · rcases hmove.returned_or result rsp hpos with hold | ⟨hsched, hsame, rfl, rfl⟩
      · rcases h.returned r c result rsp hc hold with ⟨hfiber, hnone, hsome⟩
        refine ⟨hmove.gone hfiber, fun hrsp => ?_, fun m hm => ?_⟩
        · exact (hnone hrsp).imp hmove.grows.1 (fun hmem => hclosed hmem)
        · exact ⟨hans (hsome m hm).1, (hsome m hm).2.imp_left hmove.grows.1⟩
      · -- What it returns is what is in the context now.
        have hfiber := hcounts.gone r c hc hsched
        rw [hsame]
        refine ⟨hfiber, fun hrsp => ?_, fun m hm => ?_⟩
        · rcases h.resolved r c hc hfiber with hsome | htimed | hmem
          · rw [hrsp] at hsome
            cases hsome
          · exact Or.inl htimed
          · exact Or.inr (hclosed hmem)
        · rcases h.stored r c m hc hm with ⟨hmem, hres⟩
          exact ⟨hans hmem, hres⟩
    · cases hpos
  · intro r c' m hc' hm hfiber
    rcases hnew r m hm with hold | htended
    · rcases hmap.sn r m hold with ⟨c, hc, _⟩
      rcases hcalls.moved r c hc with ⟨d, hd, hmove⟩
      rw [hc', Option.some.injEq] at hd
      rw [← hd] at hmove
      have htended := h.handled r c m hc hold (hmove.armed_or.2 hfiber)
      rcases step_tended w w' a hcounts hstep r htended with hstill | ⟨e, he, hgone⟩
      · exact hstill
      · rw [hc', Option.some.injEq] at he
        rw [he, hgone] at hfiber
        cases hfiber
    · exact htended

/-! ## Runs -/

/-- All that holds of the requests of a stream. -/
structure Matched (w : RockStream) : Prop where
  counts : Counts w
  mapped : Mapped w
  timed : Timed w
  resolves : Resolves w

theorem matched_new (now : UInt64) : Matched (new now) :=
  ⟨counts_new now, mapped_new now, timed_new now, resolves_new now⟩

theorem step_matched (w w' : RockStream) (a : Action) (h : Matched w)
    (hstep : step a w = some w') : Matched w' :=
  ⟨step_counts w w' a h.counts hstep, step_mapped w w' a h.mapped hstep,
    step_timed w w' a h.counts h.timed hstep,
    step_resolves w w' a h.counts h.mapped h.resolves hstep⟩

theorem run_matched (now : UInt64) (acts : List Action) (w : RockStream)
    (hrun : run step acts (new now) = some w) : Matched w :=
  run_inv Matched (fun w a w' hw _ hstep => step_matched w w' a hw hstep) acts (new now) w
    (matched_new now) (along_true acts (new now)) hrun

/-- In every run a fiber is scheduled once at most for a request, a response is stored under
    its own number, a request that is resolved without one has timed out or was closed, and a
    fiber that waits with nobody working on its context has its timeout before it. -/
theorem requests_matched (now : UInt64) (acts : List Action) (w : RockStream)
    (hrun : run step acts (new now) = some w) (r : Nat) (c : RockCall)
    (hc : w.calls[r]? = some c) :
    w.scheduled.count r ≤ 1 ∧
    (∀ m, c.ctx.response = some m → m.getSn = some c.ctx.sn) ∧
    ((r ∈ w.scheduled ∧ c.ctx.response = none ∨ ∃ result, c.pos = .returned result none) →
      c.ctx.timed = true ∨ r ∈ w.closed) ∧
    (c.pos = .yielded → r ∉ w.scheduled → ¬Tended w r →
      ∃ p, c.armed = some p ∧ (p ∈ w.timers.timers ∨ (p, r) ∈ w.pending)) := by
  have hw := run_matched now acts w hrun
  have hcount := (hw.counts.each r c hc).2
  refine ⟨by omega, ?_, ?_, ?_⟩
  · intro m hm
    rcases hw.mapped.sn r m (hw.resolves.stored r c m hc hm).1 with ⟨d, hd, hsn⟩
    rw [hc, Option.some.injEq] at hd
    rw [hd]
    exact hsn
  · rintro (⟨hsched, hnone⟩ | ⟨result, hpos⟩)
    · rcases hw.resolves.resolved r c hc (hw.counts.gone r c hc hsched) with hsome | hrest
      · rw [hnone] at hsome
        cases hsome
      · exact hrest
    · exact (hw.resolves.returned r c result none hc hpos).2.1 rfl
  · intro hpos hsched htended
    -- Nobody has scheduled the fiber, so it is still in the context.
    have hfiber : c.ctx.fiber.isSome = true := by
      rw [List.count_eq_zero.2 hsched] at hcount
      split at hcount
      · assumption
      · omega
    rcases harmed : c.armed with _ | p
    · -- A call that has yielded has armed its timer.
      have hearly := (hw.timed.call r c hc).1.1 harmed
      rw [hpos] at hearly
      rcases hearly with hcreated | hadded
      · cases hcreated
      · cases hadded
    · refine ⟨p, rfl, ?_⟩
      rw [hw.timed.timers.mem_cbOf]
      rcases hw.timed.due r c p hc harmed hfiber with hlive | hpending | hsome
      · exact Or.inl hlive
      · exact Or.inr hpending
      · exact absurd hsome htended

/-- The timer expires before `request` has stored it. When the fiber yields, the callback is
    still to run. -/
theorem requests_matched_early :
    ∃ w c, run step [.connect, .request 7 1 ⟨0, 9⟩, .addCtx 0, .addTimer 0 64 100,
        .listExpiredCb 200 99, .storeTimer 0, .enqueue 0, .yieldToHold 0] (new 100) = some w ∧
      w.calls[0]? = some c ∧ c.pos = .yielded ∧ 0 ∉ w.scheduled ∧ w.scheduled.count 0 ≤ 1 ∧
      w.timers.timers = [] ∧
      ∃ p, c.armed = some p ∧ (p ∈ w.timers.timers ∨ (p, 0) ∈ w.pending) := by
  have hall : (run step [.connect, .request 7 1 ⟨0, 9⟩, .addCtx 0, .addTimer 0 64 100,
      .listExpiredCb 200 99, .storeTimer 0, .enqueue 0, .yieldToHold 0] (new 100)).map
        (fun w => (w.calls, w.scheduled, w.jobs, w.timers.timers)) =
      some ([⟨⟨7, 1, 0, false, some 0, some 9, some 64, none⟩, .yielded, some 64⟩], [], [], []) :=
    rfl
  rcases Option.map_eq_some_iff.1 hall with ⟨w, hrun, hw⟩
  simp only [Prod.mk.injEq] at hw
  rcases hw with ⟨hcalls, hsched, hjobs, htimers⟩
  have hc : w.calls[0]? =
      some ⟨⟨7, 1, 0, false, some 0, some 9, some 64, none⟩, .yielded, some 64⟩ := by
    rw [hcalls]
    rfl
  have hnot : 0 ∉ w.scheduled := by
    rw [hsched]
    exact List.not_mem_nil
  have htended : ¬Tended w 0 := by
    rintro ⟨j, hj, _⟩
    rw [hjobs] at hj
    exact absurd hj List.not_mem_nil
  have hmatched := requests_matched 100 _ w hrun 0 _ hc
  exact ⟨w, _, hrun, hc, rfl, hnot, hmatched.1, htimers, hmatched.2.2.2 rfl hnot htended⟩

end RockStream

end YkServer
