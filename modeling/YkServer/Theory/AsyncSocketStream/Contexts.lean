import YkServer.Theory.AsyncSocketStream.Moves

/-!
# Contexts

Three things that hold of the contexts of a stream whatever the order of steps. The
fiber of a request is in its context or was scheduled, once. A context is in the map
under its own sequence number, is taken out of it for one response or by one
`innerClose`, and never comes back. And a thread that is working on a context stays
with it until the fiber is gone.

## Main definitions

* `RockStream.Counts`: Fibers and what was scheduled.
* `RockStream.Untaken`, `RockStream.Mapped`: Contexts and the map.

## Theorems

* `step_tended`, `step_counts`, `step_mapped`: Every step keeps these.
-/

namespace YkServer

open Lib

namespace RockStream

/-! ## Fibers -/

/-- The fiber of a request is in its context or was scheduled, and not twice. -/
structure Counts (w : RockStream) : Prop where
  each : ∀ (r : Nat) (c : RockCall), w.calls[r]? = some c → c.ctx.scheduler.isSome = true ∧
    w.scheduled.count r + (if c.ctx.fiber.isSome = true then 1 else 0) = 1
  fresh : ∀ r : Nat, w.calls[r]? = none → w.scheduled.count r = 0

theorem counts_new (now : UInt64) : Counts (new now) := by
  refine ⟨?_, fun _ _ => rfl⟩
  intro r c hc
  cases hc

/-- Who can be scheduled, and by whom. -/
def fiberView (c : RockCall) : Option Nat × Option Nat := (c.ctx.scheduler, c.ctx.fiber)

theorem counts_view (w w' : RockStream) (h : Counts w) (hsched : w'.scheduled = w.scheduled)
    (hview : ∀ r : Nat, w'.calls[r]?.map fiberView = w.calls[r]?.map fiberView) : Counts w' := by
  refine ⟨?_, ?_⟩
  · intro r c' hc'
    rcases exists_of_view fiberView w.calls w'.calls r c' (hview r) hc' with ⟨c, hc, hsame⟩
    rcases Prod.mk.inj hsame with ⟨hscheduler, hfiber⟩
    rw [hsched, ← hscheduler, ← hfiber]
    exact h.each r c hc
  · intro r hnone
    have hold := hview r
    rw [hnone, Option.map_none, eq_comm, Option.map_eq_none_iff] at hold
    rw [hsched]
    exact h.fresh r hold

/-- One call has changed, and not its fiber. -/
theorem counts_set (w w' : RockStream) (h : Counts w) (r : Nat) (c c' : RockCall)
    (hc : w.calls[r]? = some c) (hcalls : w'.calls = w.calls.set r c')
    (hsched : w'.scheduled = w.scheduled) (hview : fiberView c' = fiberView c) : Counts w' := by
  refine counts_view w w' h hsched ?_
  intro q
  rw [hcalls]
  exact view_update fiberView w.calls r c c' hc hview q

theorem counts_wake (w w' : RockStream) (h : Counts w) (r : Nat) (c : RockCall)
    (hc : w.calls[r]? = some c) (hfiber : c.ctx.fiber.isSome = true)
    (hcalls : w'.calls = w.calls.set r { c with ctx := { c.ctx with fiber := none } })
    (hsched : w'.scheduled = r :: w.scheduled) : Counts w' := by
  have hget := getElem?_update w.calls r c { c with ctx := { c.ctx with fiber := none } } hc
  refine ⟨?_, ?_⟩
  · intro q d hd
    rw [hcalls, hget] at hd
    rw [hsched]
    by_cases hq : q = r
    · rw [if_pos hq, Option.some.injEq] at hd
      -- The fiber goes from the context to the queue, and the sum stays one.
      rcases h.each r c hc with ⟨hscheduler, hcount⟩
      rw [if_pos hfiber] at hcount
      rw [← hd, hq, List.count_cons_self]
      refine ⟨hscheduler, ?_⟩
      simp only [Option.isSome_none, Bool.false_eq_true, if_false]
      exact hcount
    · rw [if_neg hq] at hd
      rw [List.count_cons_of_ne (fun heq => hq heq.symm)]
      exact h.each q d hd
  · intro q hq
    rw [hcalls, hget] at hq
    by_cases hqr : q = r
    · rw [if_pos hqr] at hq
      cases hq
    · rw [if_neg hqr] at hq
      rw [hsched, List.count_cons_of_ne (fun heq => hqr heq.symm)]
      exact h.fresh q hq

theorem step_counts (w w' : RockStream) (a : Action) (h : Counts w)
    (hstep : step a w = some w') : Counts w' := by
  cases step_happens w w' a hstep with
  | request sn timeout caller =>
      refine ⟨?_, ?_⟩
      · intro r c hc
        rcases getElem?_concat_eq_some w.calls _ c r hc with hold | ⟨rfl, rfl⟩
        · exact h.each r c hold
        · -- The fiber is in the new context, and was not scheduled for it.
          refine ⟨rfl, ?_⟩
          rw [h.fresh w.calls.length (List.getElem?_eq_none (Nat.le_refl _))]
          rfl
      · intro r hr
        refine h.fresh r (List.getElem?_eq_none ?_)
        have hlen := List.getElem?_eq_none_iff.1 hr
        rw [List.length_append] at hlen
        omega
  | addCtx r c hc | addTimer r p now c s hc | storeTimer r c hc | enqueue r c hc
  | yieldToHold r c hc | resume r c hc => exact counts_set w _ h r c _ hc rfl rfl rfl
  | write k j c ctx pos hj hc hwrite =>
      refine counts_set w _ h j.ctx c _ hc rfl rfl ?_
      rw [fiberView, fiberView, hwrite.frame.2.1, hwrite.frame.2.2]
  | wake k j c jobs hj hc hpos hfiber => exact counts_wake w _ h j.ctx c hc hfiber rfl rfl
  | connect | notConnect | doWrite | unknown | ignored | answer | listExpiredCb | onTimeOut
  | innerClose | erase | look | cancel | ended => exact counts_view w _ h rfl (fun _ => rfl)

/-! ## Threads -/

theorem tended_append (w w' : RockStream) (r : Nat) (bs : List Job) (h : Tended w r)
    (hjobs : w'.jobs = w.jobs ++ bs) : Tended w' r := by
  rcases h with ⟨j, hj, hr⟩
  exact ⟨j, by rw [hjobs]; exact List.mem_append_left _ hj, hr⟩

theorem tended_goto (w w' : RockStream) (k : Nat) (j : Job) (pos : JobPos) (r : Nat)
    (hj : w.jobs[k]? = some j) (h : Tended w r)
    (hjobs : w'.jobs = w.jobs.set k { j with pos := pos }) : Tended w' r := by
  rcases h with ⟨x, hx, hr⟩
  unfold Tended
  rw [hjobs]
  rcases at_or_mem_set w.jobs k x { j with pos := pos } hx with hat | hstays
  · rw [hj, Option.some.injEq] at hat
    exact ⟨_, mem_set_self w.jobs k j _ hj, by rw [hat]; exact hr⟩
  · exact ⟨x, hstays, hr⟩

/-- A thread stays with its context as long as the fiber is there. -/
theorem step_tended (w w' : RockStream) (a : Action) (hcounts : Counts w)
    (hstep : step a w = some w') (r : Nat) (h : Tended w r) :
    Tended w' r ∨ ∃ c, w'.calls[r]? = some c ∧ c.ctx.fiber = none := by
  cases step_happens w w' a hstep with
  | answer | onTimeOut | innerClose => exact Or.inl (tended_append w _ r _ h rfl)
  | erase k j c hj | write k j c ctx pos hj | look k j c pos hj | cancel k j c p a s hj =>
      exact Or.inl (tended_goto w _ k j _ r hj h rfl)
  | wake k j c jobs hj hc hpos hfiber hdone =>
      rcases h with ⟨x, hx, rfl⟩
      rcases hdone.1 x hx with rfl | hstays
      · -- The thread itself has scheduled the fiber.
        refine Or.inr ⟨{ c with ctx := { c.ctx with fiber := none } }, ?_, rfl⟩
        exact (getElem?_update w.calls x.ctx c _ hc x.ctx).trans (if_pos rfl)
      · exact Or.inl ⟨x, hstays, rfl⟩
  | ended k j c jobs hj hc hnull hdone =>
      rcases h with ⟨x, hx, rfl⟩
      rcases hdone.1 x hx with rfl | hstays
      · -- The scheduler is never missing, so it is the fiber.
        refine Or.inr ⟨c, hc, hnull.resolve_left (fun hno => ?_)⟩
        have hsome := (hcounts.each x.ctx c hc).1
        rw [hno] at hsome
        cases hsome
      · exact Or.inl ⟨x, hstays, rfl⟩
  | connect | notConnect | request | addCtx | addTimer | storeTimer | enqueue | yieldToHold
  | resume | doWrite | unknown | ignored | listExpiredCb => exact Or.inl h

/-- What was taken out of the map stays so, and a thread works on what has just been taken for
    a response. -/
theorem step_taken (w w' : RockStream) (a : Action) (hstep : step a w = some w') :
    w.answered ⊆ w'.answered ∧ w.closed ⊆ w'.closed ∧
      ∀ r m, (r, m) ∈ w'.answered → (r, m) ∈ w.answered ∨ Tended w' r := by
  cases step_mapMoves w w' a hstep with
  | same hmap hans hclosed =>
      rw [hans, hclosed]
      exact ⟨fun _ hx => hx, fun _ hx => hx, fun _ _ hm => Or.inl hm⟩
  | added r c ha hc hpos hc' hctxs hans hclosed =>
      rw [hans, hclosed]
      exact ⟨fun _ hx => hx, fun _ hx => hx, fun _ _ hm => Or.inl hm⟩
  | answered sn r m hm hfind htended hcalls hctxs hans hclosed =>
      rw [hans, hclosed]
      refine ⟨fun _ hx => List.mem_cons_of_mem _ hx, fun _ hx => hx, ?_⟩
      intro q m' hm'
      rcases List.mem_cons.1 hm' with heq | hold
      · rw [Prod.mk.injEq] at heq
        rw [heq.1]
        exact Or.inr htended
      · exact Or.inl hold
  | closed taken htaken hcalls hctxs hans hclosed =>
      rw [hans, hclosed]
      exact ⟨fun _ hx => hx, fun _ hx => List.mem_append_left _ hx, fun _ _ hm => Or.inl hm⟩
  | erased k j c ha hj hpos hc hcalls hctxs hans hclosed =>
      rw [hans, hclosed]
      exact ⟨fun _ hx => hx, fun _ hx => hx, fun _ _ hm => Or.inl hm⟩

/-! ## The map -/

/-- No response and no `innerClose` has taken the context. -/
def Untaken (w : RockStream) (r : Nat) : Prop :=
  (∀ m, (r, m) ∉ w.answered) ∧ r ∉ w.closed

/-- The contexts in the map, and those that were taken out of it. -/
structure Mapped (w : RockStream) : Prop where
  key : ∀ (sn : UInt32) (r : Nat), w.ctxs.lookup sn = some r →
    ∃ c, w.calls[r]? = some c ∧ c.ctx.sn = sn ∧ c.pos ≠ .created ∧ Untaken w r
  fresh : ∀ r : Nat, (∀ c, w.calls[r]? = some c → c.pos = .created) → Untaken w r
  sn : ∀ (r : Nat) (m : RockMessage), (r, m) ∈ w.answered →
    ∃ c, w.calls[r]? = some c ∧ m.getSn = some c.ctx.sn
  once : ∀ (r : Nat) (m m' : RockMessage), (r, m) ∈ w.answered → (r, m') ∈ w.answered → m = m'
  apart : ∀ (r : Nat) (m : RockMessage), (r, m) ∈ w.answered → r ∉ w.closed

theorem mapped_new (now : UInt64) : Mapped (new now) := by
  refine ⟨?_, ?_, ?_, ?_, ?_⟩
  · intro sn r hfind
    rw [new, AList.lookup_empty] at hfind
    cases hfind
  · intro r _
    exact ⟨fun _ => List.not_mem_nil, List.not_mem_nil⟩
  · intro r m hans
    exact absurd hans List.not_mem_nil
  · intro r m m' hans
    exact absurd hans List.not_mem_nil
  · intro r m hans
    exact absurd hans List.not_mem_nil

/-- Nothing comes into the map, nothing is taken for a response or by `innerClose`. -/
theorem mapped_moves (w w' : RockStream) (a : Action) (h : Mapped w) (hcalls : CallsMove w a w')
    (hmap : ∀ (sn : UInt32) (r : Nat), w'.ctxs.lookup sn = some r → w.ctxs.lookup sn = some r)
    (hans : w'.answered = w.answered) (hclosed : w'.closed = w.closed) : Mapped w' := by
  have htaken : ∀ r, Untaken w r → Untaken w' r := by
    intro r hr
    rw [Untaken, hans, hclosed]
    exact hr
  refine ⟨?_, ?_, ?_, ?_, ?_⟩
  · intro sn r hfind
    rcases h.key sn r (hmap sn r hfind) with ⟨c, hc, hsn, hpos, huntaken⟩
    rcases hcalls.moved r c hc with ⟨c', hc', hmove⟩
    refine ⟨c', hc', hmove.frame.1.trans hsn, ?_, htaken r huntaken⟩
    exact fun hcreated => hpos (hmove.frame.2.2 hcreated)
  · intro r hcreated
    refine htaken r (h.fresh r ?_)
    intro c hc
    rcases hcalls.moved r c hc with ⟨c', hc', hmove⟩
    exact hmove.frame.2.2 (hcreated c' hc')
  · intro r m hm
    rw [hans] at hm
    rcases h.sn r m hm with ⟨c, hc, hsn⟩
    rcases hcalls.moved r c hc with ⟨c', hc', hmove⟩
    exact ⟨c', hc', by rw [hmove.frame.1]; exact hsn⟩
  · intro r m m' hm hm'
    rw [hans] at hm hm'
    exact h.once r m m' hm hm'
  · intro r m hm
    rw [hans] at hm
    rw [hclosed]
    exact h.apart r m hm

theorem lookup_of_erase (ctxs : AList (fun _ : UInt32 => Nat)) (sn sn' : UInt32) (r : Nat)
    (h : (ctxs.erase sn).lookup sn' = some r) : sn' ≠ sn ∧ ctxs.lookup sn' = some r := by
  by_cases hsn : sn' = sn
  · rw [hsn, AList.lookup_erase] at h
    cases h
  · rw [AList.lookup_erase_ne hsn] at h
    exact ⟨hsn, h⟩

/-- `insert` keeps what is there. -/
theorem lookup_addCtx (w : RockStream) (sn sn' : UInt32) (r : Nat) :
    (w.addCtx sn r).ctxs.lookup sn' =
      if sn' = sn ∧ w.ctxs.lookup sn = none then some r else w.ctxs.lookup sn' := by
  unfold addCtx
  by_cases hmem : sn ∈ w.ctxs
  · have hsome : w.ctxs.lookup sn ≠ none := by
      intro hnone
      exact AList.lookup_eq_none.1 hnone hmem
    rw [if_pos hmem, if_neg (fun hnew => hsome hnew.2)]
  · rw [if_neg hmem]
    by_cases hsn : sn' = sn
    · rw [if_pos ⟨hsn, AList.lookup_eq_none.2 hmem⟩, hsn, AList.lookup_insert]
    · rw [if_neg (fun hnew => hsn hnew.1), AList.lookup_insert_ne hsn]

theorem mapped_addCtx (w w' : RockStream) (a : Action) (h : Mapped w) (hcalls : CallsMove w a w')
    (r : Nat) (c : RockCall) (hc : w.calls[r]? = some c) (hpos : c.pos = .created)
    (hc' : w'.calls[r]? = some { c with pos := .added })
    (hctxs : w'.ctxs = (w.addCtx c.ctx.sn r).ctxs) (hans : w'.answered = w.answered)
    (hclosed : w'.closed = w.closed) : Mapped w' := by
  -- The context comes into the map, which `insert` leaves as it was otherwise.
  have hquiet : Mapped { w' with ctxs := w.ctxs } :=
    mapped_moves w _ a h ⟨hcalls.moved, hcalls.fresh⟩ (fun _ _ hfind => hfind) hans hclosed
  refine ⟨?_, hquiet.fresh, hquiet.sn, hquiet.once, hquiet.apart⟩
  intro sn q hfind
  rw [hctxs, lookup_addCtx] at hfind
  by_cases hins : sn = c.ctx.sn ∧ w.ctxs.lookup c.ctx.sn = none
  · rw [if_pos hins, Option.some.injEq] at hfind
    rw [← hfind]
    refine ⟨{ c with pos := .added }, hc', hins.1.symm, ?_, ?_⟩
    · exact fun hcreated => RequestPos.noConfusion hcreated
    · rw [Untaken, hans, hclosed]
      refine h.fresh r (fun d hd => ?_)
      rw [hc, Option.some.injEq] at hd
      rw [← hd]
      exact hpos
  · rw [if_neg hins] at hfind
    exact hquiet.key sn q hfind

/-- A context is taken for a response. -/
theorem mapped_answer (w w' : RockStream) (h : Mapped w) (sn : UInt32) (r : Nat) (m : RockMessage)
    (hm : m.getSn = some sn) (hfind : w.ctxs.lookup sn = some r) (hcalls : w'.calls = w.calls)
    (hctxs : w'.ctxs = w.ctxs.erase sn) (hans : w'.answered = (r, m) :: w.answered)
    (hclosed : w'.closed = w.closed) : Mapped w' := by
  rcases h.key sn r hfind with ⟨c, hc, hsn, hpos, huntaken⟩
  have hmem : ∀ (q : Nat) (m' : RockMessage), (q, m') ∈ w'.answered →
      q = r ∧ m' = m ∨ (q, m') ∈ w.answered := by
    intro q m' hq
    rw [hans] at hq
    rcases List.mem_cons.1 hq with heq | hold
    · exact Or.inl (Prod.mk.inj heq)
    · exact Or.inr hold
  have hother : ∀ q, q ≠ r → Untaken w q → Untaken w' q := by
    intro q hq hold
    refine ⟨fun m' hm' => ?_, by rw [hclosed]; exact hold.2⟩
    rcases hmem q m' hm' with ⟨heq, _⟩ | hbefore
    · exact hq heq
    · exact hold.1 m' hbefore
  refine ⟨?_, ?_, ?_, ?_, ?_⟩
  · intro sn' q hq
    rw [hctxs] at hq
    rw [hcalls]
    rcases lookup_of_erase w.ctxs sn sn' q hq with ⟨hne, hlook⟩
    rcases h.key sn' q hlook with ⟨d, hd, hsn', hdpos, hold⟩
    refine ⟨d, hd, hsn', hdpos, hother q ?_ hold⟩
    -- The same context would be in the map under two numbers.
    rintro rfl
    rw [hc, Option.some.injEq] at hd
    rw [← hd, hsn] at hsn'
    exact hne hsn'.symm
  · intro q hcreated
    rw [hcalls] at hcreated
    -- What was in the map is past `addCtx`.
    refine hother q ?_ (h.fresh q hcreated)
    rintro rfl
    exact hpos (hcreated c hc)
  · intro q m' hm'
    rw [hcalls]
    rcases hmem q m' hm' with ⟨rfl, rfl⟩ | hbefore
    · exact ⟨c, hc, by rw [hsn]; exact hm⟩
    · exact h.sn q m' hbefore
  · -- The context was in the map, so there was no response to it yet.
    intro q m₁ m₂ h₁ h₂
    rcases hmem q m₁ h₁ with ⟨rfl, rfl⟩ | hbefore₁
    · rcases hmem q m₂ h₂ with ⟨_, rfl⟩ | hbefore₂
      · rfl
      · exact absurd hbefore₂ (huntaken.1 m₂)
    · rcases hmem q m₂ h₂ with ⟨rfl, rfl⟩ | hbefore₂
      · exact absurd hbefore₁ (huntaken.1 m₁)
      · exact h.once q m₁ m₂ hbefore₁ hbefore₂
  · intro q m' hm'
    rw [hclosed]
    rcases hmem q m' hm' with ⟨rfl, _⟩ | hbefore
    · exact huntaken.2
    · exact h.apart q m' hbefore

/-- `innerClose` takes everything that is in the map. -/
theorem mapped_close (w w' : RockStream) (h : Mapped w) (taken : List Nat)
    (htaken : ∀ r, r ∈ taken ↔ ∃ sn, w.ctxs.lookup sn = some r)
    (hctxs : w'.ctxs = ∅) (hcalls : w'.calls = w.calls) (hans : w'.answered = w.answered)
    (hclosed : w'.closed = w.closed ++ taken) : Mapped w' := by
  refine ⟨?_, ?_, ?_, ?_, ?_⟩
  · intro sn r hfind
    rw [hctxs, AList.lookup_empty] at hfind
    cases hfind
  · intro r hcreated
    rw [hcalls] at hcreated
    rw [Untaken, hans, hclosed]
    refine ⟨(h.fresh r hcreated).1, fun hmem => ?_⟩
    rcases List.mem_append.1 hmem with hbefore | hnow
    · exact (h.fresh r hcreated).2 hbefore
    · rcases (htaken r).1 hnow with ⟨sn, hsn⟩
      rcases h.key sn r hsn with ⟨c, hc, _, hpos, _⟩
      exact hpos (hcreated c hc)
  · intro r m hm
    rw [hans] at hm
    rw [hcalls]
    exact h.sn r m hm
  · intro r m m' hm hm'
    rw [hans] at hm hm'
    exact h.once r m m' hm hm'
  · intro r m hm hmem
    rw [hans] at hm
    rw [hclosed] at hmem
    rcases List.mem_append.1 hmem with hbefore | hnow
    · exact h.apart r m hm hbefore
    · -- What was answered is not in the map, and `innerClose` takes only what is.
      rcases (htaken r).1 hnow with ⟨sn, hsn⟩
      rcases h.key sn r hsn with ⟨_, _, _, _, huntaken⟩
      exact huntaken.1 m hm

theorem step_mapped (w w' : RockStream) (a : Action) (h : Mapped w)
    (hstep : step a w = some w') : Mapped w' := by
  have hcalls := step_moves w w' a hstep
  cases step_mapMoves w w' a hstep with
  | same hmap hans hclosed =>
      exact mapped_moves w w' a h hcalls (fun sn r hr => (hmap sn).symm.trans hr) hans hclosed
  | added r c ha hc hpos hc' hctxs hans hclosed =>
      exact mapped_addCtx w w' a h hcalls r c hc hpos hc' hctxs hans hclosed
  | answered sn r m hm hfind htended hsame hctxs hans hclosed =>
      exact mapped_answer w w' h sn r m hm hfind hsame hctxs hans hclosed
  | closed taken htaken hsame hctxs hans hclosed =>
      exact mapped_close w w' h taken htaken hctxs hsame hans hclosed
  | erased k j c ha hj hpos hc hsame hctxs hans hclosed =>
      -- A timeout only makes the map smaller.
      refine mapped_moves w w' a h hcalls ?_ hans hclosed
      intro sn r hr
      rw [hctxs] at hr
      exact (lookup_of_erase w.ctxs c.ctx.sn sn r hr).2

end RockStream

end YkServer
