import YkServer.Theory.AsyncSocketStream.Matching

/-!
# Requests with the same Number

A timeout erases what is in the map under a number, whosever context it is, and
`addCtx` does not say that a number is taken. So a request may lose its context to the
timeout of another one, which need not even be waiting any more: a timer that `request`
had not stored when the response came is never cancelled.

When nobody adds a context under a number that another request may still erase, a
timeout finds its own context or none, and a response finds the request it is for.

## Main definitions

* `RockStream.Expiring`, `RockStream.MayErase`: Who may still erase its number.
* `RockStream.Undisturbed`: The condition on the steps of a run.
* `RockStream.Marked`: What a timeout leaves behind.
* `RockStream.Apart`: The map, in undisturbed runs.

## Theorems

* `step_expiring`: Where timeouts come from.
* `step_marked`, `step_apart`: Every step keeps these.
-/

namespace YkServer

open Lib

namespace RockStream

/-- The callback of the request has yet to erase its number. -/
def Expiring (w : RockStream) (r : Nat) : Prop :=
  (∃ p, w.timers.cbOf p = some r) ∨ (∃ p, (p, r) ∈ w.pending) ∨
    ∃ j ∈ w.jobs, j.ctx = r ∧ j.pos = .erase

/-- The request may still erase its number, now or when it has armed its timer. -/
def MayErase (w : RockStream) (r : Nat) (c : RockCall) : Prop :=
  c.pos = .added ∨ Expiring w r

/-- A context is added under a number that is free and that nobody else may still erase, and
    no timeout comes to the map while a response that has taken its context is on the way. -/
def Undisturbed (w : RockStream) : Action → Prop
  | .addCtx r => ∀ c, w.calls[r]? = some c → w.ctxs.lookup c.ctx.sn = none ∧
    ∀ (q : Nat) (d : RockCall), w.calls[q]? = some d → d.ctx.sn = c.ctx.sn → q ≠ r →
      ¬MayErase w q d
  | .go k => ∀ j, w.jobs[k]? = some j → j.pos = .erase → (∃ m, (j.ctx, m) ∈ w.answered) →
    (∀ c, w.calls[j.ctx]? = some c → c.ctx.fiber = none) ∧
      ∀ b ∈ w.jobs, b.ctx = j.ctx → b.pos = .erase
  | _ => True

/-! ## Who may still erase -/

/-- The callbacks of a step were there before, in one form or another, or were armed by it. -/
theorem step_expiring (w w' : RockStream) (a : Action) (h : Timed w)
    (hstep : step a w = some w') (r : Nat) (hr : Expiring w' r) :
    Expiring w r ∨ ∃ c, w.calls[r]? = some c ∧ c.pos = .added := by
  rcases hr with hcb | hpending | ⟨j, hj, hjr, hpos⟩
  · -- The callback is still in its timer.
    rcases hcb with ⟨p, hp⟩
    cases step_timersMove w w' a hstep with
    | same ha htimers hpending =>
        rw [htimers] at hp
        exact Or.inl (Or.inl ⟨p, hp⟩)
    | addTimer q p₀ now ha =>
        rw [ha] at hstep
        rcases addTimer_step hstep with ⟨c, b, s, hc, hpos, hrun, rfl⟩
        have hcb := (TimerManager.addTimer_cbOf w.timers s h.timers h.oneShot p₀ _ q now b hrun)
          |>.2.2.2.2 p
        have hold := hcb.symm.trans hp
        by_cases heq : p = p₀
        · rw [if_pos heq, Option.some.injEq] at hold
          rw [← hold]
          exact Or.inr ⟨c, hc, hpos⟩
        · rw [if_neg heq] at hold
          exact Or.inl (Or.inl ⟨p, hold⟩)
    | listExpiredCb now nowTimer ha =>
        rw [ha] at hstep
        rcases listExpiredCb_step hstep with ⟨cbs, s, hrun, rfl⟩
        have hcb := (TimerManager.listExpiredCb_cbOf w.timers s h.timers h.oneShot now nowTimer cbs
          hrun).2.2.2.2.2 p
        have hold := hcb.symm.trans hp
        split at hold
        · cases hold
        · exact Or.inl (Or.inl ⟨p, hold⟩)
    | onTimeOut k ha =>
        rw [ha] at hstep
        rcases onTimeOut_step hstep with ⟨p₀, q, _, rfl⟩
        exact Or.inl (Or.inl ⟨p, hp⟩)
    | cancel k j c p₀ b s ha hj hc htimer hrun hw =>
        rw [hw] at hp
        have hcb := (TimerManager.cancel_cbOf w.timers s h.timers h.oneShot p₀ b hrun).2.2.2 p
        have hold := hcb.symm.trans hp
        split at hold
        · cases hold
        · exact Or.inl (Or.inl ⟨p, hold⟩)
  · -- It was handed out, and no worker has started it.
    rcases hpending with ⟨p, hp⟩
    cases step_timersMove w w' a hstep with
    | same ha htimers hpending =>
        rw [hpending] at hp
        exact Or.inl (Or.inr (Or.inl ⟨p, hp⟩))
    | addTimer q p₀ now ha =>
        rw [ha] at hstep
        rcases addTimer_step hstep with ⟨c, b, s, _, _, _, rfl⟩
        exact Or.inl (Or.inr (Or.inl ⟨p, hp⟩))
    | listExpiredCb now nowTimer ha =>
        rw [ha] at hstep
        rcases listExpiredCb_step hstep with ⟨cbs, s, hrun, rfl⟩
        rcases List.mem_append.1 hp with hold | hnew
        · exact Or.inl (Or.inr (Or.inl ⟨p, hold⟩))
        · -- It was handed out now, so the timer had it until now.
          rcases List.mem_filterMap.1 hnew with ⟨x, hx, hmap⟩
          rcases Option.map_eq_some_iff.1 hmap with ⟨q, hq, heq⟩
          rw [Prod.mk.injEq] at heq
          have hcb := ((TimerManager.listExpiredCb_cbOf w.timers s h.timers h.oneShot now nowTimer
            cbs hrun).2.2.2.2.1 x hx).1
          refine Or.inl (Or.inl ⟨x.1, ?_⟩)
          rw [← hcb, hq, heq.2]
    | onTimeOut k ha =>
        rw [ha] at hstep
        rcases onTimeOut_step hstep with ⟨p₀, q, _, rfl⟩
        exact Or.inl (Or.inr (Or.inl ⟨p, List.mem_of_mem_eraseIdx hp⟩))
    | cancel k j c p₀ b s ha hj hc htimer hrun hw =>
        rw [hw] at hp
        exact Or.inl (Or.inr (Or.inl ⟨p, hp⟩))
  · left
    -- The thread was there before, or it is the callback that was handed out.
    rcases step_jobMoves w w' a hstep j hj with hold | hmove
    · exact Or.inr (Or.inr ⟨j, hold, hjr, hpos⟩)
    · cases hmove with
      | timeout p q hp =>
          rw [← hjr]
          exact Or.inr (Or.inl ⟨p, hp⟩)
      | wrote i c ctx pos hi hc hwrite hc' =>
          rcases i with ⟨ictx, ipos, irest⟩
          rcases c with ⟨cctx, cpos, carmed⟩
          dsimp only at hwrite hpos
          rw [hpos] at hwrite
          cases hwrite
      | looked i c pos hi hc hlook hfiber =>
          rcases i with ⟨ictx, ipos, irest⟩
          dsimp only at hlook hpos
          rw [hpos] at hlook
          cases hlook
      | erased | cancelled | next | answer | close => cases hpos

/-! ## What a timeout leaves behind -/

theorem step_erased (w w' : RockStream) (a : Action) (hstep : step a w = some w') :
    w.erased ⊆ w'.erased := by
  cases step_mapMoves w w' a hstep with
  | same hmap hans hclosed herased =>
      rw [herased]
      exact fun _ hx => hx
  | added r c ha hc hpos hc' hctxs hans hclosed herased =>
      rw [herased]
      exact fun _ hx => hx
  | answered sn r m hm hfind htended hcalls hctxs hans hclosed herased =>
      rw [herased]
      exact fun _ hx => hx
  | closed taken htaken hcalls hctxs hans hclosed herased =>
      rw [herased]
      exact fun _ hx => hx
  | erased k j c ha hj hpos hc hcalls hctxs hans hclosed herased =>
      rw [herased]
      exact fun _ hx => List.mem_cons_of_mem _ hx

/-- Only what was added has a timeout, which takes the context out of the map for good
    before it sets `timed`. -/
structure Marked (w : RockStream) : Prop where
  known : ∀ r, Expiring w r → ∃ c, w.calls[r]? = some c ∧ c.pos ≠ .created
  gone : ∀ r ∈ w.erased, (∃ c, w.calls[r]? = some c ∧ c.pos ≠ .created) ∧
    ∀ sn, w.ctxs.lookup sn ≠ some r
  timed : ∀ (r : Nat) (c : RockCall), w.calls[r]? = some c → c.ctx.timed = true → r ∈ w.erased
  marking : ∀ j ∈ w.jobs, j.pos = .setTimed → j.ctx ∈ w.erased

theorem marked_new (now : UInt64) : Marked (new now) := by
  refine ⟨?_, ?_, ?_, ?_⟩
  · rintro r (⟨p, hp⟩ | ⟨p, hp⟩ | ⟨j, hj, _⟩)
    · cases hp
    · exact absurd hp List.not_mem_nil
    · exact absurd hj List.not_mem_nil
  · intro r hr
    exact absurd hr List.not_mem_nil
  · intro r c hc
    cases hc
  · intro j hj
    exact absurd hj List.not_mem_nil

/-- A call that is past `addCtx` stays so. -/
theorem CallsMove.past {w w' : RockStream} {a : Action} (h : CallsMove w a w') (r : Nat)
    (hr : ∃ c, w.calls[r]? = some c ∧ c.pos ≠ .created) :
    ∃ c, w'.calls[r]? = some c ∧ c.pos ≠ .created := by
  rcases hr with ⟨c, hc, hpos⟩
  rcases h.moved r c hc with ⟨c', hc', hmove⟩
  exact ⟨c', hc', fun hcreated => hpos (hmove.frame.2.2 hcreated)⟩

/-- Only a timeout sets `timed`. -/
theorem Moves.timed_or {w : RockStream} {a : Action} {r : Nat} {c c' : RockCall}
    (h : Moves w a r c c') (htimed : c'.ctx.timed = true) :
    c.ctx.timed = true ∨ ∃ j ∈ w.jobs, j.ctx = r ∧ j.pos = .setTimed := by
  cases h with
  | write j ctx pos hj hr hwrite =>
      rcases j with ⟨jctx, jpos, jrest⟩
      rcases c with ⟨cctx, cpos, carmed⟩
      dsimp only at hwrite htimed ⊢
      cases hwrite with
      | timed => exact Or.inr ⟨_, hj, hr, rfl⟩
      | result | ioError | response | clear | mark => exact Or.inl htimed
  | same | added | armed | stored | queued | yielded | returned | wake => exact Or.inl htimed

/-- A context that was erased is not in the map after a step either. -/
theorem step_gone (w w' : RockStream) (a : Action) (hmap : Mapped w) (h : Marked w)
    (hstep : step a w = some w') (r : Nat) (hr : r ∈ w'.erased) :
    (∃ c, w'.calls[r]? = some c ∧ c.pos ≠ .created) ∧ ∀ sn, w'.ctxs.lookup sn ≠ some r := by
  have hpast := (step_moves w w' a hstep).past r
  cases step_mapMoves w w' a hstep with
  | same hlook hans hclosed herased =>
      rw [herased] at hr
      refine ⟨hpast (h.gone r hr).1, fun sn hfind => ?_⟩
      exact (h.gone r hr).2 sn ((hlook sn).symm.trans hfind)
  | added q c ha hc hpos hc' hctxs hans hclosed herased =>
      rw [herased] at hr
      refine ⟨hpast (h.gone r hr).1, fun sn hfind => ?_⟩
      rw [hctxs, lookup_addCtx] at hfind
      split at hfind
      · -- What comes into the map is a context that was not there before.
        rw [Option.some.injEq] at hfind
        rcases (h.gone r hr).1 with ⟨d, hd, hdpos⟩
        rw [← hfind, hc, Option.some.injEq] at hd
        rw [← hd] at hdpos
        exact hdpos hpos
      · exact (h.gone r hr).2 sn hfind
  | answered sn q m hm hfind htended hcalls hctxs hans hclosed herased =>
      rw [herased] at hr
      refine ⟨hpast (h.gone r hr).1, fun sn' hfind' => ?_⟩
      rw [hctxs] at hfind'
      exact (h.gone r hr).2 sn' (lookup_of_erase w.ctxs sn sn' r hfind').2
  | closed taken htaken hcalls hctxs hans hclosed herased =>
      rw [herased] at hr
      refine ⟨hpast (h.gone r hr).1, fun sn hfind => ?_⟩
      rw [hctxs, AList.lookup_empty] at hfind
      cases hfind
  | erased k j c ha hj hpos hc hcalls hctxs hans hclosed herased =>
      rw [herased] at hr
      rw [hctxs]
      -- The context of this timeout was in the map under its number only.
      rcases List.mem_cons.1 hr with rfl | hold
      · have hmem : j ∈ w.jobs := List.mem_of_getElem? hj
        refine ⟨hpast (h.known j.ctx (Or.inr (Or.inr ⟨j, hmem, rfl, hpos⟩))), fun sn hfind => ?_⟩
        rcases lookup_of_erase w.ctxs c.ctx.sn sn j.ctx hfind with ⟨hne, hlook⟩
        rcases hmap.key sn j.ctx hlook with ⟨d, hd, hsn, _⟩
        rw [hc, Option.some.injEq] at hd
        rw [← hd] at hsn
        exact hne hsn.symm
      · refine ⟨hpast (h.gone r hold).1, fun sn hfind => ?_⟩
        exact (h.gone r hold).2 sn (lookup_of_erase w.ctxs c.ctx.sn sn r hfind).2

theorem step_marked (w w' : RockStream) (a : Action) (htimed : Timed w) (hmap : Mapped w)
    (h : Marked w) (hstep : step a w = some w') : Marked w' := by
  have hcalls := step_moves w w' a hstep
  have herased := step_erased w w' a hstep
  -- What is known of the threads carries over to the contexts when they write.
  refine ⟨?_, step_gone w w' a hmap h hstep, ?_, ?_⟩
  · intro r hr
    refine hcalls.past r ?_
    rcases step_expiring w w' a htimed hstep r hr with hold | ⟨c, hc, hpos⟩
    · exact h.known r hold
    · exact ⟨c, hc, by rw [hpos]; exact RequestPos.noConfusion⟩
  · intro r c' hc' htrue
    rcases hcalls.origin r c' hc' with ⟨c, hc, hmove⟩ | ⟨_, sn, timeout, caller, rfl⟩
    · rcases hmove.timed_or htrue with hold | ⟨j, hj, rfl, hpos⟩
      · exact herased (h.timed r c hc hold)
      · exact herased (h.marking j hj hpos)
    · cases htrue
  · intro j hj hpos
    rcases step_jobMoves w w' a hstep j hj with hold | hmove
    · exact herased (h.marking j hold hpos)
    · cases hmove with
      | erased i hi hipos hnow => exact hnow
      | wrote i c ctx pos hi hc hwrite hc' =>
          rcases i with ⟨ictx, ipos, irest⟩
          rcases c with ⟨cctx, cpos, carmed⟩
          dsimp only at hwrite hpos
          rw [hpos] at hwrite
          cases hwrite
      | looked i c pos hi hc hlook hfiber =>
          rcases i with ⟨ictx, ipos, irest⟩
          dsimp only at hlook hpos
          rw [hpos] at hlook
          cases hlook
      | cancelled | next | answer | timeout | close => cases hpos

/-! ## The map -/

/-- Nobody but the owner of a context in the map may erase its number, and a context stays in
    the map until it is taken out for a reason of its own. -/
structure Apart (w : RockStream) : Prop where
  alone : ∀ (sn : UInt32) (r : Nat), w.ctxs.lookup sn = some r →
    ∀ (q : Nat) (d : RockCall), w.calls[q]? = some d → d.ctx.sn = sn → MayErase w q d → q = r
  there : ∀ (r : Nat) (c : RockCall), w.calls[r]? = some c → c.pos ≠ .created → r ∉ w.erased →
    Untaken w r → w.ctxs.lookup c.ctx.sn = some r

theorem apart_new (now : UInt64) : Apart (new now) := by
  refine ⟨?_, ?_⟩
  · intro sn r hfind
    rw [new, AList.lookup_empty] at hfind
    cases hfind
  · intro r c hc
    cases hc

theorem Moves.created_or {w : RockStream} {a : Action} {r : Nat} {c c' : RockCall}
    (h : Moves w a r c c') (hpos : c.pos = .created ∨ c'.pos = .added) :
    a = .addCtx r ∨ c.pos = c'.pos := by
  cases h with
  | added ha hcreated => exact Or.inl ha
  | same | write | wake => exact Or.inr rfl
  | armed p now ha hold | stored hold | queued hold | yielded hold | returned hold =>
      rw [hold] at hpos
      rcases hpos with hcreated | hadded
      · cases hcreated
      · cases hadded

/-- Who may erase after a step could do so before, or has just added its context. -/
theorem mayErase_before (w w' : RockStream) (a : Action) (htimed : Timed w) (hmark : Marked w)
    (hstep : step a w = some w') (q : Nat) (d' : RockCall) (hd' : w'.calls[q]? = some d')
    (hmay : MayErase w' q d') :
    a = .addCtx q ∨ ∃ d, w.calls[q]? = some d ∧ d.ctx.sn = d'.ctx.sn ∧ MayErase w q d := by
  rcases (step_moves w w' a hstep).origin q d' hd' with
    ⟨d, hd, hmove⟩ | ⟨hnone, sn, timeout, caller, rfl⟩
  · rcases hmay with hadded | hexp
    · rcases hmove.created_or (Or.inr hadded) with ha | hsame
      · exact Or.inl ha
      · exact Or.inr ⟨d, hd, hmove.frame.1.symm, Or.inl (hsame.trans hadded)⟩
    · right
      refine ⟨d, hd, hmove.frame.1.symm, ?_⟩
      rcases step_expiring w w' a htimed hstep q hexp with hold | ⟨e, he, hpos⟩
      · exact Or.inr hold
      · rw [hd, Option.some.injEq] at he
        rw [he]
        exact Or.inl hpos
  · -- Nobody waits for a call that was not there.
    rcases hmay with hadded | hexp
    · cases hadded
    · rcases step_expiring w w' a htimed hstep q hexp with hold | ⟨e, he, _⟩
      · rcases hmark.known q hold with ⟨e, he, _⟩
        rw [hnone] at he
        cases he
      · rw [hnone] at he
        cases he

/-- Nothing comes into the map. -/
theorem alone_kept (w w' : RockStream) (a : Action) (htimed : Timed w) (hmark : Marked w)
    (h : Apart w) (hstep : step a w = some w') (ha : ∀ r, a ≠ .addCtx r)
    (hmap : ∀ sn r, w'.ctxs.lookup sn = some r → w.ctxs.lookup sn = some r) :
    ∀ (sn : UInt32) (r : Nat), w'.ctxs.lookup sn = some r →
      ∀ (q : Nat) (d : RockCall), w'.calls[q]? = some d → d.ctx.sn = sn → MayErase w' q d →
        q = r := by
  intro sn r hfind q d' hd' hsn hmay
  rcases mayErase_before w w' a htimed hmark hstep q d' hd' hmay with hadd | ⟨d, hd, hsn', hold⟩
  · exact absurd hadd (ha q)
  · exact h.alone sn r (hmap sn r hfind) q d hd (hsn'.trans hsn) hold

/-- A call that is past `addCtx` was so before the step. -/
theorem past_before (w w' : RockStream) (a : Action) (hstep : step a w = some w')
    (ha : ∀ r, a ≠ .addCtx r) (r : Nat) (c' : RockCall) (hc' : w'.calls[r]? = some c')
    (hpos : c'.pos ≠ .created) :
    ∃ c, w.calls[r]? = some c ∧ c.ctx.sn = c'.ctx.sn ∧ c.pos ≠ .created := by
  rcases (step_moves w w' a hstep).origin r c' hc' with ⟨c, hc, hmove⟩ | ⟨_, _, _, _, rfl⟩
  · refine ⟨c, hc, hmove.frame.1.symm, fun hcreated => ?_⟩
    rcases hmove.created_or (Or.inl hcreated) with hadd | hsame
    · exact ha r hadd
    · exact hpos (hsame.symm.trans hcreated)
  · exact absurd rfl hpos

theorem apart_addCtx (w w' : RockStream) (htimed : Timed w) (hmark : Marked w) (h : Apart w)
    (r : Nat) (c : RockCall) (hstep : step (.addCtx r) w = some w')
    (hquiet : Undisturbed w (.addCtx r)) (hc : w.calls[r]? = some c)
    (hc' : w'.calls[r]? = some { c with pos := .added })
    (hctxs : w'.ctxs = (w.addCtx c.ctx.sn r).ctxs) (hans : w'.answered = w.answered)
    (hclosed : w'.closed = w.closed) (herased : w'.erased = w.erased) : Apart w' := by
  rcases hquiet c hc with ⟨hfree, hnobody⟩
  -- The number is free, so `insert` stores the context.
  have hlook : ∀ sn, w'.ctxs.lookup sn = if sn = c.ctx.sn then some r else w.ctxs.lookup sn := by
    intro sn
    rw [hctxs, lookup_addCtx]
    by_cases hsn : sn = c.ctx.sn
    · rw [if_pos ⟨hsn, hfree⟩, if_pos hsn]
    · rw [if_neg (fun hboth => hsn hboth.1), if_neg hsn]
  refine ⟨?_, ?_⟩
  · intro sn r' hfind q d' hd' hsn hmay
    rw [hlook] at hfind
    rcases mayErase_before w w' _ htimed hmark hstep q d' hd' hmay with hadd | ⟨d, hd, hsn', hold⟩
    · cases hadd
      rw [hc', Option.some.injEq] at hd'
      rw [← hd'] at hsn
      rw [if_pos hsn.symm, Option.some.injEq] at hfind
      exact hfind
    · by_cases heq : sn = c.ctx.sn
      · rw [if_pos heq, Option.some.injEq] at hfind
        -- Nobody else may erase the number: that is what is asked of the step.
        by_contra hne
        refine hnobody q d hd ((hsn'.trans hsn).trans heq) ?_ hold
        rw [hfind]
        exact hne
      · rw [if_neg heq] at hfind
        exact h.alone sn r' hfind q d hd (hsn'.trans hsn) hold
  · intro q d' hd' hpos hnot huntaken
    rw [hlook]
    by_cases hq : q = r
    · rw [hq, hc', Option.some.injEq] at hd'
      rw [← hd', hq, if_pos rfl]
    · rcases (step_moves w w' _ hstep).origin q d' hd' with ⟨d, hd, hmove⟩ | ⟨_, _, _, _, rfl⟩
      · -- The other calls are where they were.
        have hpos' : d.pos ≠ .created := by
          intro hcreated
          rcases hmove.created_or (Or.inl hcreated) with hadd | hsame
          · cases hadd
            exact hq rfl
          · exact hpos (hsame.symm.trans hcreated)
        rw [herased] at hnot
        rw [Untaken, hans, hclosed] at huntaken
        have hfind := h.there q d hd hpos' hnot huntaken
        rw [hmove.frame.1, if_neg]
        · exact hfind
        · intro heq
          rw [heq, hfree] at hfind
          cases hfind
      · exact absurd rfl hpos

theorem step_apart (w w' : RockStream) (a : Action) (htimed : Timed w) (hmark : Marked w)
    (h : Apart w) (hquiet : Undisturbed w a) (hstep : step a w = some w') : Apart w' := by
  -- What is in the map after the step was there before it, unless the step adds it.
  have hold : (∀ r, a ≠ .addCtx r) → ∀ (r : Nat) (c' : RockCall), w'.calls[r]? = some c' →
      c'.pos ≠ .created → r ∉ w'.erased → Untaken w r → w.ctxs.lookup c'.ctx.sn = some r := by
    intro ha r c' hc' hpos hnot huntaken
    rcases past_before w w' a hstep ha r c' hc' hpos with ⟨c, hc, hsn, hpos'⟩
    rw [← hsn]
    exact h.there r c hc hpos' (fun hin => hnot (step_erased w w' a hstep hin)) huntaken
  cases step_mapMoves w w' a hstep with
  | same hlook hans hclosed herased ha =>
      refine ⟨alone_kept w w' a htimed hmark h hstep ha
        (fun sn r hfind => (hlook sn).symm.trans hfind), ?_⟩
      intro r c' hc' hpos hnot huntaken
      rw [Untaken, hans, hclosed] at huntaken
      exact (hlook c'.ctx.sn).trans (hold ha r c' hc' hpos hnot huntaken)
  | added r c ha hc hpos hc' hctxs hans hclosed herased =>
      rw [ha] at hstep hquiet
      exact apart_addCtx w w' htimed hmark h r c hstep hquiet hc hc' hctxs hans hclosed herased
  | answered sn q m hm hfind htended hcalls hctxs hans hclosed herased ha =>
      refine ⟨alone_kept w w' a htimed hmark h hstep ha (fun sn' r hr => ?_), ?_⟩
      · rw [hctxs] at hr
        exact (lookup_of_erase w.ctxs sn sn' r hr).2
      · intro r c' hc' hpos hnot huntaken
        -- The response has taken another context, which had another number.
        have hbefore : Untaken w r := by
          refine ⟨fun m' hm' => huntaken.1 m' ?_, by rw [← hclosed]; exact huntaken.2⟩
          rw [hans]
          exact List.mem_cons_of_mem _ hm'
        have hlook := hold ha r c' hc' hpos hnot hbefore
        rw [hctxs, AList.lookup_erase_ne]
        · exact hlook
        · intro heq
          rw [heq, hfind, Option.some.injEq] at hlook
          refine huntaken.1 m ?_
          rw [hans, hlook]
          exact List.mem_cons_self
  | closed taken htaken hcalls hctxs hans hclosed herased ha =>
      refine ⟨alone_kept w w' a htimed hmark h hstep ha (fun sn r hr => ?_), ?_⟩
      · rw [hctxs, AList.lookup_empty] at hr
        cases hr
      · intro r c' hc' hpos hnot huntaken
        rw [Untaken, hans, hclosed, List.mem_append, not_or] at huntaken
        have hlook := hold ha r c' hc' hpos hnot ⟨huntaken.1, huntaken.2.1⟩
        exact absurd ((htaken r).2 ⟨_, hlook⟩) huntaken.2.2
  | erased k j c hgo hj hpos hc hcalls hctxs hans hclosed herased =>
      have ha : ∀ r, a ≠ .addCtx r := by
        rw [hgo]
        exact fun _ => Action.noConfusion
      have hmem : j ∈ w.jobs := List.mem_of_getElem? hj
      refine ⟨alone_kept w w' a htimed hmark h hstep ha (fun sn r hr => ?_), ?_⟩
      · rw [hctxs] at hr
        exact (lookup_of_erase w.ctxs c.ctx.sn sn r hr).2
      · intro r c' hc' hpos' hnot huntaken
        rw [Untaken, hans, hclosed] at huntaken
        have hlook := hold ha r c' hc' hpos' hnot huntaken
        rw [hctxs, AList.lookup_erase_ne]
        · exact hlook
        · -- The number of the timeout is not that of another context in the map.
          intro heq
          have howner := h.alone _ r hlook j.ctx c hc heq.symm
            (Or.inr (Or.inr (Or.inr ⟨j, hmem, rfl, hpos⟩)))
          refine hnot ?_
          rw [herased, howner]
          exact List.mem_cons_self

end RockStream

end YkServer
