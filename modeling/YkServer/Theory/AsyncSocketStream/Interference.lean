import YkServer.Theory.AsyncSocketStream.Numbers

/-!
# Interference between Requests

What becomes of a response in an undisturbed run. A context that was taken for a response
is not timed out before its fiber is scheduled, so the fiber finds the response and its
result in the context, and a timeout that comes later changes neither.

## Main definitions

* `RockStream.Late`: A timeout that comes too late.
* `RockStream.Delivered`: Responses, in undisturbed runs.

## Theorems

* `step_delivered`: Every step keeps it.
* `timeouts_apart`: Timeouts and responses in undisturbed runs.
-/

namespace YkServer

open Lib

namespace RockStream

/-- A timeout that can no longer change what the request returns. -/
def Late (w : RockStream) (r : Nat) : Prop :=
  (∀ c, w.calls[r]? = some c → c.ctx.fiber = none) ∧
    ∀ j ∈ w.jobs, j.ctx = r → j.pos = .erase ∨ j.pos = .setTimed ∨ j.pos = .doRsp .test

/-- A request whose context was taken for a response has it when its fiber is scheduled. -/
structure Delivered (w : RockStream) : Prop where
  late : ∀ r m, (r, m) ∈ w.answered → r ∈ w.erased → Late w r
  kept : ∀ (r : Nat) (c : RockCall) (m : RockMessage), w.calls[r]? = some c →
    (r, m) ∈ w.answered → c.ctx.fiber = none →
    c.ctx.response = some m ∧ m.getResult = some c.ctx.result
  returned : ∀ (r : Nat) (c : RockCall) (m : RockMessage) (result : UInt32)
    (rsp : Option RockMessage), w.calls[r]? = some c → (r, m) ∈ w.answered →
    c.pos = .returned result rsp → rsp = some m ∧ m.getResult = some result

theorem delivered_new (now : UInt64) : Delivered (new now) := by
  refine ⟨?_, ?_, ?_⟩
  · intro r m hm
    exact absurd hm List.not_mem_nil
  · intro r c m hc
    cases hc
  · intro r c m result rsp hc
    cases hc

theorem late_kept (w w' : RockStream) (a : Action) (hw : Matched w) (hw' : Matched w')
    (hstep : step a w = some w') (r : Nat) (m : RockMessage) (hm : (r, m) ∈ w.answered)
    (h : Late w r) : Late w' r := by
  have hans := (step_taken w w' a hstep).1
  refine ⟨?_, ?_⟩
  · intro c' hc'
    rcases hw.mapped.sn r m hm with ⟨c, hc, _⟩
    rcases (step_moves w w' a hstep).moved r c hc with ⟨d, hd, hmove⟩
    rw [hc', Option.some.injEq] at hd
    rw [hd]
    exact hmove.gone (h.1 c hc)
  · intro j hj hr
    rcases step_jobMoves w w' a hstep j hj with hold | hmove
    · exact h.2 j hold hr
    · cases hmove with
      | erased i hi hpos herased => exact Or.inr (Or.inl rfl)
      | wrote i c ctx pos hi hc hwrite hc' =>
          have hpos := h.2 i hi hr
          rcases i with ⟨ictx, ipos, irest⟩
          rcases c with ⟨cctx, cpos, carmed⟩
          dsimp only at hwrite hpos ⊢
          cases hwrite with
          | timed => exact Or.inr (Or.inr rfl)
          | result | ioError | response | clear | mark =>
              rcases hpos with hpos | hpos | hpos <;> cases hpos
      | looked i c pos hi hc hlook hfiber =>
          -- It would have gone on only if the fiber were there.
          have hpos := h.2 i hi hr
          have hgone := h.1 c (by rw [← hr]; exact hc)
          rw [hgone] at hfiber
          rcases i with ⟨ictx, ipos, irest⟩
          dsimp only at hlook hpos hfiber
          cases hlook with
          | test => exact absurd (hfiber rfl) Bool.false_ne_true
          | timer | noTimer | notTimed => rcases hpos with hpos | hpos | hpos <;> cases hpos
      | cancelled i hi hpos =>
          have hold := h.2 i hi hr
          rw [hpos] at hold
          rcases hold with hold | hold | hold <;> cases hold
      | next i q rest hi hrest =>
          have hclosed := (hw.resolves.job i hi).1 q (by rw [hrest]; exact List.mem_cons_self)
          dsimp only at hr
          rw [hr] at hclosed
          exact absurd hclosed (hw.mapped.apart r m hm)
      | answer sn q m' result hfind hres hmem =>
          rcases hw.mapped.key sn q hfind with ⟨_, _, _, _, huntaken⟩
          dsimp only at hr
          rw [hr] at huntaken
          exact absurd hm (huntaken.1 m)
      | timeout p q hp => exact Or.inl rfl
      | close q rest hall =>
          have hclosed := hall q List.mem_cons_self
          dsimp only at hr
          rw [hr] at hclosed
          exact absurd hclosed (hw'.mapped.apart r m (hans hm))

/-- What a step takes out of the map for a response is a request that still waits. -/
theorem step_answered (w w' : RockStream) (a : Action) (hw : Matched w) (hmark : Marked w)
    (hstep : step a w = some w') (r : Nat) (m : RockMessage) (hm : (r, m) ∈ w'.answered) :
    (r, m) ∈ w.answered ∨
      r ∉ w'.erased ∧ ∀ c, w'.calls[r]? = some c → c.ctx.fiber ≠ none := by
  cases step_mapMoves w w' a hstep with
  | same hlook hans =>
      rw [hans] at hm
      exact Or.inl hm
  | added q c ha hc hpos hc' hctxs hans =>
      rw [hans] at hm
      exact Or.inl hm
  | answered sn q m' hsn hfind htended hcalls hctxs hans hclosed herased =>
      rw [hans] at hm
      rcases List.mem_cons.1 hm with heq | hold
      · right
        rw [Prod.mk.injEq] at heq
        rw [herased, hcalls, heq.1]
        have hnot : q ∉ w.erased := fun hin => (hmark.gone q hin).2 sn hfind
        refine ⟨hnot, fun c hc hfiber => ?_⟩
        rcases hw.mapped.key sn q hfind with ⟨_, _, _, _, huntaken⟩
        rcases hw.resolves.resolved q c hc hfiber with hsome | htimed | hmem
        · rcases Option.isSome_iff_exists.1 hsome with ⟨m₀, hm₀⟩
          exact huntaken.1 m₀ (hw.resolves.stored q c m₀ hc hm₀).1
        · exact hnot (hmark.timed q c hc htimed)
        · exact huntaken.2 hmem
      · exact Or.inl hold
  | closed taken htaken hcalls hctxs hans =>
      rw [hans] at hm
      exact Or.inl hm
  | erased k j c ha hj hpos hc hcalls hctxs hans =>
      rw [hans] at hm
      exact Or.inl hm

theorem step_late (w w' : RockStream) (a : Action) (hw : Matched w) (hw' : Matched w')
    (hmark : Marked w) (h : Delivered w) (hquiet : Undisturbed w a) (hstep : step a w = some w')
    (r : Nat) (m : RockMessage) (hm : (r, m) ∈ w'.answered) (hr : r ∈ w'.erased) :
    Late w' r := by
  rcases step_answered w w' a hw hmark hstep r m hm with hold | ⟨hnot, _⟩
  · refine late_kept w w' a hw hw' hstep r m hold ?_
    cases step_mapMoves w w' a hstep with
    | same hlook hans hclosed herased =>
        rw [herased] at hr
        exact h.late r m hold hr
    | added q c ha hc hpos hc' hctxs hans hclosed herased =>
        rw [herased] at hr
        exact h.late r m hold hr
    | answered sn q m' hsn hfind htended hcalls hctxs hans hclosed herased =>
        rw [herased] at hr
        exact h.late r m hold hr
    | closed taken htaken hcalls hctxs hans hclosed herased =>
        rw [herased] at hr
        exact h.late r m hold hr
    | erased k j c ha hj hpos hc hcalls hctxs hans hclosed herased =>
        rw [herased] at hr
        rcases List.mem_cons.1 hr with rfl | hbefore
        · rw [ha] at hquiet
          rcases hquiet j hj hpos ⟨m, hold⟩ with ⟨hfiber, hjobs⟩
          exact ⟨hfiber, fun b hb hbr => Or.inl (hjobs b hb hbr)⟩
        · exact h.late r m hold hbefore
  · exact absurd hr hnot

/-- What is in the context of a request that was resolved with a response stays there. -/
theorem Moves.delivered {w : RockStream} {a : Action} {r : Nat} {c c' : RockCall}
    (h : Moves w a r c c') (hw : Matched w) (hmark : Marked w) (hd : Delivered w) (m : RockMessage)
    (hc : w.calls[r]? = some c) (hm : (r, m) ∈ w.answered)
    (hold : c.ctx.response = some m ∧ m.getResult = some c.ctx.result) :
    c'.ctx.response = some m ∧ m.getResult = some c'.ctx.result := by
  cases h with
  | write j ctx pos hj hr hwrite =>
      have hok := (hw.resolves.job j hj).2
      have htimed := hmark.timed r c hc
      rcases j with ⟨jctx, jpos, jrest⟩
      rcases c with ⟨cctx, cpos, carmed⟩
      dsimp only at hwrite hok hr hold htimed ⊢
      rw [hr] at hok
      cases hwrite with
      | timed | clear => exact hold
      | result _ v m' =>
          rw [hw.mapped.once r m m' hm hok.1]
          exact ⟨by rw [hold.1, hw.mapped.once r m m' hm hok.1], hok.2⟩
      | ioError => exact absurd hok (hw.mapped.apart r m hm)
      | response _ m' =>
          rcases hok with ⟨d, _, hsettled⟩
          rw [hw.mapped.once r m m' hm hsettled.1]
          exact ⟨rfl, by rw [← hw.mapped.once r m m' hm hsettled.1]; exact hold.2⟩
      | mark _ hyes =>
          -- `timed` is set, so this thread cannot have come this far.
          have hpos := (hd.late r m hm (htimed hyes)).2 _ hj hr
          rcases hpos with hpos | hpos | hpos <;> cases hpos
  | same | added | armed | stored | queued | yielded | returned | wake => exact hold

theorem step_kept (w w' : RockStream) (a : Action) (hw : Matched w) (hmark : Marked w)
    (h : Delivered w) (hstep : step a w = some w') (r : Nat) (c' : RockCall) (m : RockMessage)
    (hc' : w'.calls[r]? = some c') (hm : (r, m) ∈ w'.answered) (hfiber : c'.ctx.fiber = none) :
    c'.ctx.response = some m ∧ m.getResult = some c'.ctx.result := by
  rcases step_answered w w' a hw hmark hstep r m hm with hold | ⟨_, hwaits⟩
  · rcases hw.mapped.sn r m hold with ⟨c, hc, _⟩
    rcases (step_moves w w' a hstep).moved r c hc with ⟨d, hd, hmove⟩
    rw [hc', Option.some.injEq] at hd
    rw [← hd] at hmove
    refine hmove.delivered hw hmark h m hc hold ?_
    rcases hmove.fiber_or hfiber with hgone | ⟨j, hj, hr, hpos⟩
    · exact h.kept r c m hc hold hgone
    · -- The thread that schedules the fiber has stored the response, as it did not time out.
      have hnot : c.ctx.timed ≠ true := by
        intro htimed
        have hlate := (h.late r m hold (hmark.timed r c hc htimed)).2 j hj hr
        rw [hpos] at hlate
        rcases hlate with hlate | hlate | hlate <;> cases hlate
      have hok := (hw.resolves.job j hj).2
      simp only [hpos, hr] at hok
      rcases hok with ⟨d, hd, hreason⟩
      rw [hc, Option.some.injEq] at hd
      rw [← hd] at hreason
      rcases hreason with hsome | htimed | hmem
      · rcases Option.isSome_iff_exists.1 hsome with ⟨m', hm'⟩
        rcases hw.resolves.stored r c m' hc hm' with ⟨hans, htimed | hres⟩
        · exact absurd htimed hnot
        · rw [hw.mapped.once r m m' hold hans]
          exact ⟨hm', hres⟩
      · exact absurd htimed hnot
      · exact absurd hmem (hw.mapped.apart r m hold)
  · exact absurd hfiber (hwaits c' hc')

theorem step_delivered (w w' : RockStream) (a : Action) (hw : Matched w) (hw' : Matched w')
    (hmark : Marked w) (h : Delivered w) (hquiet : Undisturbed w a) (hstep : step a w = some w') :
    Delivered w' := by
  refine ⟨step_late w w' a hw hw' hmark h hquiet hstep, step_kept w w' a hw hmark h hstep, ?_⟩
  intro r c' m result rsp hc' hm hpos
  rcases step_answered w w' a hw hmark hstep r m hm with hold | ⟨_, hwaits⟩
  · rcases hw.mapped.sn r m hold with ⟨c, hc, _⟩
    rcases (step_moves w w' a hstep).moved r c hc with ⟨d, hd, hmove⟩
    rw [hc', Option.some.injEq] at hd
    rw [← hd] at hmove
    rcases hmove.returned_or result rsp hpos with hbefore | ⟨hsched, _, rfl, rfl⟩
    · exact h.returned r c m result rsp hc hold hbefore
    · exact h.kept r c m hc hold (hw.counts.gone r c hc hsched)
  · exact absurd (hw'.resolves.returned r c' result rsp hc' hpos).1 (hwaits c' hc')

/-! ## Runs -/

/-- In every undisturbed run a timeout removes no context but its own, a response finds the
    request that has its number, and that request returns with it. -/
theorem timeouts_apart (now : UInt64) (acts : List Action) (w : RockStream)
    (hquiet : Along step Undisturbed acts (new now)) (hrun : run step acts (new now) = some w) :
    (∀ j ∈ w.jobs, j.pos = .erase → ∀ c, w.calls[j.ctx]? = some c →
      ∀ sn r, w.ctxs.lookup sn = some r →
        (w.eraseCtx c.ctx.sn).ctxs.lookup sn = some r ∨ r = j.ctx) ∧
    (∀ (r : Nat) (c : RockCall), w.calls[r]? = some c → c.pos ≠ .created → r ∉ w.erased →
      Untaken w r → (w.getAndDelCtx c.ctx.sn).1 = some r) ∧
    ∀ (r : Nat) (c : RockCall) (m : RockMessage), w.calls[r]? = some c → (r, m) ∈ w.answered →
      (c.ctx.fiber.isSome = true → Tended w r) ∧
      (c.ctx.fiber = none → c.ctx.response = some m ∧ m.getResult = some c.ctx.result) ∧
      ∀ result rsp, c.pos = .returned result rsp →
        rsp = some m ∧ m.getResult = some result := by
  have hinv : Matched w ∧ Marked w ∧ Apart w ∧ Delivered w := by
    refine run_inv (fun w => Matched w ∧ Marked w ∧ Apart w ∧ Delivered w) ?_ acts (new now) w
      ⟨matched_new now, marked_new now, apart_new now, delivered_new now⟩ hquiet hrun
    rintro w a w' ⟨hw, hmark, hapart, hdel⟩ hP hstep
    have hw' := step_matched w w' a hw hstep
    exact ⟨hw', step_marked w w' a hw.timed hw.mapped hmark hstep,
      step_apart w w' a hw.timed hmark hapart hP hstep,
      step_delivered w w' a hw hw' hmark hdel hP hstep⟩
  rcases hinv with ⟨hw, hmark, hapart, hdel⟩
  refine ⟨?_, ?_, ?_⟩
  · intro j hj hpos c hc sn r hfind
    by_cases hsn : sn = c.ctx.sn
    · right
      have hmay : MayErase w j.ctx c := Or.inr (Or.inr (Or.inr ⟨j, hj, rfl, hpos⟩))
      exact (hapart.alone sn r hfind j.ctx c hc hsn.symm hmay).symm
    · left
      exact (AList.lookup_erase_ne hsn).trans hfind
  · intro r c hc hpos hnot huntaken
    exact hapart.there r c hc hpos hnot huntaken
  · intro r c m hc hm
    exact ⟨hw.resolves.handled r c m hc hm, hdel.kept r c m hc hm,
      fun result rsp => hdel.returned r c m result rsp hc hm⟩

/-- A response to the request with number 7. -/
def answer7 : RockMessage := .response 7 1 5 [] []

/-- A fiber makes a request with number 7, until it waits. -/
def request7 : List Action :=
  [.connect, .request 7 1000 ⟨0, 9⟩, .addCtx 0, .addTimer 0 64 100, .storeTimer 0, .enqueue 0,
    .yieldToHold 0]

/-- A request that is answered, until it returns. -/
theorem timeouts_apart_answered :
    ∃ w c, Along step Undisturbed (request7 ++ [.doRecv answer7, .go 0, .go 0, .go 0, .go 0, .go 0,
        .go 0, .go 0, .go 0, .resume 0]) (new 100) ∧
      run step (request7 ++ [.doRecv answer7, .go 0, .go 0, .go 0, .go 0, .go 0, .go 0, .go 0,
        .go 0, .resume 0]) (new 100) = some w ∧
      w.calls[0]? = some c ∧ (0, answer7) ∈ w.answered ∧
      ∃ result rsp, c.pos = .returned result rsp ∧ rsp = some answer7 ∧
        answer7.getResult = some result := by
  have hall : (run step (request7 ++ [.doRecv answer7, .go 0, .go 0, .go 0, .go 0, .go 0, .go 0,
      .go 0, .go 0, .resume 0]) (new 100)).map (fun w => (w.calls, w.answered)) =
      some ([⟨⟨7, 1000, 5, false, some 0, none, none, some answer7⟩, .returned 5 (some answer7),
        some 64⟩], [(0, answer7)]) := by
    decide +kernel
  rcases Option.map_eq_some_iff.1 hall with ⟨w, hrun, hw⟩
  rw [Prod.mk.injEq] at hw
  have hgo : ∀ (w : RockStream) (pos : JobPos), w.jobs = [⟨0, pos, []⟩] → pos ≠ .erase →
      Undisturbed w (.go 0) := by
    intro w pos hjobs hpos j hj hjpos
    rw [hjobs] at hj
    cases hj
    exact absurd hjpos hpos
  have hquiet : Along step Undisturbed (request7 ++ [.doRecv answer7, .go 0, .go 0, .go 0, .go 0,
      .go 0, .go 0, .go 0, .go 0, .resume 0]) (new 100) := by
    refine ⟨trivial, trivial, ?_, trivial, trivial, trivial, trivial, trivial,
      hgo _ (.setResult 5 (some answer7)) rfl (by decide),
      hgo _ (.setResponse answer7) rfl (by decide),
      hgo _ (.doRsp .test) rfl (by decide), hgo _ (.doRsp .ifTimer) rfl (by decide),
      hgo _ (.doRsp .cancel) rfl (by decide), hgo _ (.doRsp .clear) rfl (by decide),
      hgo _ (.doRsp .mark) rfl (by decide), hgo _ (.doRsp .wake) rfl (by decide), trivial, trivial⟩
    intro c _
    refine ⟨rfl, fun q d hd _ hq => ?_⟩
    rcases q with _ | q
    · exact absurd rfl hq
    · cases hd
  have hc : w.calls[0]? = some ⟨⟨7, 1000, 5, false, some 0, none, none, some answer7⟩,
      .returned 5 (some answer7), some 64⟩ := by
    rw [hw.1]
    rfl
  have hm : (0, answer7) ∈ w.answered := by
    rw [hw.2]
    exact List.mem_cons_self
  have hend := ((timeouts_apart 100 _ w hquiet hrun).2.2 0 _ answer7 hc hm).2.2 5 (some answer7) rfl
  exact ⟨w, _, hquiet, hrun, hc, hm, 5, some answer7, rfl, hend⟩

/-- Another fiber uses the number again, with a timeout of a millisecond. Its timeout erases
    the context of the first one, and the response finds nobody. -/
theorem timeouts_clash :
    ∃ w w' c, run step (request7 ++ [.request 7 1 ⟨0, 8⟩, .addCtx 1, .addTimer 1 65 100,
        .listExpiredCb 200 99, .onTimeOut 0]) (new 100) = some w ∧
      w.jobs = [⟨1, .erase, []⟩] ∧ w.ctxs.lookup 7 = some 0 ∧
      run step [.go 0, .doRecv answer7] w = some w' ∧ w'.erased = [1] ∧ w'.closed = [] ∧
      w'.answered = [] ∧ w'.ctxs.lookup 7 = none ∧ w'.jobs = [⟨1, .setTimed, []⟩] ∧
      w'.scheduled = [] ∧ w'.calls[0]? = some c ∧ c.pos = .yielded ∧ c.ctx.timed = false := by
  have hfirst : (run step (request7 ++ [.request 7 1 ⟨0, 8⟩, .addCtx 1, .addTimer 1 65 100,
      .listExpiredCb 200 99, .onTimeOut 0]) (new 100)).map (fun w => (w.jobs, w.ctxs.lookup 7)) =
      some ([⟨1, .erase, []⟩], some 0) := by
    decide +kernel
  rcases Option.map_eq_some_iff.1 hfirst with ⟨w, hrun, hw⟩
  rw [Prod.mk.injEq] at hw
  have hghosts : (run step ((request7 ++ [.request 7 1 ⟨0, 8⟩, .addCtx 1, .addTimer 1 65 100,
      .listExpiredCb 200 99, .onTimeOut 0]) ++ [.go 0, .doRecv answer7]) (new 100)).map
        (fun w => (w.erased, w.closed, w.answered, w.scheduled)) = some ([1], [], [], []) := by
    decide +kernel
  have hend : (run step ((request7 ++ [.request 7 1 ⟨0, 8⟩, .addCtx 1, .addTimer 1 65 100,
      .listExpiredCb 200 99, .onTimeOut 0]) ++ [.go 0, .doRecv answer7]) (new 100)).map
        (fun w => (w.ctxs.lookup 7, w.jobs, w.calls[0]?)) =
      some (none, [⟨1, .setTimed, []⟩],
        some ⟨⟨7, 1000, 0, false, some 0, some 9, some 64, none⟩, .yielded, some 64⟩) := by
    decide +kernel
  rw [run_append _ _ _ w hrun] at hghosts hend
  rcases Option.map_eq_some_iff.1 hghosts with ⟨w', hrun', hw'⟩
  rw [hrun', Option.map_some, Option.some.injEq] at hend
  simp only [Prod.mk.injEq] at hw' hend
  rcases hw' with ⟨herased, hclosed, hans, hsched⟩
  rcases hend with ⟨hfind, hjobs, hc⟩
  exact ⟨w, w', _, hrun, hw.1, hw.2, hrun', herased, hclosed, hans, hfind, hjobs, hsched, hc, rfl,
    rfl⟩

end RockStream

end YkServer
