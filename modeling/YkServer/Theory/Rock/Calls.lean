import YkServer.Theory.AsyncSocketStream.Matching
import YkServer.Theory.Rock.Delivery

/-!
# Calls over a Connection

What becomes of the requests of a client, in any order of the steps of both ends.

A request is in one place at a time, and so is the response to it. Between `enqueue` and the
handler a request is queued, taken by `doWrite`, being sent, in the bytes on the way, parsed,
scheduled, or lost because an end was closed; the response goes back in the same way, with the
worker in front of the queue. `Carried` says that as an equation between lists, up to their order,
and every step moves something from one place to another. So nothing is lost while both ends are
connected, no request is handled twice, and no response is made up. It does not matter to that
where a thread is interrupted: what is sent of a frame whose writer does not come back is on the
way for good, and its message stays with the writer.

The number alone brings a response back to its call. As long as the requests have different
numbers, a call that returns a response returns the one that the modules have made of its own
request.

## Main definitions

* `RockPair.Sizes`: Messages that can be sent and parsed.
* `RockPair.Sourced`: The calls, their requests, and which of them were queued.
* `RockPair.Carried`, `RockPair.Half`: Where the messages of an end are, and what holds of it.

## Theorems

* `local_quiet`: Steps of the client that do not matter here.
* `write_sound`, `read_sound`: A call on a socket, at either end.
* `handled_sound`: A step of `handleRequest`.
* `step_sound`: Every step keeps all of it.
* `messages_conserved`: Where the messages are, in every run.
* `calls_answered`: What a call returns.
-/

namespace YkServer

open Lib

/-- A call that has queued its context. -/
def RequestPos.Passed : RequestPos → Prop
  | .queued | .yielded | .returned _ _ => True
  | _ => False

namespace RockStream

/-- A call that has queued its context does not go back. -/
theorem Moves.passed {w : RockStream} {a : Action} {r : Nat} {c c' : RockCall}
    (h : Moves w a r c c') (hpos : c.pos.Passed) : c'.pos.Passed := by
  cases h with
  | same => exact hpos
  | added _ h => rw [h] at hpos; exact hpos.elim
  | armed _ _ _ h => rw [h] at hpos; exact hpos.elim
  | stored h => rw [h] at hpos; exact hpos.elim
  | queued => trivial
  | yielded => trivial
  | returned => trivial
  | write => exact hpos
  | wake => exact hpos

/-- What the other steps do not touch. -/
structure Quiet (w w' : RockStream) : Prop where
  queue : w'.queue = w.queue
  connected : w'.connected = w.connected
  answered : w'.answered = w.answered
  length : w'.calls.length = w.calls.length

theorem local_quiet (w w' : RockStream) (a : Action) (hlocal : RockPair.Local a = true)
    (hstep : step a w = some w') : Quiet w w' := by
  cases step_happens w w' a hstep with
  | connect | notConnect | request | enqueue | doWrite | unknown | ignored | answer
  | innerClose => cases hlocal
  | addCtx | addTimer | storeTimer | yieldToHold | resume | write =>
      exact ⟨rfl, rfl, rfl, List.length_set⟩
  | wake => exact ⟨rfl, rfl, rfl, List.length_set⟩
  | listExpiredCb | onTimeOut | erase | look | cancel | ended => exact ⟨rfl, rfl, rfl, rfl⟩

end RockStream

namespace RockPair

/-! ## Calls and requests -/

theorem requestsOf_concat (requests : List RockMessage) (q : RockMessage) (rs : List Nat)
    (h : ∀ r ∈ rs, r < requests.length) :
    requestsOf (requests ++ [q]) rs = requestsOf requests rs := by
  refine List.filterMap_congr (fun r hr => ?_)
  exact List.getElem?_append_left (h r hr)

theorem requestsOf_append (requests : List RockMessage) (rs qs : List Nat) :
    requestsOf requests (rs ++ qs) = requestsOf requests rs ++ requestsOf requests qs :=
  List.filterMap_append

theorem mem_of_requestsOf (requests : List RockMessage) (rs : List Nat) (q : RockMessage)
    (h : q ∈ requestsOf requests rs) : ∃ r ∈ rs, requests[r]? = some q :=
  List.mem_filterMap.1 h

/-- The calls of the client, their requests, and the contexts that were queued. -/
structure Sourced (c : RockStream) (requests : List RockMessage) (asked : List Nat) : Prop where
  matched : RockStream.Matched c
  length : c.calls.length = requests.length
  request : ∀ (r : Nat) (call : RockCall), c.calls[r]? = some call →
    ∃ cmd body, requests[r]? = some (.request call.ctx.sn cmd body)
  queue : ∀ r ∈ c.queue, r < requests.length
  nodup : asked.Nodup
  passed : ∀ r ∈ asked, ∃ call, c.calls[r]? = some call ∧ call.pos.Passed

theorem Sourced.asked_lt {c : RockStream} {requests : List RockMessage} {asked : List Nat}
    (h : Sourced c requests asked) : ∀ r ∈ asked, r < requests.length := by
  intro r hr
  rcases h.passed r hr with ⟨call, hcall, -⟩
  rw [← h.length]
  exact (List.getElem?_eq_some_iff.1 hcall).1

/-- A step that makes no request. -/
theorem sourced_step {c c' : RockStream} {requests : List RockMessage} {asked : List Nat}
    (h : Sourced c requests asked) (a : RockStream.Action)
    (hstep : RockStream.step a c = some c') (hlen : c'.calls.length = c.calls.length)
    (hqueue : ∀ r ∈ c'.queue, r < requests.length) : Sourced c' requests asked := by
  have hmoves := RockStream.step_moves c c' a hstep
  refine ⟨RockStream.step_matched c c' a h.matched hstep, hlen.trans h.length, ?_, hqueue, h.nodup,
    ?_⟩
  · intro r call' hcall'
    rcases hmoves.origin r call' hcall' with ⟨call, hcall, hmove⟩ | ⟨hnone, -⟩
    · rw [hmove.frame.1]
      exact h.request r call hcall
    · -- There is no new call.
      have hlt := (List.getElem?_eq_some_iff.1 hcall').1
      have hge := List.getElem?_eq_none_iff.1 hnone
      omega
  · intro r hr
    rcases h.passed r hr with ⟨call, hcall, hpos⟩
    rcases hmoves.moved r call hcall with ⟨call', hcall', hmove⟩
    exact ⟨call', hcall', hmove.passed hpos⟩

theorem sourced_request {c c' : RockStream} {requests : List RockMessage} {asked : List Nat}
    (h : Sourced c requests asked) (hconn : c.connected = true) (sn cmd : UInt32)
    (body : List UInt8) (timeout : UInt32) (caller : Caller)
    (hstep : RockStream.step (.request sn timeout caller) c = some c') :
    Sourced c' (requests ++ [.request sn cmd body]) asked ∧ c'.queue = c.queue ∧
      c'.connected = c.connected ∧ c'.answered = c.answered := by
  have hmatched := RockStream.step_matched c c' _ h.matched hstep
  simp only [RockStream.step, hconn, if_true, Option.some.injEq] at hstep
  subst hstep
  refine ⟨⟨hmatched, ?_, ?_, ?_, h.nodup, ?_⟩, rfl, hconn.symm, rfl⟩
  · rw [List.length_append, List.length_append, h.length]
    rfl
  · intro r call hcall
    rcases getElem?_concat_eq_some c.calls _ call r hcall with hold | ⟨hr, rfl⟩
    · rcases h.request r call hold with ⟨cmd', body', hreq⟩
      exact ⟨cmd', body', getElem?_concat_of_some requests _ _ r hreq⟩
    · refine ⟨cmd, body, ?_⟩
      rw [hr, h.length]
      exact List.getElem?_concat_length
  · intro r hr
    rw [List.length_append]
    exact Nat.lt_add_right 1 (h.queue r hr)
  · intro r hr
    rcases h.passed r hr with ⟨call, hcall, hpos⟩
    exact ⟨call, getElem?_concat_of_some c.calls _ _ r hcall, hpos⟩

theorem sourced_enqueue {c c' : RockStream} {requests : List RockMessage} {asked : List Nat}
    (h : Sourced c requests asked) (r : Nat)
    (hstep : RockStream.step (.enqueue r) c = some c') :
    Sourced c' requests (asked ++ [r]) ∧ c'.queue = c.queue ++ [r] ∧
      c'.connected = c.connected ∧ c'.answered = c.answered := by
  rcases RockStream.enqueue_step hstep with ⟨call, hcall, hpos, hc'⟩
  have hr : r < requests.length := by
    rw [← h.length]
    exact (List.getElem?_eq_some_iff.1 hcall).1
  have hqueue : c'.queue = c.queue ++ [r] := by rw [hc']; rfl
  have hlen : c'.calls.length = c.calls.length := by
    rw [hc']
    exact List.length_set
  have hbase := sourced_step h (.enqueue r) hstep hlen (by
    intro q hq
    rw [hqueue, List.mem_append, List.mem_singleton] at hq
    rcases hq with hq | rfl
    · exact h.queue q hq
    · exact hr)
  -- The call was not queued before.
  have hnew : r ∉ asked := by
    intro hmem
    rcases h.passed r hmem with ⟨call', hcall', hpos'⟩
    rw [hcall, Option.some.injEq] at hcall'
    rw [← hcall', hpos] at hpos'
    exact hpos'.elim
  refine ⟨⟨hbase.matched, hbase.length, hbase.request, hbase.queue, ?_, ?_⟩, hqueue,
    by rw [hc']; rfl, by rw [hc']; rfl⟩
  · rw [List.nodup_append]
    refine ⟨h.nodup, List.nodup_singleton r, ?_⟩
    intro q hq q' hq' heq
    rw [List.mem_singleton] at hq'
    rw [heq, hq'] at hq
    exact hnew hq
  · intro q hq
    rw [List.mem_append, List.mem_singleton] at hq
    rcases hq with hq | rfl
    · exact hbase.passed q hq
    · refine ⟨{ call with pos := .queued }, ?_, trivial⟩
      rw [hc']
      exact (getElem?_update c.calls q call _ hcall q).trans (if_pos rfl)

/-! ## Where the messages are -/

/-- Messages that can be sent and parsed, in a step that makes one. -/
def Sizes (maxLength : UInt32) (w : RockPair) : Action → Prop
  | .request sn cmd body _ _ => (RockMessage.request sn cmd body).Sized maxLength
  | .handleRequest k modules => ∀ req rsp, w.tasks[k]? = some req →
      req.createResponse (handleAll req modules RockContent.new).2 = some rsp → rsp.Sized maxLength
  | _ => True

/-- The messages that an end has to send: the requests that were queued, and the responses. -/
def made : RockSide → RockPair → List RockMessage
  | .client, w => requestsOf w.requests w.asked
  | .session, w => w.handled.map Prod.snd

/-- Those that `doWrite` has not taken yet. -/
def waiting : RockSide → RockPair → List RockMessage
  | .client, w => queued .client w
  | .session, w => w.workers.filterMap RockWorker.rsp ++ queued .session w

/-- Those that the other end has come to. -/
def arrived : RockSide → RockPair → List RockMessage
  | .client, w => w.tasks ++ w.handled.map Prod.fst
  | .session, w => w.consumed

/-- Where the messages of an end are, with some of them on the way. -/
structure Carried (side : RockSide) (w : RockPair) (ms : List RockMessage) : Prop where
  way : Rock.OnWay (ends side w).sending (ends side.other w).reading (sent side w) ms
  count : ∀ m, (made side w).count m = (waiting side w).count m + (ends side w).writing.count m +
    (ends side w).sending.msgs.count m + ms.count m + (ends side.other w).reading.msgs.count m +
    (arrived side w).count m + (lost side w).count m

/-- All that holds of an end: what it has lost, and when it has given up reading. -/
structure Half (side : RockSide) (w : RockPair) : Prop where
  carried : ∃ ms, Carried side w ms
  lossless : connected side w = true → lost side w = []
  given : (ends side w).reading = .parsed none →
    connected side.other w = false ∧ sent side.other w = []

/-- All that holds of a pair. -/
structure Sound (maxLength : UInt32) (w : RockPair) : Prop where
  sourced : Sourced w.client w.requests w.asked
  half : ∀ side, Half side w
  request : ∀ q ∈ w.requests, q.Sized maxLength
  handled : ∀ p ∈ w.handled, p.2.Sized maxLength ∧
    ∃ content, p.1.createResponse content = some p.2
  answered : ∀ r m, (r, m) ∈ w.client.answered → m ∈ w.consumed

/-- A message that is anywhere was made at the end it comes from. -/
theorem Carried.mem {side : RockSide} {w : RockPair} {ms : List RockMessage}
    (h : Carried side w ms) (m : RockMessage)
    (hm : m ∈ (ends side w).writing ∨ m ∈ (ends side w).sending.msgs ∨ m ∈ ms ∨
      m ∈ (ends side.other w).reading.msgs ∨ m ∈ arrived side w) : m ∈ made side w := by
  refine List.count_pos_iff.1 ?_
  rw [h.count m]
  rcases hm with hm | hm | hm | hm | hm <;> · have hpos := List.count_pos_iff.2 hm; omega

theorem Sound.sized {maxLength : UInt32} {w : RockPair} (h : Sound maxLength w) (side : RockSide)
    (m : RockMessage) (hm : m ∈ made side w) : m.Sized maxLength := by
  cases side with
  | client =>
      rcases mem_of_requestsOf _ _ m hm with ⟨r, -, hr⟩
      exact h.request m (List.mem_of_getElem? hr)
  | session =>
      rcases List.mem_map.1 hm with ⟨p, hp, rfl⟩
      exact (h.handled p hp).1

/-- The messages that a reader comes across. -/
theorem Sound.ahead {maxLength : UInt32} {w : RockPair} (h : Sound maxLength w)
    {side : RockSide} {ms : List RockMessage} (hcarried : Carried side w ms) :
    ∀ m, m ∈ ms ∨ m ∈ (ends side w).sending.msgs → m.Sized maxLength := by
  intro m hm
  refine h.sized side m (hcarried.mem m ?_)
  rcases hm with hm | hm
  · exact Or.inr (Or.inr (Or.inl hm))
  · exact Or.inr (Or.inl hm)

/-- What holds of one end and of the other. -/
theorem forall_side {P : RockSide → Prop} (side : RockSide) (h : P side) (h' : P side.other) :
    ∀ t, P t := by
  intro t
  cases side <;> cases t <;> assumption

theorem Sourced.request_eq {c : RockStream} {requests : List RockMessage} {asked : List Nat}
    (h : Sourced c requests asked) (r : Nat) (q : RockMessage) (hq : requests[r]? = some q) :
    ∃ (call : RockCall) (cmd : UInt32) (body : List UInt8), c.calls[r]? = some call ∧
      q = .request call.ctx.sn cmd body := by
  have hlt : r < c.calls.length := by
    rw [h.length]
    exact (List.getElem?_eq_some_iff.1 hq).1
  rcases h.request r _ (List.getElem?_eq_getElem hlt) with ⟨cmd, body, hreq⟩
  rw [hq, Option.some.injEq] at hreq
  exact ⟨_, cmd, body, List.getElem?_eq_getElem hlt, hreq⟩

theorem sound_new (maxLength : UInt32) (now : UInt64) : Sound maxLength (new now) := by
  refine ⟨⟨?_, rfl, ?_, ?_, List.nodup_nil, ?_⟩, ?_, ?_, ?_, ?_⟩
  · exact RockStream.step_matched _ _ .connect (RockStream.matched_new now) rfl
  · intro r call hcall
    cases hcall
  · exact fun r hr => absurd hr List.not_mem_nil
  · exact fun r hr => absurd hr List.not_mem_nil
  · intro side
    cases side <;>
      exact ⟨⟨[], Rock.onWay_new, fun _ => rfl⟩, fun _ => rfl, nofun⟩
  · exact fun q hq => absurd hq List.not_mem_nil
  · exact fun p hp => absurd hp List.not_mem_nil
  · exact fun r m hmem => absurd hmem List.not_mem_nil

variable {maxLength : UInt32} {w w' : RockPair}

/-! ## Steps of the client -/

/-- A step of the client in which its queue and what is connected stay. -/
theorem client_sound (c : RockStream) (h : Sound maxLength w)
    (hsourced : Sourced c w.requests w.asked) (hqueue : c.queue = w.client.queue)
    (hconn : c.connected = w.client.connected)
    (hans : ∀ r m, (r, m) ∈ c.answered → m ∈ w.consumed) :
    Sound maxLength { w with client := c } := by
  rcases h.half .client with ⟨⟨ups, hup, hups⟩, hlossless, hgiven⟩
  rcases h.half .session with ⟨⟨downs, hdown, hdowns⟩, hlossless', hgiven'⟩
  refine ⟨hsourced, forall_side .client ⟨⟨ups, hup, ?_⟩, ?_, hgiven⟩
    ⟨⟨downs, hdown, hdowns⟩, hlossless', ?_⟩, h.request, h.handled, hans⟩
  · intro m
    simp only [waiting, queued, hqueue]
    exact hups m
  · intro hc
    exact hlossless (hconn.symm.trans hc)
  · simp only [RockSide.other, connected, hconn]
    exact hgiven'

theorem request_sound (sn cmd : UInt32) (body : List UInt8) (timeout : UInt32) (caller : Caller)
    (h : Sound maxLength w) (hsize : (RockMessage.request sn cmd body).Sized maxLength)
    (hstep : step maxLength (.request sn cmd body timeout caller) w = some w') :
    Sound maxLength w' := by
  by_cases hconn : w.client.connected = true
  · simp only [step, hconn, if_true] at hstep
    rcases Option.bind_eq_some_iff.1 hstep with ⟨c, hc, hw'⟩
    cases hw'
    rcases sourced_request h.sourced hconn sn cmd body timeout caller hc with
      ⟨hsourced, hqueue, hsame, hans⟩
    rcases h.half .client with ⟨⟨ups, hup, hups⟩, hlossless, hgiven⟩
    rcases h.half .session with ⟨⟨downs, hdown, hdowns⟩, hlossless', hgiven'⟩
    refine ⟨hsourced, forall_side .client ⟨⟨ups, hup, ?_⟩, fun _ => hlossless hconn, hgiven⟩
      ⟨⟨downs, hdown, hdowns⟩, hlossless', ?_⟩, ?_, h.handled, ?_⟩
    · intro m
      simp only [made, waiting, queued, hqueue, requestsOf_concat _ _ _ h.sourced.asked_lt,
        requestsOf_concat _ _ _ h.sourced.queue]
      exact hups m
    · simp only [RockSide.other, connected, hsame]
      exact hgiven'
    · intro q hq
      rw [List.mem_append, List.mem_singleton] at hq
      rcases hq with hq | rfl
      · exact h.request q hq
      · exact hsize
    · intro r m hmem
      rw [hans] at hmem
      exact h.answered r m hmem
  · simp only [step, hconn, Bool.false_eq_true, if_false, Option.some.injEq] at hstep
    rw [← hstep]
    exact h

theorem enqueue_sound (r : Nat) (h : Sound maxLength w)
    (hstep : step maxLength (.enqueue r) w = some w') : Sound maxLength w' := by
  rcases Option.bind_eq_some_iff.1 hstep with ⟨c, hc, hw'⟩
  cases hw'
  rcases sourced_enqueue h.sourced r hc with ⟨hsourced, hqueue, hsame, hans⟩
  rcases h.half .client with ⟨⟨ups, hup, hups⟩, hlossless, hgiven⟩
  rcases h.half .session with ⟨⟨downs, hdown, hdowns⟩, hlossless', hgiven'⟩
  refine ⟨hsourced, forall_side .client ⟨⟨ups, hup, ?_⟩, ?_, hgiven⟩
    ⟨⟨downs, hdown, hdowns⟩, hlossless', ?_⟩, h.request, h.handled, ?_⟩
  · intro m
    have hold := hups m
    simp only [made, waiting, queued, arrived, ends, lost, RockSide.other, hqueue,
      requestsOf_append, List.count_append] at hold ⊢
    omega
  · intro hc'
    exact hlossless (hsame.symm.trans hc')
  · simp only [RockSide.other, connected, hsame]
    exact hgiven'
  · intro r' m hmem
    rw [hans] at hmem
    exact h.answered r' m hmem

theorem go_sound (a : RockStream.Action) (h : Sound maxLength w)
    (hstep : step maxLength (.go a) w = some w') : Sound maxLength w' := by
  by_cases hlocal : Local a = true
  · simp only [step, hlocal, if_true] at hstep
    rcases Option.bind_eq_some_iff.1 hstep with ⟨c, hc, hw'⟩
    cases hw'
    have hquiet := RockStream.local_quiet _ _ a hlocal hc
    refine client_sound c h ?_ hquiet.queue hquiet.connected ?_
    · exact sourced_step h.sourced a hc hquiet.length
        (by rw [hquiet.queue]; exact h.sourced.queue)
    · intro r m hmem
      rw [hquiet.answered] at hmem
      exact h.answered r m hmem
  · simp only [step, hlocal, Bool.false_eq_true, if_false, reduceCtorEq] at hstep

theorem innerClose_sound (order : List (Σ _ : UInt32, Nat)) (h : Sound maxLength w)
    (hstep : step maxLength (.innerClose order) w = some w') : Sound maxLength w' := by
  rcases Option.bind_eq_some_iff.1 hstep with ⟨c, hc, hw'⟩
  cases hw'
  rcases RockStream.innerClose_step hc with ⟨taken, bs, -, -, hc'⟩
  have hsourced := sourced_step h.sourced _ hc (by rw [hc'])
    (by rw [hc']; exact fun r hr => absurd hr List.not_mem_nil)
  rcases h.half .client with ⟨⟨ups, hup, hups⟩, hlossless, hgiven⟩
  rcases h.half .session with ⟨⟨downs, hdown, hdowns⟩, hlossless', hgiven'⟩
  refine ⟨hsourced, forall_side .client ⟨⟨ups, hup, ?_⟩, ?_, hgiven⟩
    ⟨⟨downs, hdown, hdowns⟩, hlossless', ?_⟩, h.request, h.handled, ?_⟩
  · intro m
    have hold := hups m
    have hnil : (requestsOf w.requests []).count m = 0 := rfl
    simp only [made, waiting, queued, arrived, ends, lost, RockSide.other, hc',
      List.count_append] at hold ⊢
    omega
  · intro hconn
    simp only [connected, hc', Bool.false_eq_true] at hconn
  · intro hnone
    exact ⟨by simp only [RockSide.other, connected, hc'], (hgiven' hnone).2⟩
  · intro r m hmem
    rw [hc'] at hmem
    exact h.answered r m hmem

/-! ## Steps of either end -/

/-- Neither the calls of the client nor what holds of them depend on the connection. -/
theorem sourced_close {c : RockStream} {requests : List RockMessage} {asked : List Nat}
    (h : Sourced c requests asked) :
    Sourced { c with connected := false } requests asked := by
  have hcounts := h.matched.counts
  have hmapped := h.matched.mapped
  have htimed := h.matched.timed
  have hresolves := h.matched.resolves
  exact ⟨⟨⟨hcounts.each, hcounts.fresh⟩,
    ⟨hmapped.key, hmapped.fresh, hmapped.sn, hmapped.once, hmapped.apart⟩,
    ⟨htimed.timers, htimed.oneShot, htimed.call, htimed.armed, htimed.due⟩,
    ⟨hresolves.job, hresolves.stored, hresolves.resolved, hresolves.returned, hresolves.handled⟩⟩,
    h.length, h.request, h.queue, h.nodup, h.passed⟩

theorem sourced_clear {c : RockStream} {requests : List RockMessage} {asked : List Nat}
    (h : Sourced c requests asked) : Sourced { c with queue := [] } requests asked :=
  sourced_step h .doWrite rfl rfl (fun _ hr => absurd hr List.not_mem_nil)

theorem close_sound (side : RockSide) (h : Sound maxLength w) :
    Sound maxLength (close side w) := by
  rcases h.half side with ⟨⟨ms, hway, hcount⟩, hlossless, hgiven⟩
  rcases h.half side.other with ⟨⟨ms', hway', hcount'⟩, hlossless', hgiven'⟩
  cases side with
  | client =>
      exact ⟨sourced_close h.sourced, forall_side .client ⟨⟨ms, hway, hcount⟩, nofun, hgiven⟩
        ⟨⟨ms', hway', hcount'⟩, hlossless', fun hnone => ⟨rfl, (hgiven' hnone).2⟩⟩,
        h.request, h.handled, h.answered⟩
  | session =>
      exact ⟨h.sourced, forall_side .session ⟨⟨ms, hway, hcount⟩, nofun, hgiven⟩
        ⟨⟨ms', hway', hcount'⟩, hlossless', fun hnone => ⟨rfl, (hgiven' hnone).2⟩⟩,
        h.request, h.handled, h.answered⟩

/-- What is queued is lost, at an end that was closed. -/
theorem clear_sound (side : RockSide) (h : Sound maxLength w) (hconn : connected side w = false) :
    Sound maxLength (lose (queued side w) side (clearQueue side w)) := by
  rcases h.half side with ⟨⟨ms, hway, hcount⟩, hlossless, hgiven⟩
  rcases h.half side.other with ⟨⟨ms', hway', hcount'⟩, hlossless', hgiven'⟩
  cases side with
  | client =>
      refine ⟨sourced_clear h.sourced, forall_side .client
        ⟨⟨ms, hway, fun m => ?_⟩, fun hc => ?_, hgiven⟩
        ⟨⟨ms', hway', hcount'⟩, hlossless', hgiven'⟩, h.request, h.handled, h.answered⟩
      · have hold := hcount m
        have hnil : (requestsOf w.requests []).count m = 0 := rfl
        simp only [made, waiting, queued, arrived, ends, lost, lose, clearQueue, RockSide.other,
          List.count_append] at hold ⊢
        omega
      · exact absurd (hconn.symm.trans hc) Bool.false_ne_true
  | session =>
      refine ⟨h.sourced, forall_side .session
        ⟨⟨ms, hway, fun m => ?_⟩, fun hc => ?_, hgiven⟩
        ⟨⟨ms', hway', hcount'⟩, hlossless', hgiven'⟩, h.request, h.handled, h.answered⟩
      · have hold := hcount m
        simp only [made, waiting, queued, arrived, ends, lost, lose, clearQueue, RockSide.other,
          List.count_append, List.count_nil] at hold ⊢
        omega
      · exact absurd (hconn.symm.trans hc) Bool.false_ne_true

theorem doWriteOut_sound (side : RockSide) (h : Sound maxLength w)
    (hstep : step maxLength (.doWriteOut side) w = some w') : Sound maxLength w' := by
  by_cases hout : connected side w = false ∧ (ends side w).done = true
  · simp only [step, hout, and_self, if_true, Option.some.injEq] at hstep
    rw [← hstep]
    exact clear_sound side h hout.1
  · simp only [step, hout, if_false, reduceCtorEq] at hstep

/-- A `doWrite` that is done has nothing in hand. -/
theorem done_nil {e : RockEnd} (h : e.done = true) : e.writing = [] ∧ e.sending.msgs = [] := by
  rcases e with ⟨writing, sending, reading⟩
  cases writing with
  | cons => cases sending <;> cases h
  | nil =>
      cases sending with
      | idle => exact ⟨rfl, rfl⟩
      | header => cases h
      | body => cases h

theorem doWrite_sound (side : RockSide) (h : Sound maxLength w)
    (hstep : step maxLength (.doWrite side) w = some w') : Sound maxLength w' := by
  by_cases hdone : (ends side w).done = true
  · simp only [step, hdone, if_true, Option.some.injEq] at hstep
    subst hstep
    rcases done_nil hdone with ⟨hwriting, -⟩
    rcases h.half side with ⟨⟨ms, hway, hcount⟩, hlossless, hgiven⟩
    rcases h.half side.other with ⟨⟨ms', hway', hcount'⟩, hlossless', hgiven'⟩
    cases side with
    | client =>
        refine ⟨sourced_clear h.sourced, forall_side .client
          ⟨⟨ms, hway, fun m => ?_⟩, hlossless, hgiven⟩
          ⟨⟨ms', hway', hcount'⟩, hlossless', hgiven'⟩, h.request, h.handled, h.answered⟩
        have hold := hcount m
        have hnil : (requestsOf w.requests []).count m = 0 := rfl
        rw [hwriting] at hold
        simp only [made, waiting, queued, arrived, ends, setEnd, lost, clearQueue,
          RockSide.other, List.count_nil] at hold ⊢
        omega
    | session =>
        refine ⟨h.sourced, forall_side .session
          ⟨⟨ms, hway, fun m => ?_⟩, hlossless, hgiven⟩
          ⟨⟨ms', hway', hcount'⟩, hlossless', hgiven'⟩, h.request, h.handled, h.answered⟩
        have hold := hcount m
        rw [hwriting] at hold
        simp only [made, waiting, queued, arrived, ends, setEnd, lost, clearQueue,
          RockSide.other, List.count_append, List.count_nil] at hold ⊢
        omega
  · simp only [step, hdone, Bool.false_eq_true, if_false, reduceCtorEq] at hstep

theorem doSend_sound (side : RockSide) (heap : Nat → UInt8) (h : Sound maxLength w)
    (hstep : step maxLength (.doSend side heap) w = some w') : Sound maxLength w' := by
  rcases Option.bind_eq_some_iff.1 hstep with ⟨e, he, hw'⟩
  cases hw'
  rcases h.half side with ⟨⟨ms, hcarried⟩, hlossless, hgiven⟩
  rcases h.half side.other with ⟨⟨ms', hway', hcount'⟩, hlossless', hgiven'⟩
  rcases RockEnd.doSend_onWay heap hcarried.way
    (fun m hm => h.sized side m (hcarried.mem m (Or.inl hm))) he with
    ⟨sending, rest, rfl, hidle, hwriting, hway⟩
  have hcount : ∀ m, (made side w).count m = (waiting side w).count m + rest.count m +
      sending.msgs.count m + ms.count m + (ends side.other w).reading.msgs.count m +
      (arrived side w).count m + (lost side w).count m := by
    intro m
    have hold := hcarried.count m
    rw [hidle, hwriting, List.count_append, List.count_nil] at hold
    omega
  cases side with
  | client =>
      exact ⟨h.sourced, forall_side .client ⟨⟨ms, hway, hcount⟩, hlossless, hgiven⟩
        ⟨⟨ms', hway', hcount'⟩, hlossless', hgiven'⟩, h.request, h.handled, h.answered⟩
  | session =>
      exact ⟨h.sourced, forall_side .session ⟨⟨ms, hway, hcount⟩, hlossless, hgiven⟩
        ⟨⟨ms', hway', hcount'⟩, hlossless', hgiven'⟩, h.request, h.handled, h.answered⟩

theorem write_sound (side : RockSide) (cut : Nat → Nat) (h : Sound maxLength w)
    (hstep : step maxLength (.write side cut) w = some w') : Sound maxLength w' := by
  by_cases hconn : connected side w = true
  · simp only [step, hconn, if_true] at hstep
    rcases Option.bind_eq_some_iff.1 hstep with ⟨res, hres, hw'⟩
    rcases h.half side with ⟨⟨ms, hcarried⟩, hlossless, hgiven⟩
    rcases h.half side.other with ⟨⟨ms', hway', hcount'⟩, hlossless', hgiven'⟩
    -- The other end is still reading, as this one was not closed.
    have hreads : (ends side.other w).reading ≠ .parsed none := by
      intro hnone
      have hback : side.other.other = side := by cases side <;> rfl
      have hclosed := (hgiven' hnone).1
      rw [hback, hconn] at hclosed
      cases hclosed
    rcases RockEnd.write_onWay cut hcarried.way hreads
      (fun m hm => h.ahead hcarried m (Or.inr hm)) hres with
      ⟨bytes, sending, ms₁, rfl, hsame, hway⟩
    cases hw'
    have hcount : ∀ m, (made side w).count m = (waiting side w).count m +
        (ends side w).writing.count m + sending.msgs.count m + ms₁.count m +
        (ends side.other w).reading.msgs.count m + (arrived side w).count m +
        (lost side w ++ []).count m := by
      intro m
      have hold := hcarried.count m
      have hmoved := congrArg (List.count m) hsame
      rw [List.count_append, List.count_append] at hmoved
      rw [List.append_nil]
      omega
    have hlost : connected side w = true → lost side w ++ [] = [] := by
      intro hc
      rw [List.append_nil]
      exact hlossless hc
    cases side with
    | client =>
        exact ⟨h.sourced, forall_side .client ⟨⟨ms₁, hway, hcount⟩, hlost, hgiven⟩
          ⟨⟨ms', hway', hcount'⟩, hlossless', fun hnone => absurd hnone hreads⟩, h.request,
          h.handled, h.answered⟩
    | session =>
        exact ⟨h.sourced, forall_side .session ⟨⟨ms₁, hway, hcount⟩, hlost, hgiven⟩
          ⟨⟨ms', hway', hcount'⟩, hlossless', fun hnone => absurd hnone hreads⟩, h.request,
          h.handled, h.answered⟩
  · simp only [step, hconn, Bool.false_eq_true, if_false, reduceCtorEq] at hstep

/-- What a call of `read` does to the messages of the other end. -/
theorem read_carried (side : RockSide) (heap : Nat → UInt8) (cut : Nat → Nat)
    (h : Sound maxLength w)
    (hopen : sent side.other w ≠ [] ∨ connected side.other w = false)
    {res : List UInt8 × RockEnd}
    (hres : (ends side w).read maxLength heap cut (sent side.other w) = some res) :
    ∃ bytes reading ms, res = (bytes, { ends side w with reading := reading }) ∧
      Rock.OnWay (ends side.other w).sending reading bytes ms ∧
      (∀ m, (made side.other w).count m = (waiting side.other w).count m +
        (ends side.other w).writing.count m + (ends side.other w).sending.msgs.count m +
        ms.count m + reading.msgs.count m + (arrived side.other w).count m +
        (lost side.other w).count m) ∧
      (reading = .parsed none → connected side.other w = false ∧ bytes = []) := by
  have hback : side.other.other = side := by cases side <;> rfl
  rcases (h.half side.other).carried with ⟨ms, hcarried⟩
  have hway := hcarried.way
  have hcount := hcarried.count
  rw [hback] at hway hcount
  by_cases hbytes : sent side.other w = []
  · rw [hbytes] at hres hway
    rcases RockEnd.read_end heap cut hway
      (fun m hm => h.ahead hcarried m (Or.inl hm)) hres with ⟨rfl, hway', hnil⟩
    refine ⟨[], .parsed none, ms, rfl, hway', ?_, fun _ => ⟨?_, rfl⟩⟩
    · intro m
      have hold := hcount m
      rw [hnil] at hold
      exact hold
    · exact hopen.resolve_left (fun hne => hne hbytes)
  · rcases RockEnd.read_onWay heap cut hway (h.ahead hcarried) hbytes hres with
      ⟨bytes, reading, ms', rfl, hsame, hway', hmore⟩
    refine ⟨bytes, reading, ms', rfl, hway', ?_, fun hnone => absurd hnone hmore⟩
    intro m
    have hold := hcount m
    have hmoved := congrArg (List.count m) hsame
    have hnone : (ends side w).reading.msgs = [] := by
      have hgoes := RockEnd.read_going hres
      rcases hreading : (ends side w).reading with _ | _ | msg
      · rfl
      · rfl
      · exact absurd hreading (hgoes msg)
    rw [List.count_append] at hmoved
    rw [hnone, List.count_nil] at hold
    omega

theorem read_sound (side : RockSide) (heap : Nat → UInt8) (cut : Nat → Nat)
    (h : Sound maxLength w) (hstep : step maxLength (.read side heap cut) w = some w') :
    Sound maxLength w' := by
  by_cases hopen : connected side w = true ∧
      (sent side.other w ≠ [] ∨ connected side.other w = false)
  · simp only [step] at hstep
    rw [if_pos hopen] at hstep
    rcases Option.bind_eq_some_iff.1 hstep with ⟨res, hres, hw'⟩
    rcases read_carried side heap cut h hopen.2 hres with
      ⟨bytes, reading, ms, rfl, hway, hcount, hgiven⟩
    cases hw'
    rcases h.half side with ⟨⟨ms', hway', hcount'⟩, hlossless', -⟩
    rcases h.half side.other with ⟨-, hlossless, hgiven'⟩
    cases side with
    | client =>
        exact ⟨h.sourced, forall_side .client
          ⟨⟨ms', hway', hcount'⟩, hlossless', hgiven⟩
          ⟨⟨ms, hway, hcount⟩, hlossless, hgiven'⟩, h.request, h.handled, h.answered⟩
    | session =>
        exact ⟨h.sourced, forall_side .session
          ⟨⟨ms', hway', hcount'⟩, hlossless', hgiven⟩
          ⟨⟨ms, hway, hcount⟩, hlossless, hgiven'⟩, h.request, h.handled, h.answered⟩
  · simp only [step] at hstep
    rw [if_neg hopen] at hstep
    cases hstep

/-- What a message does to the calls. -/
theorem doRecv_quiet {c c' : RockStream} (m : RockMessage)
    (hstep : RockStream.step (.doRecv m) c = some c') :
    c'.queue = c.queue ∧ c'.connected = c.connected ∧ c'.calls = c.calls ∧
      ∀ r m', (r, m') ∈ c'.answered → (r, m') ∈ c.answered ∨ m' = m := by
  cases RockStream.step_happens c c' _ hstep with
  | unknown => exact ⟨rfl, rfl, rfl, fun _ _ hmem => Or.inl hmem⟩
  | ignored => exact ⟨rfl, rfl, rfl, fun _ _ hmem => Or.inl hmem⟩
  | answer =>
      refine ⟨rfl, rfl, rfl, ?_⟩
      intro r m' hmem
      rcases List.mem_cons.1 hmem with heq | hmem
      · cases heq
        exact Or.inr rfl
      · exact Or.inl hmem

/-- The client takes a message that was parsed. -/
theorem clientRecv_sound (h : Sound maxLength w)
    (hstep : step maxLength (.doRecv .client) w = some w') : Sound maxLength w' := by
  rcases hreading : w.clientEnd.reading with _ | _ | (_ | m)
  case parsed.some =>
    simp only [step, ends, hreading, doRecv, setEnd] at hstep
    rcases Option.bind_eq_some_iff.1 hstep with ⟨c, hc, hw'⟩
    cases hw'
    rcases doRecv_quiet m hc with ⟨hqueue, hsame, hcalls, hans⟩
    have hsourced := sourced_step h.sourced _ hc (by rw [hcalls])
      (by rw [hqueue]; exact h.sourced.queue)
    rcases h.half .client with ⟨⟨ups, hup, hups⟩, hlossless, hgiven⟩
    rcases h.half .session with ⟨⟨downs, hdown, hdowns⟩, hlossless', hgiven'⟩
    simp only [RockSide.other, ends, hreading] at hdown hdowns
    refine ⟨hsourced, forall_side .client ⟨⟨ups, hup, ?_⟩, ?_, nofun⟩
      ⟨⟨downs, hdown.next, ?_⟩, hlossless', ?_⟩, h.request, h.handled, ?_⟩
    · intro q
      simp only [waiting, queued, hqueue]
      exact hups q
    · intro hc'
      exact hlossless (hsame.symm.trans hc')
    · intro q
      have hold := hdowns q
      simp only [made, waiting, queued, arrived, ends, lost, RockSide.other, Rock.Reader.msgs,
        Rock.Reader.new, List.count_append, List.count_nil] at hold ⊢
      omega
    · simp only [RockSide.other, connected, hsame]
      exact hgiven'
    · intro r m' hmem
      rw [List.mem_append, List.mem_singleton]
      rcases hans r m' hmem with hold | rfl
      · exact Or.inl (h.answered r m' hold)
      · exact Or.inr rfl
  all_goals
    simp only [step, ends, hreading, reduceCtorEq] at hstep

/-- The session takes a message that was parsed, which is a request of the client. -/
theorem sessionRecv_sound (h : Sound maxLength w)
    (hstep : step maxLength (.doRecv .session) w = some w') : Sound maxLength w' := by
  rcases hreading : w.sessionEnd.reading with _ | _ | (_ | m)
  case parsed.some =>
    rcases h.half .client with ⟨⟨ups, hcarried⟩, hlossless, hgiven⟩
    rcases h.half .session with ⟨⟨downs, hdown, hdowns⟩, hlossless', hgiven'⟩
    have hmade : m ∈ made .client w := by
      refine hcarried.mem m (Or.inr (Or.inr (Or.inr (Or.inl ?_))))
      simp only [RockSide.other, ends, hreading]
      exact List.mem_cons_self
    rcases mem_of_requestsOf _ _ m hmade with ⟨r, -, hr⟩
    rcases h.sourced.request_eq r m hr with ⟨_, cmd, body, -, rfl⟩
    simp only [step, ends, hreading, doRecv, setEnd, Option.some.injEq] at hstep
    subst hstep
    have hup := hcarried.way
    have hups := hcarried.count
    simp only [RockSide.other, ends, hreading] at hup hups
    refine ⟨h.sourced, forall_side .client ⟨⟨ups, hup.next, ?_⟩, hlossless, hgiven⟩
      ⟨⟨downs, hdown, hdowns⟩, hlossless', nofun⟩, h.request, h.handled, h.answered⟩
    intro q
    have hold := hups q
    simp only [made, waiting, queued, arrived, ends, lost, RockSide.other, Rock.Reader.msgs,
      Rock.Reader.new, List.count_append, List.count_nil] at hold ⊢
    omega
  all_goals
    simp only [step, ends, hreading, reduceCtorEq] at hstep

/-! ## Requests that are handled -/

theorem count_eraseIdx (ms : List RockMessage) (k : Nat) (m q : RockMessage)
    (h : ms[k]? = some m) : ms.count q = (ms.eraseIdx k).count q + [m].count q := by
  rcases List.getElem?_eq_some_iff.1 h with ⟨hlt, hget⟩
  have hperm := (List.getElem_cons_eraseIdx_perm hlt).count_eq q
  rw [hget, List.count_cons] at hperm
  rw [List.count_singleton]
  omega

/-- The responses that the workers have in hand. -/
def inHand (xs : List RockWorker) : List RockMessage := xs.filterMap RockWorker.rsp

theorem count_inHand_erase (xs : List RockWorker) (i : Nat) (x : RockWorker) (q : RockMessage)
    (h : xs[i]? = some x) :
    (inHand xs).count q = (inHand (xs.eraseIdx i)).count q + x.rsp.toList.count q := by
  rcases List.getElem?_eq_some_iff.1 h with ⟨hlt, hget⟩
  have hperm := ((List.getElem_cons_eraseIdx_perm hlt).filterMap RockWorker.rsp).count_eq q
  rw [hget, List.filterMap_cons] at hperm
  rw [inHand, ← hperm, inHand]
  cases x.rsp with
  | none => rfl
  | some m =>
      rw [Option.toList, List.count_cons, List.count_singleton]

theorem count_inHand_set (xs : List RockWorker) (i : Nat) (x y : RockWorker) (q : RockMessage)
    (h : xs[i]? = some x) :
    (inHand xs).count q + y.rsp.toList.count q =
      (inHand (xs.set i y)).count q + x.rsp.toList.count q := by
  have hlt := (List.getElem?_eq_some_iff.1 h).1
  have hset : (xs.set i y)[i]? = some y := List.getElem?_set_self hlt
  have herase := count_inHand_erase (xs.set i y) i y q hset
  rw [List.eraseIdx_set_eq] at herase
  have hold := count_inHand_erase xs i x q h
  omega

/-- A step of the workers and of what the session queues and loses. -/
theorem workers_sound (workers : List RockWorker) (queue ls : List RockMessage)
    (h : Sound maxLength w)
    (hcount : ∀ q, (inHand w.workers).count q + w.queue.count q + w.lostResponses.count q =
      (inHand workers).count q + queue.count q + ls.count q)
    (hlost : w.serving = true → ls = []) :
    Sound maxLength { w with workers := workers, queue := queue, lostResponses := ls } := by
  rcases h.half .client with ⟨⟨ups, hup, hups⟩, hlossless, hgiven⟩
  rcases h.half .session with ⟨⟨downs, hdown, hdowns⟩, -, hgiven'⟩
  refine ⟨h.sourced, forall_side .client ⟨⟨ups, hup, hups⟩, hlossless, hgiven⟩
    ⟨⟨downs, hdown, ?_⟩, hlost, hgiven'⟩, h.request, h.handled, h.answered⟩
  intro q
  have hold := hdowns q
  have hmoved := hcount q
  simp only [made, waiting, queued, arrived, ends, lost, RockSide.other, inHand,
    List.count_append] at hold hmoved ⊢
  omega

theorem handleRequest_sound (k : Nat) (modules : List RockHandler) (h : Sound maxLength w)
    (hsize : Sizes maxLength w (.handleRequest k modules))
    (hstep : step maxLength (.handleRequest k modules) w = some w') : Sound maxLength w' := by
  rcases Option.bind_eq_some_iff.1 hstep with ⟨req, hreq, hrest⟩
  rcases Option.bind_eq_some_iff.1 hrest with ⟨rsp, hrsp, hw'⟩
  cases hw'
  rcases h.half .client with ⟨⟨ups, hup, hups⟩, hlossless, hgiven⟩
  rcases h.half .session with ⟨⟨downs, hdown, hdowns⟩, hlossless', hgiven'⟩
  refine ⟨h.sourced, forall_side .client ⟨⟨ups, hup, ?_⟩, hlossless, hgiven⟩
    ⟨⟨downs, hdown, ?_⟩, hlossless', hgiven'⟩, h.request, ?_, h.answered⟩
  · intro q
    have hold := hups q
    have herase := count_eraseIdx w.tasks k req q hreq
    simp only [made, waiting, queued, arrived, ends, lost, RockSide.other, List.map_append,
      List.map_cons, List.map_nil, List.count_append] at hold ⊢
    omega
  · intro q
    have hold := hdowns q
    have hnew : ([⟨.test rsp, (handleAll req modules RockContent.new).1⟩] :
        List RockWorker).filterMap RockWorker.rsp = [rsp] := rfl
    simp only [made, waiting, queued, arrived, ends, lost, RockSide.other, List.map_append,
      List.map_cons, List.map_nil, List.filterMap_append, hnew, List.count_append] at hold ⊢
    omega
  · intro p hp
    rw [List.mem_append, List.mem_singleton] at hp
    rcases hp with hp | rfl
    · exact h.handled p hp
    · exact ⟨hsize req rsp hreq hrsp, _, hrsp⟩

/-- A worker that is done with `sendMessage` has no response in hand. -/
theorem goOn_eq (i : Nat) (x : RockWorker) (w : RockPair) (hx : w.workers[i]? = some x) :
    ∃ workers, goOn i x w = { w with workers := workers } ∧
      ∀ q, (inHand w.workers).count q = (inHand workers).count q + x.rsp.toList.count q := by
  rw [goOn]
  by_cases htaken : x.taken = true
  · rw [if_pos htaken]
    exact ⟨_, rfl, fun q => count_inHand_erase w.workers i x q hx⟩
  · rw [if_neg htaken]
    refine ⟨_, rfl, fun q => ?_⟩
    have hset := count_inHand_set w.workers i x { x with pos := .close } q hx
    have hnone : (RockWorker.rsp { x with pos := .close }).toList.count q = 0 := rfl
    omega

theorem handled_sound (i : Nat) (h : Sound maxLength w)
    (hstep : step maxLength (.handled i) w = some w') : Sound maxLength w' := by
  rcases Option.bind_eq_some_iff.1 hstep with ⟨x, hx, hrest⟩
  rcases hpos : x.pos with rsp | rsp | _
  · have hrsp : x.rsp.toList = [rsp] := by rw [RockWorker.rsp, hpos]; rfl
    simp only [hpos] at hrest
    by_cases hserving : w.serving = true
    · -- The response is not queued yet, and the session may be closed before it is.
      rw [if_pos hserving, Option.some.injEq] at hrest
      rw [← hrest]
      refine workers_sound _ w.queue w.lostResponses h (fun q => ?_) (h.half .session).lossless
      have hset := count_inHand_set w.workers i x { x with pos := .enqueue rsp } q hx
      have hsame : (RockWorker.rsp { x with pos := .enqueue rsp }).toList = [rsp] := rfl
      rw [hrsp, hsame] at hset
      omega
    · rw [if_neg hserving, Option.some.injEq] at hrest
      rcases goOn_eq i x (lose [rsp] .session w) hx with ⟨workers, hgo, hcount⟩
      rw [← hrest, hgo]
      refine workers_sound (w := w) workers w.queue (w.lostResponses ++ [rsp]) h (fun q => ?_)
        (fun hs => absurd hs hserving)
      have hmoved := hcount q
      rw [hrsp] at hmoved
      simp only [lose] at hmoved
      rw [List.count_append]
      omega
  · have hrsp : x.rsp.toList = [rsp] := by rw [RockWorker.rsp, hpos]; rfl
    simp only [hpos, Option.some.injEq] at hrest
    rcases goOn_eq i x { w with queue := w.queue ++ [rsp] } hx with ⟨workers, hgo, hcount⟩
    rw [← hrest, hgo]
    refine workers_sound (w := w) workers (w.queue ++ [rsp]) w.lostResponses h (fun q => ?_)
      (h.half .session).lossless
    have hmoved := hcount q
    rw [hrsp] at hmoved
    simp only [] at hmoved
    rw [List.count_append]
    omega
  · have hrsp : x.rsp.toList = [] := by rw [RockWorker.rsp, hpos]; rfl
    simp only [hpos, Option.some.injEq] at hrest
    rw [← hrest]
    refine close_sound .session (workers_sound _ w.queue w.lostResponses h (fun q => ?_)
      (h.half .session).lossless)
    have herase := count_inHand_erase w.workers i x q hx
    rw [hrsp, List.count_nil] at herase
    omega

/-! ## Runs -/

theorem step_sound (maxLength : UInt32) (w w' : RockPair) (a : Action) (h : Sound maxLength w)
    (hsize : Sizes maxLength w a) (hstep : step maxLength a w = some w') : Sound maxLength w' := by
  cases a with
  | request sn cmd body timeout caller =>
      exact request_sound sn cmd body timeout caller h hsize hstep
  | enqueue r => exact enqueue_sound r h hstep
  | go a => exact go_sound a h hstep
  | doWrite side => exact doWrite_sound side h hstep
  | doSend side heap => exact doSend_sound side heap h hstep
  | write side cut => exact write_sound side cut h hstep
  | doWriteOut side => exact doWriteOut_sound side h hstep
  | read side heap cut => exact read_sound side heap cut h hstep
  | doRecv side =>
      cases side with
      | client => exact clientRecv_sound h hstep
      | session => exact sessionRecv_sound h hstep
  | handleRequest k modules => exact handleRequest_sound k modules h hsize hstep
  | handled i => exact handled_sound i h hstep
  | close side =>
      cases hstep
      exact close_sound side h
  | innerClose order => exact innerClose_sound order h hstep
  | sessionClose =>
      cases hstep
      exact clear_sound .session (close_sound .session h) rfl

theorem run_sound (maxLength : UInt32) (now : UInt64) (acts : List Action) (w : RockPair)
    (hsizes : Along (step maxLength) (Sizes maxLength) acts (new now))
    (hrun : run (step maxLength) acts (new now) = some w) : Sound maxLength w :=
  run_inv (Sound maxLength) (fun w a w' h hsize hstep => step_sound maxLength w w' a h hsize hstep)
    acts (new now) w (sound_new maxLength now) hsizes hrun

/-- Where the messages are, in every run: a request that was queued is in one place, and so is a
    response that was made. What was read of a frame and the bytes on the way are whole frames and
    the part that was sent of another, as long as an end is connected it has lost nothing, and an
    end that has met the end of the stream has got all that was sent. -/
theorem messages_conserved (maxLength : UInt32) (now : UInt64) (acts : List Action)
    (w : RockPair) (hsizes : Along (step maxLength) (Sizes maxLength) acts (new now))
    (hrun : run (step maxLength) acts (new now) = some w) :
    (∃ ups, Rock.OnWay w.clientEnd.sending w.sessionEnd.reading w.up ups ∧
        (requestsOf w.requests w.asked).Perm (requestsOf w.requests w.client.queue ++
          w.clientEnd.writing ++ w.clientEnd.sending.msgs ++ ups ++ w.sessionEnd.reading.msgs ++
          w.tasks ++ w.handled.map Prod.fst ++ w.lostRequests)) ∧
      (∃ downs, Rock.OnWay w.sessionEnd.sending w.clientEnd.reading w.down downs ∧
        (w.handled.map Prod.snd).Perm (w.workers.filterMap RockWorker.rsp ++ w.queue ++
          w.sessionEnd.writing ++ w.sessionEnd.sending.msgs ++ downs ++
          w.clientEnd.reading.msgs ++ w.consumed ++ w.lostResponses)) ∧
      w.asked.Nodup ∧ (w.client.connected = true → w.lostRequests = []) ∧
      (w.serving = true → w.lostResponses = []) ∧
      (w.sessionEnd.reading = .parsed none → w.client.connected = false) ∧
      (w.clientEnd.reading = .parsed none → w.serving = false) := by
  have h := run_sound maxLength now acts w hsizes hrun
  rcases h.half .client with ⟨⟨ups, hup, hups⟩, hlossless, hgiven⟩
  rcases h.half .session with ⟨⟨downs, hdown, hdowns⟩, hlossless', hgiven'⟩
  refine ⟨⟨ups, hup, ?_⟩, ⟨downs, hdown, ?_⟩, h.sourced.nodup, hlossless, hlossless',
    fun hnone => (hgiven' hnone).1, fun hnone => (hgiven hnone).1⟩
  · rw [List.perm_iff_count]
    intro q
    have hold := hups q
    simp only [made, waiting, queued, arrived, ends, lost, RockSide.other,
      List.count_append] at hold ⊢
    omega
  · rw [List.perm_iff_count]
    intro m
    have hold := hdowns m
    simp only [made, waiting, queued, arrived, ends, lost, RockSide.other,
      List.count_append] at hold ⊢
    omega

/-- Requests with different numbers are different. -/
theorem requests_apart (requests : List RockMessage)
    (h : (requests.map RockMessage.getSn).Nodup) (i j : Nat) (q q' : RockMessage)
    (hi : requests[i]? = some q) (hj : requests[j]? = some q') (hsn : q.getSn = q'.getSn) :
    i = j := by
  have hlt := (List.getElem?_eq_some_iff.1 hi).1
  refine (List.getElem?_inj (by rw [List.length_map]; exact hlt) h).1 ?_
  rw [List.getElem?_map, List.getElem?_map, hi, hj, Option.map_some, Option.map_some, hsn]

/-- A response has the number and the command of its request. -/
theorem createResponse_same (q m : RockMessage) (content : RockContent)
    (h : q.createResponse content = some m) : m.getSn = q.getSn ∧ m.getCmd = q.getCmd := by
  cases q with
  | request sn cmd body =>
      cases h
      exact ⟨rfl, rfl⟩
  | response => cases h
  | notify => cases h

/-- In every run in which the requests have different numbers, no request is handled twice, and a
    call that returns with a response returns with the one that was made of its own request: it
    has the result of that response, or has timed out. -/
theorem calls_answered (maxLength : UInt32) (now : UInt64) (acts : List Action)
    (w : RockPair) (hsizes : Along (step maxLength) (Sizes maxLength) acts (new now))
    (hrun : run (step maxLength) acts (new now) = some w)
    (hapart : (w.requests.map RockMessage.getSn).Nodup) :
    (w.handled.map Prod.fst).Nodup ∧
      ∀ (r : Nat) (call : RockCall) (result : UInt32) (m : RockMessage),
        w.client.calls[r]? = some call → call.pos = .returned result (some m) →
        ∃ q, w.requests[r]? = some q ∧ (q, m) ∈ w.handled ∧ m.getCmd = q.getCmd ∧
          (call.ctx.timed = true ∨ m.getResult = some result) := by
  have h := run_sound maxLength now acts w hsizes hrun
  rcases (h.half .client).carried with ⟨ups, hup⟩
  rcases (h.half .session).carried with ⟨downs, hdown⟩
  have hasked : (made .client w).Nodup := by
    refine List.Nodup.filterMap ?_ h.sourced.nodup
    intro i j q hi hj
    exact requests_apart w.requests hapart i j q q hi hj rfl
  refine ⟨?_, ?_⟩
  · rw [List.nodup_iff_count_le_one]
    intro q
    have hone := List.nodup_iff_count_le_one.1 hasked q
    have hplaces := hup.count q
    simp only [arrived, List.count_append] at hplaces
    omega
  · intro r call result m hcall hpos
    rcases (h.sourced.matched.resolves.returned r call result (some m) hcall hpos).2.2 m rfl with
      ⟨hans, hresult⟩
    have hconsumed := hdown.mem m (Or.inr (Or.inr (Or.inr (Or.inr (h.answered r m hans)))))
    rcases List.mem_map.1 hconsumed with ⟨p, hp, rfl⟩
    rcases h.handled p hp with ⟨-, content, hcreate⟩
    rcases createResponse_same p.1 p.2 content hcreate with ⟨hsn, hcmd⟩
    -- The number of the response is that of the call, and only its own request has that.
    rcases h.sourced.matched.mapped.sn r p.2 hans with ⟨call', hcall', hnumber⟩
    rw [hcall, Option.some.injEq] at hcall'
    rcases h.sourced.request r call hcall with ⟨cmd, body, hreq⟩
    have hasks := hup.mem p.1 (Or.inr (Or.inr (Or.inr (Or.inr
      (List.mem_append_right w.tasks (List.mem_map_of_mem hp))))))
    rcases mem_of_requestsOf _ _ _ hasks with ⟨r', -, hr'⟩
    have hsame : r' = r := by
      refine requests_apart w.requests hapart r' r _ _ hr' hreq ?_
      rw [← hsn, hnumber, ← hcall']
      rfl
    rw [hsame] at hr'
    exact ⟨p.1, hr', hp, hcmd, hresult⟩

/-! ## Two calls -/

/-- A module that does not take the request, and one that does. -/
def okModules : List RockHandler :=
  [fun _ content => (false, { content with result := 1 }),
    fun _ _ => (true, ⟨200, [], ascii "ok"⟩)]

/-- A call of `write` or of `read` that transfers up to `n` bytes. -/
def writes (side : RockSide) (n : Nat) : Action := .write side (fun _ => n)

def reads (side : RockSide) (n : Nat) : Action := .read side (fun _ => 0) (fun _ => n)

/-- Two fibers call `request`, and wait. The first header is on the way in part, and read in
    part. -/
def twoRequests : List Action :=
  [.request 7 1 [0x61] 1000 ⟨0, 9⟩, .request 8 2 [0x62] 1000 ⟨0, 10⟩, .go (.addCtx 0),
    .go (.addCtx 1), .go (.addTimer 0 64 100), .go (.storeTimer 0), .enqueue 0,
    .doWrite .client, .doSend .client (fun _ => 0), writes .client 6, reads .session 4,
    .go (.addTimer 1 65 100), .go (.storeTimer 1), .enqueue 1, .go (.yieldToHold 1),
    .go (.yieldToHold 0)]

/-- The second one is handled first, and the response to the first one is on the way in part. -/
def twoAnswers : List Action :=
  [writes .client 6, writes .client 6, reads .session 4, reads .session 9, .doRecv .session,
    .doWrite .client, .doSend .client (fun _ => 0), writes .client 9, writes .client 9,
    reads .session 9, reads .session 9, .doRecv .session, .handleRequest 1 okModules,
    .handleRequest 0 okModules, .handled 0, .handled 0, .handled 0, .handled 0,
    .doWrite .session, .doSend .session (fun _ => 0), writes .session 9, writes .session 9,
    .doSend .session (fun _ => 0), writes .session 9]

/-- A response comes in, and its fiber is scheduled. -/
def taken : List Action :=
  [reads .client 9, reads .client 9, .doRecv .client] ++ List.replicate 8 (.go (.go 0))

/-- Both responses come in, and both fibers go on. -/
def twoReturns : List Action :=
  writes .session 9 :: taken ++ taken ++ [.go (.resume 0), .go (.resume 1)]

/-- An action with a short message, or with none. -/
def Brief : Action → Prop
  | .request _ _ body _ _ => body.length = 1
  | .handleRequest _ modules => modules = okModules
  | _ => True

theorem length_varint_le (room v : Nat) : (ByteArray.varint room v).length ≤ room := by
  rw [ByteArray.varint]
  rcases h : encode128 room v with _ | bs
  · exact Nat.zero_le room
  · exact (encode128_length room v bs h).2

theorem sizes_brief (w : RockPair) (a : Action) (h : Brief a) : Sizes 100 w a := by
  cases a with
  | request sn cmd body timeout caller =>
      have hbody : body.length = 1 := h
      have hsn := length_varint_le 5 sn.toNat
      have hcmd := length_varint_le 5 cmd.toNat
      have hvar := length_varint_le 10 body.length
      have hlen : (RockMessage.request sn cmd body).bytes.length < 100 := by
        simp only [RockMessage.bytes, RockMessage.front, RockMessage.body, ByteArray.vstring,
          List.length_append, List.length_singleton]
        omega
      refine ⟨hlen, Nat.lt_trans (Nat.add_lt_add_left hlen _) (by decide), ?_⟩
      rintro ⟨hnil, -⟩
      rw [RockMessage.body] at hnil
      rw [hnil] at hbody
      cases hbody
  | handleRequest k modules =>
      have hmodules : modules = okModules := h
      intro req rsp _ hrsp
      have hcontent : (handleAll req okModules RockContent.new).2 = ⟨200, [], ascii "ok"⟩ := rfl
      rw [hmodules, hcontent] at hrsp
      cases req with
      | request sn cmd body =>
          cases hrsp
          have hsn := length_varint_le 5 sn.toNat
          have hcmd := length_varint_le 5 cmd.toNat
          have hrest : (ByteArray.varint 5 (200 : UInt32).toNat ++ ByteArray.vstring [] ++
              ByteArray.vstring (ascii "ok")).length = 6 := by decide
          have hlen : (RockMessage.response sn cmd 200 [] (ascii "ok")).bytes.length < 100 := by
            simp only [List.length_append] at hrest
            simp only [RockMessage.bytes, RockMessage.front, RockMessage.body,
              List.length_append, List.length_singleton]
            omega
          refine ⟨hlen, Nat.lt_trans (Nat.add_lt_add_left hlen _) (by decide), ?_⟩
          rintro ⟨hnil, -⟩
          cases hnil
      | response => cases hrsp
      | notify => cases hrsp
  | _ => trivial

theorem along_brief (acts : List Action) (w : RockPair) (h : ∀ a ∈ acts, Brief a) :
    Along (step 100) (Sizes 100) acts w :=
  along_mono (fun w a => sizes_brief w a) acts w (along_of_mem acts w h)

theorem brief_requests : ∀ a ∈ twoRequests ++ twoAnswers, Brief a := by
  simp [twoRequests, twoAnswers, writes, reads, Brief]

theorem brief_returns : ∀ a ∈ twoRequests ++ twoAnswers ++ twoReturns, Brief a := by
  intro a ha
  rw [List.mem_append] at ha
  rcases ha with ha | ha
  · exact brief_requests a ha
  · revert a
    simp [twoReturns, taken, writes, reads, List.replicate, Brief]

/-- The response to the second request is on the way, and that to the first one is being sent. -/
theorem messages_conserved_two :
    ∃ w, run (step 100) (twoRequests ++ twoAnswers) (new 100) = some w ∧
      w.sessionEnd.sending.msgs = [.response 7 1 200 [] (ascii "ok")] ∧
      Rock.OnWay w.sessionEnd.sending w.clientEnd.reading w.down
        [.response 8 2 200 [] (ascii "ok")] ∧
      w.lostRequests = [] ∧ w.lostResponses = [] := by
  have hall : (run (step 100) (twoRequests ++ twoAnswers) (new 100)).map
      (fun w => (w.handled.map Prod.snd, w.sessionEnd.sending.msgs,
        w.workers.filterMap RockWorker.rsp ++ w.queue ++ w.sessionEnd.writing,
        w.clientEnd.reading.msgs ++ w.consumed, w.client.connected, w.serving)) =
      some ([.response 8 2 200 [] (ascii "ok"), .response 7 1 200 [] (ascii "ok")],
        [.response 7 1 200 [] (ascii "ok")], [], [], true, true) := by
    decide +kernel
  rcases Option.map_eq_some_iff.1 hall with ⟨w, hrun, hw⟩
  simp only [Prod.mk.injEq] at hw
  rcases hw with ⟨hhandled, hsending, hwaiting, hparsed, hclient, hserving⟩
  rcases messages_conserved 100 100 _ w (along_brief _ _ brief_requests) hrun with
    ⟨-, ⟨downs, hdown, hperm⟩, -, hlossless, hlossless', -⟩
  rw [hhandled, hsending, hwaiting, hlossless' hserving, List.append_nil, List.nil_append,
    List.append_assoc _ w.clientEnd.reading.msgs, hparsed, List.append_nil] at hperm
  have hdowns : downs = [.response 8 2 200 [] (ascii "ok")] := by
    refine List.perm_singleton.1 (List.Perm.symm ?_)
    exact (List.perm_cons _).1 ((List.Perm.swap _ _ []).trans hperm)
  rw [hdowns] at hdown
  exact ⟨w, hrun, hsending, hdown, hlossless hclient, hlossless' hserving⟩

theorem calls_answered_two :
    ∃ w call, run (step 100) (twoRequests ++ twoAnswers ++ twoReturns) (new 100) = some w ∧
      w.client.calls[0]? = some call ∧
      call.pos = .returned 200 (some (.response 7 1 200 [] (ascii "ok"))) ∧
      (w.handled.map Prod.fst).Nodup ∧
      (.request 7 1 [0x61], .response 7 1 200 [] (ascii "ok")) ∈ w.handled := by
  have hall : (run (step 100) (twoRequests ++ twoAnswers ++ twoReturns) (new 100)).map
        (fun w => (w.client.calls.map RockCall.pos, w.requests)) =
      some ([.returned 200 (some (.response 7 1 200 [] (ascii "ok"))),
        .returned 200 (some (.response 8 2 200 [] (ascii "ok")))],
        [.request 7 1 [0x61], .request 8 2 [0x62]]) := by
    decide +kernel
  rcases Option.map_eq_some_iff.1 hall with ⟨w, hrun, hw⟩
  rw [Prod.mk.injEq] at hw
  have hpos : (w.client.calls.map RockCall.pos)[0]? =
      some (.returned 200 (some (.response 7 1 200 [] (ascii "ok")))) := by
    rw [hw.1]
    rfl
  rw [List.getElem?_map] at hpos
  rcases Option.map_eq_some_iff.1 hpos with ⟨call, hcall, hreturned⟩
  have hend := calls_answered 100 100 _ w (along_brief _ _ brief_returns) hrun
    (by rw [hw.2]; decide)
  rcases hend.2 0 call 200 _ hcall hreturned with ⟨q, hq, hhandled, -⟩
  rw [hw.2] at hq
  cases hq
  exact ⟨w, call, hrun, hcall, hreturned, hend.1, hhandled⟩

end RockPair

end YkServer
