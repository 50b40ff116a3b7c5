import YkServer.Theory.Http.Segmentation

/-!
# Requests Back to Back

Calls of `recvRequest`, one after another, on one connection. If no call reads past
the end of its request and every header block is cut at settled positions only,
each call returns its own request. A call that reads past the end of its request
takes what it has read too much with it: requests that arrive together in one
read are lost except for the first.

## Main definitions

* `Call`: A call, with the request that is meant for it.
* `timely`: The condition on the reads of a run.

## Theorems

* `recvRequest_empty`: A call on a stream that has ended.
* `recvRequests_timely`: A run whose reads end with their requests.
* `recvRequests_together`: A run whose requests arrive together.
* `pipeline`: Both, for every sequence of requests.
* `second_request_lost`: Two requests in one read.
-/

namespace YkServer

open Lib HttpParser

namespace HttpSession

/-- A call, what its new objects find in their memory, and the request that is
    meant for it, with the parser after the header block. -/
structure Call where
  memory : Memory
  head : List UInt8
  body : List UInt8
  parser : HttpRequestParser

namespace Call

/-- The request on the stream. -/
def bytes (c : Call) : List UInt8 := c.head ++ c.body

/-- The request the call should return. -/
def request (c : Call) : HttpRequest := requestOf c.parser c.body

/-- The request is well-formed, and not longer than the code can count. -/
structure Sendable (lexicalCast : List UInt8 → Option UInt64) (c : Call) : Prop where
  head : WellFormed c.memory.uriRelaxed c.memory.queryStart c.head c.parser
  body : BodyOf lexicalCast c.parser c.body
  headShort : c.head.length < 2 ^ 64
  bodyShort : c.body.length < 2 ^ 31

end Call

/-- In every call, the cuts inside the header block are settled, and the reads of
    the header block end inside the request. -/
def timely (lexicalCast : List UInt8 → Option UInt64) (buffSize : Nat) :
    List Call → Socket → Bool
  | [], _ => true
  | c :: cs, s =>
    (readEnds buffSize c.head.length c.head.length s 0).all (fun t =>
      (c.head.length ≤ t || settled c.memory.uriRelaxed c.head t) && t ≤ c.bytes.length) &&
    match recvRequest lexicalCast buffSize c.memory s with
    | .ok _ s' => timely lexicalCast buffSize cs s'
    | _ => true

/-- A run whose reads end with their requests. -/
theorem recvRequests_timely (lexicalCast : List UInt8 → Option UInt64) (buffSize : Nat)
    (hbuf : 0 < buffSize) (hint : buffSize < 2 ^ 31) (cs : List Call) (rest : List UInt8)
    (s : Socket) (hcs : ∀ c ∈ cs, c.Sendable lexicalCast)
    (hready : s.Ready ((cs.map Call.bytes).flatten ++ rest))
    (h : timely lexicalCast buffSize cs s = true) :
    ∃ s', recvRequests lexicalCast buffSize (cs.map Call.memory) s =
        .ok (cs.map (fun c => some c.request)) s' ∧ s'.Ready rest := by
  induction cs generalizing s with
  | nil => exact ⟨s, rfl, hready⟩
  | cons c cs ih =>
      have hc := hcs c List.mem_cons_self
      rw [timely, Bool.and_eq_true, List.all_eq_true] at h
      rcases h with ⟨hreads, hlater⟩
      have hcuts : SafeCuts c.memory.uriRelaxed buffSize c.head s := by
        intro t ht hlt
        have hboth := hreads t ht
        rw [Bool.and_eq_true, Bool.or_eq_true, decide_eq_true_eq] at hboth
        exact hboth.1.resolve_left (Nat.not_le_of_lt hlt)
      rw [List.map_cons, List.flatten_cons, Call.bytes, List.append_assoc, List.append_assoc]
        at hready
      rcases recvRequest_settled lexicalCast buffSize c.memory c.head c.body _ c.parser s hc.head
        hc.body hbuf hint hc.headShort hc.bodyShort hready hcuts with
        ⟨T, s₁, hT, hle, hrun, hready₁⟩
      -- The last read ends inside the request, so nothing behind it is taken.
      have hinside : T - c.head.length - c.body.length = 0 := by
        have hboth := hreads T hT
        rw [Bool.and_eq_true, decide_eq_true_eq, Call.bytes, List.length_append] at hboth
        omega
      rw [hinside, List.drop_zero] at hready₁
      rw [hrun] at hlater
      rcases ih s₁ (fun c' hc' => hcs c' (List.mem_cons_of_mem _ hc')) hready₁ hlater with
        ⟨s', hrun', hready'⟩
      refine ⟨s', ?_, hready'⟩
      rw [List.map_cons, recvRequests, bind_ok _ _ _ _ _ hrun, bind_ok _ _ _ _ _ hrun']
      rfl

/-! ## Requests that arrive together -/

/-- Nothing can be received from a stream that has ended. -/
theorem recv_empty (n : Nat) (s : Socket) (h : s.inbox = []) :
    ∃ rt s', Socket.recv n s = .ok (rt, []) s' ∧ rt ≤ 0 ∧ s'.inbox = [] := by
  by_cases hconn : s.connected = true
  · have hzero : s.share (min n s.inbox.length) = 0 := by
      rw [h, List.length_nil, Nat.min_zero, Socket.share, Nat.min_zero]
    refine ⟨(0 : Nat), { s with inbox := [], calls := s.calls + 1 }, ?_, by decide, rfl⟩
    rw [Socket.recv, if_pos hconn]
    simp only [hzero, List.take_zero, List.drop_zero]
    rw [h]
  · refine ⟨-1, s, ?_, by decide, h⟩
    rw [Socket.recv, if_neg hconn]

/-- A call on a stream that has ended. -/
theorem recvRequest_empty (lexicalCast : List UInt8 → Option UInt64) (buffSize : Nat)
    (m : Memory) (s : Socket) (h : s.inbox = []) :
    ∃ s', recvRequest lexicalCast buffSize m s = .ok none s' ∧ s'.inbox = [] := by
  rcases recv_empty (subWord buffSize 0) s h with ⟨rt, s₁, hrecv, hrt, hin⟩
  have hread : ∀ data, Prog.within data (SocketStream.read 0 (subWord buffSize 0)) s =
      .ok (rt, data) s₁ := by
    intro data
    refine within_ok _ s s₁ data data rt ?_
    rw [SocketStream.read, bind_ok _ _ _ _ _ (first_ok _ s s₁ data _ hrecv)]
    simp only []
    rw [bind_ok _ _ _ _ _ (get_apply _)]
    rfl
  -- `read` returns nothing or an error, and the session is closed either way.
  have hheader : ∀ fuel data parser, recvHeader buffSize (fuel + 1) 0 data parser s =
      .ok none { s₁ with connected := false } := by
    intro fuel data parser
    rw [recvHeader, bind_ok _ _ _ _ _ (hread data)]
    simp only [hrt, if_true]
    rfl
  refine ⟨{ s₁ with connected := false }, ?_, hin⟩
  rw [recvRequest, bind_ok _ _ _ _ _ (get_apply _)]
  simp only []
  rw [bind_ok _ _ _ _ _ (hheader _ _ _)]
  rfl

/-- Calls on a stream that has ended. -/
theorem recvRequests_empty (lexicalCast : List UInt8 → Option UInt64) (buffSize : Nat)
    (ms : List Memory) (s : Socket) (h : s.inbox = []) :
    ∃ s', recvRequests lexicalCast buffSize ms s = .ok (ms.map (fun _ => none)) s' := by
  induction ms generalizing s with
  | nil => exact ⟨s, rfl⟩
  | cons m ms ih =>
      rcases recvRequest_empty lexicalCast buffSize m s h with ⟨s₁, hrun, hin⟩
      rcases ih s₁ hin with ⟨s', hrun'⟩
      refine ⟨s', ?_⟩
      rw [recvRequests, bind_ok _ _ _ _ _ hrun, bind_ok _ _ _ _ _ hrun']
      rfl

/-- The only read of a header block that arrives with everything else. -/
theorem readEnds_together (buffSize : Nat) (head tail : List UInt8) (hne : head ≠ [])
    (hfit : (head ++ tail).length ≤ buffSize) (hint : buffSize < 2 ^ 31) :
    readEnds buffSize head.length head.length (client (fun _ => buffSize) (head ++ tail)) 0 =
      [(head ++ tail).length] := by
  have hpos := List.length_pos_of_ne_nil hne
  have hread : nextRead buffSize (client (fun _ => buffSize) (head ++ tail)) =
      (head ++ tail).length := by
    rw [List.length_append] at hfit ⊢
    unfold nextRead Socket.share client
    simp only [List.length_append]
    omega
  rw [readEnds_single _ _ _ hpos (by rw [hread, List.length_append]; omega), hread]

/-- Requests that arrive together: the first call takes them all. -/
theorem recvRequests_together (lexicalCast : List UInt8 → Option UInt64) (buffSize : Nat)
    (hint : buffSize < 2 ^ 31) (c : Call) (cs : List Call) (hc : c.Sendable lexicalCast)
    (hfit : (((c :: cs).map Call.bytes).flatten).length ≤ buffSize) :
    ∃ s', recvRequests lexicalCast buffSize ((c :: cs).map Call.memory)
        (client (fun _ => buffSize) ((c :: cs).map Call.bytes).flatten) =
      .ok (some c.request :: cs.map (fun _ => none)) s' := by
  rcases resumes_new _ _ c.head c.parser hc.head with ⟨hne, -⟩
  have hpos := List.length_pos_of_ne_nil hne
  have hbytes : ((c :: cs).map Call.bytes).flatten =
      c.head ++ (c.body ++ (cs.map Call.bytes).flatten) := by
    rw [List.map_cons, List.flatten_cons, Call.bytes, List.append_assoc]
  rw [hbytes] at hfit ⊢
  have hends := readEnds_together buffSize c.head _ hne hfit hint
  rw [List.length_append, List.length_append] at hfit hends
  rcases recvRequest_settled lexicalCast buffSize c.memory c.head c.body
    (cs.map Call.bytes).flatten c.parser _ hc.head hc.body (by omega) hint hc.headShort
    hc.bodyShort ⟨rfl, rfl⟩
    (by
      intro t ht hlt
      rw [hends, List.mem_singleton] at ht
      omega) with ⟨T, s₁, hT, -, hrun, hready⟩
  rw [hends, List.mem_singleton] at hT
  -- The only read took everything, so nothing is left for the other calls.
  have hgone : s₁.inbox = [] := by
    rw [hready.inbox]
    exact List.drop_eq_nil_of_le (by omega)
  rcases recvRequests_empty lexicalCast buffSize (cs.map Call.memory) s₁ hgone with ⟨s', hrun'⟩
  rw [List.map_map] at hrun'
  refine ⟨s', ?_⟩
  rw [List.map_cons, recvRequests, bind_ok _ _ _ _ _ hrun, bind_ok _ _ _ _ _ hrun']
  rfl

/-- Every sequence of requests, back to back: if every read of a run is timely, each
    call returns its own request; if they arrive together in one read, only the
    first call returns one. -/
theorem pipeline (lexicalCast : List UInt8 → Option UInt64) (buffSize : Nat)
    (hbuf : 0 < buffSize) (hint : buffSize < 2 ^ 31) (cs : List Call)
    (hcs : ∀ c ∈ cs, c.Sendable lexicalCast) :
    (∀ cut, timely lexicalCast buffSize cs (client cut (cs.map Call.bytes).flatten) = true →
      ∃ s', recvRequests lexicalCast buffSize (cs.map Call.memory)
          (client cut (cs.map Call.bytes).flatten) =
        .ok (cs.map (fun c => some c.request)) s') ∧
    (((cs.map Call.bytes).flatten).length ≤ buffSize →
      ∃ s', recvRequests lexicalCast buffSize (cs.map Call.memory)
          (client (fun _ => buffSize) (cs.map Call.bytes).flatten) =
        .ok ((cs.take 1).map (fun c => some c.request) ++ (cs.drop 1).map (fun _ => none)) s') := by
  refine ⟨?_, ?_⟩
  · intro cut h
    rcases recvRequests_timely lexicalCast buffSize hbuf hint cs [] _ hcs
      ⟨rfl, by rw [List.append_nil]; rfl⟩ h with ⟨s', hrun, -⟩
    exact ⟨s', hrun⟩
  · intro hfit
    cases cs with
    | nil => exact ⟨_, rfl⟩
    | cons c cs =>
        exact recvRequests_together lexicalCast buffSize hint c cs (hcs c List.mem_cons_self) hfit

/-! ## The same request twice -/

/-- A call for the request of the tests. -/
def testCall : Call := ⟨⟨false, 0, fun _ => 0⟩, testHead, testBody, testParser⟩

theorem sendable_test : testCall.Sendable decimal := by
  unfold testCall
  refine ⟨?_, ?_, by simp, by simp⟩
  · dsimp only
    exact wellFormed_test
  · dsimp only
    exact bodyOf_test

/-- Reads that end with the header blocks and with the bodies. -/
theorem pipeline_test : testCall.Sendable decimal ∧
    ∃ s', recvRequests decimal 4096 [testCall.memory, testCall.memory]
        (client (fun _ => testHead.length) (testCall.bytes ++ (testCall.bytes ++ []))) =
      .ok [some testCall.request, some testCall.request] s' := by
  refine ⟨sendable_test, ?_⟩
  have hcs : ∀ c ∈ [testCall, testCall], c.Sendable decimal := by
    intro c hc
    rw [List.mem_cons, List.mem_singleton, or_self] at hc
    rw [hc]
    exact sendable_test
  exact (pipeline decimal 4096 (by decide) (by decide) [testCall, testCall] hcs).1
    (fun _ => testHead.length) (by decide +kernel)

/-- Both in one read. -/
theorem second_request_lost : testCall.Sendable decimal ∧
    ¬∃ s', recvRequests decimal 4096 [testCall.memory, testCall.memory]
        (client (fun _ => 4096) (testCall.bytes ++ (testCall.bytes ++ []))) =
      .ok [some testCall.request, some testCall.request] s' := by
  refine ⟨sendable_test, ?_⟩
  rintro ⟨s', hboth⟩
  rcases recvRequests_together decimal 4096 (by decide) testCall [testCall] sendable_test
    (by simp [testCall, Call.bytes]) with ⟨s'', hfirst⟩
  have heq := hboth.symm.trans hfirst
  rw [Outcome.ok.injEq] at heq
  exact absurd heq.1 (by simp)

end HttpSession

end YkServer
