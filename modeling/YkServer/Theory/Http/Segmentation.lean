import YkServer.Theory.Http.Session

/-!
# Cutting a Request

Whether the way a request is cut into reads matters to what `recvRequest` returns.
It does, for every request: read byte by byte, the method is compared with the
space behind it, which is no method. Among the ways whose cuts inside the header
block are settled it does not.

## Main definitions

* `client`: A stream of some bytes, cut in a given way.
* `receive`: What a call returns for it.

## Theorems

* `recvHeader_bytewise`: A header block read byte by byte is refused.
* `receive_settled`: One cut at settled positions only is not.
* `segmentation`: Both, for every request.
* `cut_method_refused`: The request of the tests, cut after two bytes.
-/

namespace YkServer

open Lib HttpParser

namespace HttpSession

/-- A stream that the transport cuts as `cut` says. -/
def client (cut : Nat → Nat) (bytes : List UInt8) : Socket := ⟨true, bytes, [], cut, 0⟩

/-- What an outcome is apart from the state. -/
def answer : Outcome Exn Socket (Option HttpRequest) → Outcome Exn Unit (Option HttpRequest)
  | .ok r _ => .ok r ()
  | .throw e _ => .throw e ()
  | .fault => .fault
  | .hang => .hang

/-- What a call returns. -/
def receive (lexicalCast : List UInt8 → Option UInt64) (buffSize : Nat) (m : Memory)
    (cut : Nat → Nat) (bytes : List UInt8) : Outcome Exn Unit (Option HttpRequest) :=
  answer (recvRequest lexicalCast buffSize m (client cut bytes))

/-! ## Byte by byte -/

/-- With nothing noted but the space itself, there is no method. -/
theorem method_at_space (junk : List UInt8) :
    charsToHttpMethod (32 :: junk) = some .INVALID_METHOD := by
  have hspace := charsToHttpMethod_space [] junk []
  rw [List.nil_append, List.nil_append] at hspace
  rw [hspace]
  rfl

/-- The actions on a space at the front of the buffer, if the method is one of
    them. -/
theorem performAll_method (junk : List UInt8) (as : List Action) (q q' : HttpRequestParser)
    (hmark : q.mark = 0) (hmethod : Action.requestMethod ∈ as)
    (h : HttpRequestParser.performAll (32 :: junk) 0 as q = .ok () q') : q'.error ≠ 0 := by
  induction as generalizing q with
  | nil => exact absurd hmethod (by simp)
  | cons a as ih =>
      rcases bind_eq_ok _ _ _ _ _ h with ⟨_, q₁, ha, h₁⟩
      have hkept := HttpRequestParser.perform_kept _ 0 a q q₁ ha
      by_cases hhere : a = .requestMethod
      · -- The callback is given the mark, not a length: it compares from the space on.
        subst hhere
        have hrun : HttpRequestParser.onRequestMethod (32 :: junk) q.mark q = .ok () q₁ := ha
        rw [hmark, HttpRequestParser.onRequestMethod, List.drop_zero, method_at_space] at hrun
        cases hrun
        exact (HttpRequestParser.performAll_kept _ 0 as _ q' h₁).error (Nat.succ_ne_zero _)
      · refine ih q₁ (hkept.mark hmark) ?_ h₁
        rcases List.mem_cons.1 hmethod with heq | hmem
        · exact absurd heq.symm hhere
        · exact hmem

/-- A byte alone: the parser refuses it, or goes on without the method. -/
theorem exec_single (b : UInt8) (junk : List UInt8) (n : Nat) (parser q : HttpRequestParser)
    (h : HttpRequestParser.exec (b :: junk) [b] 0 parser.reset = .ok n q)
    (hok : q.hasError = false) :
    n = 1 ∧ Action.requestMethod ∉ parser.cs.actions parser.relaxed b ∧
      q.cs = parser.cs.step parser.relaxed b ∧ q.relaxed = parser.relaxed := by
  rw [HttpRequestParser.hasError, Bool.or_eq_false_iff] at hok
  rw [HttpRequestParser.exec, bind_ok _ _ _ _ _ (get_apply _)] at h
  by_cases herr : (parser.reset.cs.step parser.reset.relaxed b).error = true
  · rw [if_pos herr] at h
    cases h
    exact absurd hok.2 (by rw [herr]; decide)
  · rw [if_neg herr] at h
    rcases bind_eq_ok _ _ _ _ _ h with ⟨_, q₁, hall, h₁⟩
    have hkept := HttpRequestParser.performAll_kept _ 0 _ _ q₁ hall
    rw [bind_ok _ _ _ _ _ (modify_apply _ _)] at h₁
    -- Whether or not the block ends here, there is no other byte.
    have hend : (.ok (0 + 1) (q₁.advance b) : Outcome Exn HttpRequestParser Nat) = .ok n q := by
      split at h₁
      · exact h₁
      · exact h₁
    cases hend
    refine ⟨rfl, ?_, ?_, hkept.relaxed⟩
    · intro hmethod
      have hspace := requestMethod_on_space _ _ _ hmethod
      subst hspace
      have herror := performAll_method junk _ parser.reset q₁ rfl hmethod hall
      exact absurd herror (of_decide_eq_false hok.1)
    · rw [HttpRequestParser.advance, hkept.cs, hkept.relaxed]
      rfl

/-- A call for a byte alone. -/
theorem execute_single (b : UInt8) (junk : List UInt8) (n : Nat) (parser q : HttpRequestParser)
    (data : List UInt8)
    (h : HttpRequestParser.execute (b :: junk) 1 parser = .ok (n, data) q) :
    HttpRequestParser.exec (b :: junk) [b] 0 parser.reset = .ok n q ∧
      (n = 1 → data = b :: junk) := by
  rcases bind_eq_ok _ _ _ _ _ h with ⟨n', q', hexec, hpure⟩
  rw [HttpRequestParser.httpParserExecute, if_neg (by decide),
    bind_ok _ _ _ _ _ (modify_apply _ _)] at hexec
  rw [pure_apply, Outcome.ok.injEq, Prod.mk.injEq] at hpure
  rcases hpure with ⟨⟨rfl, rfl⟩, rfl⟩
  refine ⟨hexec, ?_⟩
  rintro rfl
  rfl

/-- The loop over a header block that still has its method to come, read byte by
    byte. Parsing the whole block shows that it does not end before that. -/
theorem recvHeader_bytewise (buffSize : Nat) (head tail : List UInt8) (qf : HttpRequestParser)
    (hbuf : 0 < buffSize) (fuel p : Nat) (hs : List UInt8) (r parser : HttpRequestParser)
    (s : Socket) (data : List UInt8) (hcut : s.cut = fun _ => 1) (hready : s.Ready (hs ++ tail))
    (hdata : data.length = buffSize) (hp : p + hs.length = head.length)
    (hcs : parser.cs = r.cs) (hrel : parser.relaxed = r.relaxed)
    (hwhole : HttpRequestParser.exec head hs p r = .ok head.length qf)
    (hmethod : Action.requestMethod ∈ (trace r.relaxed r.cs hs).flatten) (x) (s' : Socket) :
    recvHeader buffSize fuel 0 data parser s ≠ .ok (some x) s' := by
  -- On the rounds. `r` is the parser of the whole block, `parser` the one of the call:
  -- only their states have to agree.
  induction fuel generalizing p hs r parser s data with
  | zero => exact fun h => by cases h
  | succ fuel ih =>
      cases hs with
      | nil => exact absurd hmethod (by simp [trace])
      | cons b hs =>
          intro h
          have hin : s.inbox ≠ [] := by
            rw [hready.inbox]
            exact List.cons_ne_nil _ _
          have hone : nextRead buffSize s = 1 := by
            have hlen := List.length_pos_of_ne_nil hin
            unfold nextRead Socket.share
            simp only [hcut]
            omega
          have hread := read_front buffSize s data hbuf hready.connected hin hdata
          rw [hone, hready.inbox] at hread
          simp only [List.cons_append, List.take_succ_cons, List.take_zero,
            List.nil_append] at hread
          rw [recvHeader, bind_ok _ _ _ _ _ hread] at h
          have hpos : ¬((1 : Nat) : Int) ≤ 0 := by decide
          simp only [hpos, if_false, Int.toNat_natCast, Nat.add_zero] at h
          rcases bind_eq_ok _ _ _ _ _ h with ⟨⟨⟨n, data'⟩, parser'⟩, s₁, hexecute, h₁⟩
          rcases within_second_eq_ok _ _ _ _ _ _ hexecute with ⟨hexecute', rfl⟩
          rcases execute_single b (data.drop 1) n parser parser' data' hexecute' with
            ⟨hexec, hdata'⟩
          -- Only a round without an error goes on.
          by_cases herr : parser'.hasError = true
          · rw [if_pos herr] at h₁
            cases h₁
          · rw [if_neg herr] at h₁
            rcases exec_single b (data.drop 1) n parser parser' hexec
              (Bool.eq_false_iff.2 herr) with ⟨rfl, hno, hcs', hrel'⟩
            rcases HttpRequestParser.exec_cons_ok head b hs p head.length r qf
              (by rw [List.length_cons] at hp; omega) hwhole with ⟨hstep, r₁, hall⟩
            have hkept := HttpRequestParser.performAll_kept _ _ _ r r₁ hall
            rw [HttpRequestParser.exec_cons head b hs p r r₁ hstep hall] at hwhole
            rw [hcs, hrel] at hno hcs'
            rw [hrel] at hrel'
            rw [trace, List.flatten_cons, List.mem_append] at hmethod
            have hlater := hmethod.resolve_left hno
            -- The block ends with its last byte, and the method is still to come.
            have hunfinished : Action.done ∉ r.cs.actions r.relaxed b := by
              intro hdone
              rw [if_pos hdone, Outcome.ok.injEq] at hwhole
              rw [List.length_cons] at hp
              have hnil : hs = [] := List.eq_nil_of_length_eq_zero (by omega)
              rw [hnil] at hlater
              exact absurd hlater (by simp [trace])
            rw [if_neg hunfinished] at hwhole
            have hfin : parser'.isFinished = false := by
              rw [HttpRequestParser.isFinished, hcs', hrel', Bool.eq_false_iff]
              exact fun hfin => hunfinished ((done_iff_finished _ _ _).2 hfin)
            split at h₁
            · cases h₁
            · rw [if_neg (by rw [hfin]; decide), Nat.sub_self] at h₁
              refine ih (p + 1) hs (r₁.advance b) parser' (afterRead buffSize s) data' hcut
                ⟨hready.connected, ?_⟩ ?_ ?_ ?_ ?_ hwhole ?_ h₁
              · rw [afterRead, hone, hready.inbox]
                rfl
              · rw [hdata' rfl, List.length_cons, List.length_drop]
                omega
              · rw [List.length_cons] at hp
                omega
              · rw [hcs', HttpRequestParser.advance, hkept.cs, hkept.relaxed]
              · rw [hrel']
                exact hkept.relaxed.symm
              · rw [HttpRequestParser.advance, hkept.cs, hkept.relaxed]
                exact hlater

/-- A request read byte by byte is not returned. -/
theorem receive_bytewise (lexicalCast : List UInt8 → Option UInt64) (buffSize : Nat) (m : Memory)
    (head body : List UInt8) (q : HttpRequestParser)
    (hwf : WellFormed m.uriRelaxed m.queryStart head q) (hbuf : 0 < buffSize) (r : HttpRequest) :
    receive lexicalCast buffSize m (fun _ => 1) (head ++ body) ≠ .ok (some r) () := by
  rcases resumes_new m.uriRelaxed m.queryStart head q hwf with ⟨-, hresumes⟩
  intro h
  rcases hrun : recvRequest lexicalCast buffSize m (client (fun _ => 1) (head ++ body)) with
    ⟨r', s'⟩ | ⟨e, s'⟩ | _ | _
  · rw [receive, hrun, answer, Outcome.ok.injEq] at h
    rw [h.1, recvRequest, bind_ok _ _ _ _ _ (get_apply _)] at hrun
    rcases bind_eq_ok _ _ _ _ _ hrun with ⟨x, s₁, hheader, hrest⟩
    cases x with
    | none => cases hrest
    | some x =>
        exact recvHeader_bytewise buffSize head body q hbuf _ 0 head _ _ _ _ rfl ⟨rfl, rfl⟩
          (by rw [List.length_map, List.length_range]) (Nat.zero_add _) rfl rfl hresumes.exec
          hwf.method x s₁ hheader
  · rw [receive, hrun] at h
    cases h
  · rw [receive, hrun] at h
    cases h
  · rw [receive, hrun] at h
    cases h

/-! ## Settled cuts -/

theorem receive_settled (lexicalCast : List UInt8 → Option UInt64) (buffSize : Nat) (m : Memory)
    (cut : Nat → Nat) (head body : List UInt8) (q : HttpRequestParser)
    (hwf : WellFormed m.uriRelaxed m.queryStart head q) (hbody : BodyOf lexicalCast q body)
    (hfit : head.length ≤ buffSize) (hint : buffSize < 2 ^ 31) (hshort : body.length < 2 ^ 31)
    (hcuts : SafeCuts m.uriRelaxed buffSize head (client cut (head ++ body))) :
    receive lexicalCast buffSize m cut (head ++ body) = .ok (some (requestOf q body)) () := by
  rcases resumes_new m.uriRelaxed m.queryStart head q hwf with ⟨hne, -⟩
  have hpos := List.length_pos_of_ne_nil hne
  rcases recvRequest_settled lexicalCast buffSize m head body [] q _ hwf hbody (by omega) hint
    (by omega) hshort ⟨rfl, by rw [List.append_nil]; rfl⟩ hcuts with ⟨T, s', -, -, hrun, -⟩
  rw [receive, hrun]
  rfl

/-- A buffer that is filled in one read has the whole header block. -/
theorem safeCuts_whole (relaxed : Bool) (buffSize : Nat) (head body : List UInt8)
    (hfit : head.length ≤ buffSize) (hint : buffSize < 2 ^ 31) :
    SafeCuts relaxed buffSize head (client (fun _ => buffSize) (head ++ body)) := by
  have hread : head.length ≤ nextRead buffSize (client (fun _ => buffSize) (head ++ body)) := by
    unfold nextRead Socket.share client
    simp only [List.length_append]
    omega
  intro t ht hlt
  rw [readEnds_single _ _ _ (by omega) hread, List.mem_singleton] at ht
  omega

/-- Every request that fits into the buffer: two ways of cutting it whose cuts inside
    the header block are settled give the same, the request; but not all ways
    give the same. -/
theorem segmentation (lexicalCast : List UInt8 → Option UInt64) (buffSize : Nat)
    (relaxed : Bool) (queryStart : Nat) (head body : List UInt8) (q : HttpRequestParser)
    (hwf : WellFormed relaxed queryStart head q) (hbody : BodyOf lexicalCast q body)
    (hfit : head.length ≤ buffSize) (hint : buffSize < 2 ^ 31) (hshort : body.length < 2 ^ 31) :
    (∀ cut₁ cut₂ buffer₁ buffer₂,
      SafeCuts relaxed buffSize head (client cut₁ (head ++ body)) →
      SafeCuts relaxed buffSize head (client cut₂ (head ++ body)) →
      receive lexicalCast buffSize ⟨relaxed, queryStart, buffer₁⟩ cut₁ (head ++ body) =
          .ok (some (requestOf q body)) () ∧
        receive lexicalCast buffSize ⟨relaxed, queryStart, buffer₁⟩ cut₁ (head ++ body) =
          receive lexicalCast buffSize ⟨relaxed, queryStart, buffer₂⟩ cut₂ (head ++ body)) ∧
    ∀ buffer, ¬∀ cut₁ cut₂,
      receive lexicalCast buffSize ⟨relaxed, queryStart, buffer⟩ cut₁ (head ++ body) =
        receive lexicalCast buffSize ⟨relaxed, queryStart, buffer⟩ cut₂ (head ++ body) := by
  refine ⟨?_, ?_⟩
  · intro cut₁ cut₂ buffer₁ buffer₂ h₁ h₂
    have hreq₁ := receive_settled lexicalCast buffSize ⟨relaxed, queryStart, buffer₁⟩ cut₁ head
      body q hwf hbody hfit hint hshort h₁
    have hreq₂ := receive_settled lexicalCast buffSize ⟨relaxed, queryStart, buffer₂⟩ cut₂ head
      body q hwf hbody hfit hint hshort h₂
    exact ⟨hreq₁, hreq₁.trans hreq₂.symm⟩
  · intro buffer hall
    rcases resumes_new relaxed queryStart head q hwf with ⟨hne, -⟩
    have hpos := List.length_pos_of_ne_nil hne
    have hwhole := receive_settled lexicalCast buffSize ⟨relaxed, queryStart, buffer⟩
      (fun _ => buffSize) head body q hwf hbody hfit hint hshort
      (safeCuts_whole relaxed buffSize head body hfit hint)
    rw [hall (fun _ => buffSize) (fun _ => 1)] at hwhole
    exact receive_bytewise lexicalCast buffSize ⟨relaxed, queryStart, buffer⟩ head body q hwf
      (by omega) _ hwhole

/-! ## A request -/

/-- The value of some digits, with those in front of them. -/
def decimalFrom : Nat → List UInt8 → Option Nat
  | n, [] => some n
  | n, c :: cs => if digit c then decimalFrom (10 * n + (c.toNat - 48)) cs else none

/-- What `boost::lexical_cast` makes of digits. -/
def decimal (s : List UInt8) : Option UInt64 :=
  match decimalFrom 0 s with
  | some n => if s ≠ [] ∧ n < 2 ^ 64 then some (UInt64.ofNat n) else none
  | none => none

/-- The header block of `test_request_data`. -/
def testHead : List UInt8 :=
  ascii "POST / HTTP/1.1\r\nHost: www.baidu.com\r\nContent-Length: 10\r\n\r\n"

/-- Its body. -/
def testBody : List UInt8 := ascii "1234567890"

/-- The parser after it. -/
def testParser : HttpRequestParser :=
  match HttpRequestParser.httpParserExecute testHead testHead.length (.new false 0) with
  | .ok _ q => q
  | _ => .new false 0

@[simp] theorem length_testHead : testHead.length = 60 := by decide

@[simp] theorem length_testBody : testBody.length = 10 := by decide

/-- What the parser makes of it. -/
theorem parsed_test :
    HttpRequestParser.httpParserExecute testHead testHead.length (.new false 0) =
        .ok testHead.length testParser ∧ testParser.isFinished = true ∧ testParser.error = 0 ∧
      Action.requestMethod ∈ (trace false .start testHead).flatten ∧
      Action.httpVersion ∈ (trace false .start testHead).flatten ∧
      BodyOf decimal testParser testBody := by
  unfold BodyOf
  decide +kernel

theorem wellFormed_test : WellFormed false 0 testHead testParser where
  parsed := parsed_test.1
  finished := parsed_test.2.1
  noError := parsed_test.2.2.1
  method := parsed_test.2.2.2.1
  version := parsed_test.2.2.2.2.1

theorem bodyOf_test : BodyOf decimal testParser testBody := parsed_test.2.2.2.2.2

theorem segmentation_test : WellFormed false 0 testHead testParser ∧
    receive decimal 4096 ⟨false, 0, fun _ => 0⟩ (fun _ => 4096) (testHead ++ testBody) =
      .ok (some (requestOf testParser testBody)) () := by
  have hsafe := safeCuts_whole false 4096 testHead testBody (by simp) (by decide)
  exact ⟨wellFormed_test, ((segmentation decimal 4096 false 0 testHead testBody testParser
    wellFormed_test bodyOf_test (by simp) (by decide) (by simp)).1 _ (fun _ => 4096)
    (fun _ => 0) (fun _ => 0) hsafe hsafe).1⟩

/-- The same request, whole and cut inside the method. -/
theorem cut_method_refused : WellFormed false 0 testHead testParser ∧
    BodyOf decimal testParser testBody ∧ testHead.length ≤ 4096 ∧
    receive decimal 4096 ⟨false, 0, fun _ => 0⟩ (fun _ => 4096) (testHead ++ testBody) ≠
      receive decimal 4096 ⟨false, 0, fun _ => 0⟩ (fun n => if n = 0 then 2 else 4096)
        (testHead ++ testBody) := by
  refine ⟨wellFormed_test, bodyOf_test, by simp, ?_⟩
  have hwhole := receive_settled decimal 4096 ⟨false, 0, fun _ => 0⟩ (fun _ => 4096) testHead
    testBody testParser wellFormed_test bodyOf_test (by simp) (by decide) (by simp)
    (safeCuts_whole false 4096 testHead testBody (by simp) (by decide))
  have hcut : receive decimal 4096 ⟨false, 0, fun _ => 0⟩ (fun n => if n = 0 then 2 else 4096)
      (testHead ++ testBody) = .ok none () := by
    decide +kernel
  rw [hwhole, hcut]
  exact fun h => by cases h

end HttpSession

end YkServer
