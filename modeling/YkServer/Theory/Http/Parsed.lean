import YkServer.Theory.Http.Printed

/-!
# Parsing a Printed Request

What the parser makes of the header block that `HttpRequest::dump` prints, when the
whole block is in the buffer.

The actions on the block are known, so parsing is going from one piece of it to the
next: the first byte of a piece executes actions, which note where the piece starts
or pass on the piece in front, and the other bytes execute none. The parser in front
of a piece is known up to the state of the machine.

## Main definitions

* `Going`: A parser in front of some bytes, and the actions on them.
* `SameNotes`: Parsers that differ at most in the state of the machine.
* `ofLine`, `ofHead`: The request that is made.

## Theorems

* `exec_piece`: A piece.
* `exec_line`: The request line.
* `exec_fields`: The headers.
* `exec_head`: The block.
-/

namespace YkServer

open Lib Lib.Ragel HttpParser

namespace HttpRequestParser

/-! ## Pieces -/

/-- A parser in front of the bytes `rest`, on which the machine executes `tr` and
    does not fail. -/
structure Going (relaxed : Bool) (rest : List UInt8) (tr : List (List Action))
    (q : HttpRequestParser) : Prop where
  same : q.relaxed = relaxed
  acts : trace relaxed q.cs rest = tr
  live : moves (main relaxed) q.cs.entered q.cs.live rest ≠ .idle

/-- Parsers that differ at most in the state of the machine. -/
structure SameNotes (q q' : HttpRequestParser) : Prop where
  mark : q'.mark = q.mark
  fieldStart : q'.fieldStart = q.fieldStart
  fieldLen : q'.fieldLen = q.fieldLen
  queryStart : q'.queryStart = q.queryStart
  error : q'.error = q.error
  data : q'.data = q.data

/-- One byte that does not complete the request. -/
theorem exec_byte (relaxed : Bool) (buffer : List UInt8) (b : UInt8) (rest : List UInt8) (p : Nat)
    (as : List Action) (tr : List (List Action)) (q q' : HttpRequestParser)
    (h : Going relaxed (b :: rest) (as :: tr) q) (hdone : Action.done ∉ as)
    (hrun : performAll buffer p as q = .ok () q') :
    ∃ cs, exec buffer (b :: rest) p q = exec buffer rest (p + 1) { q' with cs := cs } ∧
      Going relaxed rest tr { q' with cs := cs } := by
  have hacts : q.cs.actions q.relaxed b = as := by
    have htrace := h.acts
    rw [trace, List.cons.injEq] at htrace
    rw [h.same]
    exact htrace.1
  have htail : trace relaxed (q.cs.step relaxed b) rest = tr := by
    have htrace := h.acts
    rw [trace, List.cons.injEq] at htrace
    exact htrace.2
  have herr : (q.cs.step q.relaxed b).error = false := by
    rw [Bool.eq_false_iff]
    intro herror
    rw [h.same, Cs.error, Bool.and_eq_true, beq_iff_eq] at herror
    have hlive := h.live
    rw [moves] at hlive
    have hidle : shift (main relaxed) q.cs.entered q.cs.live (some b) = .idle := herror.2
    rw [hidle, moves_idle] at hlive
    exact hlive rfl
  have hkept := performAll_kept buffer p as q q' hrun
  refine ⟨q'.cs.step q'.relaxed b, ?_, ⟨hkept.relaxed.trans h.same, ?_, ?_⟩⟩
  · rw [exec_cons buffer b rest p q q' herr (by rw [hacts]; exact hrun), hacts, if_neg hdone]
    rfl
  · rw [hkept.cs, hkept.relaxed, h.same]
    exact htail
  · rw [hkept.cs, hkept.relaxed, h.same]
    exact h.live

/-- Bytes without actions. -/
theorem exec_quiet (relaxed : Bool) (buffer w rest : List UInt8) (p : Nat)
    (tr : List (List Action)) (q : HttpRequestParser)
    (h : Going relaxed (w ++ rest) (List.replicate w.length [] ++ tr) q) :
    ∃ cs, exec buffer (w ++ rest) p q = exec buffer rest (p + w.length) { q with cs := cs } ∧
      Going relaxed rest tr { q with cs := cs } := by
  induction w generalizing p q with
  | nil => exact ⟨q.cs, rfl, h⟩
  | cons b w ih =>
      rcases exec_byte relaxed buffer b (w ++ rest) p [] _ q q h (by simp) rfl with
        ⟨cs, hexec, hgoing⟩
      rcases ih (p + 1) _ hgoing with ⟨cs', hexec', hgoing'⟩
      refine ⟨cs', ?_, hgoing'⟩
      rw [List.cons_append, hexec, hexec', List.length_cons, Nat.add_assoc, Nat.add_comm 1]

/-- Bytes with actions on the first of them. -/
theorem exec_piece (relaxed : Bool) (buffer w rest : List UInt8) (p : Nat) (as : List Action)
    (tr : List (List Action)) (q q' : HttpRequestParser) (hw : w ≠ [])
    (h : Going relaxed (w ++ rest) (piece as w ++ tr) q) (hdone : Action.done ∉ as)
    (hrun : performAll buffer p as q = .ok () q') :
    ∃ q₁, exec buffer (w ++ rest) p q = exec buffer rest (p + w.length) q₁ ∧
      Going relaxed rest tr q₁ ∧ SameNotes q' q₁ := by
  rcases List.exists_cons_of_ne_nil hw with ⟨b, v, rfl⟩
  rw [piece, List.length_cons, List.replicate_succ, tag, List.append_nil, List.cons_append,
    List.cons_append] at h
  rcases exec_byte relaxed buffer b (v ++ rest) p as _ q q' h hdone hrun with ⟨cs, hexec, hgoing⟩
  rcases exec_quiet relaxed buffer v rest (p + 1) tr _ hgoing with ⟨cs', hexec', hgoing'⟩
  refine ⟨_, ?_, hgoing', ⟨rfl, rfl, rfl, rfl, rfl, rfl⟩⟩
  rw [List.cons_append, hexec, hexec', List.length_cons, Nat.add_assoc, Nat.add_comm 1]

/-- The byte that completes the request. -/
theorem exec_last (relaxed : Bool) (buffer : List UInt8) (b : UInt8) (p : Nat)
    (q : HttpRequestParser) (h : Going relaxed [b] [[.done]] q) :
    exec buffer [b] p q = .ok (p + 1) (q.advance b) ∧ (q.advance b).isFinished = true := by
  have hacts : q.cs.actions q.relaxed b = [.done] := by
    have htrace := h.acts
    rw [trace, List.cons.injEq] at htrace
    rw [h.same]
    exact htrace.1
  have hfin : (q.advance b).isFinished = true := by
    refine (done_iff_finished q.relaxed q.cs b).1 ?_
    rw [hacts]
    exact List.mem_cons_self
  refine ⟨?_, hfin⟩
  -- The error state is not a final one.
  have herr : (q.cs.step q.relaxed b).error = false := by
    rw [Bool.eq_false_iff]
    intro herror
    rw [Cs.error, Bool.and_eq_true, beq_iff_eq] at herror
    rw [isFinished, Cs.finished, advance, herror.2, final_idle] at hfin
    cases hfin
  rw [exec_cons buffer b [] p q q herr (by rw [hacts]; rfl), hacts,
    if_pos (List.mem_cons_self)]

/-! ## Strings -/

/-- A string that ends here. -/
theorem stringAt_middle (pre s post : List UInt8) (q : HttpRequestParser)
    (hlen : (pre ++ (s ++ post)).length < 2 ^ 31) :
    stringAt (pre ++ (s ++ post)) pre.length s.length q = .ok s q := by
  simp only [List.length_append] at hlen
  rw [stringAt, if_neg (by unfold ByteArray.maxStringSize; omega),
    if_neg (by simp only [List.length_append]; omega), List.drop_left, List.take_left]
  rfl

theorem subWord_add (p n : Nat) : subWord (p + n) p = n := by
  rw [subWord, if_pos (Nat.le_add_right _ _), Nat.add_sub_cancel_left]

/-- A string from a noted position up to here, and what is made of it. -/
theorem stringAction_middle (pre s post : List UInt8) (pos : Nat)
    (f : List UInt8 → HttpRequest → HttpRequest) (q : HttpRequestParser) (hpos : pos = pre.length)
    (hlen : (pre ++ (s ++ post)).length < 2 ^ 31) :
    (do
      let s ← stringAt (pre ++ (s ++ post)) pos (subWord (pre.length + s.length) pos)
      setData (f s)) q = .ok () { q with data := f s q.data } := by
  subst hpos
  rw [subWord_add, bind_ok _ _ _ _ _ (stringAt_middle pre s post q hlen)]
  rfl

theorem perform_requestPath (pre s post : List UInt8) (q : HttpRequestParser)
    (hmark : q.mark = pre.length) (hlen : (pre ++ (s ++ post)).length < 2 ^ 31) :
    perform (pre ++ (s ++ post)) (pre.length + s.length) .requestPath q =
      .ok () { q with data := { q.data with path := s } } :=
  stringAction_middle pre s post q.mark (fun s r => { r with path := s }) q hmark hlen

theorem perform_fragment (pre s post : List UInt8) (q : HttpRequestParser)
    (hmark : q.mark = pre.length) (hlen : (pre ++ (s ++ post)).length < 2 ^ 31) :
    perform (pre ++ (s ++ post)) (pre.length + s.length) .fragment q =
      .ok () { q with data := { q.data with fragment := s } } :=
  stringAction_middle pre s post q.mark (fun s r => { r with fragment := s }) q hmark hlen

theorem perform_queryString (pre s post : List UInt8) (q : HttpRequestParser)
    (hstart : q.queryStart = pre.length) (hlen : (pre ++ (s ++ post)).length < 2 ^ 31) :
    perform (pre ++ (s ++ post)) (pre.length + s.length) .queryString q =
      .ok () { q with data := { q.data with query := s } } :=
  stringAction_middle pre s post q.queryStart (fun s r => { r with query := s }) q hstart hlen

/-! ## Headers -/

theorem performAll_cons (buffer : List UInt8) (p : Nat) (a : Action) (as : List Action)
    (q q₁ q' : HttpRequestParser) (ha : perform buffer p a q = .ok () q₁)
    (has : performAll buffer p as q₁ = .ok () q') :
    performAll buffer p (a :: as) q = .ok () q' := by
  rw [performAll, bind_ok _ _ _ _ _ ha]
  exact has

theorem perform_writeField (buffer : List UInt8) (pos n : Nat) (q : HttpRequestParser)
    (hstart : q.fieldStart = pos) :
    perform buffer (pos + n) .writeField q = .ok () { q with fieldLen := n } := by
  have hlen : subWord (pos + n) q.fieldStart = n := by rw [hstart, subWord_add]
  exact congrArg (fun l => Outcome.ok () { q with fieldLen := l }) hlen

/-- The callback for a header. -/
theorem perform_writeValue (pre k v post : List UInt8) (q : HttpRequestParser) (hk : k ≠ [])
    (hlen : (pre ++ (k ++ ([58, 32] ++ (v ++ post)))).length < 2 ^ 31)
    (hstart : q.fieldStart = pre.length) (hflen : q.fieldLen = k.length)
    (hmark : q.mark = (pre ++ (k ++ [58, 32])).length) :
    perform (pre ++ (k ++ ([58, 32] ++ (v ++ post)))) ((pre ++ (k ++ [58, 32])).length + v.length)
      .writeValue q = .ok () { q with data := q.data.setHeader k v } := by
  have hkey : stringAt (pre ++ (k ++ ([58, 32] ++ (v ++ post)))) q.fieldStart q.fieldLen q =
      .ok k q := by
    rw [hstart, hflen]
    exact stringAt_middle pre k ([58, 32] ++ (v ++ post)) q hlen
  have hbuffer : pre ++ (k ++ ([58, 32] ++ (v ++ post))) =
      pre ++ (k ++ [58, 32]) ++ (v ++ post) := by
    simp only [List.append_assoc]
  have hval : stringAt (pre ++ (k ++ ([58, 32] ++ (v ++ post)))) q.mark
      (subWord ((pre ++ (k ++ [58, 32])).length + v.length) q.mark) q = .ok v q := by
    rw [hmark, subWord_add, hbuffer]
    exact stringAt_middle (pre ++ (k ++ [58, 32])) v post q (by rw [← hbuffer]; exact hlen)
  have hzero : q.fieldLen ≠ 0 := by
    rw [hflen]
    exact fun h => hk (List.eq_nil_of_length_eq_zero h)
  rw [perform, bind_ok _ _ _ _ _ (get_apply _), onRequestHttpField, if_neg hzero,
    bind_ok _ _ _ _ _ hkey, bind_ok _ _ _ _ _ hval]
  rfl

/-- The value of a header and the end of its line, behind the space. -/
theorem exec_value (relaxed : Bool) (pre k v rest : List UInt8) (tr : List (List Action))
    (q : HttpRequestParser) (hk : k ≠ [])
    (hlen : (pre ++ (k ++ ([58, 32] ++ (v ++ ([13, 10] ++ rest))))).length < 2 ^ 31)
    (hstart : q.fieldStart = pre.length) (hflen : q.fieldLen = k.length)
    (h : Going relaxed (v ++ ([13, 10] ++ rest))
      (piece [Action.startValue] v ++ (piece (valueOut v) [(13 : UInt8), 10] ++ tr)) q) :
    ∃ q', exec (pre ++ (k ++ ([58, 32] ++ (v ++ ([13, 10] ++ rest))))) (v ++ ([13, 10] ++ rest))
        (pre ++ (k ++ [58, 32])).length q =
        exec (pre ++ (k ++ ([58, 32] ++ (v ++ ([13, 10] ++ rest))))) rest
          ((pre ++ (k ++ [58, 32])).length + v.length + 2) q' ∧
      Going relaxed rest tr q' ∧ q'.data = q.data.setHeader k v ∧ q'.error = q.error := by
  generalize hpos : (pre ++ (k ++ [58, 32])).length = pos
  by_cases hv : v = []
  · -- The value starts and ends at the line end.
    subst hv
    have hwrite := perform_writeValue pre k [] ([13, 10] ++ rest) { q with mark := pos } hk hlen
      hstart hflen hpos.symm
    rw [hpos] at hwrite
    rcases exec_piece relaxed _ [13, 10] rest pos (valueOut []) tr q _ (List.cons_ne_nil _ _) h
      (by decide) (performAll_cons _ _ _ _ q { q with mark := pos } _ rfl
        (performAll_cons _ _ _ _ _ _ _ hwrite rfl)) with ⟨q', hexec, hgoing, hnotes⟩
    exact ⟨q', hexec, hgoing, hnotes.data, hnotes.error⟩
  · rw [valueOut, if_neg hv] at h
    rcases exec_piece relaxed (pre ++ (k ++ ([58, 32] ++ (v ++ ([13, 10] ++ rest))))) v
      ([13, 10] ++ rest) pos [.startValue] _ q { q with mark := pos } hv h (by decide) rfl with
      ⟨q₁, hexec₁, hgoing₁, hnotes₁⟩
    have hwrite := perform_writeValue pre k v ([13, 10] ++ rest) q₁ hk hlen
      (hnotes₁.fieldStart.trans hstart) (hnotes₁.fieldLen.trans hflen)
      (hnotes₁.mark.trans hpos.symm)
    rw [hpos] at hwrite
    rcases exec_piece relaxed _ [13, 10] rest (pos + v.length) _ tr q₁ _ (List.cons_ne_nil _ _)
      hgoing₁ (by decide) (performAll_cons _ _ _ _ _ _ _ hwrite rfl) with
      ⟨q', hexec, hgoing, hnotes⟩
    refine ⟨q', hexec₁.trans hexec, hgoing, ?_, hnotes.error.trans hnotes₁.error⟩
    rw [hnotes.data, hnotes₁.data]

/-- A header. -/
theorem exec_field (relaxed : Bool) (pre rest : List UInt8) (e : List UInt8 × List UInt8)
    (tr : List (List Action)) (q : HttpRequestParser) (hname : e.1 ≠ [])
    (hlen : (pre ++ (fieldText e ++ rest)).length < 2 ^ 31)
    (h : Going relaxed (fieldText e ++ rest) (fieldTrace e ++ tr) q) :
    ∃ q', exec (pre ++ (fieldText e ++ rest)) (fieldText e ++ rest) pre.length q =
        exec (pre ++ (fieldText e ++ rest)) rest (pre ++ fieldText e).length q' ∧
      Going relaxed rest tr q' ∧ q'.data = q.data.setHeader e.1 e.2 ∧ q'.error = q.error := by
  rcases e with ⟨k, v⟩
  have htext : fieldText (k, v) ++ rest = k ++ ([58, 32] ++ (v ++ ([13, 10] ++ rest))) := by
    simp [fieldText]
  have hpos : (pre ++ fieldText (k, v)).length =
      (pre ++ (k ++ [58, 32])).length + v.length + 2 := by
    simp [fieldText]
    omega
  rw [htext] at hlen h ⊢
  simp only [fieldTrace, List.append_assoc] at h
  rcases exec_piece relaxed (pre ++ (k ++ ([58, 32] ++ (v ++ ([13, 10] ++ rest))))) k _ pre.length _
    _ q { q with fieldStart := pre.length } hname h (by decide) rfl with ⟨q₁, hexec₁, h₁, hn₁⟩
  rcases exec_piece relaxed (pre ++ (k ++ ([58, 32] ++ (v ++ ([13, 10] ++ rest))))) [58] _
    (pre.length + k.length) _ _ q₁ { q₁ with fieldLen := k.length } (List.cons_ne_nil _ _) h₁
    (by decide)
    (performAll_cons _ _ _ _ _ _ _ (perform_writeField _ _ _ _ hn₁.fieldStart) rfl) with
    ⟨q₂, hexec₂, h₂, hn₂⟩
  rcases exec_piece relaxed (pre ++ (k ++ ([58, 32] ++ (v ++ ([13, 10] ++ rest))))) [32] _
    (pre.length + k.length + 1) _ _ q₂ { q₂ with mark := pre.length + k.length + 1 }
    (List.cons_ne_nil _ _) h₂ (by decide) rfl with ⟨q₃, hexec₃, h₃, hn₃⟩
  rcases exec_value relaxed pre k v rest tr q₃ hname hlen
    (hn₃.fieldStart.trans (hn₂.fieldStart.trans hn₁.fieldStart))
    (hn₃.fieldLen.trans hn₂.fieldLen) h₃ with ⟨q', hexec, h', hdata, herr⟩
  have hspace : pre.length + k.length + 1 + 1 = (pre ++ (k ++ [58, 32])).length := by
    simp only [List.length_append, List.length_cons, List.length_nil]
    omega
  refine ⟨q', ?_, h', ?_, herr.trans (hn₃.error.trans (hn₂.error.trans hn₁.error))⟩
  · rw [hexec₁, hpos, ← hexec, ← hspace]
    exact hexec₂.trans hexec₃
  · rw [hdata, hn₃.data, hn₂.data, hn₁.data]

/-- Headers, one after another. -/
theorem exec_fields (relaxed : Bool) (pre rest : List UInt8) (es : List (List UInt8 × List UInt8))
    (tr : List (List Action)) (q : HttpRequestParser) (hnames : ∀ e ∈ es, e.1 ≠ [])
    (hlen : (pre ++ (es.flatMap fieldText ++ rest)).length < 2 ^ 31)
    (h : Going relaxed (es.flatMap fieldText ++ rest) (es.flatMap fieldTrace ++ tr) q) :
    ∃ q', exec (pre ++ (es.flatMap fieldText ++ rest)) (es.flatMap fieldText ++ rest) pre.length q =
        exec (pre ++ (es.flatMap fieldText ++ rest)) rest (pre ++ es.flatMap fieldText).length q' ∧
      Going relaxed rest tr q' ∧
      q'.data = es.foldl (fun r e => r.setHeader e.1 e.2) q.data ∧ q'.error = q.error := by
  induction es generalizing pre q with
  | nil =>
      refine ⟨q, ?_, h, rfl, rfl⟩
      rw [List.flatMap_nil, List.append_nil]
      rfl
  | cons e es ih =>
      rw [List.flatMap_cons, List.append_assoc] at h hlen ⊢
      rw [List.flatMap_cons, List.append_assoc] at h
      rcases exec_field relaxed pre _ e _ q (hnames e List.mem_cons_self) hlen h with
        ⟨q₁, hexec₁, h₁, hdata₁, herr₁⟩
      have hbuffer : pre ++ (fieldText e ++ (es.flatMap fieldText ++ rest)) =
          (pre ++ fieldText e) ++ (es.flatMap fieldText ++ rest) := by
        rw [List.append_assoc]
      rcases ih (pre ++ fieldText e) q₁ (fun e' he' => hnames e' (List.mem_cons_of_mem _ he'))
        (by rw [← hbuffer]; exact hlen) h₁ with ⟨q', hexec, h', hdata, herr⟩
      refine ⟨q', ?_, h', ?_, herr.trans herr₁⟩
      · rw [hexec₁, hbuffer, hexec]
        simp only [List.append_assoc]
      · rw [hdata, hdata₁, List.foldl_cons]

/-! ## The request line -/

/-- No method is the start of another one. -/
theorem charsToHttpMethod_name (m : HttpMethod) (post : List UInt8)
    (h : ∀ c ∈ httpMethodToString m, upper c = true) :
    charsToHttpMethod (httpMethodToString m ++ 32 :: post) = some m ∧ m ≠ .INVALID_METHOD := by
  have hall : ∀ e ∈ httpMethodMap,
      charsToHttpMethod (e.2 ++ [32]) = some e.1 ∧ e.1 ≠ .INVALID_METHOD := by
    decide
  rw [charsToHttpMethod_space _ post []]
  exact hall _ (httpMethodToString_mem m h)

/-- The callback for a method that is one. -/
theorem onRequestMethod_valid (buffer : List UInt8) (pos : Nat) (m : HttpMethod)
    (q : HttpRequestParser) (h : charsToHttpMethod (buffer.drop pos) = some m)
    (hvalid : m ≠ .INVALID_METHOD) :
    onRequestMethod buffer pos q = .ok () { q with data := { q.data with method := m } } := by
  rw [onRequestMethod, h]
  cases m <;> first | rfl | exact absurd rfl hvalid

theorem perform_requestMethod (m : HttpMethod) (post : List UInt8) (p : Nat)
    (q : HttpRequestParser) (h : ∀ c ∈ httpMethodToString m, upper c = true) (hmark : q.mark = 0) :
    perform (httpMethodToString m ++ 32 :: post) p .requestMethod q =
      .ok () { q with data := { q.data with method := m } } := by
  rcases charsToHttpMethod_name m post h with ⟨hmethod, hvalid⟩
  rw [perform, bind_ok _ _ _ _ _ (get_apply _)]
  refine onRequestMethod_valid _ _ m q ?_ hvalid
  rw [hmark, List.drop_zero, hmethod]

theorem perform_httpVersion (pre post : List UInt8) (v : UInt8) (q : HttpRequestParser)
    (hv : v = 0x10 ∨ v = 0x11) (hmark : q.mark = pre.length) :
    perform (pre ++ (versionText v ++ post)) (pre.length + (versionText v).length) .httpVersion q =
      .ok () { q with data := { q.data with version := v } } := by
  have hdrop : (pre ++ (versionText v ++ post)).drop q.mark = versionText v ++ post := by
    rw [hmark, List.drop_left]
  have hlen : subWord (pre.length + (versionText v).length) q.mark = (versionText v).length := by
    rw [hmark, subWord_add]
  have hnew := strncmpEq_append (versionText v).length (versionText v) post [] (ascii "HTTP/1.1")
    (Nat.le_refl _)
  have hold := strncmpEq_append (versionText v).length (versionText v) post [] (ascii "HTTP/1.0")
    (Nat.le_refl _)
  rw [perform, bind_ok _ _ _ _ _ (get_apply _), onRequestVersion, hdrop, hlen, hnew, hold]
  rcases hv with rfl | rfl
  · have hfirst : strncmpEq (versionText 0x10).length (versionText 0x10 ++ []) (ascii "HTTP/1.1") =
        some false := by decide
    have hsecond : strncmpEq (versionText 0x10).length (versionText 0x10 ++ [])
        (ascii "HTTP/1.0") = some true := by decide
    rw [hfirst, hsecond]
    rfl
  · have hfirst : strncmpEq (versionText 0x11).length (versionText 0x11 ++ []) (ascii "HTTP/1.1") =
        some true := by decide
    rw [hfirst]
    rfl

/-- A query, and what the byte behind it will do to the request. -/
theorem exec_query (relaxed : Bool) (pre path q rest : List UInt8) (tr : List (List Action))
    (st : HttpRequestParser) (hlen : (pre ++ (path ++ (queryText q ++ rest))).length < 2 ^ 31)
    (hmark : st.mark = pre.length) (hnone : st.data.query = [])
    (h : Going relaxed (queryText q ++ rest)
      ((if q = [] then []
        else piece [Action.requestPath] [(63 : UInt8)] ++ piece [Action.startQuery] q) ++ tr) st) :
    ∃ st', exec (pre ++ (path ++ (queryText q ++ rest))) (queryText q ++ rest) (pre ++ path).length
        st = exec (pre ++ (path ++ (queryText q ++ rest))) rest (pre ++ path ++ queryText q).length
          st' ∧
      Going relaxed rest tr st' ∧ st'.error = st.error ∧
      performAll (pre ++ (path ++ (queryText q ++ rest))) (pre ++ path ++ queryText q).length
          (targetOut q) st' =
        .ok () { st' with data := { st.data with path := path, query := q } } := by
  by_cases hq : q = []
  · subst hq
    rw [if_pos rfl] at h
    have hpath := perform_requestPath pre path ([] ++ rest) st hmark hlen
    refine ⟨st, ?_, h, rfl, ?_⟩
    · rw [queryText, if_pos rfl, List.append_nil]
      rfl
    · rw [queryText, if_pos rfl, List.append_nil, List.length_append, targetOut, if_pos rfl]
      refine (performAll_cons _ _ _ _ _ _ _ hpath
        (performAll_cons _ _ .requestUri _ _ _ _ rfl rfl)).trans ?_
      rw [← hnone]
  · have htext : queryText q = [63] ++ q := by
      rw [queryText, if_neg hq]
      rfl
    rw [if_neg hq, htext, List.append_assoc, List.append_assoc] at h
    rw [htext, List.append_assoc] at hlen ⊢
    have hpath := perform_requestPath pre path ([63] ++ (q ++ rest)) st hmark hlen
    rw [← List.length_append] at hpath
    rcases exec_piece relaxed _ [63] _ (pre ++ path).length _ _ st _ (List.cons_ne_nil _ _) h
      (by decide) (performAll_cons _ _ _ _ _ _ _ hpath rfl) with ⟨st₁, hexec₁, h₁, hn₁⟩
    rcases exec_piece relaxed (pre ++ (path ++ ([63] ++ (q ++ rest)))) q rest
      ((pre ++ path).length + 1) _ _ st₁ { st₁ with queryStart := (pre ++ path).length + 1 } hq h₁
      (by decide) rfl with ⟨st₂, hexec₂, h₂, hn₂⟩
    have hbuffer : pre ++ (path ++ ([63] ++ (q ++ rest))) = pre ++ path ++ [63] ++ (q ++ rest) := by
      simp only [List.append_assoc]
    have hpos : (pre ++ path ++ ([63] ++ q)).length = (pre ++ path ++ [63]).length + q.length := by
      simp only [List.length_append]
      omega
    have hmarked : (pre ++ path ++ [63]).length = (pre ++ path).length + 1 := List.length_append
    have hquery := perform_queryString (pre ++ path ++ [63]) q rest st₂
      (hn₂.queryStart.trans hmarked.symm) (by rw [← hbuffer]; exact hlen)
    refine ⟨st₂, ?_, h₂, hn₂.error.trans hn₁.error, ?_⟩
    · rw [hexec₁, hpos, hmarked]
      exact hexec₂
    · rw [targetOut, if_neg hq, hpos, hbuffer]
      refine (performAll_cons _ _ _ _ _ _ _ hquery
        (performAll_cons _ _ .requestUri _ _ _ _ rfl rfl)).trans ?_
      rw [hn₂.data, hn₁.data]

/-- A fragment, likewise. -/
theorem exec_fragmentPart (relaxed : Bool) (pre f rest : List UInt8) (out : List Action)
    (tr : List (List Action)) (st : HttpRequestParser) (d : HttpRequest)
    (hlen : (pre ++ (fragmentText f ++ rest)).length < 2 ^ 31) (hnone : d.fragment = [])
    (hdone : Action.done ∉ out)
    (hout : performAll (pre ++ (fragmentText f ++ rest)) pre.length out st =
      .ok () { st with data := d })
    (h : Going relaxed (fragmentText f ++ rest) (fragmentTrace out f ++ tr) st) :
    ∃ st', exec (pre ++ (fragmentText f ++ rest)) (fragmentText f ++ rest) pre.length st =
        exec (pre ++ (fragmentText f ++ rest)) rest (pre ++ fragmentText f).length st' ∧
      Going relaxed rest tr st' ∧ st'.error = st.error ∧
      performAll (pre ++ (fragmentText f ++ rest)) (pre ++ fragmentText f).length
          (fragmentOut out f) st' = .ok () { st' with data := { d with fragment := f } } := by
  by_cases hf : f = []
  · subst hf
    rw [fragmentTrace, if_pos rfl] at h
    refine ⟨st, ?_, h, rfl, ?_⟩
    · rw [fragmentText, if_pos rfl, List.append_nil]
      rfl
    · rw [fragmentOut, if_pos rfl]
      refine Eq.trans ?_ (hout.trans ?_)
      · rw [fragmentText, if_pos rfl, List.append_nil]
      · rw [← hnone]
  · have htext : fragmentText f = [35] ++ f := by
      rw [fragmentText, if_neg hf]
      rfl
    rw [fragmentTrace, if_neg hf, htext, List.append_assoc, List.append_assoc] at h
    rw [htext, List.append_assoc] at hlen hout ⊢
    rcases exec_piece relaxed _ [35] _ pre.length _ _ st _ (List.cons_ne_nil _ _) h hdone hout with
      ⟨st₁, hexec₁, h₁, hn₁⟩
    rcases exec_piece relaxed (pre ++ ([35] ++ (f ++ rest))) f rest (pre.length + 1) _ _ st₁
      { st₁ with mark := pre.length + 1 } hf h₁ (by decide) rfl with ⟨st₂, hexec₂, h₂, hn₂⟩
    have hbuffer : pre ++ ([35] ++ (f ++ rest)) = pre ++ [35] ++ (f ++ rest) := by
      rw [List.append_assoc]
    have hmarked : (pre ++ [35]).length = pre.length + 1 := List.length_append
    have hpos : (pre ++ ([35] ++ f)).length = (pre ++ [35]).length + f.length := by
      simp only [List.length_append]
      omega
    have hfragment := perform_fragment (pre ++ [35]) f rest st₂ (hn₂.mark.trans hmarked.symm)
      (by rw [← hbuffer]; exact hlen)
    refine ⟨st₂, ?_, h₂, hn₂.error.trans hn₁.error, ?_⟩
    · rw [hexec₁, hpos, hmarked]
      exact hexec₂
    · rw [fragmentOut, if_neg hf, hpos, hbuffer]
      refine (performAll_cons _ _ _ _ _ _ _ hfragment rfl).trans ?_
      rw [hn₂.data, hn₁.data]

/-- What a request line makes of a new request. -/
def ofLine (r : HttpRequest) : HttpRequest :=
  { HttpRequest.new with
    method := r.method, version := r.version, path := r.path, query := r.query,
    fragment := r.fragment }

/-- The method and the path. -/
theorem exec_method (relaxed : Bool) (queryStart : Nat) (m : HttpMethod) (path rest : List UInt8)
    (tr : List (List Action)) (hmethod : ∀ c ∈ httpMethodToString m, upper c = true)
    (hname : httpMethodToString m ≠ []) (hpath : path ≠ [])
    (h : Going relaxed (httpMethodToString m ++ ([32] ++ (path ++ rest)))
      (piece [Action.mark] (httpMethodToString m) ++ (piece [Action.requestMethod] [(32 : UInt8)] ++
        (piece [Action.mark] path ++ tr))) (.new relaxed queryStart)) :
    ∃ st, exec (httpMethodToString m ++ ([32] ++ (path ++ rest)))
        (httpMethodToString m ++ ([32] ++ (path ++ rest))) 0 (.new relaxed queryStart) =
        exec (httpMethodToString m ++ ([32] ++ (path ++ rest))) rest
          (httpMethodToString m ++ [32] ++ path).length st ∧
      Going relaxed rest tr st ∧ st.error = 0 ∧
      st.mark = (httpMethodToString m ++ [32]).length ∧
      st.data = { HttpRequest.new with method := m } := by
  rcases exec_piece relaxed (httpMethodToString m ++ ([32] ++ (path ++ rest))) _ _ 0 _ _ _
    (.new relaxed queryStart) hname h (by decide) rfl with ⟨q₁, hexec₁, h₁, hn₁⟩
  rcases exec_piece relaxed (httpMethodToString m ++ ([32] ++ (path ++ rest))) [32] _
    (0 + (httpMethodToString m).length) _ _ q₁ _ (List.cons_ne_nil _ _) h₁ (by decide)
    (performAll_cons _ _ _ _ _ _ _
      (perform_requestMethod m (path ++ rest) _ q₁ hmethod hn₁.mark) rfl) with ⟨q₂, hexec₂, h₂, hn₂⟩
  rcases exec_piece relaxed (httpMethodToString m ++ ([32] ++ (path ++ rest))) path rest
    (0 + (httpMethodToString m).length + 1) _ _ q₂
    { q₂ with mark := 0 + (httpMethodToString m).length + 1 } hpath h₂ (by decide) rfl with
    ⟨q₃, hexec₃, h₃, hn₃⟩
  have hspace : (httpMethodToString m ++ [32]).length = 0 + (httpMethodToString m).length + 1 := by
    rw [List.length_append, Nat.zero_add]
    rfl
  refine ⟨q₃, ?_, h₃, hn₃.error.trans (hn₂.error.trans hn₁.error), hn₃.mark.trans hspace.symm, ?_⟩
  · rw [hexec₁, List.length_append, hspace]
    exact hexec₂.trans hexec₃
  · rw [hn₃.data, hn₂.data, hn₁.data]
    rfl

/-- The version and the end of the line, behind what the byte in front of them does. -/
theorem exec_version (relaxed : Bool) (pre rest : List UInt8) (v : UInt8) (out : List Action)
    (tr : List (List Action)) (st : HttpRequestParser) (d : HttpRequest)
    (hv : v = 0x10 ∨ v = 0x11) (hdone : Action.done ∉ out)
    (hout : performAll (pre ++ ([32] ++ (versionText v ++ ([13, 10] ++ rest)))) pre.length out st =
      .ok () { st with data := d })
    (h : Going relaxed ([32] ++ (versionText v ++ ([13, 10] ++ rest)))
      (piece out [(32 : UInt8)] ++ (piece [Action.mark] (versionText v) ++
        (piece [Action.httpVersion] [(13 : UInt8), 10] ++ tr))) st) :
    ∃ st', exec (pre ++ ([32] ++ (versionText v ++ ([13, 10] ++ rest))))
        ([32] ++ (versionText v ++ ([13, 10] ++ rest))) pre.length st =
        exec (pre ++ ([32] ++ (versionText v ++ ([13, 10] ++ rest)))) rest
          (pre ++ ([32] ++ (versionText v ++ [13, 10]))).length st' ∧
      Going relaxed rest tr st' ∧ st'.error = st.error ∧
      st'.data = { d with version := v } := by
  rcases exec_piece relaxed _ [32] _ pre.length _ _ st _ (List.cons_ne_nil _ _) h hdone hout with
    ⟨q₁, hexec₁, h₁, hn₁⟩
  rcases exec_piece relaxed (pre ++ ([32] ++ (versionText v ++ ([13, 10] ++ rest))))
    (versionText v) _ (pre.length + 1) _ _ q₁ { q₁ with mark := pre.length + 1 }
    (List.ne_nil_of_length_pos (by rw [versionText]; simp [ascii])) h₁ (by decide) rfl with
    ⟨q₂, hexec₂, h₂, hn₂⟩
  have hmarked : (pre ++ [32]).length = pre.length + 1 := List.length_append
  have hbuffer : pre ++ ([32] ++ (versionText v ++ ([13, 10] ++ rest))) =
      pre ++ [32] ++ (versionText v ++ ([13, 10] ++ rest)) := by
    rw [List.append_assoc]
  have hversion := perform_httpVersion (pre ++ [32]) ([13, 10] ++ rest) v q₂ hv
    (hn₂.mark.trans hmarked.symm)
  rw [← hbuffer, hmarked] at hversion
  rcases exec_piece relaxed _ [13, 10] rest (pre.length + 1 + (versionText v).length) _ _ q₂ _
    (List.cons_ne_nil _ _) h₂ (by decide) (performAll_cons _ _ _ _ _ _ _ hversion rfl) with
    ⟨q₃, hexec₃, h₃, hn₃⟩
  have hend : (pre ++ ([32] ++ (versionText v ++ [13, 10]))).length =
      pre.length + 1 + (versionText v).length + 2 := by
    simp only [List.length_append, List.length_cons, List.length_nil]
    omega
  refine ⟨q₃, ?_, h₃, hn₃.error.trans (hn₂.error.trans hn₁.error), ?_⟩
  · rw [hexec₁, hend]
    exact hexec₂.trans hexec₃
  · rw [hn₃.data, hn₂.data, hn₁.data]

theorem targetOut_not_done (q : List UInt8) : Action.done ∉ targetOut q := by
  unfold targetOut
  split <;> decide

theorem fragmentOut_not_done (q f : List UInt8) :
    Action.done ∉ fragmentOut (targetOut q) f := by
  unfold fragmentOut
  split
  · exact targetOut_not_done q
  · decide

/-- The request line. -/
theorem exec_line (relaxed : Bool) (queryStart : Nat) (r : HttpRequest) (rest : List UInt8)
    (tr : List (List Action)) (hline : LineOk relaxed r)
    (hlen : (lineText r ++ rest).length < 2 ^ 31)
    (h : Going relaxed (lineText r ++ rest) (lineTrace r ++ tr) (.new relaxed queryStart)) :
    ∃ st, exec (lineText r ++ rest) (lineText r ++ rest) 0 (.new relaxed queryStart) =
        exec (lineText r ++ rest) rest (lineText r).length st ∧
      Going relaxed rest tr st ∧ st.error = 0 ∧ st.data = ofLine r := by
  have hname := (reads_method relaxed (fun _ => false) r.method hline.method).ne_nil
  have hpath : r.path ≠ [] := by
    intro hnil
    have hslash := hline.slash
    rw [hnil] at hslash
    cases hslash
  generalize hend : [32] ++ (versionText r.version ++ ([13, 10] ++ rest)) = tail
  have htext : lineText r ++ rest = httpMethodToString r.method ++ ([32] ++ (r.path ++
      (queryText r.query ++ (fragmentText r.fragment ++ tail)))) := by
    rw [← hend, lineText]
    simp
  rw [htext] at h hlen ⊢
  simp only [lineTrace, targetTrace, List.append_assoc] at h
  rcases exec_method relaxed queryStart r.method r.path _ _ hline.method hname hpath h with
    ⟨q₁, hexec₁, h₁, herr₁, hmark₁, hdata₁⟩
  -- The same buffer, with what is behind it in front of each part.
  have hbuffer : httpMethodToString r.method ++ ([32] ++ (r.path ++ (queryText r.query ++
      (fragmentText r.fragment ++ tail)))) = httpMethodToString r.method ++ [32] ++ (r.path ++
      (queryText r.query ++ (fragmentText r.fragment ++ tail))) := by
    simp only [List.append_assoc]
  rw [hbuffer] at hlen hexec₁ ⊢
  rcases exec_query relaxed (httpMethodToString r.method ++ [32]) r.path r.query _ _ q₁ hlen hmark₁
    (by rw [hdata₁]; rfl) h₁ with ⟨q₂, hexec₂, h₂, herr₂, hrun₂⟩
  have hbuffer' : httpMethodToString r.method ++ [32] ++ (r.path ++ (queryText r.query ++
      (fragmentText r.fragment ++ tail))) = httpMethodToString r.method ++ [32] ++ r.path ++
      queryText r.query ++ (fragmentText r.fragment ++ tail) := by
    simp only [List.append_assoc]
  rw [hbuffer'] at hlen hexec₁ hexec₂ hrun₂ ⊢
  rcases exec_fragmentPart relaxed _ r.fragment tail _ _ q₂ _ hlen (by rw [hdata₁]; rfl)
    (targetOut_not_done r.query) hrun₂ h₂ with ⟨q₃, hexec₃, h₃, herr₃, hrun₃⟩
  subst hend
  have hbuffer'' : httpMethodToString r.method ++ [32] ++ r.path ++ queryText r.query ++
      (fragmentText r.fragment ++ ([32] ++ (versionText r.version ++ ([13, 10] ++ rest)))) =
      httpMethodToString r.method ++ [32] ++ r.path ++ queryText r.query ++
      fragmentText r.fragment ++ ([32] ++ (versionText r.version ++ ([13, 10] ++ rest))) := by
    simp only [List.append_assoc]
  rw [hbuffer''] at hexec₁ hexec₂ hexec₃ hrun₃ ⊢
  rcases exec_version relaxed _ rest r.version _ tr q₃ _ hline.version
    (fragmentOut_not_done r.query r.fragment) hrun₃ h₃ with ⟨q₄, hexec₄, h₄, herr₄, hdata₄⟩
  have hpos : (httpMethodToString r.method ++ [32] ++ r.path ++ queryText r.query ++
      fragmentText r.fragment ++ ([32] ++ (versionText r.version ++ [13, 10]))).length =
      (lineText r).length := by
    rw [lineText]
    simp only [List.length_append, List.length_cons, List.length_nil]
    omega
  rw [hpos] at hexec₄
  refine ⟨q₄, hexec₁.trans (hexec₂.trans (hexec₃.trans hexec₄)), h₄,
    herr₄.trans (herr₃.trans (herr₂.trans herr₁)), ?_⟩
  rw [hdata₄, hdata₁]
  rfl

/-- The request that a printed header block makes. -/
def ofHead (r : HttpRequest) (es : List (List UInt8 × List UInt8)) : HttpRequest :=
  es.foldl (fun r e => r.setHeader e.1 e.2) (ofLine r)

/-- The header block: parsing stops behind it, with the request. -/
theorem exec_head (relaxed : Bool) (queryStart : Nat) (r : HttpRequest)
    (es : List (List UInt8 × List UInt8)) (hline : LineOk relaxed r) (hes : ∀ e ∈ es, FieldOk e)
    (hlen : (headText r es).length < 2 ^ 31) :
    ∃ q, exec (headText r es) (headText r es) 0 (.new relaxed queryStart) =
        .ok (headText r es).length q ∧
      q.isFinished = true ∧ q.error = 0 ∧ q.data = ofHead r es := by
  rcases trace_headText relaxed r es hline hes with ⟨htrace, hfinal⟩
  have hgoing : Going relaxed (headText r es) (headTrace r es) (.new relaxed queryStart) := by
    refine ⟨rfl, htrace, ?_⟩
    intro hidle
    have hno : final (main relaxed) (moves (main relaxed) true .idle (headText r es)) = false := by
      rw [show moves (main relaxed) true .idle (headText r es) = .idle from hidle, final_idle]
    rw [hno] at hfinal
    cases hfinal
  rw [headText] at hlen hgoing ⊢
  rw [headTrace] at hgoing
  rcases exec_line relaxed queryStart r _ _ hline hlen hgoing with ⟨q₁, hexec₁, h₁, herr₁, hdata₁⟩
  rcases exec_fields relaxed (lineText r) [13, 10] es [[.startField], [.done]] q₁
    (fun e he => (hes e he).name) hlen h₁ with ⟨q₂, hexec₂, h₂, hdata₂, herr₂⟩
  rcases exec_piece relaxed (lineText r ++ (es.flatMap fieldText ++ [13, 10])) [13] [10]
    (lineText r ++ es.flatMap fieldText).length [.startField] [[.done]] q₂
    { q₂ with fieldStart := (lineText r ++ es.flatMap fieldText).length } (List.cons_ne_nil _ _)
    h₂ (by decide) rfl with ⟨q₃, hexec₃, h₃, hn₃⟩
  rcases exec_last relaxed (lineText r ++ (es.flatMap fieldText ++ [13, 10])) 10
    ((lineText r ++ es.flatMap fieldText).length + 1) q₃ h₃ with ⟨hexec₄, hfin⟩
  have hend : (lineText r ++ (es.flatMap fieldText ++ [13, 10])).length =
      (lineText r ++ es.flatMap fieldText).length + 1 + 1 := by
    simp only [List.length_append, List.length_cons, List.length_nil]
    omega
  refine ⟨q₃.advance 10, ?_, hfin, hn₃.error.trans (herr₂.trans herr₁), ?_⟩
  · rw [hexec₁, hexec₂, hend]
    exact hexec₃.trans hexec₄
  · rw [ofHead, ← hdata₁, ← hdata₂]
    exact hn₃.data

end HttpRequestParser

end YkServer
