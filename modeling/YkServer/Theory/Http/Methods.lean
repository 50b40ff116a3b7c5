import Mathlib.Data.List.Infix
import YkServer.Theory.Http.Parsed

/-!
# Recognizing a Method

Which methods the parser takes a token for.

`CharsToHttpMethod` is given no length. It looks for the first name of the table that the bytes
begin with, so that a token that begins with a name is taken for it, and so is one that makes a
name together with what comes behind it. No name of the table begins like another one, which
makes the order of the table not matter: a token that is a name is taken for that name.

In a request a space comes behind the token. It is in no name, so that only the names in front of
it are left.

## Main definitions

* `StartAlike`: One string is the start of the other.
* `HttpRequestParser.recognized`: What the parser should be behind a token.
* `Recognizes`: The callback does that.
* `ParsesToken`: The parser does that.

## Theorems

* `strncmpEq_eq`: A comparison by what begins with what.
* `table_apart`: No name begins like another one.
* `charsToHttpMethod_iff`: The token as bytes and as a string.
* `onRequestMethod_iff`: The callback.
* `execute_token`: The parser on a token.
* `method_iff`: When a token is recognized.
-/

namespace YkServer

open Lib Lib.Ragel HttpParser

/-! ## The table -/

/-- One of two strings is the start of the other. -/
def StartAlike (s t : List UInt8) : Prop := s <+: t ∨ t <+: s

/-- The names of the table. -/
def methodNames : List (List UInt8) := httpMethodMap.map Prod.snd

/-- A comparison with a string that has no zero. -/
theorem strncmpEq_eq (name m : List UInt8) (hzero : ∀ b ∈ name, b ≠ 0) :
    strncmpEq name.length m name =
      if name <+: m then some true else if m <+: name then none else some false := by
  induction name generalizing m with
  | nil => rw [if_pos List.nil_prefix]; rfl
  | cons b name ih =>
      have hb : b ≠ 0 := hzero b List.mem_cons_self
      cases m with
      | nil => simp [strncmpEq]
      | cons a m =>
          rw [List.length_cons, strncmpEq, List.headD_cons, List.tail_cons,
            ih m (fun c hc => hzero c (List.mem_cons_of_mem _ hc))]
          by_cases hab : a = b
          · subst hab
            simp [hb]
          · simp [hab, Ne.symm hab]

theorem table_zero (e : HttpMethod × List UInt8) (he : e ∈ httpMethodMap) : ∀ b ∈ e.2, b ≠ 0 := by
  have htable : (httpMethodMap.all fun e => e.2.all (fun b => b != 0)) = true := rfl
  intro b hb
  exact bne_iff_ne.1 (List.all_eq_true.1 (List.all_eq_true.1 htable e he) b hb)

theorem table_valid (e : HttpMethod × List UInt8) (he : e ∈ httpMethodMap) :
    e.1 ≠ .INVALID_METHOD := by
  have htable : (httpMethodMap.all fun e => e.1 != .INVALID_METHOD) = true := rfl
  exact bne_iff_ne.1 (List.all_eq_true.1 htable e he)

/-- No name begins like another one. -/
theorem table_apart (e e' : HttpMethod × List UInt8) (he : e ∈ httpMethodMap)
    (he' : e' ∈ httpMethodMap) (h : StartAlike e.2 e'.2) : e = e' := by
  have htable : (httpMethodMap.all fun e => httpMethodMap.all fun e' =>
      e == e' || !e.2.isPrefixOf e'.2) = true := by
    decide +kernel
  have hpair (e e' : HttpMethod × List UInt8) (he : e ∈ httpMethodMap) (he' : e' ∈ httpMethodMap)
      (h : e.2 <+: e'.2) : e = e' := by
    have hentry := List.all_eq_true.1 (List.all_eq_true.1 htable e he) e' he'
    rw [List.isPrefixOf_iff_prefix.2 h, Bool.not_true, Bool.or_false, beq_iff_eq] at hentry
    exact hentry
  rcases h with h | h
  · exact hpair e e' he he' h
  · exact (hpair e' e he' he h).symm

/-- The entry of a name. -/
theorem find_name (e : HttpMethod × List UInt8) (he : e ∈ httpMethodMap) :
    httpMethodMap.find? (fun e' => e'.2 == e.2) = some e := by
  cases hfind : httpMethodMap.find? (fun e' => e'.2 == e.2) with
  | none =>
      have hno := List.find?_eq_none.1 hfind e he
      exact absurd (beq_self_eq_true e.2) hno
  | some e' =>
      have hname : e'.2 = e.2 := by simpa using List.find?_some hfind
      rw [table_apart e' e (List.mem_of_find?_eq_some hfind) he
        (Or.inl (by rw [hname]))]

/-! ## The first name that the bytes begin with -/

/-- A name that the bytes begin with, if they are like no other one. -/
theorem methodIn_first (m : List UInt8) (table : List (HttpMethod × List UInt8))
    (e : HttpMethod × List UInt8) (hzero : ∀ e' ∈ table, ∀ b ∈ e'.2, b ≠ 0) (he : e ∈ table)
    (hm : e.2 <+: m) (hothers : ∀ e' ∈ table, StartAlike e'.2 m → e' = e) :
    methodIn m table = some e.1 := by
  induction table with
  | nil => cases he
  | cons d table ih =>
      rw [methodIn, strncmpEq_eq d.2 m (hzero d List.mem_cons_self)]
      by_cases hd : StartAlike d.2 m
      · rw [hothers d List.mem_cons_self hd, if_pos hm]
      · -- The entry in front is like the bytes neither way.
        have hne : e ≠ d := fun heq => hd (Or.inl (heq ▸ hm))
        rw [StartAlike, not_or] at hd
        rw [if_neg hd.1, if_neg hd.2]
        exact ih (fun e' he' => hzero e' (List.mem_cons_of_mem _ he'))
          ((List.mem_cons.1 he).resolve_left hne)
          (fun e' he' => hothers e' (List.mem_cons_of_mem _ he'))

/-- The bytes are found to be no method exactly if they are like no name. -/
theorem methodIn_invalid_iff (m : List UInt8) (table : List (HttpMethod × List UInt8))
    (hzero : ∀ e ∈ table, ∀ b ∈ e.2, b ≠ 0) (hvalid : ∀ e ∈ table, e.1 ≠ .INVALID_METHOD) :
    methodIn m table = some .INVALID_METHOD ↔ ∀ e ∈ table, ¬ StartAlike e.2 m := by
  induction table with
  | nil => simp [methodIn]
  | cons d table ih =>
      rw [methodIn, strncmpEq_eq d.2 m (hzero d List.mem_cons_self), List.forall_mem_cons,
        ← ih (fun e he => hzero e (List.mem_cons_of_mem _ he))
          (fun e he => hvalid e (List.mem_cons_of_mem _ he))]
      have hd : d.1 ≠ .INVALID_METHOD := hvalid d List.mem_cons_self
      unfold StartAlike
      by_cases hfront : d.2 <+: m
      · simp [hfront, hd]
      · by_cases hback : m <+: d.2
        · simp [hfront, hback]
        · simp [hfront, hback]

/-! ## The token as a string -/

/-- A token has no zero. -/
theorem cStr_token (t : List UInt8) (h : MethodToken t) : cStr t = t := by
  rw [cStr_eq_self_iff]
  intro hzero
  cases h.chars 0 hzero

theorem stringToHttpMethod_name (e : HttpMethod × List UInt8) (he : e ∈ httpMethodMap)
    (h : MethodToken e.2) : stringToHttpMethod e.2 = e.1 := by
  rw [stringToHttpMethod, cStr_token e.2 h, find_name e he]

theorem stringToHttpMethod_invalid (t : List UInt8) (h : MethodToken t) (hno : t ∉ methodNames) :
    stringToHttpMethod t = .INVALID_METHOD ∧ httpMethodMap.find? (fun e => e.2 == t) = none := by
  have hfind : httpMethodMap.find? (fun e => e.2 == t) = none := by
    rw [List.find?_eq_none]
    intro e he heq
    exact hno (List.mem_map.2 ⟨e, he, beq_iff_eq.1 heq⟩)
  rw [stringToHttpMethod, cStr_token t h, hfind]
  exact ⟨rfl, rfl⟩

/-- What is like a string and more is like the string. -/
theorem startAlike_append (s t rest : List UInt8) (h : StartAlike s (t ++ rest)) :
    StartAlike s t := by
  rcases h with h | h
  · exact List.prefix_or_prefix_of_prefix h (List.prefix_append t rest)
  · exact Or.inr (List.IsPrefix.trans (List.prefix_append t rest) h)

/-- The bytes of a name, whatever comes behind it. -/
theorem charsToHttpMethod_entry (e : HttpMethod × List UInt8) (he : e ∈ httpMethodMap)
    (rest : List UInt8) : charsToHttpMethod (e.2 ++ rest) = some e.1 := by
  refine methodIn_first _ _ e table_zero he (List.prefix_append _ _) ?_
  intro e' he' h
  exact table_apart e' e he' he (startAlike_append _ _ _ h)

/-- The token as bytes and as a string. -/
theorem charsToHttpMethod_iff (t rest : List UInt8) (h : MethodToken t) :
    charsToHttpMethod (t ++ rest) = some (stringToHttpMethod t) ↔
      t ∈ methodNames ∨ ∀ name ∈ methodNames, ¬ StartAlike name (t ++ rest) := by
  by_cases hname : t ∈ methodNames
  · rcases List.mem_map.1 hname with ⟨e, he, rfl⟩
    rw [charsToHttpMethod_entry e he, stringToHttpMethod_name e he h]
    exact ⟨fun _ => Or.inl hname, fun _ => rfl⟩
  · rw [(stringToHttpMethod_invalid t h hname).1, charsToHttpMethod,
      methodIn_invalid_iff _ _ table_zero table_valid, methodNames, List.forall_mem_map]
    exact ⟨Or.inr, fun hor => hor.resolve_left hname⟩

/-! ## The callback -/

namespace HttpRequestParser

/-- What the parser should be behind a token. -/
def recognized (q : HttpRequestParser) (t : List UInt8) : HttpRequestParser :=
  match httpMethodMap.find? (fun e => e.2 == t) with
  | some e => { q with data := { q.data with method := e.1 } }
  | none => { q with error := 1000 }

/-- The callback at a token, in a parser without an error. -/
theorem onRequestMethod_iff (pre t rest : List UInt8) (q : HttpRequestParser)
    (h : MethodToken t) (herr : q.error = 0) :
    onRequestMethod (pre ++ (t ++ rest)) pre.length q = .ok () (q.recognized t) ↔
      t ∈ methodNames ∨ ∀ name ∈ methodNames, ¬ StartAlike name (t ++ rest) := by
  have hdrop : (pre ++ (t ++ rest)).drop pre.length = t ++ rest := List.drop_left
  by_cases hname : t ∈ methodNames
  · rcases List.mem_map.1 hname with ⟨e, he, rfl⟩
    have hchars : charsToHttpMethod ((pre ++ (e.2 ++ rest)).drop pre.length) = some e.1 := by
      rw [hdrop, charsToHttpMethod_entry e he]
    rw [onRequestMethod_valid _ _ _ q hchars (table_valid e he), recognized, find_name e he]
    exact ⟨fun _ => Or.inl hname, fun _ => rfl⟩
  · rcases stringToHttpMethod_invalid t h hname with ⟨hstring, hfind⟩
    rw [← charsToHttpMethod_iff t rest h, hstring, recognized, hfind]
    cases hchars : charsToHttpMethod (t ++ rest) with
    | none =>
        rw [onRequestMethod, hdrop, hchars]
        exact ⟨(fun hno => by cases hno), (fun hno => by cases hno)⟩
    | some m =>
        by_cases hm : m = .INVALID_METHOD
        · rw [onRequestMethod, hdrop, hchars, hm]
          exact ⟨fun _ => rfl, fun _ => rfl⟩
        · -- A name at the front of the bytes is taken, and there is no error.
          rw [onRequestMethod_valid _ _ m q (by rw [hdrop, hchars]) hm, Option.some.injEq]
          refine ⟨fun heq => ?_, fun heq => absurd heq hm⟩
          injection heq with _ hstate
          have herror := congrArg HttpRequestParser.error hstate
          rw [herr] at herror
          cases herror

end HttpRequestParser

/-- The token is recognized in front of some bytes: as bytes it is what it is as a string, and the
    callback goes by that, wherever the token is and whatever the parser is. -/
structure Recognizes (t rest : List UInt8) : Prop where
  agrees : charsToHttpMethod (t ++ rest) = some (stringToHttpMethod t)
  callback (pre : List UInt8) (q : HttpRequestParser) (herr : q.error = 0) :
    HttpRequestParser.onRequestMethod (pre ++ (t ++ rest)) pre.length q =
      .ok () (q.recognized t)

/-! ## The parser -/

/-- A token and the space behind it are no whole request line, and its first part reads the
    token. -/
theorem token_line (relaxed : Bool) (L : UInt8 → Bool) (t : List UInt8) (h : MethodToken t) :
    does (requestLine relaxed) L true .idle (t ++ [32]) =
        piece [Action.mark] t ++ piece [Action.requestMethod] [(32 : UInt8)] ∧
      Unfinished (requestLine relaxed) true .idle (t ++ [32]) ∧
      moves (requestLine relaxed) true .idle (t ++ [32]) ≠ .idle := by
  have hread := reads_token relaxed L t h
  have hspace : Unfinished (afterMethod relaxed) true .idle [32] :=
    ⟨by cases relaxed <;> rfl, trivial⟩
  refine ⟨?_, hread.unfinished_seq (by cases relaxed <;> rfl) [] hspace, ?_⟩
  · rw [requestLine, hread.does_seq (by cases relaxed <;> rfl) []]
    cases relaxed <;> rfl
  · intro hidle
    have hright := (hread.moves_seq []).2
    rw [requestLine] at hidle
    rw [hidle, right_idle] at hright
    cases relaxed <;> cases hright

namespace HttpRequestParser

/-- A new parser in front of a token and a space. -/
theorem going_token (relaxed : Bool) (queryStart : Nat) (t : List UInt8) (h : MethodToken t) :
    Going relaxed (t ++ [32])
      (piece [Action.mark] t ++ piece [Action.requestMethod] [(32 : UInt8)])
      (.new relaxed queryStart) := by
  rcases token_line relaxed (followed headers (fun _ => false)) t h with ⟨hdoes, hunf, hlive⟩
  have hstays := stays_unfinished _ (followed headers (fun _ => false)) true .idle _ rfl
    (final_idle _) hunf
  rcases seq_first _ headers _ true .idle _ right_idle hstays with ⟨hleft, -, hrequest, -⟩
  have hunf' := unfinished_first _ headers _ true .idle _ rfl right_idle hstays
  -- The other protocols do not start with the first character of a token.
  rcases List.exists_cons_of_ne_nil h.nonempty with ⟨b, w, rfl⟩
  have hfirst := first_socketRequest relaxed b (h.chars b List.mem_cons_self)
  rcases alt_first (request relaxed) (socketRequest relaxed) (fun _ => false) b (w ++ [32]) hfirst
    (by rw [Bool.and_false]) with ⟨halt, haltleft, -⟩
  have hunf'' : Unfinished (.alt (request relaxed) (socketRequest relaxed)) true .idle
      (b :: w ++ [32]) := by
    refine unfinished_alt _ _ _ _ _ right_idle ?_ hunf'
    intro _ c hc
    cases hc
    exact hfirst
  refine ⟨rfl, ?_, ?_⟩
  · rw [trace_eq_does]
    refine (finish_unfinished .done _ _ _ _ _ hunf'').trans ?_
    exact halt.trans (hrequest.trans hdoes)
  · intro hidle
    have hmain : moves (main relaxed) true .idle (b :: w ++ [32]) = .idle := hidle
    rw [main, moves_finish] at hmain
    rw [List.cons_append] at hmain hleft hlive
    have hleft' : (moves (request relaxed) true .idle (b :: (w ++ [32]))).left =
        moves (requestLine relaxed) true .idle (b :: (w ++ [32])) := hleft
    rw [← haltleft, hmain] at hleft'
    exact hlive hleft'.symm

theorem SameNotes.eq {q q' : HttpRequestParser} (h : SameNotes q q')
    (hrelaxed : q'.relaxed = q.relaxed) : q' = { q with cs := q'.cs } := by
  rcases h with ⟨hmark, hstart, hlen, hquery, herr, hdata⟩
  rcases q with ⟨relaxed, cs, mark, fieldStart, fieldLen, queryStart, error, data⟩
  rcases q' with ⟨relaxed', cs', mark', fieldStart', fieldLen', queryStart', error', data'⟩
  simp only at hmark hstart hlen hquery herr hdata hrelaxed
  subst hmark hstart hlen hquery herr hdata hrelaxed
  rfl

/-- The callback does not look at the state of the machine. -/
theorem onRequestMethod_cs (buffer : List UInt8) (pos : Nat) (cs : Cs)
    (q q' : HttpRequestParser) (h : onRequestMethod buffer pos q = .ok () q') :
    onRequestMethod buffer pos { q with cs := cs } = .ok () { q' with cs := cs } := by
  unfold onRequestMethod at h ⊢
  generalize charsToHttpMethod (buffer.drop pos) = m at h ⊢
  cases m with
  | none => cases h
  | some m =>
      cases m <;>
        · cases h
          rfl

/-- The parser on a token and a space: what the callback does is all there is. -/
theorem execute_token (relaxed : Bool) (queryStart : Nat) (t rest : List UInt8)
    (q : HttpRequestParser) (h : MethodToken t)
    (hrun : onRequestMethod (t ++ 32 :: rest) 0 (.new relaxed queryStart) = .ok () q) :
    ∃ cs, httpParserExecute (t ++ 32 :: rest) (t.length + 1) (.new relaxed queryStart) =
      .ok (t.length + 1) { q with cs := cs } := by
  have hgoing := going_token relaxed queryStart t h
  rcases exec_piece relaxed (t ++ 32 :: rest) t [32] 0 [.mark] _ _ (.new relaxed queryStart)
    h.nonempty hgoing (by simp) rfl with ⟨q₁, hexec₁, h₁, hn₁⟩
  have hq₁ := hn₁.eq h₁.same
  have hmethod := onRequestMethod_cs _ _ q₁.cs _ _ hrun
  rw [← hq₁] at hmethod
  have hall : performAll (t ++ 32 :: rest) (0 + t.length) [.requestMethod] q₁ =
      .ok () { q with cs := q₁.cs } := by
    have hmark : q₁.mark = 0 := hn₁.mark
    refine performAll_cons _ _ .requestMethod [] q₁ _ _ ?_ rfl
    rw [perform, bind_ok _ _ _ _ _ (get_apply _), hmark]
    exact hmethod
  rcases exec_piece relaxed (t ++ 32 :: rest) [32] [] (0 + t.length) [.requestMethod] [] q₁ _
    (List.cons_ne_nil _ _) h₁ (by simp) hall with ⟨q₂, hexec₂, h₂, hn₂⟩
  have hkept := performAll_kept _ _ _ _ _ hall
  have hq₂ := hn₂.eq (h₂.same.trans (hkept.relaxed.trans h₁.same).symm)
  refine ⟨q₂.cs, ?_⟩
  have htake : (t ++ 32 :: rest).take (t.length + 1) = t ++ [32] := by
    simp [List.take_append]
  rw [httpParserExecute, if_neg (Nat.succ_ne_zero _), bind_ok _ _ _ _ _ (modify_apply _ _), htake]
  refine (hexec₁.trans hexec₂).trans ?_
  rw [hq₂, Nat.zero_add]
  rfl

end HttpRequestParser

/-- The parser on a token, a space, and any bytes that are not parsed yet: it is as it should be,
    and has used up the token and the space. -/
def ParsesToken (relaxed : Bool) (queryStart : Nat) (t rest : List UInt8) : Prop :=
  ∃ cs, HttpRequestParser.httpParserExecute (t ++ 32 :: rest) (t.length + 1)
      (.new relaxed queryStart) =
    .ok (t.length + 1)
      { (HttpRequestParser.new relaxed queryStart).recognized t with cs := cs }

/-- With a space behind the token, only a name that the token begins with matters. -/
theorem startAlike_space (t rest name : List UInt8) (hspace : 32 ∉ name) :
    StartAlike name (t ++ 32 :: rest) ↔ name <+: t := by
  constructor
  · rintro (h | h)
    · by_cases hle : name.length ≤ t.length
      · exact List.prefix_of_prefix_length_le h (List.prefix_append _ _) hle
      · have hlong : t ++ [32] <+: name := by
          refine List.prefix_of_prefix_length_le (?_ : t ++ [32] <+: t ++ 32 :: rest) h ?_
          · rw [List.prefix_append_right_inj]
            exact List.prefix_append [32] rest
          · rw [List.length_append, List.length_singleton]
            omega
        exact absurd (hlong.subset (List.mem_append_right _ List.mem_cons_self)) hspace
    · exact absurd (h.subset (List.mem_append_right _ List.mem_cons_self)) hspace
  · exact fun h => Or.inl (List.IsPrefix.trans h (List.prefix_append _ _))

theorem space_not_mem_name (name : List UInt8) (h : name ∈ methodNames) : 32 ∉ name := by
  have htable : (methodNames.all fun name => !name.contains 32) = true := rfl
  have hname := List.all_eq_true.1 htable name h
  simpa using hname

/-- What the callback depends on, with a space behind the token. -/
theorem space_iff (t rest : List UInt8) :
    (t ∈ methodNames ∨ ∀ name ∈ methodNames, ¬ StartAlike name (t ++ 32 :: rest)) ↔
      ∀ name ∈ methodNames, name <+: t → name = t := by
  constructor
  · rintro (hname | hno) name hmem hfront
    · rcases List.mem_map.1 hname with ⟨e, he, rfl⟩
      rcases List.mem_map.1 hmem with ⟨e', he', rfl⟩
      rw [table_apart e' e he' he (Or.inl hfront)]
    · have hlike := (startAlike_space t rest name (space_not_mem_name name hmem)).2 hfront
      exact absurd hlike (hno name hmem)
  · intro hall
    by_cases hname : t ∈ methodNames
    · exact Or.inl hname
    · refine Or.inr fun name hmem hlike => hname ?_
      rw [startAlike_space t rest name (space_not_mem_name name hmem)] at hlike
      rw [← hall name hmem hlike]
      exact hmem

/-- A token that begins with a name is taken for it. -/
theorem charsToHttpMethod_front (e : HttpMethod × List UInt8) (he : e ∈ httpMethodMap)
    (t rest : List UInt8) (hfront : e.2 <+: t) : charsToHttpMethod (t ++ rest) = some e.1 := by
  rcases hfront with ⟨u, rfl⟩
  rw [List.append_assoc, charsToHttpMethod_entry e he]

/-- With a space behind the token, the parser goes by the names that the token begins with. -/
theorem parses_iff (relaxed : Bool) (queryStart : Nat) (t rest : List UInt8)
    (h : MethodToken t) :
    ParsesToken relaxed queryStart t rest ↔ ∀ name ∈ methodNames, name <+: t → name = t := by
  constructor
  · rintro ⟨cs, hrun⟩ name hmem hfront
    by_cases hname : t ∈ methodNames
    · exact (space_iff t rest).1 (Or.inl hname) name hmem hfront
    · -- The token is taken for the name, and there is no error.
      rcases List.mem_map.1 hmem with ⟨e, he, rfl⟩
      have hvalid := HttpRequestParser.onRequestMethod_valid (t ++ 32 :: rest) 0 e.1
        (.new relaxed queryStart) (charsToHttpMethod_front e he t _ hfront) (table_valid e he)
      rcases HttpRequestParser.execute_token relaxed queryStart t rest _ h hvalid with
        ⟨cs', hrun'⟩
      rw [hrun', HttpRequestParser.recognized, (stringToHttpMethod_invalid t h hname).2] at hrun
      injection hrun with _ hstate
      have herror := congrArg HttpRequestParser.error hstate
      cases herror
  · intro hall
    refine HttpRequestParser.execute_token relaxed queryStart t rest _ h ?_
    exact (HttpRequestParser.onRequestMethod_iff [] t (32 :: rest) _ h rfl).2
      ((space_iff t rest).2 hall)

/-- A token is recognized, whatever bytes follow it, exactly if it is a name or no name and the
    bytes from the token on begin like each other. In a request, where a space follows it, it
    is recognized exactly if it does not begin with another name. -/
theorem method_iff (t : List UInt8) (h : MethodToken t) :
    (∀ rest, Recognizes t rest ↔
      t ∈ methodNames ∨ ∀ name ∈ methodNames, ¬ StartAlike name (t ++ rest)) ∧
    ∀ relaxed queryStart rest, ParsesToken relaxed queryStart t rest ↔
      ∀ name ∈ methodNames, name <+: t → name = t := by
  refine ⟨fun rest => ?_, fun relaxed queryStart rest => parses_iff relaxed queryStart t rest h⟩
  rw [← charsToHttpMethod_iff t rest h]
  refine ⟨Recognizes.agrees, fun hagrees => ⟨hagrees, fun pre q herr => ?_⟩⟩
  rw [HttpRequestParser.onRequestMethod_iff pre t rest q h herr,
    ← charsToHttpMethod_iff t rest h]
  exact hagrees

/-- A name. -/
theorem method_iff_get :
    Recognizes (ascii "GET") (ascii " / HTTP/1.1") ∧ ParsesToken false 0 (ascii "GET") [] := by
  have htoken : MethodToken (ascii "GET") :=
    ⟨by simp [ascii], by simp [ascii], by decide +kernel⟩
  have hname : ascii "GET" ∈ methodNames := by simp [methodNames, httpMethodMap]
  refine ⟨((method_iff _ htoken).1 _).2 (Or.inl hname), ((method_iff _ htoken).2 _ _ _).2 ?_⟩
  exact (space_iff _ []).1 (Or.inl hname)

/-- A token that begins with a name, and one that makes a name with what follows it. -/
theorem not_recognizes_getx :
    MethodToken (ascii "GETX") ∧ ¬ Recognizes (ascii "GETX") (ascii " / HTTP/1.1") ∧
      ¬ ParsesToken false 0 (ascii "GETX") [] ∧
      MethodToken (ascii "M") ∧ ¬ Recognizes (ascii "M") (ascii "-SEARCH ") := by
  have htoken : MethodToken (ascii "GETX") :=
    ⟨by simp [ascii], by simp [ascii], by decide +kernel⟩
  refine ⟨htoken, fun h => ?_, fun h => ?_, ⟨by simp [ascii], by simp [ascii], by decide +kernel⟩,
    fun h => ?_⟩
  · cases h.agrees
  · have hget : ascii "GET" ∈ methodNames := by simp [methodNames, httpMethodMap]
    have hsame := (parses_iff _ _ _ _ htoken).1 h (ascii "GET") hget ⟨ascii "X", rfl⟩
    cases hsame
  · cases h.agrees

end YkServer
