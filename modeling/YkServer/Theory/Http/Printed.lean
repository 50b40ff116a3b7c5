import YkServer.Lib.Reading
import YkServer.Core.HttpConnection
import YkServer.Theory.Http.Fields

/-!
# The Machine on a Printed Request

The header block that `HttpRequest::dump` prints, and the actions that the machine
executes on it, byte by byte.

Each part of the block is read by the rule that is made for it. The other
alternatives of the grammar do not take its first byte, with two exceptions. The
space in front of a value could be the first byte of the value, so the value is
started twice, and the first time does not count. The end of the block could be the
start of a name, as a carriage return is no control character of the grammar.

An action is executed on the byte behind the part that it is about, which makes
its place depend on what comes next: the path is passed on at a question mark, a
number sign or a space.

## Main definitions

* `MethodToken`, `LineOk`, `FieldOk`: What the grammar has a place for.
* `lineText`, `fieldText`, `headText`: The printed text.
* `lineTrace`, `fieldTrace`, `headTrace`: The actions.

## Theorems

* `reads_token`: A method.
* `reads_requestLine`: A request line.
* `reads_messageHeader`: A header.
* `reads_headers`: Any number of headers and the end of the block.
* `trace_headText`: The block.
-/

namespace YkServer

open Lib Lib.Ragel

namespace HttpParser

/-! ## Bytes and line ends -/

theorem reads_byte (b : UInt8) (L : UInt8 → Bool) (next : Option UInt8) :
    Reads (.seq (.chars (· == b)) .null : Rule) L [b] next (piece [] [b]) [] :=
  (Reads.chars (· == b) _ b next (beq_self_eq_true b)).seq_empty rfl rfl (fires_null _ _ _ _)

theorem reads_CRLF (L : UInt8 → Bool) (next : Option UInt8) :
    Reads CRLF L [13, 10] next (piece [] [13, 10]) [] := by
  have hcr : Reads (.chars (· == 13) : Rule) (followed (text "\n") L) [13] (some 10)
      (piece [] [13]) [] := Reads.chars _ _ 13 (some 10) rfl
  exact (hcr.seq (reads_byte 10 L next)).alt_left rfl rfl

theorem followed_CRLF (L : UInt8 → Bool) (c : UInt8) :
    followed CRLF L c = (c == 13 || c == 10) := by
  simp [followed, CRLF, text, ascii, first, nullable]

/-! ## The request line -/

/-- A method with a name of upper-case letters is in the table. -/
theorem httpMethodToString_mem (m : HttpMethod)
    (h : ∀ c ∈ httpMethodToString m, upper c = true) :
    (m, httpMethodToString m) ∈ httpMethodMap := by
  cases hfind : httpMethodMap.find? (fun e => e.1 = m) with
  | none =>
      have hunknown : httpMethodToString m = ascii "<unknown>" := by rw [httpMethodToString, hfind]
      rw [hunknown] at h
      exact absurd h (by decide)
  | some e =>
      have hname : e.1 = m := by simpa using List.find?_some hfind
      have hstring : httpMethodToString m = e.2 := by rw [httpMethodToString, hfind]
      rw [hstring, ← hname]
      exact List.mem_of_find?_eq_some hfind

/-- A method as the grammar has it. -/
structure MethodToken (t : List UInt8) : Prop where
  nonempty : t ≠ []
  length : t.length ≤ 20
  chars : ∀ c ∈ t, (upper c || digit c) = true

theorem methodToken_name (m : HttpMethod) (h : ∀ c ∈ httpMethodToString m, upper c = true) :
    MethodToken (httpMethodToString m) := by
  have htable : (httpMethodMap.all fun e => !e.2.isEmpty && decide (e.2.length ≤ 20)) = true := by
    decide
  have hentry := List.all_eq_true.1 htable _ (httpMethodToString_mem m h)
  simp only [Bool.and_eq_true, Bool.not_eq_true', List.isEmpty_eq_false_iff,
    decide_eq_true_eq] at hentry
  refine ⟨hentry.1, hentry.2, fun c hc => ?_⟩
  rw [h c hc, Bool.true_or]

theorem followed_afterMethod (relaxed : Bool) (L : UInt8 → Bool) (c : UInt8) :
    followed (afterMethod relaxed) L c = (c == 32) := by
  simp [followed, afterMethod, cat, text, ascii, first, nullable]

theorem reads_token (relaxed : Bool) (L : UInt8 → Bool) (t : List UInt8) (h : MethodToken t) :
    Reads method (followed (afterMethod relaxed) L) t (some 32) (piece [Action.mark] t)
      [.requestMethod] := by
  rcases List.exists_cons_of_ne_nil h.nonempty with ⟨c, w, rfl⟩
  have hlength := h.length
  rw [List.length_cons, Nat.add_le_add_iff_right] at hlength
  have hname : Reads methodName (followed (afterMethod relaxed) L) (c :: w) (some 32)
      (piece [] (c :: w)) [] := by
    refine reads_upTo _ _ 19 c w _ hlength h.chars ?_ rfl
    intro d hd
    rw [followed_afterMethod, beq_eq_false_iff_ne]
    rintro rfl
    cases hd
  have hboth := (hname.enter .mark).leave .requestMethod
  rw [tag_plain] at hboth
  exact hboth

theorem reads_method (relaxed : Bool) (L : UInt8 → Bool) (m : HttpMethod)
    (h : ∀ c ∈ httpMethodToString m, upper c = true) :
    Reads method (followed (afterMethod relaxed) L) (httpMethodToString m) (some 32)
      (piece [Action.mark] (httpMethodToString m)) [.requestMethod] :=
  reads_token relaxed L _ (methodToken_name m h)

/-- A query, as it is printed. -/
def queryText (q : List UInt8) : List UInt8 := if q = [] then [] else 63 :: q

/-- A fragment, as it is printed. -/
def fragmentText (f : List UInt8) : List UInt8 := if f = [] then [] else 35 :: f

/-- The actions on a path and a query. -/
def targetTrace (path q : List UInt8) : List (List Action) :=
  piece [Action.mark] path ++ if q = [] then []
    else piece [Action.requestPath] [(63 : UInt8)] ++ piece [Action.startQuery] q

/-- The actions on the byte behind them. -/
def targetOut (q : List UInt8) : List Action :=
  if q = [] then [.requestPath, .requestUri] else [.queryString, .requestUri]

/-- The bytes that can stand behind a path and a query. -/
def behindTarget : UInt8 → Bool := fun c => c == 35 || c == 32

theorem followed_fragmentPart (relaxed : Bool) :
    followed (fragmentPart relaxed) (· == 32) = behindTarget := by
  funext c
  simp [followed, fragmentPart, Machine.opt, text, ascii, first, nullable, behindTarget]

/-- `( "?" %start_query query )?`. -/
def queryPart (relaxed : Bool) : Rule :=
  Machine.opt (.seq (.leave .startQuery (text "?")) (query relaxed))

theorem followed_queryPart (relaxed : Bool) (c : UInt8) :
    followed (queryPart relaxed) behindTarget c = (c == 63 || behindTarget c) := by
  simp [followed, queryPart, Machine.opt, text, ascii, first, nullable, behindTarget]

/-- The bytes of a word are not those that the expression does not take. -/
theorem ne_of_accepts (m : Rule) (w : List UInt8) (b : UInt8) (h : accepts m w = true)
    (hb : takes m (some b) = false) : ∀ c ∈ w, (c == b) = false := by
  intro c hc
  rw [beq_eq_false_iff_ne]
  rintro rfl
  rw [takes_of_accepts m true .idle w h c hc] at hb
  cases hb

theorem reads_queryPart (relaxed : Bool) (q : List UInt8) (next : UInt8)
    (hnext : behindTarget next = true) (hne : q ≠ [])
    (h : accepts (query relaxed) q = true) :
    Reads (queryPart relaxed) behindTarget (63 :: q) (some next)
      (piece [] [(63 : UInt8)] ++ piece [Action.startQuery] q) [.queryString] := by
  have hq : Reads (query relaxed) behindTarget q (some next) (piece [] q) [.queryString] := by
    refine (Reads.plain (Machine.star (oneRuleOf [pchar relaxed, text "/", text "?"])) _ _ _ ?_
      ?_ ?_ ?_).leave .queryString
    · cases relaxed <;> rfl
    · rw [accepts, query, moves_leave, final_leave] at h
      exact h
    · intro c hc
      rw [behindTarget, ne_of_accepts _ q 35 h (by cases relaxed <;> decide) c hc,
        ne_of_accepts _ q 32 h (by cases relaxed <;> decide) c hc]
      rfl
    · rw [behindTarget, Bool.or_eq_true, beq_iff_eq, beq_iff_eq] at hnext
      rcases hnext with rfl | rfl <;> cases relaxed <;> decide
  rcases List.exists_cons_of_ne_nil hne with ⟨c, w, rfl⟩
  have hmark : Reads (.leave .startQuery (text "?") : Rule) (followed (query relaxed) behindTarget)
      [63] (some c) (piece [] [63]) [.startQuery] := (reads_byte 63 _ _).leave .startQuery
  have hseq := hmark.seq hq
  rw [tag_plain] at hseq
  exact hseq.alt_left rfl rfl

theorem reads_target (relaxed : Bool) (path q : List UInt8) (next : UInt8)
    (hnext : behindTarget next = true) (hpath : accepts (relativePart relaxed) path = true)
    (hq : q = [] ∨ accepts (query relaxed) q = true) :
    Reads (target relaxed (relativePart relaxed)) behindTarget (path ++ queryText q) (some next)
      (targetTrace path q) (targetOut q) := by
  have hplain : (relativePart relaxed).embedded = [] := by cases relaxed <;> decide
  have hL : ∀ c ∈ path, followed (queryPart relaxed) behindTarget c = false := by
    intro c hc
    rw [followed_queryPart, behindTarget,
      ne_of_accepts _ path 63 hpath (by cases relaxed <;> decide) c hc,
      ne_of_accepts _ path 35 hpath (by cases relaxed <;> decide) c hc,
      ne_of_accepts _ path 32 hpath (by cases relaxed <;> decide) c hc]
    rfl
  by_cases hnil : q = []
  · subst hnil
    have hor : next = 35 ∨ next = 32 := by
      rwa [behindTarget, Bool.or_eq_true, beq_iff_eq, beq_iff_eq] at hnext
    have hread : Reads (.leave .requestPath (relativePart relaxed))
        (followed (queryPart relaxed) behindTarget) path (some next) (piece [] path)
        [.requestPath] :=
      (Reads.plain _ _ path _ hplain hpath hL
        (by rcases hor with rfl | rfl <;> cases relaxed <;> decide)).leave .requestPath
    have hseq : Reads (.seq (.leave .requestPath (relativePart relaxed)) (queryPart relaxed))
        behindTarget path (some next) (piece [] path) [.requestPath] :=
      hread.seq_empty rfl
        (by rcases hor with rfl | rfl <;> cases relaxed <;> decide)
        (by rcases hor with rfl | rfl <;> cases relaxed <;> decide)
    rw [queryText, targetTrace, targetOut, if_pos rfl, if_pos rfl, if_pos rfl, List.append_nil,
      List.append_nil]
    have hboth := (hseq.enter .mark).leave .requestUri
    rw [tag_plain] at hboth
    exact hboth
  · have haccepts := hq.resolve_left hnil
    have hread : Reads (.leave .requestPath (relativePart relaxed))
        (followed (queryPart relaxed) behindTarget) path (some 63) (piece [] path)
        [.requestPath] :=
      (Reads.plain _ _ path _ hplain hpath hL (by cases relaxed <;> decide)).leave
        .requestPath
    have hseq := hread.seq (reads_queryPart relaxed q next hnext hnil haccepts)
    rw [tag_piece _ _ _ _ (List.cons_ne_nil _ _)] at hseq
    have hboth := (hseq.enter .mark).leave .requestUri
    rw [tag_piece _ _ _ _ hread.ne_nil] at hboth
    rw [queryText, targetTrace, targetOut, if_neg hnil, if_neg hnil, if_neg hnil]
    exact hboth

/-- The actions on a fragment and on the byte in front of it. -/
def fragmentTrace (out : List Action) (f : List UInt8) : List (List Action) :=
  if f = [] then [] else piece out [(35 : UInt8)] ++ piece [Action.mark] f

/-- The actions on the byte behind a fragment, if there is one. -/
def fragmentOut (out : List Action) (f : List UInt8) : List Action :=
  if f = [] then out else [.fragment]

theorem reads_fragmentPart (relaxed : Bool) (f : List UInt8) (hne : f ≠ [])
    (h : accepts (fragment relaxed) f = true) :
    Reads (fragmentPart relaxed) (· == 32) (35 :: f) (some 32)
      (piece [] [(35 : UInt8)] ++ piece [Action.mark] f) [.fragment] := by
  have hf : Reads (fragment relaxed) (· == 32) f (some 32) (piece [Action.mark] f) [.fragment] := by
    have hplain : Reads (Machine.star (oneRuleOf [pchar relaxed, text "/", text "?"])) (· == 32) f
        (some 32) (piece [] f) [] := by
      refine Reads.plain _ _ _ _ (by cases relaxed <;> rfl) ?_
        (ne_of_accepts _ f 32 h (by cases relaxed <;> decide))
        (by cases relaxed <;> decide)
      rw [accepts, fragment, moves_leave, final_leave, moves_enter, final_enter] at h
      exact h
    have hboth := (hplain.enter .mark).leave .fragment
    rw [tag_plain] at hboth
    exact hboth
  rcases List.exists_cons_of_ne_nil hne with ⟨c, w, rfl⟩
  have hseq := (reads_byte 35 (followed (fragment relaxed) (· == 32)) (some c)).seq hf
  rw [tag_nil] at hseq
  exact hseq.alt_left rfl rfl

theorem reads_relativeRef (relaxed : Bool) (path q f : List UInt8)
    (hpath : accepts (relativePart relaxed) path = true)
    (hq : q = [] ∨ accepts (query relaxed) q = true)
    (hf : f = [] ∨ accepts (fragment relaxed) f = true) :
    Reads (relativeRef relaxed) (· == 32) (path ++ queryText q ++ fragmentText f) (some 32)
      (targetTrace path q ++ fragmentTrace (targetOut q) f) (fragmentOut (targetOut q) f) := by
  by_cases hnil : f = []
  · have htarget := reads_target relaxed path q 32 rfl hpath hq
    rw [← followed_fragmentPart relaxed] at htarget
    rw [fragmentText, fragmentTrace, fragmentOut, if_pos hnil, if_pos hnil, if_pos hnil,
      List.append_nil, List.append_nil]
    exact htarget.seq_empty rfl (by cases relaxed <;> decide)
      (by cases relaxed <;> decide)
  · have htarget := reads_target relaxed path q 35 rfl hpath hq
    rw [← followed_fragmentPart relaxed] at htarget
    have hseq := htarget.seq (reads_fragmentPart relaxed f hnil (hf.resolve_left hnil))
    rw [tag_piece _ _ _ _ (List.cons_ne_nil _ _), List.append_nil] at hseq
    rw [fragmentText, fragmentTrace, fragmentOut, if_neg hnil, if_neg hnil, if_neg hnil]
    exact hseq

/-- The bytes of a version. -/
def versionText (v : UInt8) : List UInt8 :=
  ascii "HTTP/" ++ printed (v >>> 4).toNat ++ ascii "." ++ printed (v &&& 0x0F).toNat

theorem reads_httpVersion (L : UInt8 → Bool) (v : UInt8) (h : v = 0x10 ∨ v = 0x11) :
    Reads httpVersion (followed CRLF L) (versionText v) (some 13)
      (piece [Action.mark] (versionText v)) [.httpVersion] := by
  have hplain : Reads (.seq (text "HTTP/") httpNumber) (followed CRLF L) (versionText v) (some 13)
      (piece [] (versionText v)) [] := by
    refine Reads.plain _ _ _ _ rfl ?_ ?_ rfl
    · rcases h with rfl | rfl <;> decide
    · intro c hc
      rw [followed_CRLF]
      revert c
      rcases h with rfl | rfl <;> decide +kernel
  have hboth := (hplain.enter .mark).leave .httpVersion
  rw [tag_plain] at hboth
  exact hboth

/-- The end of a request line: the version behind a space, and the end of the line. -/
def afterUri : Rule := cat [text " ", httpVersion, CRLF]

theorem reads_afterUri (L : UInt8 → Bool) (next : Option UInt8) (v : UInt8)
    (h : v = 0x10 ∨ v = 0x11) :
    Reads afterUri L (32 :: (versionText v ++ [13, 10])) next
      (piece [] [(32 : UInt8)] ++ (piece [Action.mark] (versionText v) ++
        piece [Action.httpVersion] [(13 : UInt8), 10])) [] := by
  have hversion := (reads_httpVersion L v h).seq (reads_CRLF L next)
  rw [tag_plain] at hversion
  rcases List.exists_cons_of_ne_nil hversion.ne_nil with ⟨b, w, hw⟩
  rw [hw] at hversion
  have hseq := (reads_byte 32 (followed (.seq httpVersion CRLF) L) (some b)).seq hversion
  rw [tag_nil, ← hw] at hseq
  exact hseq

/-- A request line as it is printed. -/
def lineText (r : HttpRequest) : List UInt8 :=
  httpMethodToString r.method ++ (32 :: (r.path ++ queryText r.query ++ fragmentText r.fragment
    ++ 32 :: (versionText r.version ++ [13, 10])))

/-- The actions on it. -/
def lineTrace (r : HttpRequest) : List (List Action) :=
  piece [Action.mark] (httpMethodToString r.method) ++ (piece [Action.requestMethod] [(32 : UInt8)]
    ++ (targetTrace r.path r.query ++ fragmentTrace (targetOut r.query) r.fragment
      ++ (piece (fragmentOut (targetOut r.query) r.fragment) [(32 : UInt8)]
        ++ (piece [Action.mark] (versionText r.version)
          ++ piece [Action.httpVersion] [(13 : UInt8), 10]))))

theorem reads_uriReference (relaxed : Bool) (L : UInt8 → Bool) (path q f : List UInt8)
    (hslash : path.head? = some 47) (hpath : accepts (relativePart relaxed) path = true)
    (hq : q = [] ∨ accepts (query relaxed) q = true)
    (hf : f = [] ∨ accepts (fragment relaxed) f = true) :
    Reads (uriReference relaxed) (followed afterUri L) (path ++ queryText q ++ fragmentText f)
      (some 32) (targetTrace path q ++ fragmentTrace (targetOut q) f)
      (fragmentOut (targetOut q) f) := by
  have hL : followed afterUri L = (· == 32) := by
    funext c
    simp [followed, afterUri, cat, text, ascii, first, nullable]
  have href := reads_relativeRef relaxed path q f hpath hq hf
  -- A path that starts with a slash is not a scheme.
  rcases path with _ | ⟨b, w⟩
  · cases hslash
  · cases hslash
    rw [hL]
    exact href.alt_right (by cases relaxed <;> decide) (by cases relaxed <;> decide)

/-- A request line that the grammar has. -/
structure LineOk (relaxed : Bool) (r : HttpRequest) : Prop where
  method : ∀ c ∈ httpMethodToString r.method, upper c = true
  version : r.version = 0x10 ∨ r.version = 0x11
  slash : r.path.head? = some 47
  path : accepts (relativePart relaxed) r.path = true
  query : r.query = [] ∨ accepts (query relaxed) r.query = true
  fragment : r.fragment = [] ∨ accepts (fragment relaxed) r.fragment = true

theorem reads_requestLine (relaxed : Bool) (L : UInt8 → Bool) (next : Option UInt8)
    (r : HttpRequest) (h : LineOk relaxed r) :
    Reads (requestLine relaxed) L (lineText r) next (lineTrace r) [] := by
  have huri := (reads_uriReference relaxed L r.path r.query r.fragment h.slash h.path h.query
    h.fragment).seq (reads_afterUri L next r.version h.version)
  rw [tag_piece _ _ _ _ (List.cons_ne_nil _ _), List.append_nil] at huri
  rcases List.exists_cons_of_ne_nil huri.ne_nil with ⟨b, w, hw⟩
  rw [hw] at huri
  have hspace := (reads_byte 32 (followed (.seq (uriReference relaxed) afterUri) L) (some b)).seq
    huri
  rw [tag_nil, ← hw] at hspace
  have hseq := (reads_method relaxed L r.method h.method).seq hspace
  rw [tag_piece _ _ _ _ (List.cons_ne_nil _ _)] at hseq
  exact hseq

/-! ## Fields -/

theorem followed_afterName (L : UInt8 → Bool) (c : UInt8) :
    followed afterName L c = (c == 58) := by
  simp [followed, afterName, cat, text, ascii, first, nullable]

theorem reads_fieldName (L : UInt8 → Bool) (k : List UInt8) (hne : k ≠ [])
    (h : ∀ c ∈ k, token c = true) :
    Reads fieldName (followed afterName L) k (some 58) (piece [Action.startField] k)
      [.writeField] := by
  have hplain : Reads (Machine.plus (.chars token) : Rule) (followed afterName L) k (some 58)
      (piece [] k) [] := by
    refine Reads.plain _ _ _ _ rfl (accepts_plus_chars token k hne h) ?_ (by decide)
    intro c hc
    rw [followed_afterName, beq_eq_false_iff_ne]
    rintro rfl
    exact absurd (h 58 hc) (by decide)
  have hboth := (hplain.enter .startField).leave .writeField
  rw [tag_plain] at hboth
  exact hboth

/-- A byte that is no control character. -/
def printable (c : UInt8) : Bool := decide (31 < c.toNat) && !(c == 127)

theorem httpCtl_printable (c : UInt8) (h : printable c = true) : httpCtl c = false := by
  rw [printable, Bool.and_eq_true, decide_eq_true_eq, Bool.not_eq_true'] at h
  rw [httpCtl, h.2, Bool.or_false]
  have hne : (c == 0) = false := by
    rw [beq_eq_false_iff_ne]
    rintro rfl
    exact absurd h.1 (by decide)
  rw [hne, Bool.false_and]

theorem followed_printable (L : UInt8 → Bool) (c : UInt8) (h : printable c = true) :
    followed CRLF L c = false := by
  rw [followed_CRLF, Bool.or_eq_false_iff, beq_eq_false_iff_ne, beq_eq_false_iff_ne]
  constructor <;> rintro rfl <;> exact absurd h (by decide)

/-- The actions of a value. -/
theorem fires_fieldValue (entered left : Bool) (s : Live) (c : Option UInt8) :
    fires fieldValue entered left s c =
      (if entered && (first content c || left) then [.startValue] else []) ++
        if left && (final fieldValue s || entered) then [.writeValue] else [] := by
  have hnull : nullable (.enter .startValue (Machine.star content) : Rule) = true := rfl
  have hnull' : nullable (Machine.star content : Rule) = true := rfl
  have hfirst : first (Machine.star content) c = first content c := rfl
  rw [fieldValue, fires_leave, fires_enter, fires_plain _ rfl, List.append_nil, hnull, hnull',
    hfirst, Bool.true_and, Bool.and_true, final_leave]

/-- A byte of a value can be the last one. -/
theorem final_fieldValue (entered : Bool) (s : Live) (c : UInt8) (h : httpCtl c = false)
    (hs : (entered || final fieldValue s) = true) :
    final fieldValue (shift fieldValue entered s (some c)) = true := by
  rw [fieldValue, final_leave, final_enter, final_star] at hs ⊢
  rw [shift_leave, shift_enter, shift_star, hs, content, shift_alt, final_alt, left_join,
    shift_chars]
  simp [h, final]

/-- The bytes of a value behind the first. -/
theorem value_run (L : UInt8 → Bool) (w : List UInt8) (s : Live) (hs : final fieldValue s = true)
    (hctl : ∀ c ∈ w, httpCtl c = false) (hL : ∀ c ∈ w, L c = false) :
    does fieldValue L false s w = List.replicate w.length [] ∧
      final fieldValue (moves fieldValue false s w) = true := by
  induction w generalizing s with
  | nil => exact ⟨rfl, hs⟩
  | cons c w ih =>
      rcases ih (shift fieldValue false s (some c))
        (final_fieldValue false s c (hctl c List.mem_cons_self) hs)
        (fun d hd => hctl d (List.mem_cons_of_mem _ hd))
        (fun d hd => hL d (List.mem_cons_of_mem _ hd)) with ⟨hdoes, hmoves⟩
      refine ⟨?_, hmoves⟩
      rw [does, hdoes, fires_fieldValue, hL c List.mem_cons_self, List.length_cons,
        List.replicate_succ]
      rfl

/-- A value behind what may stand in front of it. -/
def valuePart : Rule := .seq (Machine.star lws) fieldValue

/-- The positions behind the space in front of a value. -/
def afterSpace : Live := shift valuePart true .idle (some 32)

theorem takes_lws (c : UInt8) (h : printable c = true) (hblank : c ≠ 32) :
    takes lws (some c) = false := by
  have hcr : c ≠ 13 := by
    rintro rfl
    exact absurd h (by decide)
  have hlf : c ≠ 10 := by
    rintro rfl
    exact absurd h (by decide)
  have htab : c ≠ 9 := by
    rintro rfl
    exact absurd h (by decide)
  simp [takes, lws, Machine.opt, Machine.plus, CRLF, text, ascii, hblank, hcr, hlf, htab]

/-- The space is a blank in front of the value and could be its first byte. The next
    byte is no blank, so it starts the value again. -/
theorem value_start (c : UInt8) (h : printable c = true) (hblank : c ≠ 32) :
    shift valuePart false afterSpace (some c) =
        .join .idle (shift fieldValue true afterSpace.right (some c)) ∧
      fires valuePart false false afterSpace (some c) = [.startValue] := by
  have hinto : into (Machine.star lws) false afterSpace = true := by decide
  have hcontent : first content (some c) = true := by
    simp [content, first, httpCtl_printable c h]
  rw [valuePart, shift_seq, fires_seq, hinto, fires_plain (Machine.star lws) rfl,
    shift_not_takes (Machine.star lws) _ _ _ (takes_lws c h hblank), fires_fieldValue, hcontent]
  exact ⟨rfl, rfl⟩

/-- The actions behind a value. An empty value starts where it ends. -/
def valueOut (v : List UInt8) : List Action :=
  if v = [] then [.startValue, .writeValue] else [.writeValue]

theorem reads_valuePart (L : UInt8 → Bool) (v : List UInt8) (h : ∀ c ∈ v, printable c = true)
    (hblank : v.head? ≠ some 32) :
    Reads valuePart (followed CRLF L) (32 :: v) none
      (piece [Action.startValue] [(32 : UInt8)] ++ piece [Action.startValue] v) (valueOut v) := by
  have hspace : followed CRLF L 32 = false := followed_printable L 32 rfl
  have hfirst : fires valuePart true false .idle (some 32) = [.startValue] := by decide
  have hstays : Stays valuePart (followed CRLF L) true .idle (32 :: v) := by
    refine stays_of_disjoint _ _ _ _ _ ?_
    intro c hc
    rcases List.mem_cons.1 hc with rfl | hc
    · exact hspace
    · exact followed_printable L c (h c hc)
  cases v with
  | nil =>
      refine ⟨?_, by decide, hstays, by decide, shift_none _ _ _⟩
      rw [does, hspace, hfirst]
      rfl
  | cons c w =>
      have hc : printable c = true := h c List.mem_cons_self
      have hstart : shift valuePart true .idle (some 32) = afterSpace := rfl
      rcases value_start c hc (fun heq => hblank (congrArg some heq)) with ⟨hstep, hfires⟩
      have hfinal : final fieldValue (shift fieldValue true afterSpace.right (some c)) = true :=
        final_fieldValue true _ c (httpCtl_printable c hc) rfl
      rcases value_run (followed CRLF L) w _ hfinal
        (fun d hd => httpCtl_printable d (h d (List.mem_cons_of_mem _ hd)))
        (fun d hd => followed_printable L d (h d (List.mem_cons_of_mem _ hd))) with ⟨hdoes, hlast⟩
      rcases seq_second (Machine.star lws) fieldValue (followed CRLF L)
        (.join .idle (shift fieldValue true afterSpace.right (some c))) w (left_join _ _) with
        ⟨hleft, hright, hdoes', -⟩
      rw [right_join, ← valuePart] at hright hdoes'
      rw [← valuePart] at hleft
      have hmoves : moves valuePart true .idle (32 :: c :: w) =
          moves valuePart false (.join .idle (shift fieldValue true afterSpace.right (some c)))
            w := by
        rw [moves, moves, hstart, hstep]
      have hinto := into_over (Machine.star lws) (moves valuePart true .idle (32 :: c :: w))
        (by rw [hmoves, hleft])
      refine ⟨?_, ?_, hstays, ?_, shift_none _ _ _⟩
      · rw [does, does, hspace, followed_printable L c hc, hfirst, hstart, hfires, hstep, hdoes',
          hdoes]
        rfl
      · rw [hmoves, valuePart, final_seq, ← valuePart, hright, hlast]
        rfl
      · rw [valuePart, fires_seq, ← valuePart, hinto, fires_plain (Machine.star lws) rfl, hmoves,
          hright, fires_fieldValue, hlast]
        rfl

/-- A header that the grammar has. Its control characters are not those of
    ASCII, so a line end can be part of a name, but not its start. -/
structure FieldOk (e : List UInt8 × List UInt8) : Prop where
  name : e.1 ≠ []
  token : ∀ c ∈ e.1, token c = true
  start : e.1.head? ≠ some 13 ∧ e.1.head? ≠ some 10
  value : ∀ c ∈ e.2, printable c = true
  blank : e.2.head? ≠ some 32

/-- A header as it is printed. -/
def fieldText (e : List UInt8 × List UInt8) : List UInt8 :=
  e.1 ++ 58 :: 32 :: e.2 ++ [13, 10]

/-- The actions on it. -/
def fieldTrace (e : List UInt8 × List UInt8) : List (List Action) :=
  piece [Action.startField] e.1 ++ (piece [Action.writeField] [(58 : UInt8)] ++
    (piece [Action.startValue] [(32 : UInt8)] ++ piece [Action.startValue] e.2)) ++
    piece (valueOut e.2) [(13 : UInt8), 10]

theorem reads_messageHeader (L : UInt8 → Bool) (next : Option UInt8)
    (e : List UInt8 × List UInt8) (h : FieldOk e) :
    Reads messageHeader L (fieldText e) next (fieldTrace e) [] ∧
      (moves messageHeader true .idle (fieldText e)).left = .idle ∧
      (moves messageHeader true .idle (fieldText e)).right = lineEnd false true false := by
  have hvalue := (reads_byte 58 (followed valuePart (followed CRLF L)) (some 32)).seq
    (reads_valuePart L e.2 h.value h.blank)
  rw [tag_nil] at hvalue
  have hfield := (reads_fieldName (followed CRLF L) e.1 h.name h.token).seq hvalue
  rw [tag_piece _ _ _ _ (List.cons_ne_nil _ _), List.append_nil] at hfield
  have hguard := hfield.entryGuard (reads_CRLF L next)
  rw [tag_plain] at hguard
  exact hguard

/-- Behind a header, the next one starts as the first does. -/
theorem restarts_messageHeader (s : Live) (hleft : s.left = .idle)
    (hright : s.right = lineEnd false true false) : Restarts messageHeader s := by
  intro c left
  have hinto : ∀ t : Live, t.left = .idle → into field true t = false := by
    intro t ht
    rw [into, ht, final_idle]
    rfl
  have hbyte : ∀ t : Live, t.left = .idle → fieldByte true t c = c := by
    intro t ht
    rw [fieldByte, hinto t ht]
    rfl
  refine ⟨?_, ?_⟩
  · rw [shift_messageHeader, shift_messageHeader, hbyte s hleft, hbyte .idle rfl, hinto s hleft,
      hinto .idle rfl, hleft, hright, shift_lineEnd, left_idle, right_idle, shift_idle]
  · rw [messageHeader, fires_entryGuard, fires_entryGuard, fires_plain CRLF rfl,
      fires_plain CRLF rfl]
    have hs := hinto s hleft
    have hidle := hinto .idle rfl
    rw [field] at hs hidle
    rw [hs, hidle, hleft, left_idle]

/-- The actions on the end of a request: its first byte could start a name. -/
def endTrace : List (List Action) := [[.startField], []]

theorem reads_headers (es : List (List UInt8 × List UInt8)) (h : ∀ e ∈ es, FieldOk e) :
    does headers (fun _ => false) true .idle (es.flatMap fieldText ++ [13, 10]) =
        es.flatMap fieldTrace ++ endTrace ∧
      Unfinished headers true .idle (es.flatMap fieldText ++ [13]) ∧
      final headers (moves headers true .idle (es.flatMap fieldText ++ [13, 10])) = true := by
  induction es with
  | nil => exact ⟨by decide, ⟨by decide, trivial⟩, by decide⟩
  | cons e es ih =>
      have he := h e List.mem_cons_self
      rcases ih (fun e' he' => h e' (List.mem_cons_of_mem _ he')) with ⟨hdoes, hunf, hfinal⟩
      rcases reads_messageHeader (again messageHeader (followed CRLF (fun _ => false))) none e he
        with ⟨hread, hleft, hright⟩
      have hrestarts := restarts_messageHeader _ hleft hright
      rcases List.exists_cons_of_ne_nil hread.ne_nil with ⟨b, u, hu⟩
      have hb : followed CRLF (fun _ => false) b = false := by
        have hhead : e.1.head? = some b := by
          rcases List.exists_cons_of_ne_nil he.name with ⟨c, k, hk⟩
          rw [fieldText, hk] at hu
          rw [hk]
          exact congrArg List.head? hu
        rw [followed_CRLF, Bool.or_eq_false_iff, beq_eq_false_iff_ne, beq_eq_false_iff_ne]
        constructor
        · rintro rfl
          exact he.start.1 hhead
        · rintro rfl
          exact he.start.2 hhead
      rw [hu] at hread hrestarts
      rw [List.flatMap_cons, List.flatMap_cons, hu, List.append_assoc, List.append_assoc,
        List.append_assoc]
      -- What is behind the header is not empty, whether it is another one or the end.
      rcases List.exists_cons_of_ne_nil (List.append_ne_nil_of_right_ne_nil
        (es.flatMap fieldText) (List.cons_ne_nil (13 : UInt8) [10])) with ⟨c, v, hv⟩
      rcases List.exists_cons_of_ne_nil (List.append_ne_nil_of_right_ne_nil
        (es.flatMap fieldText) (List.cons_ne_nil (13 : UInt8) [])) with ⟨c', v', hv'⟩
      rw [hv] at hdoes hfinal ⊢
      rw [hv'] at hunf ⊢
      rcases rounds_more hread hrestarts hb c v with ⟨hdoes₁, hmoves₁, -⟩
      rcases rounds_more hread hrestarts hb c' v' with ⟨-, -, hunf₁⟩
      refine ⟨?_, hunf₁ rfl hunf, ?_⟩
      · rw [headers] at hdoes ⊢
        rw [hdoes₁, hdoes]
      · rw [headers] at hfinal ⊢
        rw [hmoves₁]
        exact hfinal

/-! ## The header block -/

/-- A header block as it is printed. -/
def headText (r : HttpRequest) (es : List (List UInt8 × List UInt8)) : List UInt8 :=
  lineText r ++ (es.flatMap fieldText ++ [13, 10])

/-- The actions on it. -/
def headTrace (r : HttpRequest) (es : List (List UInt8 × List UInt8)) : List (List Action) :=
  lineTrace r ++ (es.flatMap fieldTrace ++ [[.startField], [.done]])

theorem trace_eq_does (relaxed : Bool) (cs : Cs) (w : List UInt8) :
    trace relaxed cs w = does (main relaxed) (fun _ => false) cs.entered cs.live w := by
  induction w generalizing cs with
  | nil => rfl
  | cons c w ih =>
      rw [trace, does, ih]
      rfl

/-- No other protocol starts like a method. -/
theorem first_socketRequest (relaxed : Bool) (c : UInt8) (h : (upper c || digit c) = true) :
    first (socketRequest relaxed) (some c) = false := by
  have hxml : c ≠ 60 := by
    rintro rfl
    exact absurd h (by decide)
  have hjson : c ≠ 64 := by
    rintro rfl
    exact absurd h (by decide)
  simp [socketRequest, socketXML, socketXMLData, socketJSON, socketJSONStart, cat, text, ascii,
    first, nullable, hxml, hjson]

theorem reads_request (relaxed : Bool) (r : HttpRequest) (es : List (List UInt8 × List UInt8))
    (hline : LineOk relaxed r) (h : ∀ e ∈ es, FieldOk e) :
    does (request relaxed) (fun _ => false) true .idle (headText r es) =
        lineTrace r ++ (es.flatMap fieldTrace ++ endTrace) ∧
      Unfinished (request relaxed) true .idle (lineText r ++ (es.flatMap fieldText ++ [13])) ∧
      final (request relaxed) (moves (request relaxed) true .idle (headText r es)) = true := by
  rcases reads_headers es h with ⟨hdoes, hunf, hfinal⟩
  rcases List.exists_cons_of_ne_nil (List.append_ne_nil_of_right_ne_nil
    (es.flatMap fieldText) (List.cons_ne_nil (13 : UInt8) [10])) with ⟨b, v, hv⟩
  rcases List.exists_cons_of_ne_nil (List.append_ne_nil_of_right_ne_nil
    (es.flatMap fieldText) (List.cons_ne_nil (13 : UInt8) [])) with ⟨b', v', hv'⟩
  rw [headText]
  rw [hv] at hdoes hfinal ⊢
  rw [hv'] at hunf ⊢
  have hread := reads_requestLine relaxed (followed headers (fun _ => false)) (some b) r hline
  have hread' := reads_requestLine relaxed (followed headers (fun _ => false)) (some b') r hline
  refine ⟨?_, hread'.unfinished_seq rfl v' hunf, ?_⟩
  · rw [request, hread.does_seq (first_of_accepts headers b v hfinal), tag_nil, hdoes]
  · rw [request, final_seq, (hread.moves_seq v).2, hfinal]
    rfl

/-- The actions on a printed header block, and the state behind it. -/
theorem trace_headText (relaxed : Bool) (r : HttpRequest) (es : List (List UInt8 × List UInt8))
    (hline : LineOk relaxed r) (h : ∀ e ∈ es, FieldOk e) :
    trace relaxed .start (headText r es) = headTrace r es ∧
      final (main relaxed) (moves (main relaxed) true .idle (headText r es)) = true := by
  rcases reads_request relaxed r es hline h with ⟨hdoes, hunf, hfinal⟩
  -- The block starts with the method, so the other protocols are out.
  rcases List.exists_cons_of_ne_nil (reads_method relaxed (fun _ => false) r.method
    hline.method).ne_nil with ⟨b, w, hw⟩
  have hfirst : first (socketRequest relaxed) (some b) = false :=
    first_socketRequest relaxed b
      ((methodToken_name r.method hline.method).chars b (by rw [hw]; exact List.mem_cons_self))
  have hhead : ∀ tail, lineText r ++ tail =
      b :: (w ++ ((lineText r).drop (w.length + 1) ++ tail)) := by
    intro tail
    rw [lineText, hw]
    simp
  have hsplit : headText r es = lineText r ++ (es.flatMap fieldText ++ [13]) ++ [10] := by
    rw [headText]
    simp
  have hnull : nullable (socketRequest relaxed) = false := by cases relaxed <;> rfl
  rcases alt_first (request relaxed) (socketRequest relaxed) (fun _ => false) b
    (w ++ ((lineText r).drop (w.length + 1) ++ (es.flatMap fieldText ++ [13, 10]))) hfirst
    (by rw [hnull]; rfl) with ⟨hdoes', hleft, -⟩
  rw [← hhead, ← headText] at hdoes' hleft
  have hfinal' : final (.alt (request relaxed) (socketRequest relaxed))
      (moves (.alt (request relaxed) (socketRequest relaxed)) true .idle (headText r es)) =
        true := by
    rw [final_alt, hleft, hfinal]
    rfl
  have hunf' : Unfinished (.alt (request relaxed) (socketRequest relaxed)) true .idle
      (lineText r ++ (es.flatMap fieldText ++ [13])) := by
    refine unfinished_alt _ _ _ _ _ right_idle ?_ hunf
    intro _ c hc
    rw [hhead] at hc
    cases hc
    exact hfirst
  refine ⟨?_, ?_⟩
  · have htrace : does (.alt (request relaxed) (socketRequest relaxed)) (fun _ => false) true .idle
        (lineText r ++ (es.flatMap fieldText ++ [13]) ++ [10]) =
        (lineTrace r ++ (es.flatMap fieldTrace ++ [[.startField]])) ++ [[]] := by
      rw [← hsplit, hdoes', hdoes, endTrace]
      simp
    rw [trace_eq_does, hsplit]
    refine (finish_last .done _ _ _ 10 _ _ ?_ hunf' (by rw [← hsplit]; exact hfinal')
      htrace).trans ?_
    · rw [hhead]
      exact List.cons_ne_nil _ _
    · rw [headTrace]
      simp
  · rw [main, final_finish, moves_finish]
    exact hfinal'

end HttpParser

end YkServer
