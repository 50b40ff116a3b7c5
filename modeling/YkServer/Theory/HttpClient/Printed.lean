import YkServer.Core.HttpClientParser
import YkServer.Lib.Alternatives
import YkServer.Theory.Util.Decimal

/-!
# What the Machine Does on a Printed Response

The actions of the machine of `httpclient_parser.rl` on the header block that
`HttpResponse::dump` prints.

The machine has four alternatives for a header: one for every header, and three for the headers
that it knows by name. On a header with a value the three do nothing that the first does not do
on the same byte, whether the name is theirs or only starts like it, and whether the value is the
one they know or not. So each header is executed as if there were only the first alternative.
A header without a value must not have one of the three names.

## Main definitions

* `FieldOk`: Headers that arrive as they are.
* `fieldText`, `fieldTrace`: A header, and the actions on it.
* `headText`, `headTrace`: The header block, and the actions on it.

## Theorems

* `reads_fields`: The alternative for every header.
* `runs_nameValue`: The alternatives for one name.
* `runs_messageHeader`: All of them together.
* `trace_headText`: The header block.
-/

namespace YkServer

open Lib Lib.Ragel

namespace HttpClientParser

open HttpParser (digit space)

/-! ## Lines -/

/-- A byte that can end a line. -/
def lineByte (c : UInt8) : Bool := c == 13 || c == 10

theorem reads_byte (b : UInt8) (L : UInt8 → Bool) (next : Option UInt8) :
    Reads (.seq (.chars (· == b)) .null : Rule) L [b] next (piece [] [b]) [] :=
  (Reads.chars (· == b) _ b next (beq_self_eq_true b)).seq_empty rfl rfl (fires_null _ _ _ _)

theorem reads_CRLF (L : UInt8 → Bool) (next : Option UInt8) :
    Reads CRLF L [13, 10] next (piece [] [13, 10]) [] := by
  have hcr : Reads (.chars (· == 13) : Rule) (followed (text "\n") L) [13] (some 10)
      (piece [] [13]) [] := Reads.chars _ _ 13 (some 10) rfl
  exact (hcr.seq (reads_byte 10 L next)).alt_left rfl rfl

theorem followed_CRLF (L : UInt8 → Bool) (c : UInt8) : followed CRLF L c = lineByte c := by
  simp [followed, CRLF, text, ascii, first, nullable, lineByte]

/-- Behind a line end nothing of it goes on. -/
theorem shift_lineEnd (c : Option UInt8) :
    shift CRLF false (moves CRLF true .idle [13, 10]) c = .idle := rfl

theorem followed_byte (b c : UInt8) (n : Rule) (L : UInt8 → Bool) :
    followed (.seq (.seq (.chars (· == b)) .null) n) L c = (c == b) := by
  simp [followed, first, nullable]

/-! ## The status line -/

/-- A version as it is printed. -/
def versionText (v : UInt8) : List UInt8 := ascii (if v = 0x10 then "HTTP/1.0" else "HTTP/1.1")

/-- A status line as it is printed, up to the line end. -/
def lineText (v : UInt8) (status : Nat) (reason : List UInt8) : List UInt8 :=
  versionText v ++ 32 :: (printed status ++ 32 :: reason)

/-- The actions on it. -/
def lineTrace (v : UInt8) (status : Nat) (reason : List UInt8) : List (List Action) :=
  piece [Action.mark] (versionText v) ++ (piece [Action.httpVersion] [(32 : UInt8)] ++
    (piece [Action.mark] (printed status) ++ (piece [Action.statusCode] [(32 : UInt8)] ++
      piece [Action.mark] reason)))

theorem reads_httpVersion (n : Rule) (L : UInt8 → Bool) (v : UInt8) :
    Reads httpVersion (followed (.seq (text " ") n) L) (versionText v) (some 32)
      (piece [Action.mark] (versionText v)) [.httpVersion] := by
  have hplain : Reads (.seq (text "HTTP/") httpNumber : Rule) (followed (.seq (text " ") n) L)
      (versionText v) (some 32) (piece [] (versionText v)) [] := by
    refine Reads.plain _ _ _ _ rfl ?_ ?_ (by decide)
    · rw [versionText]
      split <;> decide
    · intro c hc
      have hspace : (versionText v).all (fun c => !(c == 32)) = true := by
        rw [versionText]
        split <;> decide
      exact (followed_byte 32 c n L).trans (by simpa using List.all_eq_true.1 hspace c hc)
  have hboth := (hplain.enter .mark).leave .httpVersion
  rw [tag_plain] at hboth
  exact hboth

theorem reads_statusCode (n : Rule) (L : UInt8 → Bool) (d : List UInt8) (hd : d ≠ [])
    (hdigits : ∀ c ∈ d, digit c = true) :
    Reads statusCode (followed (.seq (text " ") n) L) d (some 32) (piece [Action.mark] d)
      [.statusCode] := by
  have hplain : Reads (Machine.plus (.chars digit) : Rule) (followed (.seq (text " ") n) L) d
      (some 32) (piece [] d) [] := by
    refine Reads.plain _ _ _ _ rfl (accepts_plus_chars digit d hd hdigits) ?_ (by decide)
    intro c hc
    refine (followed_byte 32 c n L).trans ?_
    rw [beq_eq_false_iff_ne]
    rintro rfl
    exact absurd (hdigits 32 hc) (by decide)
  have hboth := (hplain.enter .mark).leave .statusCode
  rw [tag_plain] at hboth
  exact hboth

theorem reads_reasonPhrase (L : UInt8 → Bool) (r : List UInt8) (hr : r ≠ [])
    (hline : ∀ c ∈ r, lineByte c = false) :
    Reads reasonPhrase (followed CRLF L) r none (piece [Action.mark] r) [.reasonPhrase] := by
  have hplain : Reads (Machine.plus (.chars (fun c => !(c == 10))) : Rule) (followed CRLF L) r none
      (piece [] r) [] := by
    refine Reads.plain _ _ _ _ rfl (accepts_plus_chars _ r hr ?_) ?_ (takes_none _)
    · intro c hc
      have hno := hline c hc
      rw [lineByte, Bool.or_eq_false_iff] at hno
      rw [hno.2]
      rfl
    · exact fun c hc => (followed_CRLF L c).trans (hline c hc)
  have hboth := (hplain.enter .mark).leave .reasonPhrase
  rw [tag_plain] at hboth
  exact hboth

/-- A status line. -/
theorem reads_statusLine (L : UInt8 → Bool) (next : Option UInt8) (v : UInt8) (status : Nat)
    (reason : List UInt8) (hr : reason ≠ []) (hline : ∀ c ∈ reason, lineByte c = false) :
    Reads statusLine L (lineText v status reason ++ [13, 10]) next
      (lineTrace v status reason ++ piece [Action.reasonPhrase] [(13 : UInt8), 10]) [] := by
  rcases printed_digits status with ⟨hne, hdigits⟩
  rcases List.exists_cons_of_ne_nil hr with ⟨b, w, hw⟩
  rcases List.exists_cons_of_ne_nil hne with ⟨b', w', hw'⟩
  have hreason := reads_reasonPhrase L reason hr hline
  rw [hw] at hreason
  have hspace := (reads_byte 32 (followed reasonPhrase (followed CRLF L)) (some b)).seq hreason
  rw [tag_nil, ← hw] at hspace
  have hcode := (reads_statusCode reasonPhrase (followed CRLF L) (printed status) hne
    hdigits).seq hspace
  rw [hw'] at hcode
  have hspace' := (reads_byte 32 (followed (.seq statusCode (.seq (text " ") reasonPhrase))
    (followed CRLF L)) (some b')).seq hcode
  rw [tag_nil, ← hw'] at hspace'
  have hall := (reads_httpVersion (.seq statusCode (.seq (text " ") reasonPhrase))
    (followed CRLF L) v).seq hspace'
  have hguard := (hall.entryGuard (reads_CRLF L next)).1
  rw [tag_plain, tag_piece _ _ _ _ (List.cons_ne_nil _ _),
    tag_piece _ _ _ _ (List.cons_ne_nil _ _)] at hguard
  simp only [List.append_nil] at hguard
  have htext : lineText v status reason = versionText v ++ 32 :: (b' :: (w' ++ 32 :: reason)) := by
    rw [lineText, hw']
    rfl
  rw [htext]
  exact hguard

/-! ## A header -/

/-- A header as it is printed. -/
def fieldText (e : List UInt8 × List UInt8) : List UInt8 := e.1 ++ 58 :: 32 :: e.2 ++ [13, 10]

/-- The actions behind a value. An empty value starts where it ends. -/
def valueOut (v : List UInt8) : List Action :=
  if v = [] then [.startValue, .writeValue] else [.writeValue]

/-- The actions on a header. -/
def fieldTrace (e : List UInt8 × List UInt8) : List (List Action) :=
  piece [Action.startField] e.1 ++ (piece [Action.writeField] [(58 : UInt8)] ++
    (piece [Action.startValue] [(32 : UInt8)] ++ piece [Action.startValue] e.2)) ++
    piece (valueOut e.2) [(13 : UInt8), 10]

/-- The names that the machine knows. -/
def knownNames : List (List UInt8) :=
  [ascii "Transfer-Encoding", ascii "Connection", ascii "Content-Length"]

/-- A header that arrives as it is. -/
structure FieldOk (e : List UInt8 × List UInt8) : Prop where
  name : e.1 ≠ []
  token : ∀ c ∈ e.1, token c = true
  value : ∀ c ∈ e.2, lineByte c = false
  blank : ∀ c ∈ e.2.head?, space c = false
  known : e.2 = [] → ∀ n ∈ knownNames, folded e.1 ≠ folded n

/-! ### The alternative for every header -/

theorem reads_fieldName (n : Rule) (L : UInt8 → Bool) (k : List UInt8) (hk : k ≠ [])
    (htoken : ∀ c ∈ k, token c = true) :
    Reads fieldName (followed (.seq (text ":") n) L) k (some 58) (piece [Action.startField] k)
      [.writeField] := by
  have hplain : Reads (Machine.plus (.chars token) : Rule) (followed (.seq (text ":") n) L) k
      (some 58) (piece [] k) [] := by
    refine Reads.plain _ _ _ _ rfl (accepts_plus_chars token k hk htoken) ?_ (by decide)
    intro c hc
    refine (followed_byte 58 c n L).trans ?_
    rw [beq_eq_false_iff_ne]
    rintro rfl
    exact absurd (htoken 58 hc) (by decide)
  have hboth := (hplain.enter .startField).leave .writeField
  rw [tag_plain] at hboth
  exact hboth

/-- The actions of a value. -/
theorem fires_fieldValue (entered left : Bool) (s : Live) (c : UInt8) :
    fires fieldValue entered left s (some c) =
      (if entered then [.startValue] else []) ++
        if left && (final fieldValue s || entered) then [.writeValue] else [] := by
  have hnull : nullable (.enter .startValue (Machine.star (.chars (fun _ => true))) : Rule) =
      true := rfl
  have hfirst : first (Machine.star (.chars (fun _ => true)) : Rule) (some c) = true := rfl
  rw [fieldValue, fires_leave, fires_enter, fires_plain _ rfl, List.append_nil, hnull, hfirst,
    Bool.true_or, Bool.and_true, final_leave]

/-- A byte of a value can be the last one. -/
theorem final_fieldValue (entered : Bool) (s : Live) (c : UInt8)
    (hs : (entered || final fieldValue s) = true) :
    final fieldValue (shift fieldValue entered s (some c)) = true := by
  rw [fieldValue, final_leave, final_enter, final_star] at hs ⊢
  rw [shift_leave, shift_enter, shift_star, hs, shift_chars]
  rfl

/-- The bytes of a value behind the first. -/
theorem value_run (L : UInt8 → Bool) (w : List UInt8) (s : Live) (hs : final fieldValue s = true)
    (hL : ∀ c ∈ w, L c = false) :
    does fieldValue L false s w = List.replicate w.length [] ∧
      final fieldValue (moves fieldValue false s w) = true := by
  induction w generalizing s with
  | nil => exact ⟨rfl, hs⟩
  | cons c w ih =>
      rcases ih (shift fieldValue false s (some c)) (final_fieldValue false s c hs)
        (fun d hd => hL d (List.mem_cons_of_mem _ hd)) with ⟨hdoes, hmoves⟩
      refine ⟨?_, hmoves⟩
      rw [does, hdoes, fires_fieldValue, hL c List.mem_cons_self, List.length_cons,
        List.replicate_succ]
      rfl

/-- A value behind the blanks in front of it. -/
def valuePart : Rule := .seq blanks fieldValue

/-- The positions behind the space in front of a value. -/
def afterSpace : Live := shift valuePart true .idle (some 32)

/-- The space is a blank in front of the value and could be its first byte. The next byte is no
    blank, so it starts the value again. -/
theorem value_start (c : UInt8) (h : space c = false) :
    shift valuePart false afterSpace (some c) =
        .join .idle (shift fieldValue true afterSpace.right (some c)) ∧
      fires valuePart false false afterSpace (some c) = [.startValue] := by
  have hinto : into blanks false afterSpace = true := by decide
  have htakes : takes blanks (some c) = false := h
  rw [valuePart, shift_seq, fires_seq, hinto, fires_plain blanks rfl,
    shift_not_takes blanks _ _ _ htakes, fires_fieldValue]
  exact ⟨rfl, rfl⟩

theorem reads_valuePart (L : UInt8 → Bool) (v : List UInt8) (h : ∀ c ∈ v, lineByte c = false)
    (hblank : ∀ c ∈ v.head?, space c = false) :
    Reads valuePart (followed CRLF L) (32 :: v) none
      (piece [Action.startValue] [(32 : UInt8)] ++ piece [Action.startValue] v) (valueOut v) := by
  have hspace : followed CRLF L 32 = false := followed_CRLF L 32
  have hfirst : fires valuePart true false .idle (some 32) = [.startValue] := by decide
  have hnone : ∀ s, fires fieldValue false true s none =
      if final fieldValue s then [.writeValue] else [] := by
    intro s
    rw [fieldValue, fires_leave, fires_enter, fires_plain _ rfl, final_leave]
    simp
  have hstays : Stays valuePart (followed CRLF L) true .idle (32 :: v) := by
    refine stays_of_disjoint _ _ _ _ _ ?_
    intro c hc
    rcases List.mem_cons.1 hc with rfl | hc
    · exact hspace
    · rw [followed_CRLF, h c hc]
  cases v with
  | nil =>
      refine ⟨?_, by decide, hstays, by decide, shift_none _ _ _⟩
      rw [does, hspace, hfirst]
      rfl
  | cons c w =>
      have hstart : shift valuePart true .idle (some 32) = afterSpace := rfl
      rcases value_start c (hblank c rfl) with ⟨hstep, hfires⟩
      have hfinal : final fieldValue (shift fieldValue true afterSpace.right (some c)) = true :=
        final_fieldValue true _ c rfl
      rcases value_run (followed CRLF L) w _ hfinal
        (fun d hd => (followed_CRLF L d).trans (h d (List.mem_cons_of_mem _ hd))) with
        ⟨hdoes, hlast⟩
      rcases seq_second blanks fieldValue (followed CRLF L)
        (.join .idle (shift fieldValue true afterSpace.right (some c))) w (left_join _ _) with
        ⟨hleft, hright, hdoes', -⟩
      rw [right_join, ← valuePart] at hright hdoes'
      rw [← valuePart] at hleft
      have hmoves : moves valuePart true .idle (32 :: c :: w) =
          moves valuePart false (.join .idle (shift fieldValue true afterSpace.right (some c)))
            w := by
        rw [moves, moves, hstart, hstep]
      have hinto := into_over blanks
        (moves valuePart true .idle (32 :: c :: w)) (by rw [hmoves, hleft])
      refine ⟨?_, ?_, hstays, ?_, shift_none _ _ _⟩
      · rw [does, does, hspace, followed_CRLF, h c List.mem_cons_self, hfirst, hstart, hfires,
          hstep, hdoes', hdoes]
        rfl
      · rw [hmoves, valuePart, final_seq, ← valuePart, hright, hlast]
        rfl
      · rw [valuePart, fires_seq, ← valuePart, hinto,
          fires_plain blanks rfl, hmoves, hright, hnone, hlast]
        rfl

theorem reads_fields (L : UInt8 → Bool) (next : Option UInt8) (e : List UInt8 × List UInt8)
    (h : FieldOk e) :
    Reads fields L (fieldText e) next (fieldTrace e) [] ∧
      (moves fields true .idle (fieldText e)).left = .idle ∧
      (moves fields true .idle (fieldText e)).right = moves CRLF true .idle [13, 10] := by
  have hvalue := (reads_byte 58 (followed valuePart (followed CRLF L)) (some 32)).seq
    (reads_valuePart L e.2 h.value h.blank)
  rw [tag_nil] at hvalue
  have hfield := (reads_fieldName valuePart (followed CRLF L) e.1 h.name h.token).seq hvalue
  rw [tag_piece _ _ _ _ (List.cons_ne_nil _ _), List.append_nil] at hfield
  have hguard := hfield.entryGuard (reads_CRLF L next)
  rw [tag_plain] at hguard
  exact hguard

/-! ### The alternatives for one name -/

/-- An alternative for a name `N` with a value `V`. -/
structure ForName (N V : Rule) : Prop where
  name : Framed N .startField .writeField
  value : Framed V .startValue .writeValue
  valueNullable : nullable V = false
  colon : takes N (some 58) = false
  lineEnd : takes V (some 13) = false
  blank : first V (some 32) = false

/-- Behind a name, the colon and the blanks, everything is up to the value. -/
theorem nameValue_behind (N V : Rule) (hnull : nullable V = false) (s : Live)
    (hname : s.left = .idle) (hcolon : s.right.left = .idle) (hblanks : s.right.right.left = .idle)
    (left : Bool) (c : Option UInt8) :
    final (nameValue N V) s = final V s.right.right.right ∧
      fires (nameValue N V) false left s c = fires V false left s.right.right.right c ∧
      (shift V false s.right.right.right c = .idle →
        shift (nameValue N V) false s c = .idle) := by
  have h₁ := into_over N s hname
  have h₂ := into_over (text ":") s.right hcolon
  have h₃ := into_over blanks s.right.right hblanks
  refine ⟨?_, ?_, ?_⟩
  · simp only [nameValue, final_seq, nullable, hnull, Bool.and_false, Bool.false_and,
      Bool.or_false]
  · simp only [nameValue, fires_seq, h₁, h₂, h₃, hname, hcolon, hblanks, fires_idle,
      List.nil_append]
  · intro hvalue
    simp only [nameValue, shift_seq, h₁, h₂, h₃, hname, hcolon, hblanks, shift_idle, hvalue,
      Live.join]

/-- A value with a byte, behind a blank. -/
theorem runs_blanks {N V : Rule} (h : ForName N V) (L : UInt8 → Bool) (c : UInt8)
    (v : List UInt8) (hc : space c = false) (hL : ∀ d ∈ 32 :: c :: v, L d = false) :
    ∃ tr, Runs (.seq blanks V) L (32 :: c :: v) (piece [] [(32 : UInt8)] ++ tr) ∧
      Echoes tr (piece [Action.startValue] (c :: v)) ∧
      (moves (.seq blanks V) true .idle (32 :: c :: v)).left = .idle ∧
      (moves (.seq blanks V) true .idle (32 :: c :: v)).right =
        moves V true .idle (c :: v) := by
  rcases h.value.entering L (c :: v) (List.cons_ne_nil _ _)
    (fun d hd => hL d (List.mem_cons_of_mem _ hd)) with ⟨tr, hruns, hecho⟩
  have hblank : Runs blanks (followed V L) [32] (piece [] [(32 : UInt8)]) := by
    refine ⟨does_plain blanks rfl _ _ _ _, stays_of_disjoint _ _ _ _ _ ?_⟩
    intro d hd
    rw [List.mem_singleton] at hd
    rw [hd, followed, h.blank, h.valueNullable]
    rfl
  have htakes : takes blanks (some c) = false := hc
  rcases hblank.seq (List.cons_ne_nil _ _) (by decide) (shift_not_takes blanks _ _ _ htakes)
    (fires_plain blanks rfl _ _ _ _) hruns with ⟨hseq, hleft, hright⟩
  rw [tag_nil] at hseq
  exact ⟨tr, hseq, hecho, hleft, hright⟩

/-- The colon and the value behind it. -/
theorem runs_colon {N V : Rule} (h : ForName N V) (L : UInt8 → Bool) (c : UInt8)
    (v : List UInt8) (hc : space c = false) (hL : ∀ d ∈ 32 :: c :: v, L d = false) :
    ∃ tr, Runs (.seq (text ":") (.seq blanks V)) L (58 :: 32 :: c :: v)
        (piece [] [(58 : UInt8)] ++ (piece [] [(32 : UInt8)] ++ tr)) ∧
      Echoes tr (piece [Action.startValue] (c :: v)) ∧
      (moves (.seq (text ":") (.seq blanks V)) true .idle (58 :: 32 :: c :: v)).left = .idle ∧
      (moves (.seq (text ":") (.seq blanks V)) true .idle (58 :: 32 :: c :: v)).right =
        moves (.seq blanks V) true .idle (32 :: c :: v) := by
  rcases runs_blanks h L c v hc hL with ⟨tr, hruns, hecho, -, -⟩
  have hcolon := reads_byte 58 (followed (.seq blanks V) L) (some 32)
  rcases hcolon.runs.seq (List.cons_ne_nil _ _) hcolon.accepted hcolon.ended
    (fires_plain (.seq (.chars (· == 58)) .null) rfl _ _ _ _) hruns with ⟨hseq, hleft, hright⟩
  rw [tag_nil] at hseq
  exact ⟨tr, hseq, hecho, hleft, hright⟩

/-- A name that is not the one of the alternative: it is over at the colon. -/
theorem runs_other {N V : Rule} (h : ForName N V) (L : UInt8 → Bool)
    (e : List UInt8 × List UInt8) (he : FieldOk e)
    (hname : final N (moves N true .idle e.1) = false) :
    ∃ tr, Runs (.seq (nameValue N V) CRLF) L (fieldText e) tr ∧ Echoes tr (fieldTrace e) ∧
      moves (.seq (nameValue N V) CRLF) true .idle (fieldText e) = .idle := by
  have hcolon : ∀ c ∈ e.1,
      followed (.seq (text ":") (.seq blanks V)) (followed CRLF L) c = false := by
    intro c hc
    refine (followed_byte 58 c _ _).trans ?_
    rw [beq_eq_false_iff_ne]
    rintro rfl
    exact absurd (he.token 58 hc) (by decide)
  rcases h.name.entering _ e.1 he.name hcolon with ⟨tr, hruns, hecho⟩
  rcases hruns.stuck he.name hname (shift_not_takes N _ _ _ h.colon)
    (h.name.quiet _ _ _ hname) (32 :: e.2) with ⟨hinner, hidle⟩
  have hne : e.1 ++ 58 :: 32 :: e.2 ≠ [] :=
    List.append_ne_nil_of_right_ne_nil _ (List.cons_ne_nil _ _)
  rcases hinner.stuck hne (by rw [hidle, final_idle]) (by rw [hidle, shift_idle])
    (by rw [hidle, fires_idle]) [10] with ⟨houter, hover⟩
  refine ⟨_, houter, ?_, hover⟩
  -- Behind the name nothing is executed.
  rw [fieldTrace, List.append_assoc, List.append_assoc, ← List.replicate_add]
  refine hecho.append (echoes_silent _ _ ?_)
  simp only [List.length_append, length_piece, List.length_cons, List.length_nil]
  omega

/-- The name of the alternative, with a value: it goes on up to the line end, and behind the line
    end if the value is the one it knows. -/
theorem runs_name {N V : Rule} (h : ForName N V) (L : UInt8 → Bool) (k : List UInt8) (c : UInt8)
    (v : List UInt8) (he : FieldOk (k, c :: v)) (hname : final N (moves N true .idle k) = true) :
    ∃ tr, Runs (.seq (nameValue N V) CRLF) L (fieldText (k, c :: v)) tr ∧
      Echoes tr (fieldTrace (k, c :: v)) ∧
      (moves (.seq (nameValue N V) CRLF) true .idle (fieldText (k, c :: v)) = .idle ∨
        (moves (.seq (nameValue N V) CRLF) true .idle (fieldText (k, c :: v))).left = .idle ∧
          (moves (.seq (nameValue N V) CRLF) true .idle (fieldText (k, c :: v))).right =
            moves CRLF true .idle [13, 10]) := by
  have hcolon : ∀ d ∈ k,
      followed (.seq (text ":") (.seq blanks V)) (followed CRLF L) d = false := by
    intro d hd
    refine (followed_byte 58 d _ _).trans ?_
    rw [beq_eq_false_iff_ne]
    rintro rfl
    exact absurd (he.token 58 hd) (by decide)
  have hline : ∀ d ∈ 32 :: c :: v, followed CRLF L d = false := by
    intro d hd
    rw [followed_CRLF]
    rcases List.mem_cons.1 hd with rfl | hd
    · rfl
    · exact he.value d hd
  rcases runs_blanks h (followed CRLF L) c v (he.blank c rfl) hline with ⟨-, -, -, hl₃, hr₃⟩
  rcases runs_colon h (followed CRLF L) c v (he.blank c rfl) hline with
    ⟨trV, hrunsV, hechoV, hl₂, hr₂⟩
  rcases h.name.entering _ k he.name hcolon with ⟨trN, hrunsN, hechoN⟩
  rcases hrunsN.seq he.name hname (shift_not_takes N _ _ _ h.colon) rfl hrunsV with
    ⟨hinner, hl₁, hr₁⟩
  have hechoN' := h.name.leaving (first (.seq (text ":") (.seq blanks V)) (some 58) ||
    (nullable (.seq (text ":") (.seq blanks V)) && followed CRLF L 58)) (moves N true .idle k)
    (some 58)
  generalize hout : fires N false _ (moves N true .idle k) (some 58) = out at hinner hechoN'
  rw [tag_piece _ _ _ _ (List.cons_ne_nil _ _), List.append_nil] at hinner
  rw [← nameValue] at hinner hl₁ hr₁
  have hfront : Echoes (trN ++ (piece out [(58 : UInt8)] ++ (piece [] [(32 : UInt8)] ++ trV)))
      (piece [Action.startField] k ++ (piece [Action.writeField] [(58 : UInt8)] ++
        (piece [Action.startValue] [(32 : UInt8)] ++ piece [Action.startValue] (c :: v)))) :=
    hechoN.append ((echoes_piece _ _ _ hechoN').append
      ((echoes_piece _ _ _ (echo_nil _)).append hechoV))
  have hne : k ++ 58 :: 32 :: c :: v ≠ [] :=
    List.append_ne_nil_of_right_ne_nil _ (List.cons_ne_nil _ _)
  -- Everything is at the value, and no value goes on with a line end.
  rcases nameValue_behind N V h.valueNullable _ hl₁ (by rw [hr₁, hl₂]) (by rw [hr₁, hr₂, hl₃])
    (first CRLF (some 13) || (nullable CRLF && L 13)) (some 13) with ⟨hfinal, hfires, hshift⟩
  have hended := hshift (shift_not_takes V _ _ _ h.lineEnd)
  by_cases hvalue : final V (moves (nameValue N V) true .idle
    (k ++ 58 :: 32 :: c :: v)).right.right.right = true
  · rw [hvalue] at hfinal
    rcases hinner.seq hne hfinal hended rfl (reads_CRLF L none).runs with ⟨houter, hl₀, hr₀⟩
    refine ⟨_, houter, ?_, Or.inr ⟨hl₀, hr₀⟩⟩
    rw [hfires, tag_plain]
    exact hfront.append (echoes_piece _ _ _ (h.value.leaving _ _ _))
  · rw [Bool.not_eq_true] at hvalue
    rw [hvalue] at hfinal
    rcases hinner.stuck hne hfinal hended (hfires.trans (h.value.quiet _ _ _ hvalue)) [10] with
      ⟨houter, hover⟩
    exact ⟨_, houter, hfront.append (echoes_silent _ _ rfl), Or.inl hover⟩

/-- An alternative for one name, on any header: it does nothing new, and behind the header
    everything starts again. -/
theorem runs_nameValue {N V : Rule} (h : ForName N V) (hnull : nullable N = false)
    (L : UInt8 → Bool) (e : List UInt8 × List UInt8) (he : FieldOk e)
    (hknown : e.2 = [] → final N (moves N true .idle e.1) = false) :
    ∃ tr, Runs (.seq (nameValue N V) CRLF) L (fieldText e) tr ∧ Echoes tr (fieldTrace e) ∧
      Restarts (.seq (nameValue N V) CRLF)
        (moves (.seq (nameValue N V) CRLF) true .idle (fieldText e)) := by
  by_cases hname : final N (moves N true .idle e.1) = true
  · rcases e with ⟨k, v⟩
    cases v with
    | nil =>
        rw [hknown rfl] at hname
        cases hname
    | cons c v =>
        rcases runs_name h L k c v he hname with ⟨tr, hruns, hecho, hover | ⟨hleft, hright⟩⟩
        · rw [hover]
          exact ⟨tr, hruns, hecho, restarts_idle _⟩
        · refine ⟨tr, hruns, hecho, restarts_seq _ CRLF _ ?_ rfl hleft ?_⟩
          · rw [nameValue, nullable, hnull]
            rfl
          · rw [hright]
            exact shift_lineEnd
  · rw [Bool.not_eq_true] at hname
    rcases runs_other h L e he hname with ⟨tr, hruns, hecho, hover⟩
    rw [hover]
    exact ⟨tr, hruns, hecho, restarts_idle _⟩

/-- A text in any case has the words that are the text up to case. -/
theorem accepts_textCI (t w : List UInt8) (ht : t ≠ [])
    (h : accepts (t.foldr (fun c m => .seq (.chars (fun b => toLower b == toLower c)) m) .null :
      Rule) w = true) : w.map toLower = t.map toLower := by
  have hnull : ∀ s, final (.null : Rule) s = false := by
    intro s
    cases s <;> rfl
  induction t generalizing w with
  | nil => exact absurd rfl ht
  | cons a t ih =>
      cases w with
      | nil => cases h
      | cons c w =>
          rcases accepts_chars_seq _ _ c w h with ⟨hc, ⟨rfl, hnil⟩ | hrest⟩
          · cases t with
            | nil => rw [List.map_singleton, List.map_singleton, beq_iff_eq.1 hc]
            | cons a' t => cases hnil
          · cases t with
            | nil =>
                rw [accepts, List.foldr_nil, hnull] at hrest
                cases hrest
            | cons a' t => rw [List.map_cons, List.map_cons, ih w (List.cons_ne_nil _ _) hrest,
                beq_iff_eq.1 hc]

/-- A token has no zero in it, so that all of it is compared. -/
theorem folded_token (k : List UInt8) (h : ∀ c ∈ k, token c = true) :
    folded k = k.map toLower := by
  have hall : k.takeWhile (· ≠ 0) = k := by
    rw [List.takeWhile_eq_self_iff]
    intro c hc
    rw [decide_eq_true_eq]
    rintro rfl
    exact absurd (h 0 hc) (by decide)
  rw [folded, hall]

/-- A header without a value does not have a name that the machine knows. -/
theorem not_known (name : String) (e : List UInt8 × List UInt8) (he : FieldOk e)
    (hne : ascii name ≠ []) (htoken : ∀ c ∈ ascii name, token c = true)
    (hname : ascii name ∈ knownNames) (hnil : e.2 = []) :
    final (textCI name) (moves (textCI name) true .idle e.1) = false := by
  rw [Bool.eq_false_iff]
  intro hfinal
  have hsame := accepts_textCI (ascii name) e.1 hne hfinal
  rw [← folded_token e.1 he.token, ← folded_token _ htoken] at hsame
  exact he.known hnil _ hname hsame

/-! ### All alternatives -/

theorem forName_transferEncodingChunked :
    ForName (.leave .writeField (.enter .startField (textCI "Transfer-Encoding")))
      (.leave .writeValue (.enter .startValue (textCI "chunked"))) where
  name := framed_frame _ _ _ rfl
  value := framed_frame _ _ _ rfl
  valueNullable := rfl
  colon := by decide
  lineEnd := by decide
  blank := by decide

theorem forName_connClose : ForName (textCI "Connection") (textCI "close") where
  name := framed_plain _ _ _ rfl
  value := framed_plain _ _ _ rfl
  valueNullable := rfl
  colon := by decide
  lineEnd := by decide
  blank := by decide

theorem forName_contentLength :
    ForName (.leave .writeField (.enter .startField (textCI "Content-Length")))
      (.leave .writeValue (.enter .startValue (Machine.plus (.chars digit)))) where
  name := framed_frame _ _ _ rfl
  value := framed_frame _ _ _ rfl
  valueNullable := rfl
  colon := by decide
  lineEnd := by decide
  blank := by decide

/-- A header: what is executed on it is what the alternative for every header executes, and
    behind it the next one starts as the first does. -/
theorem runs_messageHeader (L : UInt8 → Bool) (e : List UInt8 × List UInt8) (h : FieldOk e) :
    (∃ tr, Runs messageHeader L (fieldText e) tr ∧ SameTrace tr (fieldTrace e)) ∧
      final messageHeader (moves messageHeader true .idle (fieldText e)) = true ∧
      Restarts messageHeader (moves messageHeader true .idle (fieldText e)) := by
  have hframed : ∀ name w, final (.leave .writeField (.enter .startField (textCI name)) : Rule)
      (moves (.leave .writeField (.enter .startField (textCI name))) true .idle w) =
        final (textCI name) (moves (textCI name) true .idle w) := by
    intro name w
    rw [moves_leave, moves_enter, final_leave, final_enter]
  rcases runs_nameValue forName_transferEncodingChunked rfl L e h
    (fun hnil => (hframed _ _).trans (not_known _ e h (by decide) (List.all_eq_true.1 rfl)
      (by decide) hnil)) with ⟨tr₁, hruns₁, hecho₁, hrestarts₁⟩
  rcases runs_nameValue forName_connClose rfl L e h
    (not_known _ e h (by decide) (List.all_eq_true.1 rfl) (by decide)) with
    ⟨tr₂, hruns₂, hecho₂, hrestarts₂⟩
  rcases runs_nameValue forName_contentLength rfl L e h
    (fun hnil => (hframed _ _).trans (not_known _ e h (by decide) (List.all_eq_true.1 rfl)
      (by decide) hnil)) with ⟨tr₃, hruns₃, hecho₃, hrestarts₃⟩
  rcases reads_fields L none e h with ⟨hread, hleft, hright⟩
  have hrestarts₄ : Restarts fields (moves fields true .idle (fieldText e)) := by
    refine restarts_entryGuard _ CRLF _ rfl rfl hleft ?_
    rw [hright]
    exact shift_lineEnd
  -- The positions of the alternatives, one behind the other.
  rcases moves_alt transferEncodingChunked (.alt connClose (.alt contentLength fields)) true .idle
    (fieldText e) with ⟨hl₁, hr₁⟩
  rcases moves_alt connClose (.alt contentLength fields) true .idle (fieldText e) with ⟨hl₂, hr₂⟩
  rcases moves_alt contentLength fields true .idle (fieldText e) with ⟨hl₃, hr₃⟩
  refine ⟨⟨_, hruns₁.alt (hruns₂.alt (hruns₃.alt hread.runs)), ?_⟩, ?_, ?_⟩
  · exact (((sameTrace_refl _).echo hecho₃).echo hecho₂).echo hecho₁
  · rw [messageHeader, final_alt, hr₁, right_idle, final_alt, hr₂, right_idle, final_alt, hr₃,
      right_idle, hread.accepted]
    simp
  · rw [← messageHeader] at hl₁ hr₁
    refine restarts_alt _ _ _ (by rw [hl₁]; exact hrestarts₁) ?_
    rw [hr₁]
    refine restarts_alt _ _ _ (by rw [right_idle, hl₂]; exact hrestarts₂) ?_
    rw [right_idle, hr₂]
    refine restarts_alt _ _ _ (by rw [right_idle, hl₃]; exact hrestarts₃) ?_
    rw [right_idle, hr₃]
    exact hrestarts₄

/-! ## The header block -/

/-- Headers, one after another, up to the end of the block. -/
theorem runs_headers (es : List (List UInt8 × List UInt8)) (h : ∀ e ∈ es, FieldOk e) :
    ∃ tr, does headers (fun _ => false) true .idle (es.flatMap fieldText ++ [13, 10]) =
        tr ++ [[], []] ∧ SameTrace tr (es.flatMap fieldTrace) ∧
      Unfinished headers true .idle (es.flatMap fieldText ++ [13]) ∧
      moves headers true .idle (es.flatMap fieldText ++ [13, 10]) =
        moves headers true .idle [13, 10] := by
  induction es with
  | nil => exact ⟨[], by decide, List.Forall₂.nil, ⟨by decide, trivial⟩, rfl⟩
  | cons e es ih =>
      have he := h e List.mem_cons_self
      rcases ih (fun e' he' => h e' (List.mem_cons_of_mem _ he')) with
        ⟨tr, hdoes, hsame, hunf, hmoves⟩
      rcases runs_messageHeader (again messageHeader (followed CRLF (fun _ => false))) e he with
        ⟨⟨tr₁, hruns, hsame₁⟩, hfinal, hrestarts⟩
      have hread : Reads messageHeader (again messageHeader (followed CRLF (fun _ => false)))
          (fieldText e) none tr₁ _ := ⟨hruns.actions, hfinal, hruns.stays, rfl, shift_none _ _ _⟩
      rcases List.exists_cons_of_ne_nil he.name with ⟨b, k, hk⟩
      have htext : fieldText e = b :: (k ++ 58 :: 32 :: e.2 ++ [13, 10]) := by
        rw [fieldText, hk]
        rfl
      have hb : followed CRLF (fun _ => false) b = false := by
        have htoken := he.token b (by rw [hk]; exact List.mem_cons_self)
        rw [followed_CRLF, lineByte, Bool.or_eq_false_iff, beq_eq_false_iff_ne, beq_eq_false_iff_ne]
        constructor
        · rintro rfl
          exact absurd htoken (by decide)
        · rintro rfl
          exact absurd htoken (by decide)
      generalize k ++ 58 :: 32 :: e.2 ++ [13, 10] = u at htext
      rw [htext] at hread hrestarts
      rw [List.flatMap_cons, List.flatMap_cons, htext, List.append_assoc, List.append_assoc]
      -- What is behind the header is not empty, whether it is another one or the end.
      rcases List.exists_cons_of_ne_nil (List.append_ne_nil_of_right_ne_nil
        (es.flatMap fieldText) (List.cons_ne_nil (13 : UInt8) [10])) with ⟨c, v, hv⟩
      rcases List.exists_cons_of_ne_nil (List.append_ne_nil_of_right_ne_nil
        (es.flatMap fieldText) (List.cons_ne_nil (13 : UInt8) [])) with ⟨c', v', hv'⟩
      rw [hv] at hdoes hmoves ⊢
      rw [hv'] at hunf ⊢
      rcases rounds_more hread hrestarts hb c v with ⟨hdoes₁, hmoves₁, -⟩
      rcases rounds_more hread hrestarts hb c' v' with ⟨-, -, hunf₁⟩
      rw [headers] at hdoes hunf hmoves ⊢
      refine ⟨tr₁ ++ tr, ?_, hsame₁.append hsame, hunf₁ rfl hunf, ?_⟩
      · rw [hdoes₁, hdoes, List.append_assoc]
      · rw [hmoves₁, hmoves]

/-- A header block as it is printed. -/
def headText (v : UInt8) (status : Nat) (reason : List UInt8)
    (es : List (List UInt8 × List UInt8)) : List UInt8 :=
  lineText v status reason ++ [13, 10] ++ (es.flatMap fieldText ++ [13, 10])

/-- The actions on it. -/
def headTrace (v : UInt8) (status : Nat) (reason : List UInt8)
    (es : List (List UInt8 × List UInt8)) : List (List Action) :=
  lineTrace v status reason ++ piece [Action.reasonPhrase] [(13 : UInt8), 10] ++
    (es.flatMap fieldTrace ++ [[], [.done]])

/-- The actions from a state on. -/
def trace (cs : Cs) : List UInt8 → List (List Action)
  | [] => []
  | c :: w => cs.actions c :: trace (cs.step c) w

theorem trace_eq_does (cs : Cs) (w : List UInt8) :
    trace cs w = (does main (fun _ => false) cs.entered cs.live w).map List.eraseDups := by
  induction w generalizing cs with
  | nil => rfl
  | cons c w ih =>
      rw [trace, does, List.map_cons, ih]
      rfl

theorem runs_response (v : UInt8) (status : Nat) (reason : List UInt8)
    (es : List (List UInt8 × List UInt8)) (hr : reason ≠ [])
    (hline : ∀ c ∈ reason, lineByte c = false) (h : ∀ e ∈ es, FieldOk e) :
    ∃ tr, does response (fun _ => false) true .idle (headText v status reason es) =
        lineTrace v status reason ++ piece [Action.reasonPhrase] [(13 : UInt8), 10] ++
          (tr ++ [[], []]) ∧ SameTrace tr (es.flatMap fieldTrace) ∧
      Unfinished response true .idle (lineText v status reason ++ [13, 10] ++
        (es.flatMap fieldText ++ [13])) ∧
      (moves response true .idle (headText v status reason es)).left = .idle ∧
      (moves response true .idle (headText v status reason es)).right =
        moves headers true .idle [13, 10] := by
  rcases runs_headers es h with ⟨tr, hdoes, hsame, hunf, hmoves⟩
  have hfinal : final headers (moves headers true .idle (es.flatMap fieldText ++ [13, 10])) =
      true := by
    rw [hmoves]
    decide
  rcases List.exists_cons_of_ne_nil (List.append_ne_nil_of_right_ne_nil
    (es.flatMap fieldText) (List.cons_ne_nil (13 : UInt8) [10])) with ⟨b, w, hw⟩
  rcases List.exists_cons_of_ne_nil (List.append_ne_nil_of_right_ne_nil
    (es.flatMap fieldText) (List.cons_ne_nil (13 : UInt8) [])) with ⟨b', w', hw'⟩
  rw [headText]
  rw [hw] at hdoes hfinal hmoves ⊢
  rw [hw'] at hunf ⊢
  have hread := reads_statusLine (followed headers (fun _ => false)) (some b) v status reason hr
    hline
  have hread' := reads_statusLine (followed headers (fun _ => false)) (some b') v status reason hr
    hline
  rcases hread.moves_seq w with ⟨hleft, hright⟩
  refine ⟨tr, ?_, hsame, hread'.unfinished_seq rfl w' hunf, hleft, hright.trans hmoves⟩
  rw [response, hread.does_seq (first_of_accepts headers b w hfinal), tag_nil, hdoes]

/-- Every action stands once where a printed block executes it. -/
theorem eraseDups_piece (as : List Action) (w : List UInt8) (has : as.eraseDups = as) :
    ∀ ys ∈ piece as w, ys.eraseDups = ys := by
  intro ys hys
  cases w with
  | nil => cases hys
  | cons c w =>
      simp only [piece, List.length_cons, List.replicate_succ, tag, List.append_nil,
        List.mem_cons, List.mem_replicate] at hys
      rcases hys with rfl | ⟨-, rfl⟩
      · exact has
      · rfl

theorem eraseDups_fieldTrace (e : List UInt8 × List UInt8) :
    ∀ ys ∈ fieldTrace e, ys.eraseDups = ys := by
  have hvalue : (valueOut e.2).eraseDups = valueOut e.2 := by
    rw [valueOut]
    split <;> decide
  intro ys hys
  simp only [fieldTrace, List.mem_append] at hys
  rcases hys with (hys | hys | hys | hys) | hys
  · exact eraseDups_piece _ _ (by decide) ys hys
  · exact eraseDups_piece _ _ (by decide) ys hys
  · exact eraseDups_piece _ _ (by decide) ys hys
  · exact eraseDups_piece _ _ (by decide) ys hys
  · exact eraseDups_piece _ _ hvalue ys hys

theorem eraseDups_lineTrace (v : UInt8) (status : Nat) (reason : List UInt8) :
    ∀ ys ∈ lineTrace v status reason, ys.eraseDups = ys := by
  intro ys hys
  simp only [lineTrace, List.mem_append] at hys
  rcases hys with hys | hys | hys | hys | hys <;>
    exact eraseDups_piece _ _ (by decide) ys hys

theorem eraseDups_trace (tr tr' : List (List Action)) (h : SameTrace tr tr')
    (hdup : ∀ ys ∈ tr', ys.eraseDups = ys) : tr.map List.eraseDups = tr' := by
  induction h with
  | nil => rfl
  | cons hx _ ih =>
      rw [List.map_cons, ih (fun ys hys => hdup ys (List.mem_cons_of_mem _ hys)),
        Same.eraseDups hx (hdup _ List.mem_cons_self)]

/-- Nothing goes on behind the end of the headers. -/
theorem shift_headersEnd (c : Option UInt8) :
    shift headers false (moves headers true .idle [13, 10]) c = .idle := rfl

/-- A response does not start like a chunk. -/
theorem headText_cons (v : UInt8) (status : Nat) (reason : List UInt8)
    (es : List (List UInt8 × List UInt8)) : ∃ w, headText v status reason es = 72 :: w := by
  have hversion : ∃ w, versionText v = 72 :: w := by
    rw [versionText]
    split <;> exact ⟨_, rfl⟩
  rcases hversion with ⟨w, hw⟩
  rw [headText, lineText, hw]
  exact ⟨_, rfl⟩

/-- The actions on a printed header block, and the state behind it. -/
theorem trace_headText (v : UInt8) (status : Nat) (reason : List UInt8)
    (es : List (List UInt8 × List UInt8)) (hr : reason ≠ [])
    (hline : ∀ c ∈ reason, lineByte c = false) (h : ∀ e ∈ es, FieldOk e) :
    trace .start (headText v status reason es) = headTrace v status reason es ∧
      Cs.firstFinal ⟨false, moves main true .idle (headText v status reason es)⟩ = true := by
  rcases runs_response v status reason es hr hline h with
    ⟨tr, hdoes, hsame, hunf, hleft, hright⟩
  rcases headText_cons v status reason es with ⟨w, hw⟩
  have hsplit : headText v status reason es =
      lineText v status reason ++ [13, 10] ++ (es.flatMap fieldText ++ [13]) ++ [10] := by
    rw [headText]
    simp
  have hfinal :
      final response (moves response true .idle (headText v status reason es)) = true := by
    have hend : final headers (moves headers true .idle [13, 10]) = true := by decide
    rw [response, final_seq, ← response, hright, hend]
    rfl
  rcases alt_first response chunkedHeader (fun _ => false) 72 w (by decide) (by decide) with
    ⟨hdoes', halt, hover⟩
  rw [← hw] at hdoes' halt hover
  have hfinal' : final (.alt response chunkedHeader)
      (moves (.alt response chunkedHeader) true .idle (headText v status reason es)) = true := by
    rw [final_alt, halt, hfinal]
    rfl
  have hunf' : Unfinished (.alt response chunkedHeader) true .idle
      (lineText v status reason ++ [13, 10] ++ (es.flatMap fieldText ++ [13])) := by
    refine unfinished_alt _ _ _ _ _ right_idle ?_ hunf
    intro _ c hc
    have hhead : c = 72 := by
      have hall : (headText v status reason es).head? = some c := by
        rw [hsplit, List.head?_append_of_ne_nil _ (by simp)]
        exact hc
      rw [hw] at hall
      exact (Option.some_inj.1 hall).symm
    rw [hhead]
    decide
  refine ⟨?_, ?_⟩
  · have htrace : does (.alt response chunkedHeader) (fun _ => false) true .idle
        (lineText v status reason ++ [13, 10] ++ (es.flatMap fieldText ++ [13]) ++ [10]) =
        (lineTrace v status reason ++ piece [Action.reasonPhrase] [(13 : UInt8), 10] ++
          (tr ++ [[]])) ++ [[]] := by
      rw [← hsplit, hdoes', hdoes]
      simp
    have hlast := finish_last .done _ _ _ 10 _ _ (by simp) hunf' (by rw [← hsplit]; exact hfinal')
      htrace
    rw [trace_eq_does, hsplit, headTrace]
    refine (congrArg (List.map List.eraseDups) hlast).trans ?_
    simp only [List.map_append]
    rw [eraseDups_trace tr _ hsame, eraseDups_trace _ _ (sameTrace_refl _)
      (eraseDups_lineTrace v status reason), eraseDups_trace _ _ (sameTrace_refl _)
      (eraseDups_piece [Action.reasonPhrase] _ (by decide))]
    · have hdone : [Action.done].eraseDups = [Action.done] := by decide
      simp [hdone]
    · intro ys hys
      rcases List.mem_flatMap.1 hys with ⟨e, -, he⟩
      exact eraseDups_fieldTrace e ys he
  · rw [Cs.firstFinal, main, final_finish, moves_finish, hfinal', Bool.true_and,
      List.all_eq_true]
    intro c _
    -- Only the end of the response is live, and no transition leaves it.
    have hresponse : shift response false (moves response true .idle (headText v status reason es))
        (some (UInt8.ofNat c)) = .idle := by
      rw [response, shift_seq, ← response, into_over _ _ hleft, hleft, hright, shift_idle,
        shift_headersEnd]
      rfl
    have hstep : shift (.finish .done (.alt response chunkedHeader)) false
        (moves (.alt response chunkedHeader) true .idle (headText v status reason es))
        (some (UInt8.ofNat c)) = .idle := by
      rw [shift_finish, shift_alt, halt, hover, hresponse, shift_idle]
      rfl
    rw [Cs.error, Cs.step, main, hstep]
    rfl

end HttpClientParser

end YkServer
