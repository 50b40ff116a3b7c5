import YkServer.Theory.Http.Window

/-!
# The Order of Field Actions

When the value of a field is passed on, the length of its name is that of the
name noted last: between the start of a name and the end of a value there is
always the end of the name. With that, parsing a header block from its start
never uses a position or a length that does not belong to it.

The machine has many live positions at a time, so the order of the actions is not
just the order in which they are written. What separates the fields is that the
end of a line is final, and that nothing else goes on when it is reached: the
guard gives up the field, and no other part of a request takes a line feed.

## Main definitions

* `FieldOrder`: The invariant.

## Theorems

* `fieldOrder_step`: It is kept by every byte.
* `clean_trace`: The actions on any bytes are clean from the start.
-/

namespace YkServer

open Lib Lib.Ragel

namespace HttpParser

/-! ## Ends of lines -/

/-- The live positions of `CRLF`: behind a carriage return, behind a line feed
    after it, and behind a line feed alone. -/
def lineEnd (cr crlf lf : Bool) : Live :=
  .join (.join (if cr then .here else .idle) (.join (if crlf then .here else .idle) .idle))
    (.join (if lf then .here else .idle) .idle)

theorem shift_CRLF (entered : Bool) (s : Live) (c : Option UInt8) :
    ∃ i, shift CRLF entered s c =
      lineEnd (entered && c.any (· == 13)) (i && c.any (· == 10)) (entered && c.any (· == 10)) := by
  refine ⟨into (.chars (· == 13) : Rule) entered s.left, ?_⟩
  have htext : CRLF = .alt (.seq (.chars (· == 13)) (.seq (.chars (· == 10)) .null))
      (.seq (.chars (· == 10)) .null) := rfl
  rw [htext, shift_alt, shift_seq, shift_seq, shift_seq, shift_chars, shift_chars, shift_chars,
    shift_null, shift_null]
  rfl

theorem final_lineEnd (cr crlf lf : Bool) : final CRLF (lineEnd cr crlf lf) = (crlf || lf) := by
  cases cr <;> cases crlf <;> cases lf <;> rfl

theorem shift_lineEnd (crlf lf : Bool) (c : Option UInt8) :
    shift CRLF false (lineEnd false crlf lf) c = .idle := by
  cases crlf <;> cases lf <;> rfl

/-- A line ends with a line feed. -/
theorem last_CRLF (entered : Bool) (s : Live) (c : Option UInt8)
    (h : final CRLF (shift CRLF entered s c) = true) : c = some 10 := by
  rcases shift_CRLF entered s c with ⟨i, hi⟩
  rw [hi, final_lineEnd, ← Bool.and_or_distrib_right, Bool.and_eq_true] at h
  cases c with
  | none => exact absurd h.2 (by simp)
  | some c => exact congrArg some (beq_iff_eq.1 h.2)

theorem ends_CRLF : Ends CRLF := by
  intro entered s c h c'
  have hc := last_CRLF entered s c h
  subst hc
  rcases shift_CRLF entered s (some 10) with ⟨i, hi⟩
  have hcr : (entered && (some (10 : UInt8)).any (· == 13)) = false := by
    cases entered <;> rfl
  rw [hi, hcr, shift_lineEnd]

/-- Something without a line feed in front of what ends with one. -/
theorem ends_lineFeed (m n : Rule) (hnull : nullable n = false)
    (hn : Ends n ∧ ∀ entered s c, final n (shift n entered s c) = true → c = some 10)
    (hm : takes m (some 10) = false) :
    Ends (.seq m n) ∧ ∀ entered s c,
      final (.seq m n) (shift (.seq m n) entered s c) = true → c = some 10 := by
  refine ⟨ends_seq m n hn.1 hnull ?_, ?_⟩
  · intro entered s c h
    rw [hn.2 entered s c h]
    exact hm
  · intro entered s c h
    rw [final_shift_seq m n hnull] at h
    exact hn.2 _ _ _ h

/-- A request line ends with a line feed, and nothing in it goes on then. -/
theorem ends_requestLine (relaxed : Bool) :
    Ends (requestLine relaxed) ∧ ∀ entered s c,
      final (requestLine relaxed) (shift (requestLine relaxed) entered s c) = true →
        c = some 10 := by
  -- From the end of the line to its start; only the end takes a line feed.
  have h₁ := ends_lineFeed httpVersion CRLF rfl ⟨ends_CRLF, last_CRLF⟩ (by decide)
  have h₂ := ends_lineFeed (text " ") _ rfl h₁ (by decide)
  have h₃ := ends_lineFeed (uriReference relaxed) _ rfl h₂ (by cases relaxed <;> decide)
  have h₄ := ends_lineFeed (text " ") _ rfl h₃ (by decide)
  exact ends_lineFeed method _ rfl h₄ (by decide)

/-! ## Fields -/

/-- A field without the end of its line. -/
def field : Rule := cat [fieldName, text ":", Machine.star lws, fieldValue]

/-- A field behind its name. -/
def afterName : Rule := cat [text ":", Machine.star lws, fieldValue]

/-- The positions of the fields and of the line ends behind them, which are those
    of `messageHeader`. -/
def fieldsOf (s : Live) : Live := s.left.right.left

/-- The invariant. Of the fields of a request, one is parsed at a time: behind a
    request line, and behind a field, nothing of what is in front is live any
    more, and the line ends do not go on. If the length of the name noted last is
    not known, no position behind a name is live. -/
structure FieldOrder (relaxed : Bool) (cs : Cs) (len : Bool) : Prop where
  start : cs.entered = true → cs.live = .idle
  line : cs.live.left.right ≠ .idle → cs.live.left.left = .idle
  lineEnds : final (requestLine relaxed) cs.live.left.left = true →
    ∀ c, shift (requestLine relaxed) false cs.live.left.left c = .idle
  field : (fieldsOf cs.live).right ≠ .idle → (fieldsOf cs.live).left = .idle
  fieldEnds : final CRLF (fieldsOf cs.live).right = true →
    ∀ c, shift CRLF false (fieldsOf cs.live).right c = .idle
  value : len = false → (fieldsOf cs.live).left.right = .idle

/-- The fields are entered with the next byte. -/
def fieldEntered (relaxed : Bool) (s : Live) : Bool :=
  final (requestLine relaxed) s.left.left || final messageHeader (fieldsOf s)

theorem nullable_requestLine (relaxed : Bool) : nullable (requestLine relaxed) = false := rfl

/-- The positions after a byte. -/
theorem shift_main (relaxed entered : Bool) (s : Live) (c : Option UInt8) :
    (shift (main relaxed) entered s c).left.left =
        shift (requestLine relaxed) entered s.left.left c ∧
      (shift (main relaxed) entered s c).left.right =
        shift headers (final (requestLine relaxed) s.left.left) s.left.right c ∧
      fieldsOf (shift (main relaxed) entered s c) =
        shift messageHeader (fieldEntered relaxed s) (fieldsOf s) c := by
  have hinto := into_not_nullable _ entered s.left (nullable_requestLine relaxed)
  have hmain : (shift (main relaxed) entered s c).left =
      .join (shift (requestLine relaxed) entered s.left.left c)
        (shift headers (final (requestLine relaxed) s.left.left) s.left.right c) := by
    rw [main, shift_finish, shift_alt, left_join, request, shift_seq, hinto]
  refine ⟨?_, ?_, ?_⟩
  · rw [hmain, left_join]
  · rw [hmain, right_join]
  · rw [fieldsOf, hmain, right_join, headers, shift_seq, left_join, shift_star]
    rfl

/-- What there is of a byte for a field: nothing, if it starts the end of the line. -/
def fieldByte (entered : Bool) (s : Live) (c : Option UInt8) : Option UInt8 :=
  if into field entered s && first CRLF c then none else c

/-- The positions of the fields after a byte: those of a field, which a line end
    gives up, and those of the line end. -/
theorem shift_messageHeader (entered : Bool) (s : Live) (c : Option UInt8) :
    shift messageHeader entered s c =
      .join (shift field entered s.left (fieldByte entered s c))
        (shift CRLF (into field entered s) s.right c) := by
  rw [messageHeader, shift_entryGuard]
  rfl

/-- Behind a request line there is no header yet. -/
theorem FieldOrder.no_headers {relaxed : Bool} {cs : Cs} {len : Bool}
    (h : FieldOrder relaxed cs len)
    (hfinal : final (requestLine relaxed) cs.live.left.left = true) :
    cs.live.left.right = .idle := by
  by_contra hno
  rw [h.line hno, final_idle] at hfinal
  cases hfinal

/-- A field is entered only when none is live. -/
theorem fieldsOf_entered (relaxed : Bool) (cs : Cs) (len : Bool) (h : FieldOrder relaxed cs len)
    (he : fieldEntered relaxed cs.live = true) : (fieldsOf cs.live).left = .idle := by
  rw [fieldEntered, Bool.or_eq_true] at he
  rcases he with he | he
  · rw [fieldsOf, h.no_headers he]
    rfl
  · -- Another field ends here, and at its end only the line end is live.
    refine h.field ?_
    intro hidle
    rw [messageHeader, final_entryGuard, hidle, final_idle] at he
    cases he

/-- Everything is known, except perhaps the length of the name noted last. -/
def withLen (len : Bool) : Known := ⟨true, true, len, true⟩

/-- Actions that do not note a name start. -/
theorem clean_withLen (as : List Action) (h : Action.startField ∉ as) :
    clean (withLen true) as = true ∧ as.foldl Known.after (withLen true) = withLen true := by
  induction as with
  | nil => exact ⟨rfl, rfl⟩
  | cons a as ih =>
      rcases ih (fun hm => h (List.mem_cons_of_mem _ hm)) with ⟨hclean, hfold⟩
      have hallows : (withLen true).allows a = true := by cases a <;> rfl
      have hafter : (withLen true).after a = withLen true := by
        cases a <;> first | rfl | exact absurd List.mem_cons_self h
      rw [clean, hallows, hafter, List.foldl_cons, hafter]
      exact ⟨hclean, hfold⟩

/-- Actions that are not about names and values. -/
theorem clean_neutral (len : Bool) (as : List Action)
    (h : ∀ a ∈ as, a ≠ .startField ∧ a ≠ .writeField ∧ a ≠ .writeValue) :
    clean (withLen len) as = true ∧ as.foldl Known.after (withLen len) = withLen len := by
  induction as with
  | nil => exact ⟨rfl, rfl⟩
  | cons a as ih =>
      rcases ih (fun b hb => h b (List.mem_cons_of_mem _ hb)) with ⟨hclean, hfold⟩
      rcases h a List.mem_cons_self with ⟨hstart, hwrite, hvalue⟩
      have hallows : (withLen len).allows a = true := by
        cases a <;> first | rfl | exact absurd rfl hvalue
      have hafter : (withLen len).after a = withLen len := by
        cases a <;> first | rfl | exact absurd rfl hstart | exact absurd rfl hwrite
      rw [clean, hallows, hafter, List.foldl_cons, hafter]
      exact ⟨hclean, hfold⟩

theorem neutral_fires (m : Rule)
    (h : ∀ a ∈ m.embedded, a ≠ .startField ∧ a ≠ .writeField ∧ a ≠ .writeValue)
    (entered left : Bool) (s : Live) (c : Option UInt8) :
    ∀ a ∈ fires m entered left s c, a ≠ .startField ∧ a ≠ .writeField ∧ a ≠ .writeValue :=
  fun a ha => h a (embedded_of_mem_fires m a entered left s c ha)

/-- The actions of a name. -/
theorem fires_fieldName (entered left : Bool) (s : Live) (c : Option UInt8) :
    fires fieldName entered left s c =
      (if entered && first fieldName c then [.startField] else []) ++
        if left && final fieldName s then [.writeField] else [] := by
  have hfinal : final (.enter .startField (Machine.plus (.chars token)) : Rule) s =
      final fieldName s := by
    cases s <;> rfl
  have hnull : nullable (Machine.plus (.chars token) : Rule) = false := rfl
  rw [fieldName, fires_leave, fires_enter, fires_plain _ rfl, List.append_nil]
  rw [hnull, Bool.false_and, Bool.or_false]
  have hnull' : nullable (.enter .startField (Machine.plus (.chars token)) : Rule) = false := rfl
  rw [hnull', Bool.and_false, Bool.or_false, hfinal]
  rfl

/-- Entering what is behind a name executes nothing. -/
theorem fires_afterName (left : Bool) (c : Option UInt8) :
    fires afterName true left .idle c = [] := by
  have hinto : into (text ":") true .idle = false := rfl
  have hsplit : afterName = .seq (text ":") (cat [Machine.star lws, fieldValue]) := rfl
  rw [hsplit, fires_seq, hinto, right_idle, fires_idle, fires_plain _ rfl]
  rfl

/-- The actions of a field, which is entered only if it is not live. -/
theorem clean_field (entered left len : Bool) (s : Live) (c : Option UInt8)
    (hidle : entered = true → s = .idle) (hval : len = false → s.right = .idle) :
    clean (withLen len) (fires field entered left s c) = true ∧
      ∃ len', (fires field entered left s c).foldl Known.after (withLen len) = withLen len' ∧
        (len' = false → (shift field entered s c).right = .idle) := by
  have hsplit : field = .seq fieldName afterName := rfl
  have hnull : nullable afterName = false := rfl
  have hinto := into_not_nullable fieldName entered s rfl
  rw [hsplit, fires_seq, shift_seq, right_join, hnull, Bool.false_and, Bool.or_false, hinto,
    fires_fieldName]
  cases entered with
  | true =>
      -- Nothing of the field is live, so at most the start of a name is noted.
      rw [hidle rfl, left_idle, right_idle, final_idle, fires_idle, shift_idle, Bool.and_false,
        Bool.true_and]
      cases first fieldName c with
      | true => exact ⟨rfl, false, rfl, fun _ => rfl⟩
      | false => exact ⟨rfl, len, rfl, fun _ => rfl⟩
  | false =>
      rw [Bool.false_and]
      by_cases hlive : s.right = .idle
      · -- Still in the name: it ends here if the next byte is a colon.
        rw [hlive]
        cases hfinal : final fieldName s.left with
        | false =>
            rw [fires_idle, shift_idle, Bool.and_false]
            exact ⟨rfl, len, rfl, fun _ => rfl⟩
        | true =>
            rw [fires_afterName, Bool.and_true]
            cases hfirst : first afterName c with
            | true => exact ⟨rfl, true, rfl, fun hno => by cases hno⟩
            | false =>
                rw [shift_not_first _ _ _ hfirst, shift_idle]
                exact ⟨rfl, len, rfl, fun _ => rfl⟩
      · -- Behind the name its length is known, and no other name starts.
        have hlen : len = true := by
          cases len with
          | true => rfl
          | false => exact absurd (hval rfl) hlive
        subst hlen
        rcases clean_withLen (([] : List Action) ++
          (if first afterName c && final fieldName s.left then [.writeField] else []) ++
          fires afterName (final fieldName s.left) left s.right c) (by
            intro hm
            rw [List.nil_append, List.mem_append, mem_ite_singleton] at hm
            rcases hm with ⟨-, hm⟩ | hm
            · cases hm
            · exact absurd (embedded_of_mem_fires _ _ _ _ _ _ hm) (by decide)) with
          ⟨hclean, hfold⟩
        exact ⟨hclean, true, hfold, fun hno => by cases hno⟩

/-! ## Bytes -/

/-- The actions of a byte: those of a field, and others that do not matter to it. -/
theorem actions_split (relaxed : Bool) (cs : Cs) (c : UInt8) :
    ∃ left xs ys, cs.actions relaxed c =
        xs ++ fires field (fieldEntered relaxed cs.live) left (fieldsOf cs.live).left
          (fieldByte (fieldEntered relaxed cs.live) (fieldsOf cs.live) (some c)) ++ ys ∧
      (∀ a ∈ xs, a ≠ .startField ∧ a ≠ .writeField ∧ a ≠ .writeValue) ∧
      ∀ a ∈ ys, a ≠ .startField ∧ a ≠ .writeField ∧ a ≠ .writeValue := by
  have hinto := into_not_nullable _ cs.entered cs.live.left (nullable_requestLine relaxed)
  have hline := neutral_fires (requestLine relaxed) (by cases relaxed <;> decide)
  have hend := neutral_fires CRLF (by decide)
  have hsocket := neutral_fires (socketRequest relaxed) (by cases relaxed <;> decide)
  have hdone : ∀ p : Bool, ∀ a ∈ (if p then [Action.done] else []),
      a ≠ .startField ∧ a ≠ .writeField ∧ a ≠ .writeValue := by decide
  -- In the order of the expression: request line, field, line ends, the other protocol, done.
  rw [Cs.actions, main, fires_finish, fires_alt, request, fires_seq, hinto, headers, fires_seq,
    fires_star, messageHeader, fires_entryGuard]
  simp only [List.append_assoc]
  refine ⟨_, _, _, rfl, hline _ _ _ _, ?_⟩
  intro a ha
  simp only [List.mem_append] at ha
  rcases ha with ha | ha | ha | ha
  · exact hend _ _ _ _ a ha
  · exact hend _ _ _ _ a ha
  · exact hsocket _ _ _ _ a ha
  · exact hdone _ a ha

/-- The positions of the fields after a byte are again those of one field, or of
    the end of its line. -/
theorem fieldOrder_positions (relaxed : Bool) (cs : Cs) (len : Bool) (c : UInt8)
    (h : FieldOrder relaxed cs len) :
    (cs.step relaxed c).live.left.right ≠ .idle → (cs.step relaxed c).live.left.left = .idle := by
  rcases shift_main relaxed cs.entered cs.live (some c) with ⟨hline, hheaders, -⟩
  rw [Cs.step, hline, hheaders]
  intro hlive
  by_cases hidle : cs.live.left.right = .idle
  · -- The headers have just been entered, so the request line is at its end.
    have hfinal : final (requestLine relaxed) cs.live.left.left = true := by
      by_contra hno
      rw [hidle, Bool.eq_false_iff.2 hno, shift_idle] at hlive
      exact absurd rfl hlive
    have hentered : cs.entered = false := by
      by_contra hno
      rw [h.start (Bool.eq_true_of_not_eq_false hno), left_idle, left_idle, final_idle] at hfinal
      cases hfinal
    rw [hentered]
    exact h.lineEnds hfinal _
  · -- There were headers before, so the request line is over.
    have hentered : cs.entered = false := by
      by_contra hno
      rw [h.start (Bool.eq_true_of_not_eq_false hno)] at hidle
      exact absurd rfl hidle
    rw [hentered, h.line hidle, shift_idle]

/-- The same for a field and the end of its line. -/
theorem fieldOrder_field (relaxed : Bool) (cs : Cs) (len : Bool) (c : UInt8)
    (h : FieldOrder relaxed cs len) :
    (fieldsOf (cs.step relaxed c).live).right ≠ .idle →
      (fieldsOf (cs.step relaxed c).live).left = .idle := by
  rcases shift_main relaxed cs.entered cs.live (some c) with ⟨-, -, hfields⟩
  rw [Cs.step, hfields, shift_messageHeader, left_join, right_join]
  intro hlive
  cases hguard : into field (fieldEntered relaxed cs.live) (fieldsOf cs.live) &&
      first CRLF (some c) with
  | true =>
      -- The guard has given the field up.
      rw [fieldByte, if_pos hguard]
      exact shift_none _ _ _
  | false =>
      -- The line end was live before, so nothing of the field is.
      have hsame : shift CRLF (into field (fieldEntered relaxed cs.live) (fieldsOf cs.live))
          (fieldsOf cs.live).right (some c) =
          shift CRLF false (fieldsOf cs.live).right (some c) := by
        cases hinto : into field (fieldEntered relaxed cs.live) (fieldsOf cs.live) with
        | false => rfl
        | true =>
            rw [hinto, Bool.true_and] at hguard
            exact shift_not_first _ _ _ hguard
      rw [hsame] at hlive
      have hright : (fieldsOf cs.live).right ≠ .idle := by
        intro hidle
        rw [hidle, shift_idle] at hlive
        exact absurd rfl hlive
      have hentered : fieldEntered relaxed cs.live = false := by
        by_contra hno
        rw [Bool.not_eq_false, fieldEntered, Bool.or_eq_true] at hno
        rcases hno with hno | hno
        · rw [fieldsOf, h.no_headers hno] at hright
          exact absurd rfl hright
        · have hnull : nullable CRLF = false := rfl
          rw [messageHeader, final_entryGuard, hnull, Bool.false_and, Bool.or_false] at hno
          rw [h.fieldEnds hno] at hlive
          exact absurd rfl hlive
      rw [hentered, h.field hright, shift_idle]

/-- A byte keeps the order, and its actions are clean. -/
theorem fieldOrder_step (relaxed : Bool) (cs : Cs) (len : Bool) (c : UInt8)
    (h : FieldOrder relaxed cs len) :
    clean (withLen len) (cs.actions relaxed c) = true ∧
      ∃ len', (cs.actions relaxed c).foldl Known.after (withLen len) = withLen len' ∧
        FieldOrder relaxed (cs.step relaxed c) len' := by
  rcases shift_main relaxed cs.entered cs.live (some c) with ⟨hline, hheaders, hfields⟩
  rcases actions_split relaxed cs c with ⟨left, xs, ys, hacts, hxs, hys⟩
  rcases clean_neutral len xs hxs with ⟨hclean₁, hfold₁⟩
  rcases clean_field (fieldEntered relaxed cs.live) left len (fieldsOf cs.live).left
    (fieldByte (fieldEntered relaxed cs.live) (fieldsOf cs.live) (some c))
    (fun he => fieldsOf_entered relaxed cs len h he) h.value with ⟨hclean₂, len', hfold₂, hval⟩
  rcases clean_neutral len' ys hys with ⟨hclean₃, hfold₃⟩
  have hclean : clean (withLen len) (cs.actions relaxed c) = true := by
    rw [hacts, clean_append, clean_append, List.foldl_append, hfold₁, hclean₁, hclean₂, hfold₂,
      hclean₃]
    rfl
  have hfold : (cs.actions relaxed c).foldl Known.after (withLen len) = withLen len' := by
    rw [hacts, List.foldl_append, List.foldl_append, hfold₁, hfold₂, hfold₃]
  refine ⟨hclean, len', hfold, (fun hno => by cases hno), ?_, ?_, ?_, ?_, ?_⟩
  · exact fieldOrder_positions relaxed cs len c h
  · rw [Cs.step, hline]
    intro hfinal c'
    exact (ends_requestLine relaxed).1 _ _ _ hfinal c'
  · exact fieldOrder_field relaxed cs len c h
  · rw [Cs.step, hfields, shift_messageHeader, right_join]
    intro hfinal c'
    exact ends_CRLF _ _ _ hfinal c'
  · rw [Cs.step, hfields, shift_messageHeader, left_join]
    exact hval

theorem fieldOrder_start (relaxed len : Bool) : FieldOrder relaxed .start len :=
  ⟨fun _ => rfl, fun h => absurd rfl h, (fun h => by cases h), fun h => absurd rfl h,
    (fun h => by cases h), fun _ => rfl⟩

/-- The actions on any bytes are clean. -/
theorem clean_trace (relaxed : Bool) (bytes : List UInt8) :
    clean .all (trace relaxed .start bytes).flatten = true := by
  -- Along the bytes, from any state in order; the start is one.
  have hrun : ∀ bytes cs len, FieldOrder relaxed cs len →
      clean (withLen len) (trace relaxed cs bytes).flatten = true := by
    intro bytes
    induction bytes with
    | nil =>
        intro cs len _
        rfl
    | cons c bytes ih =>
        intro cs len h
        rcases fieldOrder_step relaxed cs len c h with ⟨hclean, len', hfold, h'⟩
        rw [trace, List.flatten_cons, clean_append, hclean, hfold, ih _ len' h']
        rfl
  exact hrun bytes .start true (fieldOrder_start relaxed true)

end HttpParser

end YkServer
