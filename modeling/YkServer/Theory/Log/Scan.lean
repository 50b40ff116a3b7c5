import YkServer.Core.LogFormatter

/-!
# Scanning a Pattern

What the two loops over a pattern make of it, told by the rest of the pattern instead of an
index. A percent sign takes all letters and closing braces behind it for a key. A brace
opens a format, which ends at the first closing brace. Of two percent signs in a row
the first is text, and the second is looked at again.

## Main definitions

* `Lexes`: What a rest of the pattern is made into.

## Theorems

* `scanConversion_word`, `scanConversion_brace`: The loop over a conversion.
* `initLoop_of_lexes`, `lexes_of_initLoop`: The loop over the pattern.
* `initLoop_total`: It ends, and stays in the pattern.
-/

namespace YkServer

open Lib

namespace LogFormatter

/-- A character that the loop takes for a part of the key. -/
def keyChar (c : UInt8) : Bool := isalpha c || c = 125

/-- A character of a format. -/
def bodyChar (c : UInt8) : Bool := decide (c ≠ 125)

section Conversion

variable (pattern s : List UInt8) (i : Nat)

/-- The rest of the pattern behind a percent sign. -/
def Behind : Prop := i < pattern.length ∧ pattern.drop (i + 1) = s

variable {pattern s i}

theorem Behind.get (h : Behind pattern s i) (j : Nat) : pattern[i + 1 + j]? = s[j]? := by
  rw [← h.2, List.getElem?_drop]

theorem Behind.length (h : Behind pattern s i) : pattern.length = i + 1 + s.length := by
  have hlen := h.1
  rw [← h.2, List.length_drop]
  omega

/-- What lies between the percent sign and an index. -/
theorem Behind.substr (h : Behind pattern s i) (k t : List UInt8) (hs : s = k ++ t) :
    substr pattern (i + 1) (i + 1 + k.length - i - 1) = some k := by
  have hlen := h.1
  have hcount : i + 1 + k.length - i - 1 = k.length := by omega
  rw [LogFormatter.substr, if_pos (by omega), h.2, hcount, hs, List.take_left]

/-- The whole rest. -/
theorem Behind.substr_all (h : Behind pattern s i) :
    LogFormatter.substr pattern (i + 1) pattern.length = some s := by
  have hlen := h.1
  have hrest := h.length
  rw [LogFormatter.substr, if_pos (by omega), h.2, List.take_of_length_le (by omega)]

/-! ## The loop over a conversion -/

theorem keyChar_ne (c : UInt8) (hc : keyChar c = true) : c ≠ 123 ∧ c ≠ 37 := by
  refine ⟨fun h => ?_, fun h => ?_⟩
  · rw [h] at hc
    cases hc
  · rw [h] at hc
    cases hc

theorem scanConversion_end (fuel : Nat) (v : Scan) (hend : pattern[v.n]? = none) :
    scanConversion pattern i (fuel + 1) v = some v := by
  rw [scanConversion, hend]

/-- The key ends at a character that is no part of it. -/
theorem scanConversion_stop (h : Behind pattern s i) (k t : List UInt8) (c : UInt8)
    (hs : s = k ++ c :: t) (hc : keyChar c = false) (hbrace : c ≠ 123) (fuel : Nat) :
    scanConversion pattern i (fuel + 1) ⟨i + 1 + k.length, 0, 0, [], []⟩ =
      some ⟨i + 1 + k.length, 0, 0, k, []⟩ := by
  have hget : pattern[i + 1 + k.length]? = some c := by
    rw [h.get, hs, List.getElem?_append_right (Nat.le_refl _), Nat.sub_self]
    rfl
  rw [keyChar, Bool.or_eq_false_iff, decide_eq_false_iff_not] at hc
  simp only [scanConversion, hget, hc.1, Bool.not_false, decide_true, Bool.true_and,
    decide_eq_true hbrace, ne_eq, hc.2, not_false_eq_true, Bool.and_true, if_true,
    h.substr k (c :: t) hs, Option.bind_eq_bind, Option.bind_some]

/-- A brace ends it too, and opens the format. -/
theorem scanConversion_open (h : Behind pattern s i) (k t : List UInt8)
    (hs : s = k ++ 123 :: t) (fuel : Nat) :
    scanConversion pattern i (fuel + 1) ⟨i + 1 + k.length, 0, 0, [], []⟩ =
      scanConversion pattern i fuel
        ⟨i + 1 + k.length + 1, 1, intOfWord (i + 1 + k.length), k, []⟩ := by
  have hget : pattern[i + 1 + k.length]? = some 123 := by
    rw [h.get, hs, List.getElem?_append_right (Nat.le_refl _), Nat.sub_self]
    rfl
  rw [scanConversion, hget]
  simp only [h.substr k (123 :: t) hs, Option.bind_eq_bind, Option.bind_some]
  rfl

/-- A part of the key is passed over. Behind the last one in the pattern the key is noted. -/
theorem scanConversion_key (h : Behind pattern s i) (k t : List UInt8) (c : UInt8)
    (hs : s = k ++ c :: t) (hc : keyChar c = true) (fuel : Nat) :
    scanConversion pattern i (fuel + 1) ⟨i + 1 + k.length, 0, 0, [], []⟩ =
      scanConversion pattern i fuel
        ⟨i + 1 + (k ++ [c]).length, 0, 0, if t = [] then k ++ [c] else [], []⟩ := by
  have hget : pattern[i + 1 + k.length]? = some c := by
    rw [h.get, hs, List.getElem?_append_right (Nat.le_refl _), Nat.sub_self]
    rfl
  have hfirst : (!isalpha c && decide (c ≠ 123) && decide (c ≠ 125)) = false := by
    rw [keyChar, Bool.or_eq_true, decide_eq_true_eq] at hc
    rcases hc with hc | hc
    · rw [hc, Bool.not_true, Bool.false_and, Bool.false_and]
    · rw [decide_eq_false (not_not_intro hc), Bool.and_false]
  have hlast : i + 1 + k.length + 1 = pattern.length ↔ t = [] := by
    rw [h.length, hs, List.length_append, List.length_cons, ← List.length_eq_zero_iff]
    omega
  have hcount : i + 1 + (k ++ [c]).length = i + 1 + k.length + 1 := by
    rw [List.length_append, List.length_singleton]
    rfl
  rw [scanConversion, hget, hcount]
  simp only [decide_true, Bool.true_and, hfirst, Bool.false_eq_true, if_false,
    (keyChar_ne c hc).1, decide_false, hlast, Bool.and_true, decide_eq_true_eq,
    show ((0 : Nat) = 1) = False by decide, Bool.false_and]
  by_cases ht : t = []
  · rw [if_pos ht, if_pos ht, h.substr_all, hs, ht]
    rfl
  · rw [if_neg ht, if_neg ht]

/-- A key that ends with the pattern, or in front of something else than an opening brace. -/
theorem scanConversion_word (h : Behind pattern s i) (k t : List UInt8) (hs : s = k ++ t)
    (hend : (t.dropWhile keyChar).head? ≠ some 123) (hk : t = [] → k = []) (fuel : Nat)
    (hfuel : t.length < fuel) :
    scanConversion pattern i fuel ⟨i + 1 + k.length, 0, 0, [], []⟩ =
      some ⟨i + 1 + (k ++ t.takeWhile keyChar).length, 0, 0, k ++ t.takeWhile keyChar, []⟩ := by
  induction t generalizing k fuel with
  | nil =>
      rcases Nat.exists_eq_succ_of_ne_zero (Nat.ne_of_gt (Nat.zero_lt_of_lt hfuel)) with ⟨f, rfl⟩
      rw [hk rfl, List.append_nil] at hs
      rw [hk rfl, scanConversion, h.get, hs]
      rfl
  | cons c t ih =>
      rcases Nat.exists_eq_succ_of_ne_zero (Nat.ne_of_gt (Nat.zero_lt_of_lt hfuel)) with ⟨f, rfl⟩
      rw [List.length_cons, Nat.succ_lt_succ_iff] at hfuel
      by_cases hc : keyChar c = true
      · rw [scanConversion_key h k t c hs hc, List.takeWhile_cons_of_pos hc]
        rw [List.dropWhile_cons_of_pos hc] at hend
        by_cases ht : t = []
        · -- The loop ends with the pattern.
          rcases Nat.exists_eq_succ_of_ne_zero (Nat.ne_of_gt (Nat.zero_lt_of_lt hfuel)) with
            ⟨f', rfl⟩
          have hend' : pattern[i + 1 + (k ++ [c]).length]? = none := by
            rw [h.get, hs, ht]
            exact List.getElem?_eq_none (Nat.le_refl _)
          rw [scanConversion_end _ _ hend', if_pos ht, ht]
          rfl
        · rw [if_neg ht]
          have hnext := ih (k ++ [c]) (by rw [hs, List.append_assoc]; rfl) hend
            (fun hnil => absurd hnil ht) f hfuel
          rw [hnext, List.append_assoc]
          rfl
      · rw [List.dropWhile_cons_of_neg hc] at hend
        rw [scanConversion_stop h k t c hs (Bool.eq_false_iff.2 hc)
          (fun hbrace => hend (by rw [hbrace]; rfl)), List.takeWhile_cons_of_neg hc,
          List.append_nil]

/-- A key in front of an opening brace. -/
theorem scanConversion_brace (h : Behind pattern s i) (k t body : List UInt8) (hs : s = k ++ t)
    (hend : t.dropWhile keyChar = 123 :: body) (fuel : Nat) (hfuel : t.length < fuel) :
    ∃ fuel', body.length < fuel' ∧
      scanConversion pattern i fuel ⟨i + 1 + k.length, 0, 0, [], []⟩ =
        scanConversion pattern i fuel' ⟨i + 1 + (k ++ t.takeWhile keyChar).length + 1, 1,
          intOfWord (i + 1 + (k ++ t.takeWhile keyChar).length), k ++ t.takeWhile keyChar, []⟩ := by
  induction t generalizing k fuel with
  | nil => cases hend
  | cons c t ih =>
      rcases Nat.exists_eq_succ_of_ne_zero (Nat.ne_of_gt (Nat.zero_lt_of_lt hfuel)) with ⟨f, rfl⟩
      rw [List.length_cons, Nat.succ_lt_succ_iff] at hfuel
      by_cases hc : keyChar c = true
      · rw [scanConversion_key h k t c hs hc, List.takeWhile_cons_of_pos hc]
        rw [List.dropWhile_cons_of_pos hc] at hend
        have ht : t ≠ [] := by
          intro hnil
          rw [hnil] at hend
          cases hend
        rcases ih (k ++ [c]) (by rw [hs, List.append_assoc]; rfl) hend f hfuel with
          ⟨fuel', hfuel', hnext⟩
        rw [if_neg ht, hnext, List.append_assoc]
        exact ⟨fuel', hfuel', rfl⟩
      · rw [List.dropWhile_cons_of_neg hc, List.cons.injEq] at hend
        rw [hend.1] at hs
        rw [List.takeWhile_cons_of_neg hc, List.append_nil, scanConversion_open h k t hs]
        exact ⟨f, by rw [← hend.2]; exact hfuel, rfl⟩

/-- One character of a format. -/
theorem scanConversion_body (h : Behind pattern s i) (fuel n : Nat) (b : Int) (str : List UInt8)
    (c : UInt8) (hget : pattern[n]? = some c) (hc : c ≠ 125) :
    scanConversion pattern i (fuel + 1) ⟨n, 1, b, str, []⟩ =
      scanConversion pattern i fuel
        ⟨n + 1, 1, b, if n + 1 = pattern.length ∧ str = [] then s else str, []⟩ := by
  rw [scanConversion, hget]
  simp only [show ((1 : Nat) = 0) = False by decide, decide_false, Bool.false_and,
    Bool.false_eq_true, if_false, hc, Bool.and_false, Bool.and_eq_true, decide_eq_true_eq]
  by_cases hlast : n + 1 = pattern.length ∧ str = []
  · rw [if_pos hlast, if_pos hlast, h.substr_all]
    rfl
  · rw [if_neg hlast, if_neg hlast]

/-- A format without an end. -/
theorem scanConversion_unclosed (h : Behind pattern s i) (body : List UInt8) (n : Nat) (b : Int)
    (str : List UInt8) (hget : ∀ j, pattern[n + j]? = body[j]?)
    (hbody : body.dropWhile bodyChar = []) (fuel : Nat) (hfuel : body.length < fuel) :
    ∃ v, scanConversion pattern i fuel ⟨n, 1, b, str, []⟩ = some v ∧ v.fmtStatus = 1 := by
  induction body generalizing n str fuel with
  | nil =>
      rcases Nat.exists_eq_succ_of_ne_zero (Nat.ne_of_gt (Nat.zero_lt_of_lt hfuel)) with ⟨f, rfl⟩
      exact ⟨_, scanConversion_end f _ (hget 0), rfl⟩
  | cons c body ih =>
      rcases Nat.exists_eq_succ_of_ne_zero (Nat.ne_of_gt (Nat.zero_lt_of_lt hfuel)) with ⟨f, rfl⟩
      by_cases hc : bodyChar c = true
      · rw [List.dropWhile_cons_of_pos hc] at hbody
        rw [scanConversion_body h f n b str c (hget 0) (of_decide_eq_true hc)]
        refine ih (n + 1) _ (fun j => ?_) hbody f (Nat.lt_of_succ_lt_succ hfuel)
        rw [Nat.add_right_comm, Nat.add_assoc]
        exact hget (j + 1)
      · rw [List.dropWhile_cons_of_neg hc] at hbody
        cases hbody

/-- A format up to the first closing brace. -/
theorem scanConversion_closed (h : Behind pattern s i) (body rest : List UInt8) (n : Nat) (b : Int)
    (str : List UInt8) (hget : ∀ j, pattern[n + j]? = body[j]?)
    (hbody : body.dropWhile bodyChar = 125 :: rest) (fuel : Nat) (hfuel : body.length < fuel) :
    scanConversion pattern i fuel ⟨n, 1, b, str, []⟩ =
      (formatText pattern b (n + (body.takeWhile bodyChar).length)).map
        (fun fmt => ⟨n + (body.takeWhile bodyChar).length + 1, 0, b, str, fmt⟩) := by
  induction body generalizing n str fuel with
  | nil => cases hbody
  | cons c body ih =>
      rcases Nat.exists_eq_succ_of_ne_zero (Nat.ne_of_gt (Nat.zero_lt_of_lt hfuel)) with ⟨f, rfl⟩
      by_cases hc : bodyChar c = true
      · rw [List.dropWhile_cons_of_pos hc] at hbody
        -- The brace is still to come, so this is not the last character.
        have hmore : ¬(n + 1 = pattern.length ∧ str = []) := by
          intro hlast
          have hnone : body[0]? = none := by
            rw [← List.getElem?_cons_succ, ← hget 1, List.getElem?_eq_none_iff, hlast.1]
          rw [List.getElem?_eq_none_iff] at hnone
          rw [List.length_eq_zero_iff.1 (Nat.le_zero.1 hnone)] at hbody
          cases hbody
        have hget' : ∀ j, pattern[n + 1 + j]? = body[j]? := by
          intro j
          rw [Nat.add_right_comm, Nat.add_assoc]
          exact hget (j + 1)
        have hcount : n + 1 + (body.takeWhile bodyChar).length =
            n + ((body.takeWhile bodyChar).length + 1) := by omega
        rw [scanConversion_body h f n b str c (hget 0) (of_decide_eq_true hc), if_neg hmore,
          ih (n + 1) str hget' hbody f (Nat.lt_of_succ_lt_succ hfuel),
          List.takeWhile_cons_of_pos hc, List.length_cons, hcount]
      · rw [List.dropWhile_cons_of_neg hc, List.cons.injEq] at hbody
        have hget' : pattern[n]? = some 125 := by
          rw [← hbody.1]
          exact hget 0
        rw [List.takeWhile_cons_of_neg hc, scanConversion, hget']
        simp only [show ((1 : Nat) = 0) = False by decide, decide_false, Bool.false_and,
          Bool.false_eq_true, if_false, decide_true, Bool.and_self, if_true, List.length_nil,
          Nat.add_zero]
        cases formatText pattern b n with
        | none => rfl
        | some fmt => rfl

/-- What the loop makes of the rest behind a percent sign. -/
theorem scanConversion_cases (h : Behind pattern s i) :
    ((s.dropWhile keyChar).head? ≠ some 123 ∧
      scanConversion pattern i (pattern.length + 1) ⟨i + 1, 0, 0, [], []⟩ =
        some ⟨i + 1 + (s.takeWhile keyChar).length, 0, 0, s.takeWhile keyChar, []⟩) ∨
    ∃ body, s.dropWhile keyChar = 123 :: body ∧
      ((body.dropWhile bodyChar = [] ∧
        ∃ v, scanConversion pattern i (pattern.length + 1) ⟨i + 1, 0, 0, [], []⟩ = some v ∧
          v.fmtStatus = 1) ∨
      ∃ rest, body.dropWhile bodyChar = 125 :: rest ∧
        scanConversion pattern i (pattern.length + 1) ⟨i + 1, 0, 0, [], []⟩ =
          (formatText pattern (intOfWord (i + 1 + (s.takeWhile keyChar).length))
            (i + 1 + (s.takeWhile keyChar).length + 1 + (body.takeWhile bodyChar).length)).map
            (fun fmt => ⟨i + 1 + (s.takeWhile keyChar).length + 1 +
                (body.takeWhile bodyChar).length + 1, 0,
              intOfWord (i + 1 + (s.takeWhile keyChar).length), s.takeWhile keyChar, fmt⟩)) := by
  have hlen := h.length
  have hfuel : s.length < pattern.length + 1 := by omega
  by_cases hend : (s.dropWhile keyChar).head? = some 123
  · rcases hdrop : s.dropWhile keyChar with _ | ⟨c, body⟩
    · rw [hdrop] at hend
      cases hend
    · rw [hdrop, List.head?_cons, Option.some.injEq] at hend
      rw [hend] at hdrop
      rcases scanConversion_brace h [] s body rfl hdrop _ hfuel with ⟨fuel', hfuel', hscan⟩
      rw [List.nil_append] at hscan
      change scanConversion pattern i (pattern.length + 1) ⟨i + 1, 0, 0, [], []⟩ = _ at hscan
      have hsplit : s = s.takeWhile keyChar ++ 123 :: body := by
        rw [← hdrop, List.takeWhile_append_dropWhile]
      have hget : ∀ j, pattern[i + 1 + (s.takeWhile keyChar).length + 1 + j]? = body[j]? := by
        intro j
        have hat : i + 1 + (s.takeWhile keyChar).length + 1 + j =
            i + 1 + ((s.takeWhile keyChar).length + (j + 1)) := by omega
        rw [hat, h.get]
        refine (congrArg (fun l : List UInt8 => l[(s.takeWhile keyChar).length + (j + 1)]?)
          hsplit).trans ?_
        rw [List.getElem?_append_right (Nat.le_add_right _ _), Nat.add_sub_cancel_left]
        rfl
      refine Or.inr ⟨body, by rw [hend], ?_⟩
      rcases hclose : body.dropWhile bodyChar with _ | ⟨d, rest⟩
      · rcases scanConversion_unclosed h body _ _ _ hget hclose fuel' hfuel' with ⟨v, hv, hstatus⟩
        exact Or.inl ⟨rfl, v, by rw [hscan, hv], hstatus⟩
      · have hd : d = 125 := by
          have hhead := List.head?_dropWhile_not bodyChar body
          rw [hclose] at hhead
          exact not_not.1 (of_decide_eq_false hhead)
        rw [hd] at hclose ⊢
        exact Or.inr ⟨rest, rfl, by rw [hscan, scanConversion_closed h body rest _ _ _ hget hclose
          fuel' hfuel']⟩
  · exact Or.inl ⟨hend, scanConversion_word h [] s rfl hend (fun _ => rfl) _ hfuel⟩

end Conversion

/-! ## Formats -/

/-- The text between two braces of which the first is at `b`, as the code gets at it. -/
def between (pattern : List UInt8) (b n : Nat) : Option (List UInt8) :=
  formatText pattern (intOfWord b) n

/-- Where the index of the opening brace, plus one, is a nonnegative `int`, there is a format;
    it is the right one as long as nothing has been cut off the index, and far too long
    otherwise. -/
theorem between_some (pattern : List UInt8) (b n : Nat) (hb : (b + 1) % 2 ^ 32 < 2 ^ 31)
    (hbn : b < n) (hn : n < pattern.length) (hlen : pattern.length < 2 ^ 63) :
    ∃ fmt, between pattern b n = some fmt ∧
      (b + 1 < 2 ^ 31 → fmt = (pattern.drop (b + 1)).take (n - b - 1)) ∧
      (2 ^ 31 ≤ b + 1 → 2 ^ 32 + (n - b - 1) ≤ fmt.length) := by
  rw [between, formatText]
  by_cases hm : b % 2 ^ 32 < 2 ^ 31
  · -- The index is cut down to `b % 2 ^ 32`.
    have hbegin : intOfWord b = (b % 2 ^ 32 : Nat) := by rw [intOfWord, if_pos hm]
    have hpos : wordOfInt (((b % 2 ^ 32 : Nat) : Int) + 1) = b % 2 ^ 32 + 1 :=
      wordOfInt_natCast (b % 2 ^ 32 + 1)
    have hcount : subWord (subWord n (b % 2 ^ 32)) 1 = n - b % 2 ^ 32 - 1 := by
      rw [subWord, subWord, if_pos (show b % 2 ^ 32 ≤ n by omega), if_pos (by omega)]
    rw [hbegin, if_neg (by omega), hpos, wordOfInt_natCast, hcount, substr, if_pos (by omega)]
    refine ⟨_, rfl, fun hsmall => ?_, fun hlarge => ?_⟩
    · rw [Nat.mod_eq_of_lt (show b < 2 ^ 32 by omega)]
    · rw [List.length_take, List.length_drop]
      omega
  · -- It is cut down to -1.
    have hbegin : intOfWord b = -1 := by
      rw [intOfWord, if_neg hm]
      omega
    have hwrap : subWord n (wordOfInt (-1)) = n + 1 := by
      rw [show wordOfInt (-1) = 2 ^ 64 - 1 from rfl, subWord, if_neg (by omega)]
      omega
    have hcount : subWord (subWord n (wordOfInt (-1))) 1 = n := by
      rw [hwrap, subWord, if_pos (by omega), Nat.add_sub_cancel]
    rw [hbegin, if_neg (by decide), show wordOfInt (-1 + 1) = 0 from rfl, hcount, substr,
      if_pos (Nat.zero_le _), List.drop_zero]
    refine ⟨_, rfl, fun hsmall => ?_, fun hlarge => ?_⟩
    · omega
    · rw [List.length_take]
      omega

theorem between_none (pattern : List UInt8) (b n : Nat) (hb : ¬(b + 1) % 2 ^ 32 < 2 ^ 31)
    (hlen : pattern.length < 2 ^ 63) : between pattern b n = none := by
  rw [between, formatText]
  by_cases hmax : intOfWord b = 2 ^ 31 - 1
  · rw [if_pos hmax]
  · have hm : 2 ^ 31 ≤ b % 2 ^ 32 := by
      by_contra hlt
      refine hmax ?_
      rw [intOfWord, if_pos (by omega)]
      omega
    have hbegin : intOfWord b = (b % 2 ^ 32 : Nat) - 2 ^ 32 := by
      rw [intOfWord, if_neg (by omega)]
    rw [if_neg hmax, hbegin, substr, if_neg]
    rw [wordOfInt, if_neg (by omega)]
    omega

/-! ## The loop over the pattern -/

/-- What entries print. -/
def output (strftime : List UInt8 → UInt64 → List UInt8) (level : LogLevel) (event : LogEvent)
    (es : List Entry) : List UInt8 :=
  es.flatMap (fun e => (item e).format strftime level event)

/-- What a rest of the pattern from `i` on is made into, if there is no error. -/
inductive Lexes (pattern : List UInt8) : Nat → List UInt8 → List Entry → Prop where
  | done (i : Nat) : Lexes pattern i [] []
  | char (i : Nat) (c : UInt8) (s : List UInt8) (es : List Entry) (hc : c ≠ 37)
      (hrest : Lexes pattern (i + 1) s es) : Lexes pattern i (c :: s) (.text [c] :: es)
  | escape (i : Nat) (s : List UInt8) (es : List Entry)
      (hrest : Lexes pattern (i + 1) (37 :: s) es) :
      Lexes pattern i (37 :: 37 :: s) (.text [37] :: es)
  | word (i : Nat) (s : List UInt8) (es : List Entry) (hhead : s.head? ≠ some 37)
      (hend : (s.dropWhile keyChar).head? ≠ some 123)
      (hrest : Lexes pattern (i + 1 + (s.takeWhile keyChar).length) (s.dropWhile keyChar) es) :
      Lexes pattern i (37 :: s) (.conversion (s.takeWhile keyChar) [] :: es)
  | braced (i : Nat) (s body rest fmt : List UInt8) (es : List Entry)
      (hopen : s.dropWhile keyChar = 123 :: body) (hclose : body.dropWhile bodyChar = 125 :: rest)
      (hfmt : between pattern (i + 1 + (s.takeWhile keyChar).length)
        (i + 1 + (s.takeWhile keyChar).length + 1 + (body.takeWhile bodyChar).length) = some fmt)
      (hrest : Lexes pattern
        (i + 1 + (s.takeWhile keyChar).length + 1 + (body.takeWhile bodyChar).length + 1) rest es) :
      Lexes pattern i (37 :: s) (.conversion (s.takeWhile keyChar) fmt :: es)

section Output

variable (strftime : List UInt8 → UInt64 → List UInt8) (level : LogLevel) (event : LogEvent)

theorem output_cons (e : Entry) (es : List Entry) :
    output strftime level event (e :: es) =
      (item e).format strftime level event ++ output strftime level event es :=
  List.flatMap_cons

theorem output_append (es fs : List Entry) :
    output strftime level event (es ++ fs) =
      output strftime level event es ++ output strftime level event fs :=
  List.flatMap_append

theorem output_text (s : List UInt8) (es : List Entry) :
    output strftime level event (.text s :: es) = s ++ output strftime level event es :=
  List.flatMap_cons

theorem output_flush (nstr : List UInt8) : output strftime level event (flush nstr) = nstr := by
  by_cases h : nstr = []
  · rw [flush, if_pos h, h]
    rfl
  · rw [flush, if_neg h, output_text]
    exact List.append_nil nstr

end Output

/-- The rest of a pattern, seen from its first character. -/
theorem behind_of_drop (pattern s : List UInt8) (i : Nat) (c : UInt8)
    (h : pattern.drop i = c :: s) : pattern[i]? = some c ∧ Behind pattern s i := by
  have hlt : i < pattern.length := by
    by_contra hge
    rw [List.drop_of_length_le (Nat.not_lt.1 hge)] at h
    cases h
  refine ⟨?_, hlt, ?_⟩
  · rw [← Nat.add_zero i, ← List.getElem?_drop, h]
    rfl
  · rw [← List.drop_drop, h]
    rfl

theorem drop_takeWhile (p : UInt8 → Bool) (s : List UInt8) :
    s.drop (s.takeWhile p).length = s.dropWhile p := by
  have hsplit : s.takeWhile p ++ s.dropWhile p = s := List.takeWhile_append_dropWhile
  exact (congrArg (List.drop (s.takeWhile p).length) hsplit).symm.trans List.drop_left

/-- Behind the key. -/
theorem Behind.drop_key {pattern s : List UInt8} {i : Nat} (h : Behind pattern s i) :
    pattern.drop (i + 1 + (s.takeWhile keyChar).length) = s.dropWhile keyChar := by
  rw [← List.drop_drop, h.2, drop_takeWhile]

/-- Behind the format. -/
theorem Behind.drop_format {pattern s : List UInt8} {i : Nat} (h : Behind pattern s i)
    (body rest : List UInt8) (hopen : s.dropWhile keyChar = 123 :: body)
    (hclose : body.dropWhile bodyChar = 125 :: rest) :
    pattern.drop (i + 1 + (s.takeWhile keyChar).length + 1 + (body.takeWhile bodyChar).length +
      1) = rest := by
  have hbody : pattern.drop (i + 1 + (s.takeWhile keyChar).length + 1) = body := by
    rw [← List.drop_drop, h.drop_key, hopen]
    rfl
  rw [← List.drop_drop, ← List.drop_drop, hbody, drop_takeWhile, hclose]
  rfl

/-- The closing brace is in the pattern. -/
theorem Behind.closed_lt {pattern s : List UInt8} {i : Nat} (h : Behind pattern s i)
    (body rest : List UInt8) (hopen : s.dropWhile keyChar = 123 :: body)
    (hclose : body.dropWhile bodyChar = 125 :: rest) :
    i + 1 + (s.takeWhile keyChar).length + 1 + (body.takeWhile bodyChar).length <
      pattern.length := by
  have hlen := h.length
  have hs : (s.takeWhile keyChar ++ s.dropWhile keyChar).length = s.length :=
    congrArg List.length List.takeWhile_append_dropWhile
  have hbody : (body.takeWhile bodyChar ++ body.dropWhile bodyChar).length = body.length :=
    congrArg List.length List.takeWhile_append_dropWhile
  rw [List.length_append, hopen, List.length_cons] at hs
  rw [List.length_append, hclose, List.length_cons] at hbody
  omega

section Loop

variable (pattern : List UInt8)

theorem length_dropWhile_le (p : UInt8 → Bool) (s : List UInt8) :
    (s.dropWhile p).length ≤ s.length := by
  rw [← drop_takeWhile, List.length_drop]
  omega

theorem initLoop_end (i : Nat) (hdrop : pattern.drop i = []) (fuel : Nat) (nstr : List UInt8) :
    initLoop pattern (fuel + 1) i nstr = some (flush nstr, false) := by
  have hend : pattern[i]? = none := by
    rw [← Nat.add_zero i, ← List.getElem?_drop, hdrop]
    rfl
  rw [initLoop, hend]

theorem initLoop_char (i : Nat) (c : UInt8) (s : List UInt8) (hdrop : pattern.drop i = c :: s)
    (hc : c ≠ 37) (fuel : Nat) (nstr : List UInt8) :
    initLoop pattern (fuel + 1) i nstr = initLoop pattern fuel (i + 1) (nstr ++ [c]) := by
  rw [initLoop, (behind_of_drop pattern s i c hdrop).1]
  exact if_pos hc

theorem initLoop_escape (i : Nat) (s : List UInt8) (hdrop : pattern.drop i = 37 :: 37 :: s)
    (fuel : Nat) (nstr : List UInt8) :
    initLoop pattern (fuel + 1) i nstr = initLoop pattern fuel (i + 1) (nstr ++ [37]) := by
  rcases behind_of_drop pattern (37 :: s) i 37 hdrop with ⟨hget, hbehind⟩
  rw [initLoop, hget]
  exact (if_neg (not_not_intro rfl)).trans (if_pos (hbehind.get 0))

theorem initLoop_conversion (i : Nat) (s : List UInt8) (hdrop : pattern.drop i = 37 :: s)
    (hhead : s.head? ≠ some 37) (fuel : Nat) (nstr : List UInt8) :
    initLoop pattern (fuel + 1) i nstr =
      (scanConversion pattern i (pattern.length + 1) ⟨i + 1, 0, 0, [], []⟩).bind fun v =>
        if v.fmtStatus = 0 then
          (initLoop pattern fuel v.n []).map
            (fun rest => (flush nstr ++ .conversion v.str v.fmt :: rest.1, rest.2))
        else
          (initLoop pattern fuel (i + 1) nstr).map
            (fun rest => (.text (ascii "<<pattern_error>>") :: rest.1, true)) := by
  rcases behind_of_drop pattern s i 37 hdrop with ⟨hget, hbehind⟩
  have hnext : ¬pattern[i + 1]? = some 37 := by
    rw [← Nat.add_zero (i + 1), hbehind.get 0, ← List.head?_eq_getElem?]
    exact hhead
  rw [initLoop, hget]
  exact (if_neg (not_not_intro rfl)).trans (if_neg hnext)

/-- In front of a brace that opens a format there is no percent sign. -/
theorem head_of_open (s body : List UInt8) (hopen : s.dropWhile keyChar = 123 :: body) :
    s.head? ≠ some 37 := by
  intro hhead
  rcases s with _ | ⟨c, s⟩
  · cases hhead
  · rw [List.head?_cons, Option.some.injEq] at hhead
    rw [hhead, List.dropWhile_cons_of_neg (by decide)] at hopen
    cases hopen

variable {pattern} in
/-- A conversion with a format. -/
theorem scanConversion_format {s : List UInt8} {i : Nat} (h : Behind pattern s i)
    (body rest : List UInt8) (hopen : s.dropWhile keyChar = 123 :: body)
    (hclose : body.dropWhile bodyChar = 125 :: rest) :
    scanConversion pattern i (pattern.length + 1) ⟨i + 1, 0, 0, [], []⟩ =
      (between pattern (i + 1 + (s.takeWhile keyChar).length)
        (i + 1 + (s.takeWhile keyChar).length + 1 + (body.takeWhile bodyChar).length)).map
        (fun fmt => ⟨i + 1 + (s.takeWhile keyChar).length + 1 +
            (body.takeWhile bodyChar).length + 1, 0,
          intOfWord (i + 1 + (s.takeWhile keyChar).length), s.takeWhile keyChar, fmt⟩) := by
  rcases scanConversion_cases h with ⟨hend, -⟩ | ⟨body', hopen', ⟨hnone, -⟩ | ⟨rest', -, hscan⟩⟩
  · rw [hopen] at hend
    exact absurd rfl hend
  · rw [hopen, List.cons.injEq] at hopen'
    rw [← hopen'.2, hclose] at hnone
    cases hnone
  · rw [hopen, List.cons.injEq] at hopen'
    rw [← hopen'.2] at hscan
    exact hscan

/-- Behind a conversion the loop goes on with no text. -/
theorem output_conversion (strftime : List UInt8 → UInt64 → List UInt8) (level : LogLevel)
    (event : LogEvent) (nstr str fmt : List UInt8) (vec es : List Entry)
    (h : output strftime level event vec = [] ++ output strftime level event es) :
    output strftime level event (flush nstr ++ .conversion str fmt :: vec) =
      nstr ++ output strftime level event (.conversion str fmt :: es) := by
  rw [output_append, output_flush, output_cons, output_cons, h, List.nil_append]

/-- The rest behind a format is shorter. -/
theorem length_rest_lt (s body rest : List UInt8) (hopen : s.dropWhile keyChar = 123 :: body)
    (hclose : body.dropWhile bodyChar = 125 :: rest) : rest.length < s.length := by
  have hs := length_dropWhile_le keyChar s
  have hbody := length_dropWhile_le bodyChar body
  rw [hopen, List.length_cons] at hs
  rw [hclose, List.length_cons] at hbody
  omega

theorem fuel_of_cons (c : UInt8) (s : List UInt8) (fuel : Nat) (h : (c :: s).length ≤ fuel) :
    ∃ f, fuel = f + 1 ∧ s.length ≤ f := by
  rw [List.length_cons] at h
  exact ⟨fuel - 1, by omega, by omega⟩

/-- The loop makes the entries, up to how text is cut. -/
theorem initLoop_of_lexes (i : Nat) (s : List UInt8) (es : List Entry)
    (h : Lexes pattern i s es) (hdrop : pattern.drop i = s) (fuel : Nat) (hfuel : s.length ≤ fuel)
    (nstr : List UInt8) :
    ∃ vec, initLoop pattern (fuel + 1) i nstr = some (vec, false) ∧ ∀ strftime level event,
      output strftime level event vec = nstr ++ output strftime level event es := by
  induction h generalizing fuel nstr with
  | done i =>
      refine ⟨flush nstr, initLoop_end pattern i hdrop fuel nstr, fun strftime level event => ?_⟩
      rw [output_flush]
      exact (List.append_nil nstr).symm
  | char i c s es hc _ ih =>
      rcases fuel_of_cons c s fuel hfuel with ⟨f, rfl, hf⟩
      rcases ih (behind_of_drop pattern s i c hdrop).2.2 f hf (nstr ++ [c]) with ⟨vec, hvec, hout⟩
      refine ⟨vec, (initLoop_char pattern i c s hdrop hc _ nstr).trans hvec, ?_⟩
      intro strftime level event
      rw [hout, output_text, List.append_assoc]
  | escape i s es _ ih =>
      rcases fuel_of_cons 37 (37 :: s) fuel hfuel with ⟨f, rfl, hf⟩
      rcases ih (behind_of_drop pattern (37 :: s) i 37 hdrop).2.2 f hf (nstr ++ [37]) with
        ⟨vec, hvec, hout⟩
      refine ⟨vec, (initLoop_escape pattern i s hdrop _ nstr).trans hvec, ?_⟩
      intro strftime level event
      rw [hout, output_text, List.append_assoc]
  | word i s es hhead hend _ ih =>
      rcases fuel_of_cons 37 s fuel hfuel with ⟨f, rfl, hf⟩
      have hbehind := (behind_of_drop pattern s i 37 hdrop).2
      rcases scanConversion_cases hbehind with ⟨-, hscan⟩ | ⟨body, hopen, -⟩
      · rcases ih hbehind.drop_key f (Nat.le_trans (length_dropWhile_le keyChar s) hf) [] with
          ⟨vec, hvec, hout⟩
        refine ⟨flush nstr ++ .conversion (s.takeWhile keyChar) [] :: vec, ?_,
          fun strftime level event => output_conversion _ _ _ _ _ _ _ _ (hout _ _ _)⟩
        rw [initLoop_conversion pattern i s hdrop hhead, hscan, Option.bind_some, if_pos rfl, hvec,
          Option.map_some]
      · rw [hopen] at hend
        exact absurd rfl hend
  | braced i s body rest fmt es hopen hclose hfmt _ ih =>
      rcases fuel_of_cons 37 s fuel hfuel with ⟨f, rfl, hf⟩
      have hbehind := (behind_of_drop pattern s i 37 hdrop).2
      have hrest := length_rest_lt s body rest hopen hclose
      rcases ih (hbehind.drop_format body rest hopen hclose) f (by omega) [] with
        ⟨vec, hvec, hout⟩
      refine ⟨flush nstr ++ .conversion (s.takeWhile keyChar) fmt :: vec, ?_,
        fun strftime level event => output_conversion _ _ _ _ _ _ _ _ (hout _ _ _)⟩
      rw [initLoop_conversion pattern i s hdrop (head_of_open s body hopen),
        scanConversion_format hbehind body rest hopen hclose, hfmt, Option.map_some,
        Option.bind_some, if_pos rfl, hvec, Option.map_some]

/-- And what it makes without an error is so made. -/
theorem lexes_of_initLoop (fuel i : Nat) (nstr s : List UInt8) (vec : List Entry)
    (hdrop : pattern.drop i = s) (h : initLoop pattern fuel i nstr = some (vec, false)) :
    ∃ es, Lexes pattern i s es ∧ ∀ strftime level event,
      output strftime level event vec = nstr ++ output strftime level event es := by
  induction fuel generalizing i nstr s vec with
  | zero => cases h
  | succ fuel ih =>
      rcases s with _ | ⟨c, s⟩
      · rw [initLoop_end pattern i hdrop, Option.some.injEq, Prod.mk.injEq] at h
        refine ⟨[], .done i, fun strftime level event => ?_⟩
        rw [← h.1, output_flush]
        exact (List.append_nil nstr).symm
      · have hbehind := (behind_of_drop pattern s i c hdrop).2
        by_cases hc : c = 37
        · rw [hc] at hdrop ⊢
          by_cases hhead : s.head? = some 37
          · rcases s with _ | ⟨d, s⟩
            · cases hhead
            · rw [List.head?_cons, Option.some.injEq] at hhead
              rw [hhead] at hdrop hbehind ⊢
              rw [initLoop_escape pattern i s hdrop] at h
              rcases ih (i + 1) _ _ vec hbehind.2 h with ⟨es, hlex, hout⟩
              refine ⟨_, .escape i s es hlex, fun strftime level event => ?_⟩
              rw [hout, output_text, List.append_assoc]
          · rw [initLoop_conversion pattern i s hdrop hhead] at h
            rcases Option.bind_eq_some_iff.1 h with ⟨v, hv, hrest⟩
            by_cases hstatus : v.fmtStatus = 0
            · rw [if_pos hstatus] at hrest
              rcases Option.map_eq_some_iff.1 hrest with ⟨⟨vec', err⟩, hvec, hpair⟩
              rw [Prod.mk.injEq] at hpair
              rw [show err = false from hpair.2] at hvec
              rw [← hpair.1]
              rcases scanConversion_cases hbehind with ⟨hend, hscan⟩ |
                ⟨body, hopen, ⟨-, v', hscan, hone⟩ | ⟨rest, hclose, hscan⟩⟩
              · rw [hscan, Option.some.injEq] at hv
                rw [← hv] at hvec ⊢
                rcases ih _ [] _ vec' hbehind.drop_key hvec with ⟨es, hlex, hout⟩
                exact ⟨_, .word i s es hhead hend hlex, fun strftime level event =>
                  output_conversion _ _ _ _ _ _ _ _ (hout _ _ _)⟩
              · rw [hscan, Option.some.injEq] at hv
                rw [← hv, hone] at hstatus
                cases hstatus
              · rw [hscan] at hv
                rcases Option.map_eq_some_iff.1 hv with ⟨fmt, hfmt, hv'⟩
                rw [← hv'] at hvec ⊢
                rcases ih _ [] _ vec' (hbehind.drop_format body rest hopen hclose) hvec with
                  ⟨es, hlex, hout⟩
                exact ⟨_, .braced i s body rest fmt es hopen hclose hfmt hlex,
                  fun strftime level event => output_conversion _ _ _ _ _ _ _ _ (hout _ _ _)⟩
            · rw [if_neg hstatus] at hrest
              rcases Option.map_eq_some_iff.1 hrest with ⟨_, _, hpair⟩
              cases hpair
        · rw [initLoop_char pattern i c s hdrop hc] at h
          rcases ih (i + 1) _ s vec hbehind.2 h with ⟨es, hlex, hout⟩
          refine ⟨_, .char i c s es hc hlex, fun strftime level event => ?_⟩
          rw [hout, output_text, List.append_assoc]

/-- In a pattern of at most `2 ^ 31` bytes the loops stay in range, and they end. -/
theorem initLoop_total (hlen : pattern.length ≤ 2 ^ 31) (fuel i : Nat) (nstr s : List UInt8)
    (hdrop : pattern.drop i = s) (hfuel : s.length ≤ fuel) :
    (initLoop pattern (fuel + 1) i nstr).isSome = true := by
  induction fuel generalizing i nstr s with
  | zero =>
      rw [List.length_eq_zero_iff.1 (Nat.le_zero.1 hfuel)] at hdrop
      rw [initLoop_end pattern i hdrop]
      rfl
  | succ fuel ih =>
      rcases s with _ | ⟨c, s⟩
      · rw [initLoop_end pattern i hdrop]
        rfl
      · have hbehind := (behind_of_drop pattern s i c hdrop).2
        rw [List.length_cons, Nat.succ_le_succ_iff] at hfuel
        by_cases hc : c = 37
        · rw [hc] at hdrop
          by_cases hhead : s.head? = some 37
          · rcases s with _ | ⟨d, s⟩
            · cases hhead
            · rw [List.head?_cons, Option.some.injEq] at hhead
              rw [hhead] at hdrop
              rw [initLoop_escape pattern i s hdrop]
              exact ih (i + 1) _ _ hbehind.2 hfuel
          · rw [initLoop_conversion pattern i s hdrop hhead]
            rcases scanConversion_cases hbehind with ⟨hend, hscan⟩ |
              ⟨body, hopen, ⟨-, v, hscan, hone⟩ | ⟨rest, hclose, hscan⟩⟩
            · rw [hscan, Option.bind_some, if_pos rfl, Option.isSome_map]
              exact ih _ [] _ hbehind.drop_key
                (Nat.le_trans (length_dropWhile_le keyChar s) hfuel)
            · rw [hscan, Option.bind_some, if_neg (by rw [hone]; decide), Option.isSome_map]
              exact ih (i + 1) nstr s hbehind.2 hfuel
            · have hlt := hbehind.closed_lt body rest hopen hclose
              have hrest := length_rest_lt s body rest hopen hclose
              rcases between_some pattern (i + 1 + (s.takeWhile keyChar).length) _ (by omega)
                (by omega) hlt (by omega) with ⟨fmt, hfmt, -⟩
              rw [between] at hfmt
              rw [hscan, hfmt, Option.map_some, Option.bind_some, if_pos rfl, Option.isSome_map]
              exact ih _ [] _ (hbehind.drop_format body rest hopen hclose) (by omega)
        · rw [initLoop_char pattern i c s hdrop hc]
          exact ih (i + 1) _ s hbehind.2 hfuel

end Loop

/-- A formatter is made for every such pattern. -/
theorem new_isSome (pattern : List UInt8) (hlen : pattern.length ≤ 2 ^ 31) :
    (new pattern).isSome = true := by
  rw [new, Option.isSome_map]
  exact initLoop_total pattern hlen pattern.length 0 [] pattern rfl (Nat.le_refl _)

end LogFormatter

end YkServer
