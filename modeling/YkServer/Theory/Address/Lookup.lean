import Mathlib.Data.List.TakeWhile
import YkServer.Core.Lookup

/-!
# Hosts and Services

How a text is split into a node and a service.

An address in brackets is split right, as long as there is something in the brackets. Without
brackets the pointer to the first colon is only moved behind it if there is no second one, and
it is not taken back if there is: a text with two colons is passed as the node, and from its
first colon on as the service. A colon at the front is passed over too, and the node is the
whole text with it.

## Main definitions

* `Lookup.Bracketed`: A text with an address in brackets.
* `Lookup.Splits`: How a text should be split.
* `Lookup.Splittable`: The texts that are split so.

## Theorems

* `memchr_append`, `memchr_eq_none_iff`: Searching.
* `Lookup.arguments_bracketed`: A text with something in brackets.
* `Lookup.arguments_plain`: A text without brackets.
* `Lookup.splits_iff`: When a text is split as it should be.
-/

namespace YkServer

/-! ## Searching -/

theorem memchr_append (c : UInt8) (l r : List UInt8) (h : c ∉ l) :
    memchr c (l ++ c :: r) = some l.length := by
  unfold memchr
  induction l with
  | nil => simp [List.findIdx?_cons]
  | cons b l ih =>
      rw [List.mem_cons, not_or] at h
      simp [List.findIdx?_cons, Ne.symm h.1, ih h.2]

theorem memchr_eq_none_iff (c : UInt8) (s : List UInt8) : memchr c s = none ↔ c ∉ s := by
  rw [memchr, List.findIdx?_eq_none_iff]
  constructor
  · intro h hc
    simpa using h c hc
  · intro h b hb
    rw [beq_eq_false_iff_ne]
    rintro rfl
    exact h hb

/-- A text with a byte in it, cut at the first one. -/
theorem exists_first (c : UInt8) (s : List UInt8) (h : c ∈ s) :
    ∃ l r, s = l ++ c :: r ∧ c ∉ l := by
  induction s with
  | nil => cases h
  | cons b s ih =>
      by_cases hb : b = c
      · exact ⟨[], s, by rw [hb, List.nil_append], List.not_mem_nil⟩
      · have hs : c ∈ s := (List.mem_cons.1 h).resolve_left (Ne.symm hb)
        rcases ih hs with ⟨l, r, rfl, hl⟩
        refine ⟨b :: l, r, rfl, ?_⟩
        rw [List.mem_cons, not_or]
        exact ⟨Ne.symm hb, hl⟩

/-- Two texts that are the same are the same up to the first separator. -/
theorem parts_inj (sep : UInt8) (x y z w : List UInt8) (hx : sep ∉ x) (hy : sep ∉ y)
    (h : x ++ sep :: z = y ++ sep :: w) : x = y ∧ z = w := by
  have hlen := memchr_append sep x z hx
  rw [h, memchr_append sep y w hy, Option.some.injEq] at hlen
  rcases List.append_inj h hlen.symm with ⟨hxy, hrest⟩
  exact ⟨hxy, (List.cons.inj hrest).2⟩

namespace Lookup

/-! ## How a text should be split -/

/-- An address in brackets, and what is behind it. -/
def Bracketed (host h rest : List UInt8) : Prop := host = 91 :: (h ++ 93 :: rest) ∧ 93 ∉ h

/-- One colon, and something in front of it. -/
def OneColon (host l r : List UInt8) : Prop := host = l ++ 58 :: r ∧ l ≠ [] ∧ 58 ∉ l ∧ 58 ∉ r

/-- How a text should be split. Nothing is said of brackets with something other than a
    service behind them. -/
structure Splits (host node : List UInt8) (service : Option (List UInt8)) : Prop where
  withService (h s : List UInt8) (hb : Bracketed host h (58 :: s)) : node = h ∧ service = some s
  withoutService (h : List UInt8) (hb : Bracketed host h []) : node = h ∧ service = none
  parts (l r : List UInt8) (hplain : ∀ h rest, ¬ Bracketed host h rest) (hc : OneColon host l r) :
    node = l ∧ service = some r
  whole (hplain : ∀ h rest, ¬ Bracketed host h rest) (hc : ∀ l r, ¬ OneColon host l r) :
    node = host ∧ service = none

/-- The texts that are split so: there is no NUL in them, something in the brackets, and without
    brackets no colon or one with something in front of it. -/
structure Splittable (host : List UInt8) : Prop where
  brackets (h rest : List UInt8) (hb : Bracketed host h rest)
    (hrest : rest = [] ∨ rest.head? = some 58) : h ≠ [] ∧ 0 ∉ host
  plain (hplain : ∀ h rest, ¬ Bracketed host h rest) :
    0 ∉ host ∧ (58 ∉ host ∨ ∃ l r, OneColon host l r)

/-! ## The searches -/

theorem bracket_eq (h rest : List UInt8) (hh : 93 ∉ h) :
    bracket (91 :: (h ++ 93 :: rest)) =
      (h, if rest.head? = some 58 then some (1 + h.length + 2) else none) := by
  have hnext : (91 :: (h ++ 93 :: rest))[1 + h.length + 1]? = rest.head? := by
    rw [Nat.add_right_comm, Nat.add_assoc, Nat.add_comm 1, List.getElem?_cons_succ]
    cases rest <;> simp [List.getElem?_append_right]
  simp only [bracket, List.head?_cons, if_true, List.drop_succ_cons, List.drop_zero,
    memchr_append 93 h rest hh, List.take_left, hnext]

theorem bracket_plain (host : List UInt8) (h : ∀ h rest, ¬ Bracketed host h rest) :
    bracket host = ([], none) := by
  rw [bracket]
  split
  · next hhead =>
      rcases List.head?_eq_some_iff.1 hhead with ⟨t, rfl⟩
      have hnone : memchr 93 t = none := by
        rw [memchr_eq_none_iff]
        intro hmem
        rcases exists_first 93 t hmem with ⟨l, r, rfl, hl⟩
        exact h l r ⟨rfl, hl⟩
      rw [List.drop_succ_cons, List.drop_zero, hnone]
  · rfl

theorem colon_none (host : List UInt8) (h : 58 ∉ host) : colon host = ([], none) := by
  rw [colon, (memchr_eq_none_iff 58 host).2 h]

/-- The first colon, and whether there is another one. -/
theorem colon_some (l r : List UInt8) (hl : 58 ∉ l) :
    colon (l ++ 58 :: r) = if 58 ∈ r then ([], some l.length) else (l, some (l.length + 1)) := by
  have hdrop : (l ++ 58 :: r).drop (l.length + 1) = r := by
    simp [List.drop_append]
  rw [colon, memchr_append 58 l r hl]
  simp only [hdrop, List.take_left]
  by_cases hr : 58 ∈ r
  · rw [if_pos hr]
    rcases exists_first 58 r hr with ⟨l', r', rfl, hl'⟩
    rw [memchr_append 58 l' r' hl']
  · rw [if_neg hr, (memchr_eq_none_iff 58 r).2 hr]

/-! ## What is passed on -/

/-- A text with something in brackets. -/
theorem arguments_bracketed (h rest : List UInt8) (hh : 93 ∉ h) (hne : h ≠ []) :
    arguments (91 :: (h ++ 93 :: rest)) =
      (cStr h, if rest.head? = some 58 then some (cStr rest.tail) else none) := by
  have hdrop : (91 :: (h ++ 93 :: rest)).drop (1 + h.length + 2) = rest.tail := by
    rw [Nat.add_comm 1, Nat.add_assoc]
    cases rest <;> simp [List.drop_append]
  rw [arguments, bracket_eq h rest hh]
  simp only [List.isEmpty_eq_false_iff.2 hne, Bool.false_eq_true, if_false]
  by_cases hrest : rest.head? = some 58
  · rw [if_pos hrest, if_pos hrest, Option.map_some, hdrop]
  · rw [if_neg hrest, if_neg hrest, Option.map_none]

/-- Nothing in brackets is not passed on as nothing: the node is the text, or what is in front of
    a colon in it. -/
theorem arguments_empty (rest : List UInt8) : (arguments (91 :: 93 :: rest)).1 ≠ [] := by
  have hbracket := bracket_eq [] rest List.not_mem_nil
  rw [List.nil_append] at hbracket
  rw [arguments, hbracket]
  simp only [List.isEmpty_nil, if_true]
  by_cases hcolon : 58 ∈ rest
  · rcases exists_first 58 rest hcolon with ⟨l, r, rfl, hl⟩
    have hfound := colon_some (91 :: 93 :: l) r (by simp [hl])
    simp only [List.cons_append] at hfound
    rw [hfound]
    split
    · simp [cStr]
    · simp [cStr]
  · rw [colon_none _ (by simp [hcolon])]
    simp [cStr]

/-- A text without brackets: what the search for a colon leaves. -/
theorem arguments_plain (host : List UInt8) (h : ∀ h rest, ¬ Bracketed host h rest) :
    arguments host =
      (cStr (if (colon host).1.isEmpty then host else (colon host).1),
        (colon host).2.map (fun service => cStr (host.drop service))) := by
  rw [arguments, bracket_plain host h]
  rfl

/-! ## When a text is split right -/

/-- A text is cut at its only colon in one way. -/
theorem oneColon_unique (l r l' r' : List UInt8) (hl : 58 ∉ l)
    (h : OneColon (l ++ 58 :: r) l' r') : l' = l ∧ r' = r := by
  rcases h with ⟨heq, -, hl', -⟩
  exact parts_inj 58 l' l r' r hl' hl heq.symm

/-- With something in the brackets, only a NUL is in the way. -/
theorem splits_bracketed (h rest : List UInt8) (hh : 93 ∉ h)
    (hrest : rest = [] ∨ rest.head? = some 58) :
    ((arguments (91 :: (h ++ 93 :: rest))).1 = h ∧
        (arguments (91 :: (h ++ 93 :: rest))).2 =
          if rest.head? = some 58 then some rest.tail else none) ↔
      h ≠ [] ∧ 0 ∉ 91 :: (h ++ 93 :: rest) := by
  by_cases hne : h = []
  · subst hne
    exact ⟨fun hno => absurd hno.1 (arguments_empty rest), fun hno => absurd rfl hno.1⟩
  · rw [arguments_bracketed h rest hh hne]
    rcases hrest with rfl | hcolon
    · simp [hne, cStr_eq_self_iff]
    · rcases List.head?_eq_some_iff.1 hcolon with ⟨s, rfl⟩
      simp [hne, cStr_eq_self_iff]

/-- Without a colon, the node is the text. -/
theorem arguments_none (host : List UInt8) (hplain : ∀ h rest, ¬ Bracketed host h rest)
    (hcolon : 58 ∉ host) : arguments host = (cStr host, none) := by
  rw [arguments_plain host hplain, colon_none host hcolon]
  rfl

/-- With one colon behind something, the node is in front of it and the service behind it. -/
theorem arguments_one (l r : List UInt8) (hplain : ∀ h rest, ¬ Bracketed (l ++ 58 :: r) h rest)
    (hl : 58 ∉ l) (hne : l ≠ []) (hr : 58 ∉ r) :
    arguments (l ++ 58 :: r) = (cStr l, some (cStr r)) := by
  have hdrop : (l ++ 58 :: r).drop (l.length + 1) = r := by
    simp [List.drop_append]
  rw [arguments_plain _ hplain, colon_some l r hl, if_neg hr]
  simp [hne, hdrop]

/-- With any other colon there is a service. -/
theorem arguments_other (l r : List UInt8) (hplain : ∀ h rest, ¬ Bracketed (l ++ 58 :: r) h rest)
    (hl : 58 ∉ l) : (arguments (l ++ 58 :: r)).2 ≠ none := by
  rw [arguments_plain _ hplain, colon_some l r hl]
  split <;> simp

/-- A text is split as it should be exactly if it has no NUL, something in its brackets, and
    without brackets at most one colon, which is not at the front. -/
theorem splits_iff (host : List UInt8) :
    Splits host (arguments host).1 (arguments host).2 ↔ Splittable host := by
  constructor
  · intro hs
    refine ⟨?_, fun hplain => ?_⟩
    · rintro h rest ⟨rfl, hh⟩ hrest
      refine (splits_bracketed h rest hh hrest).1 ?_
      rcases hrest with rfl | hcolon
      · exact hs.withoutService h ⟨rfl, hh⟩
      · rcases List.head?_eq_some_iff.1 hcolon with ⟨s, rfl⟩
        exact hs.withService h s ⟨rfl, hh⟩
    · by_cases hcolon : 58 ∈ host
      · rcases exists_first 58 host hcolon with ⟨l, r, rfl, hl⟩
        by_cases hone : l ≠ [] ∧ 58 ∉ r
        · have hparts := hs.parts l r hplain ⟨rfl, hone.1, hl, hone.2⟩
          rw [arguments_one l r hplain hl hone.1 hone.2, Option.some.injEq, cStr_eq_self_iff,
            cStr_eq_self_iff] at hparts
          exact ⟨by simp [hparts], Or.inr ⟨l, r, rfl, hone.1, hl, hone.2⟩⟩
        · -- Any other colon leaves a service where there should be none.
          have hwhole := hs.whole hplain (fun l' r' h => by
            rcases oneColon_unique l r l' r' hl h with ⟨rfl, rfl⟩
            exact hone ⟨h.2.1, h.2.2.2⟩)
          exact absurd hwhole.2 (arguments_other l r hplain hl)
      · have hwhole := hs.whole hplain (fun l r h => hcolon (by rw [h.1]; simp))
        rw [arguments_none host hplain hcolon, cStr_eq_self_iff] at hwhole
        exact ⟨hwhole.1, Or.inl hcolon⟩
  · intro hs
    refine ⟨?_, ?_, ?_, ?_⟩
    · rintro h s ⟨rfl, hh⟩
      exact (splits_bracketed h _ hh (Or.inr rfl)).2 (hs.brackets h _ ⟨rfl, hh⟩ (Or.inr rfl))
    · rintro h ⟨rfl, hh⟩
      exact (splits_bracketed h _ hh (Or.inl rfl)).2 (hs.brackets h _ ⟨rfl, hh⟩ (Or.inl rfl))
    · rintro l r hplain ⟨rfl, hne, hl, hr⟩
      have hzero := (hs.plain hplain).1
      rw [List.mem_append, List.mem_cons, not_or, not_or] at hzero
      rw [arguments_one l r hplain hl hne hr, Option.some.injEq, cStr_eq_self_iff,
        cStr_eq_self_iff]
      exact ⟨hzero.1, hzero.2.2⟩
    · intro hplain hno
      rcases hs.plain hplain with ⟨hzero, hcolon | ⟨l, r, h⟩⟩
      · rw [arguments_none host hplain hcolon, cStr_eq_self_iff]
        exact ⟨hzero, rfl⟩
      · exact absurd h (hno l r)

/-- A bare address of IPv6, a colon at the front, and empty brackets. -/
theorem not_splits :
    ¬ Splits (ascii "::1") (arguments (ascii "::1")).1 (arguments (ascii "::1")).2 ∧
      ¬ Splits (ascii ":80") (arguments (ascii ":80")).1 (arguments (ascii ":80")).2 ∧
      ¬ Splits (ascii "[]:80") (arguments (ascii "[]:80")).1 (arguments (ascii "[]:80")).2 := by
  have hplain (s : List UInt8) : ∀ h rest, ¬ Bracketed (58 :: s) h rest := by
    rintro h rest ⟨heq, -⟩
    cases heq
  refine ⟨fun h => ?_, fun h => ?_, fun h => ?_⟩
  · have hwhole := h.whole (hplain _) (fun l r hone => by
      have hparts := oneColon_unique [] (ascii ":1") l r List.not_mem_nil hone
      exact hone.2.1 hparts.1)
    cases hwhole.2
  · have hwhole := h.whole (hplain _) (fun l r hone => by
      have hparts := oneColon_unique [] (ascii "80") l r List.not_mem_nil hone
      exact hone.2.1 hparts.1)
    cases hwhole.2
  · have hempty := h.withService [] (ascii "80") ⟨rfl, List.not_mem_nil⟩
    cases hempty.1

end Lookup

end YkServer
