import YkServer.Core.Uri
import YkServer.Lib.Passing

/-!
# The Machine on a URI

Which actions the machine executes on a URI that is put together from its parts.

Every part is passed by with its marking and its saving action, which are both on the character
behind the part where it is empty. What makes it more than that is the authority. Until the `@`
comes, or something no userinfo has, the machine reads a userinfo and a host with a port at the
same time. Without a userinfo the userinfo part stays live beside them, is never done and does
nothing. With one, the host and port run along on it and do what `guess` says: the part in front of
the first `:` could be a registered name and is saved as one, and a digit behind that `:` could be
the first one of a port and is marked. At the `@` they die, and start over behind it.

A relative reference dies at the `:` behind the scheme, and the paths without an authority die
at the second slash.

## Main definitions

* `UriParser.ends`: The characters behind an authority.
* `UriParser.marks`, `UriParser.optMarks`: What is on a part and on an optional one.
* `UriParser.behindColon`, `UriParser.guess`: A userinfo read as a host and a port.
* `Components`: The parts of a URI, with `text` and `InGrammar`.
* `Components.marksOf`: What is on a URI.

## Theorems

* `reads_host`, `passes_hostPort`: Hosts and ports.
* `passes_noUserinfo`, `passes_userinfo`: Authorities.
* `regName_of_userinfo`, `does_hostPort`: The host and port on a userinfo.
* `relativeRef_dead`: A URI is no relative reference.
* `Components.passes_main`: The machine accepts a URI.
-/

namespace YkServer

open Lib Lib.Ragel

namespace UriParser

open Machine
open HttpParser (alpha digit xdigit unreserved isAscii inRange)

/-- The characters behind an authority. -/
def ends (c : UInt8) : Bool := c == 47 || c == 63 || c == 35

/-- What is on a word that is entered and left with an action. -/
def marks (a b : Action) (w : List UInt8) : List (List Action) :=
  followedBy (tag [a] (List.replicate (w.length + 1) [])) [[b]]

theorem ends_cases (c : UInt8) (h : ends c = true) : c = 47 ∨ c = 63 ∨ c = 35 := by
  rw [ends, Bool.or_eq_true, Bool.or_eq_true, beq_iff_eq, beq_iff_eq, beq_iff_eq, or_assoc] at h
  exact h

/-- A character that no position takes is in no word. -/
theorem ne_of_takes (m : Rule) (w : List UInt8) (h : ∀ c ∈ w, takes m (some c) = true) (d : UInt8)
    (hd : takes m (some d) = false) : ∀ c ∈ w, c ≠ d := by
  rintro c hc rfl
  rw [h c hc] at hd
  cases hd

/-- An expression that takes no character behind an authority. -/
theorem not_ends_of_takes (m : Rule) (w : List UInt8) (h : ∀ c ∈ w, takes m (some c) = true)
    (h₁ : takes m (some 47) = false) (h₂ : takes m (some 63) = false)
    (h₃ : takes m (some 35) = false) : ∀ c ∈ w, ends c = false := by
  intro c hc
  rw [Bool.eq_false_iff]
  intro hend
  rcases ends_cases c hend with rfl | rfl | rfl
  · exact ne_of_takes m w h _ h₁ _ hc rfl
  · exact ne_of_takes m w h _ h₂ _ hc rfl
  · exact ne_of_takes m w h _ h₃ _ hc rfl

theorem passes_marks (m : Rule) (a b : Action) (L : UInt8 → Bool) (w : List UInt8)
    (next : Option UInt8) (hm : Passes m L w next (List.replicate (w.length + 1) [])) :
    Passes (leave b (enter a m)) L w next (marks a b w) :=
  (hm.enter a).leave b

theorem accepts_marks (m : Rule) (a b : Action) (w : List UInt8) :
    accepts (leave b (enter a m)) w = accepts m w := by
  rw [accepts, accepts, moves_leave, moves_enter, final_leave, final_enter]

/-! ## Hosts -/

/-- Only a closing bracket ends a literal. -/
theorem ends_ipLiteral : Ends ipLiteral := by
  have hclose (entered : Bool) (s : Live) (c : Option UInt8)
      (h : final (byte ']') (shift (byte ']') entered s c) = true) : c = some 93 := by
    rw [byte, final_shift_chars, Bool.and_eq_true] at h
    cases c with
    | none => exact absurd h.2 (by simp)
    | some c => exact congrArg some (beq_iff_eq.1 h.2)
  have htail : Ends (seq (alt ipv6Address ipvFuture) (byte ']')) := by
    refine ends_seq _ _ (ends_chars _) rfl ?_
    intro entered s c h
    rw [hclose entered s c h]
    rfl
  refine ends_seq _ _ htail rfl ?_
  intro entered s c h
  rw [final_shift_seq _ _ rfl] at h
  rw [hclose _ _ c h]
  rfl

/-- A host that is not empty. -/
theorem reads_host (L : UInt8 → Bool) (hL : ∀ c, c ≠ 58 → ends c = false → L c = false)
    (c : UInt8) (w : List UInt8) (hw : accepts host (c :: w) = true) (next : Option UInt8)
    (hnext : ∀ d ∈ next, d = 58 ∨ ends d = true) :
    Reads host L (c :: w) next (piece [] (c :: w)) [] := by
  rcases moves_alt ipLiteral (alt ipv4Address regName) true .idle (c :: w) with ⟨hl, hr⟩
  rw [left_idle] at hl
  rw [right_idle] at hr
  rw [accepts, host, final_alt, hl, hr, Bool.or_eq_true] at hw
  by_cases hc : c = 91
  · subst hc
    have hdead : moves (alt ipv4Address regName) true .idle (91 :: w) = .idle := by
      rw [moves, shift_not_first _ _ _ rfl, shift_idle, moves_idle]
    rw [hdead, final_idle] at hw
    have hbracket : L 91 = false := hL 91 (by decide) rfl
    exact (Reads.of_ends ipLiteral L _ next rfl ends_ipLiteral rfl
      (hw.resolve_right Bool.false_ne_true)).alt_left rfl (by rw [hbracket]; rfl)
  · have hfirst : first ipLiteral (some c) = false := by
      simpa [ipLiteral, byte, first, nullable] using hc
    have hdead : moves ipLiteral true .idle (c :: w) = .idle := by
      rw [moves, shift_not_first _ _ _ hfirst, shift_idle, moves_idle]
    rw [hdead, final_idle] at hw
    have hacc := hw.resolve_left Bool.false_ne_true
    have htakes := takes_of_accepts _ _ _ _ hacc
    have hstay : ∀ d ∈ c :: w, L d = false := fun d hd =>
      hL d (ne_of_takes _ _ htakes 58 rfl d hd) (not_ends_of_takes _ _ htakes rfl rfl rfl d hd)
    have hbehind : takes (alt ipv4Address regName) next = false := by
      cases next with
      | none => exact takes_none _
      | some d =>
          rcases hnext d rfl with rfl | hend
          · rfl
          · rcases ends_cases d hend with rfl | rfl | rfl <;> rfl
    exact (Reads.plain _ L _ next rfl hacc hstay hbehind).alt_right hfirst rfl

theorem passes_hostPart (L : UInt8 → Bool) (hL : ∀ c, c ≠ 58 → ends c = false → L c = false)
    (w : List UInt8) (hw : Belongs host w) (next : Option UInt8)
    (hnext : ∀ d ∈ next, d = 58 ∨ ends d = true) :
    Passes hostPart L w next (marks .markh .saveHost w) := by
  refine passes_marks host .markh .saveHost L w next ?_
  cases w with
  | nil =>
      have hfirst : first host next = false := by
        cases next with
        | none => exact first_none _
        | some d =>
            rcases hnext d rfl with rfl | hend
            · rfl
            · rcases ends_cases d hend with rfl | rfl | rfl <;> rfl
      have hskips := Passes.skips (L := L) next (m := host) rfl hfirst
      rw [fires_plain host rfl] at hskips
      exact hskips
  | cons c w =>
      have hacc : accepts host (c :: w) = true :=
        hw.resolve_left (fun h => List.cons_ne_nil _ _ h.1)
      have hreads := (reads_host L hL c w hacc next hnext).passes
      rw [piece_nil, ← List.replicate_succ'] at hreads
      exact hreads

/-! ## Optional parts -/

/-- A part and the character in front of it, or neither. -/
def optText (b : UInt8) : Option (List UInt8) → List UInt8
  | none => []
  | some w => b :: w

/-- What is on such a part. -/
def optMarks (a b : Action) : Option (List UInt8) → List (List Action)
  | none => [[]]
  | some w => [] :: marks a b w

theorem passes_optional (ch : Char) (m : Rule) (a b : Action) (L : UInt8 → Bool)
    (w : Option (List UInt8)) (next : Option UInt8) (hplain : m.embedded = [])
    (hw : ∀ v ∈ w, Belongs m v ∧ ∀ c ∈ v, L c = false) (hnext : takes m next = false)
    (hL : L (UInt8.ofNat ch.toNat) = false) (hne : next ≠ some (UInt8.ofNat ch.toNat)) :
    Passes (opt (seq (byte ch) (leave b (enter a m)))) L (optText (UInt8.ofNat ch.toNat) w) next
      (optMarks a b w) := by
  cases w with
  | none =>
      refine Passes.opt_absent _ L next rfl ?_
      cases next with
      | none => exact first_none _
      | some d => simpa [byte, first, nullable] using fun h => hne (by rw [h])
  | some v =>
      rcases hw v rfl with ⟨hbelongs, hstay⟩
      have hplain := Passes.plain m L v next hplain hbelongs hstay hnext
      have hpass : Passes (seq (byte ch) (leave b (enter a m))) L (UInt8.ofNat ch.toNat :: v) next
          ([] :: marks a b v) :=
        Passes.cons (beq_self_eq_true _) (passes_marks m a b L v next hplain)
      exact hpass.opt hL

/-! ## Hosts and ports -/

theorem takes_ends (m : Rule) (next : Option UInt8) (hnext : ∀ d ∈ next, ends d = true)
    (h₁ : takes m (some 47) = false) (h₂ : takes m (some 63) = false)
    (h₃ : takes m (some 35) = false) : takes m next = false := by
  cases next with
  | none => exact takes_none m
  | some d => rcases ends_cases d (hnext d rfl) with rfl | rfl | rfl <;> assumption

/-- What is on a host and a port. -/
def hostMarks (h : List UInt8) (p : Option (List UInt8)) : List (List Action) :=
  followedBy (marks .markh .saveHost h) (optMarks .markh .savePort p)

theorem passes_hostPort (L : UInt8 → Bool) (hL : ∀ c, ends c = false → L c = false)
    (h : List UInt8) (p : Option (List UInt8)) (hh : Belongs host h) (hp : ∀ d ∈ p, Belongs port d)
    (next : Option UInt8) (hnext : ∀ d ∈ next, ends d = true) :
    Passes (seq hostPart portPart) L (h ++ optText 58 p) next (hostMarks h p) := by
  have hport : Passes portPart L (optText 58 p) next (optMarks .markh .savePort p) := by
    refine passes_optional ':' port .markh .savePort L p next rfl ?_
      (takes_ends port next hnext rfl rfl rfl) (hL 58 rfl) ?_
    · intro d hd
      exact ⟨hp d hd, fun c hc =>
        hL c (not_ends_of_takes port d (hp d hd).takes rfl rfl rfl c hc)⟩
    · rintro rfl
      exact absurd (hnext _ rfl) (by decide)
  refine Passes.seq ?_ hport
  refine passes_hostPart _ ?_ h hh _ ?_
  · intro c hc hend
    simpa [followed, portPart, byte, opt, first, nullable, hL c hend] using hc
  · intro d hd
    cases p with
    | none =>
        rw [optText, List.head?_nil, Option.none_or] at hd
        exact Or.inr (hnext d hd)
    | some v =>
        rw [optText, List.head?_cons, Option.some_or, Option.mem_some_iff] at hd
        exact Or.inl hd.symm

/-! ## Without a userinfo -/

/-- Only its last character, a `@`, makes a userinfo part done. -/
theorem last_userinfoPart (entered : Bool) (s : Live) (c : UInt8)
    (h : final userinfoPart (shift userinfoPart entered s (some c)) = true) : c = 64 := by
  rw [userinfoPart, opt, final_alt, shift_alt, left_join, right_join, shift_null, final_idle,
    Bool.or_false, final_shift_seq _ _ rfl, byte, final_shift_chars, Bool.and_eq_true] at h
  exact beq_iff_eq.1 h.2

theorem unfinished_userinfoPart (entered : Bool) (s : Live) (w : List UInt8)
    (hw : ∀ c ∈ w, c ≠ 64) : Unfinished userinfoPart entered s w := by
  induction w generalizing entered s with
  | nil => trivial
  | cons c w ih =>
      refine ⟨?_, ih _ _ (fun d hd => hw d (List.mem_cons_of_mem _ hd))⟩
      rw [Bool.eq_false_iff]
      exact fun h => hw c List.mem_cons_self (last_userinfoPart entered s c h)

theorem silent_userinfoPart (L : UInt8 → Bool) (entered : Bool) (s : Live) (w : List UInt8)
    (hw : ∀ c ∈ w, c ≠ 64) : does userinfoPart L entered s w = List.replicate w.length [] := by
  refine does_silent userinfoPart L (· == 64) entered s w ?_ ?_
  · intro a ha
    rcases List.mem_singleton.1 ha with rfl
    refine firesOn_alt _ _ _ _ ?_ (firesOn_absent _ _ _ (by simp [embedded]))
    refine firesOn_leave _ _ userinfo (byte '@') ?_ ?_ rfl (fun _ h => h)
    · exact firesOn_absent _ _ _ (List.eq_nil_iff_forall_not_mem.1 rfl _)
    · exact firesOn_absent _ _ _ (by simp [byte, embedded])
  · exact fun c hc => beq_eq_false_iff_ne.2 (hw c hc)

/-- What is on an authority without a userinfo is what is on its host and port. -/
theorem passes_noUserinfo (L : UInt8 → Bool) (w : List UInt8) (next : Option UInt8)
    (full : List (List Action)) (hw : ∀ c ∈ w, c ≠ 64) (hnext : ∀ d ∈ next, ends d = true)
    (h : Passes (seq hostPart portPart) L w next full) :
    Passes (seq userinfoPart (seq hostPart portPart)) L w next full := by
  have hat : takes (byte '@' : Rule) next = false := takes_ends _ next hnext rfl rfl rfl
  have huser : takes (leave .saveUserinfo userinfo) next = false :=
    takes_ends _ next hnext rfl rfl rfl
  have htakes : takes userinfoPart next = false := takes_ends _ next hnext rfl rfl rfl
  have hnull : nullable (byte '@' : Rule) = false := rfl
  -- What is behind the authority does not leave the userinfo.
  have hleaves (left : Bool) (s : Live) : fires userinfoPart false left s next = [] := by
    rw [userinfoPart, opt, fires_alt, fires_null, fires_seq, first_not_takes _ _ hat, hnull,
      Bool.false_and, Bool.or_false, fires_not_takes _ _ _ _ huser, byte, fires_chars]
    rfl
  cases h with
  | skips next hnull hfirst =>
      have habsent : Passes userinfoPart (followed (seq hostPart portPart) L) [] next [[]] :=
        Passes.opt_absent _ _ next rfl (by
          rw [first, first_not_takes _ _ hat, first_not_takes _ _ huser, Bool.and_false]
          rfl)
      exact Passes.seq habsent (Passes.skips next hnull hfirst)
  | reads w next tr out h =>
      exact (h.beside rfl (unfinished_userinfoPart true .idle w hw)
        (silent_userinfoPart _ true .idle w hw) (shift_not_takes _ _ _ _ htakes)
        (fun left => hleaves left _)).passes

/-! ## With a userinfo -/

/-- The positions behind a `@`. -/
def behindAt : Live := .node (.node .idle .here) .idle

/-- A userinfo and the `@` behind it. -/
theorem userinfoPart_at (u : List UInt8) (hu : Belongs userinfo u) :
    moves userinfoPart true .idle (u ++ [64]) = behindAt ∧
      ∀ left, fires userinfoPart u.isEmpty left (moves userinfoPart true .idle u) (some 64) =
        [.saveUserinfo] := by
  have hstays : Stays (leave .saveUserinfo userinfo) (followed (byte '@') fun _ => false) true
      .idle u := by
    refine stays_of_disjoint _ _ _ _ u ?_
    intro c hc
    simpa [followed, byte, first, nullable] using ne_of_takes userinfo u hu.takes 64 rfl c hc
  rcases moves_alt (seq (leave .saveUserinfo userinfo) (byte '@')) null true .idle u with ⟨hl, hr⟩
  rcases seq_first (leave .saveUserinfo userinfo) (byte '@') (fun _ => false) true .idle u
    right_idle hstays with ⟨hleft, hright, -⟩
  rw [left_idle] at hl hleft
  rw [moves_leave] at hleft
  have hdone : (final userinfo (moves userinfo true .idle u) || (u.isEmpty && nullable userinfo)) =
      true := (belongs_iff userinfo u).1 hu
  have hinto : into (leave .saveUserinfo userinfo) u.isEmpty
      (moves userinfoPart true .idle u).left = true := by
    rw [userinfoPart, opt, hl, into, hleft, final_leave]
    exact hdone
  refine ⟨?_, ?_⟩
  · rw [moves_concat, Bool.true_and, userinfoPart, opt, shift_alt, shift_null, shift_seq]
    rw [userinfoPart, opt] at hinto
    rw [hinto, shift_not_takes _ _ _ _ rfl, hl, hright, byte, shift_chars]
    rfl
  · intro left
    have hfirst : first (byte '@' : Rule) (some 64) = true := rfl
    have hbyte (entered : Bool) (s : Live) : fires (byte '@' : Rule) entered left s (some 64) =
        [] := fires_chars _ _ _ _ _
    rw [userinfoPart, opt, fires_alt, fires_null, fires_seq, hbyte, fires_leave, hl, hleft,
      fires_plain userinfo rfl, hfirst, hdone]
    rfl

/-- Behind a `@` the userinfo part is over. -/
theorem behindAt_over (left : Bool) (c : Option UInt8) :
    shift userinfoPart false behindAt c = .idle ∧ fires userinfoPart false left behindAt c = [] := by
  have hbyte : shift (byte '@' : Rule) false .here c = .idle := by
    rw [byte, shift_chars]
    rfl
  have hinto : into (leave .saveUserinfo userinfo) false (.node .idle .here) = false := rfl
  refine ⟨?_, ?_⟩
  · rw [userinfoPart, opt, shift_alt, shift_null, shift_seq, behindAt, Live.left, hinto,
      Live.left, Live.right, shift_idle, hbyte]
    rfl
  · rw [userinfoPart, opt, fires_alt, fires_null, fires_seq, behindAt, Live.left, hinto,
      Live.left, fires_idle, byte, fires_chars]
    rfl

/-- An authority with a userinfo: what is executed on the userinfo as if it were a host and a
    port comes in front of the rest. -/
theorem passes_userinfo (L : UInt8 → Bool) (hL : ∀ c, ends c = false → L c = false)
    (u v : List UInt8) (next : Option UInt8) (full : List (List Action))
    (hu : Belongs userinfo u) (h : Passes (seq hostPart portPart) L v next full) :
    Passes (seq userinfoPart (seq hostPart portPart)) L (u ++ [64] ++ v) next
      (does (seq hostPart portPart) L true .idle u ++ [[.saveUserinfo]] ++ full) := by
  have hat : ∀ c ∈ u, c ≠ 64 := ne_of_takes userinfo u hu.takes 64 rfl
  have hends : ∀ c ∈ u ++ [64], L c = false := by
    intro c hc
    rcases List.mem_append.1 hc with hc | hc
    · exact hL c (not_ends_of_takes userinfo u hu.takes rfl rfl rfl c hc)
    · rw [List.mem_singleton.1 hc]
      exact hL 64 rfl
  rcases seq_beside userinfoPart (seq hostPart portPart) L true .idle u rfl
    (unfinished_userinfoPart true .idle u hat) (silent_userinfoPart _ true .idle u hat) with
    ⟨hl, hr, hdoes, -⟩
  rcases userinfoPart_at u hu with ⟨hbehind, hfires⟩
  rw [left_idle] at hl
  rw [right_idle] at hdoes
  have hfirst : first (seq hostPart portPart) (some 64) = false := rfl
  have hdead (entered : Bool) (s : Live) : shift (seq hostPart portPart) entered s (some 64) =
      .idle := shift_not_takes _ entered s _ rfl
  have hmoves : moves (seq userinfoPart (seq hostPart portPart)) true .idle (u ++ [64]) =
      .node behindAt .idle := by
    rw [moves_concat] at hbehind ⊢
    rw [shift_seq, hl, hbehind, hdead]
    rfl
  have htrace : does (seq userinfoPart (seq hostPart portPart)) L true .idle (u ++ [64]) =
      does (seq hostPart portPart) L true .idle u ++ [[.saveUserinfo]] := by
    rw [does_concat, hdoes, fires_seq, hl, Bool.true_and, hfires, hL 64 rfl,
      fires_not_takes _ _ _ _ rfl]
    rfl
  rw [← htrace]
  refine Passes.restart (by simp) ?_ ?_ ?_ ?_ (stays_of_disjoint _ L _ _ _ hends) h
  · rw [hmoves]
    rfl
  · rw [hmoves]
    rfl
  · intro c
    rw [hmoves]
    exact (behindAt_over false c).1
  · intro left c
    rw [hmoves]
    exact (behindAt_over left c).2

/-! ## A userinfo read as a host and a port -/

/-- The same live positions in a userinfo and in a registered name. -/
def SameLive (s t : Live) : Prop :=
  s.left = t.left ∧ s.right.left = t.right.left ∧ s.right.right.left = t.right.right ∧
    s.right.right.right = .idle

theorem sameLive_shift (entered : Bool) (s t : Live) (c : UInt8) (hc : c ≠ 58)
    (h : SameLive s t) :
    SameLive
      (shift (alt (chars unreserved) (alt pctEncoded (alt (chars subDelims) (byte ':')))) entered s
        (some c))
      (shift (alt (chars unreserved) (alt pctEncoded (chars subDelims))) entered t (some c)) := by
  rcases h with ⟨h₁, h₂, h₃, h₄⟩
  have hcolon : shift (byte ':' : Rule) entered .idle (some c) = .idle :=
    shift_not_takes _ _ _ _ (beq_eq_false_iff_ne.2 hc)
  simp only [SameLive, shift_alt, left_join, right_join, h₁, h₂, h₃, h₄, hcolon, and_self]

theorem sameLive_final (s t : Live) (h : SameLive s t) :
    final userinfo s = final regName t := by
  rcases h with ⟨h₁, h₂, h₃, h₄⟩
  rw [userinfo, regName, final_star, final_star, final_alt, final_alt, final_alt, final_alt,
    final_alt, h₁, h₂, h₃, h₄, final_idle, Bool.or_false]

theorem sameLive_moves (entered : Bool) (s t : Live) (w : List UInt8) (hw : ∀ c ∈ w, c ≠ 58)
    (h : SameLive s t) : SameLive (moves userinfo entered s w) (moves regName entered t w) := by
  induction w generalizing entered s t with
  | nil => exact h
  | cons c w ih =>
      have hfinal := sameLive_final s t h
      rw [userinfo, regName, final_star, final_star] at hfinal
      rw [moves, moves]
      refine ih false _ _ (fun d hd => hw d (List.mem_cons_of_mem _ hd)) ?_
      rw [userinfo, regName, shift_star, shift_star, hfinal]
      exact sameLive_shift _ s t c (hw c List.mem_cons_self) h

/-- What is in front of the first `:` of a userinfo could be a registered name. -/
theorem regName_of_userinfo (a b : List UInt8) (h : Belongs userinfo (a ++ 58 :: b))
    (ha : ∀ c ∈ a, c ≠ 58) : Belongs regName a := by
  cases a with
  | nil => exact Or.inl ⟨rfl, rfl⟩
  | cons c a =>
      right
      have hacc : accepts userinfo (c :: a ++ 58 :: b) = true := by
        refine h.resolve_left ?_
        rintro ⟨hnil, -⟩
        cases hnil
      have hsame := sameLive_moves true .idle .idle (c :: a) ha ⟨rfl, rfl, rfl, rfl⟩
      rw [accepts, ← sameLive_final _ _ hsame]
      by_contra hno
      rw [Bool.not_eq_true, userinfo, final_star] at hno
      have hdead : shift userinfo false (moves userinfo true .idle (c :: a)) (some 58) = .idle := by
        have hpct (s : Live) : shift pctEncoded false s (some 58) = .idle :=
          shift_not_takes _ _ _ _ rfl
        rw [userinfo, shift_star, hno, Bool.or_false, shift_alt, shift_alt, shift_alt, byte,
          shift_chars, shift_chars, shift_chars, hpct]
        rfl
      rw [accepts, moves_append _ _ _ _ _ (List.cons_ne_nil c a), moves, hdead, moves_idle,
        final_idle] at hacc
      cases hacc

theorem host_of_regName (w : List UInt8) (h : Belongs regName w) : Belongs host w := by
  rcases h with ⟨rfl, -⟩ | h
  · exact Or.inl ⟨rfl, rfl⟩
  · right
    rw [accepts, host, final_alt, final_alt, (moves_alt _ _ _ _ w).2, (moves_alt _ _ _ _ w).2]
    have hfinal : final regName (moves regName true .idle w) = true := h
    rw [right_idle, right_idle, hfinal, Bool.or_true, Bool.or_true]

/-- What is behind the first `:`. -/
def behindColon (u : List UInt8) : List UInt8 := (u.dropWhile (· != 58)).tail

theorem split_colon (u : List UInt8) (h : 58 ∈ u) :
    u = u.takeWhile (· != 58) ++ 58 :: behindColon u := by
  induction u with
  | nil => cases h
  | cons c u ih =>
      by_cases hc : c = 58
      · simp [hc, behindColon]
      · have hrest := ih ((List.mem_cons.1 h).resolve_left (Ne.symm hc))
        simpa [hc, behindColon] using hrest

/-- What is on the text behind a `:` that could be a port. -/
def portGuess (b : List UInt8) : List (List Action) :=
  tag (if b.head?.any digit then [.markh] else []) (List.replicate b.length [])

/-- What is on a userinfo as if it were a host and a port. -/
def guess (u : List UInt8) : List (List Action) :=
  if 58 ∈ u then followedBy (marks .markh .saveHost (u.takeWhile (· != 58)))
    ([] :: portGuess (behindColon u))
  else tag [.markh] (List.replicate u.length [])

theorem does_portPart (L : UInt8 → Bool) (b : List UInt8) (hb : ∀ c ∈ b, L c = false) :
    does portPart L true .idle (58 :: b) = [] :: portGuess b := by
  have hnull : does (null : Rule) L true Live.idle.right (58 :: b) =
      List.replicate (58 :: b).length [] := does_plain null rfl L true _ _
  rw [portPart, opt, does_alt_silent _ _ _ _ _ _ hnull, left_idle, byte,
    does_chars_seq _ _ _ _ _ rfl, does_leave _ _ _ _ _ _ (stays_of_disjoint _ L _ _ b hb)]
  cases b with
  | nil => rfl
  | cons d b =>
      rw [does, does_enter, does_plain port rfl, fires_enter, fires_plain port rfl,
        hb d List.mem_cons_self, Bool.and_false, Bool.or_false, Bool.true_and, portGuess]
      rfl

/-- A userinfo runs through the host and port as `guess` says. -/
theorem does_hostPort (L : UInt8 → Bool) (hL : ∀ c, ends c = false → L c = false)
    (u : List UInt8) (hu : Belongs userinfo u) :
    does (seq hostPart portPart) L true .idle u = guess u := by
  have hend : ∀ c ∈ u, L c = false := fun c hc =>
    hL c (not_ends_of_takes userinfo u hu.takes rfl rfl rfl c hc)
  have hportPart (c : UInt8) : first portPart (some c) = (c == 58) := by
    simp [portPart, byte, opt, first, nullable]
  rw [guess]
  split
  case isTrue hmem =>
    -- The part in front of the first `:` is read as a host.
    have hsplit := split_colon u hmem
    have hfront : ∀ c ∈ u.takeWhile (· != 58), c ≠ 58 := by
      intro c hc
      have hne := List.mem_takeWhile_imp hc
      exact bne_iff_ne.1 hne
    generalize u.takeWhile (· != 58) = a at hsplit hfront
    generalize behindColon u = b at hsplit
    subst hsplit
    have hhost := host_of_regName a (regName_of_userinfo a b hu hfront)
    have hpass := passes_hostPart (followed portPart L) (fun c hc hno => by
      rw [followed, hportPart, hL c hno, Bool.and_false, Bool.or_false]
      exact beq_eq_false_iff_ne.2 hc) a hhost (some 58) (fun d hd => Or.inl (by simpa using hd.symm))
    rw [hpass.does_seq (hportPart 58) b, does_portPart L b
      (fun c hc => hend c (by simp [hc]))]
  case isFalse hmem =>
    have hno : ∀ c ∈ u, followed portPart L c = false := by
      intro c hc
      rw [followed, hportPart, hend c hc, Bool.and_false, Bool.or_false]
      exact beq_eq_false_iff_ne.2 (fun h => hmem (h ▸ hc))
    rcases seq_first hostPart portPart L true .idle u right_idle
      (stays_of_disjoint _ _ _ _ u hno) with ⟨-, -, hdoes, -⟩
    rw [hdoes, left_idle, hostPart, does_leave _ _ _ _ _ _ (stays_of_disjoint _ _ _ _ u hno)]
    cases u with
    | nil => rfl
    | cons c u =>
        have hfirst : first userinfo (some c) = true :=
          first_of_accepts userinfo c u (hu.resolve_left (fun h => List.cons_ne_nil _ _ h.1))
        have hhost : first host (some c) = true := by
          have hne : c ≠ 58 := fun h => hmem (h ▸ List.mem_cons_self)
          have hname : first regName (some c) = true := by
            simpa [userinfo, regName, byte, first, hne] using hfirst
          rw [host, first, first, hname, Bool.or_true, Bool.or_true]
        rw [does, does_enter, does_plain host rfl, fires_enter, fires_plain host rfl, hhost]
        rfl

/-! ## Authorities -/

/-- A userinfo and the `@` behind it, or neither. -/
def userText : Option (List UInt8) → List UInt8
  | none => []
  | some u => u ++ [64]

def userMarks : Option (List UInt8) → List (List Action)
  | none => []
  | some u => guess u ++ [[.saveUserinfo]]

theorem passes_authority (L : UInt8 → Bool) (hL : ∀ c, ends c = false → L c = false)
    (u : Option (List UInt8)) (h : List UInt8) (p : Option (List UInt8))
    (hu : ∀ v ∈ u, Belongs userinfo v) (hh : Belongs host h) (hp : ∀ d ∈ p, Belongs port d)
    (next : Option UInt8) (hnext : ∀ d ∈ next, ends d = true) :
    Passes authority L (userText u ++ (h ++ optText 58 p)) next
      (tag [.markh] (userMarks u ++ hostMarks h p)) := by
  have hrest := passes_hostPort L hL h p hh hp next hnext
  refine Passes.enter _ ?_
  cases u with
  | none =>
      rw [userText, userMarks, List.nil_append, List.nil_append]
      refine passes_noUserinfo L _ next _ ?_ hnext hrest
      intro c hc
      rcases List.mem_append.1 hc with hc | hc
      · exact ne_of_takes host h hh.takes 64 rfl c hc
      · cases p with
        | none => exact absurd hc List.not_mem_nil
        | some d =>
            rcases List.mem_cons.1 hc with rfl | hc
            · decide
            · exact ne_of_takes port d (hp d rfl).takes 64 rfl c hc
  | some v =>
      rw [userText, userMarks, ← does_hostPort L hL v (hu v rfl)]
      exact passes_userinfo L hL v _ next _ (hu v rfl) hrest

theorem not_ends_authority (u : Option (List UInt8)) (h : List UInt8) (p : Option (List UInt8))
    (hu : ∀ v ∈ u, Belongs userinfo v) (hh : Belongs host h) (hp : ∀ d ∈ p, Belongs port d) :
    ∀ c ∈ userText u ++ (h ++ optText 58 p), ends c = false := by
  have hhost := not_ends_of_takes host h hh.takes rfl rfl rfl
  have huser : ∀ c ∈ userText u, ends c = false := by
    intro c hc
    cases u with
    | none => exact absurd hc List.not_mem_nil
    | some v =>
        rcases List.mem_append.1 hc with hc | hc
        · exact not_ends_of_takes userinfo v (hu v rfl).takes rfl rfl rfl c hc
        · rw [List.mem_singleton.1 hc]
          rfl
  have hport : ∀ c ∈ optText 58 p, ends c = false := by
    intro c hc
    cases p with
    | none => exact absurd hc List.not_mem_nil
    | some d =>
        rcases List.mem_cons.1 hc with rfl | hc
        · rfl
        · exact not_ends_of_takes port d (hp d rfl).takes rfl rfl rfl c hc
  intro c hc
  rcases List.mem_append.1 hc with hc | hc
  · exact huser c hc
  · exact (List.mem_append.1 hc).elim (hhost c) (hport c)

/-! ## What is behind the authority -/

theorem passes_fragmentPart (f : Option (List UInt8)) (hf : ∀ v ∈ f, Belongs queryText v) :
    Passes fragmentPart (fun _ => false) (optText 35 f) none
      (optMarks .marku .saveFragment f) :=
  passes_optional '#' queryText .marku .saveFragment _ f none rfl
    (fun v hv => ⟨hf v hv, fun _ _ => rfl⟩) (takes_none _) rfl (by simp)

theorem followed_fragmentPart (c : UInt8) :
    followed fragmentPart (fun _ => false) c = (c == 35) := by
  simp [followed, fragmentPart, byte, opt, first, nullable]

theorem passes_queryPart (q : Option (List UInt8)) (hq : ∀ v ∈ q, Belongs queryText v)
    (next : Option UInt8) (hnext : ∀ d ∈ next, d = 35) :
    Passes queryPart (followed fragmentPart fun _ => false) (optText 63 q) next
      (optMarks .marku .saveQuery q) := by
  have htakes : takes queryText next = false := by
    cases next with
    | none => exact takes_none _
    | some d => rw [hnext d rfl]; rfl
  refine passes_optional '?' queryText .marku .saveQuery _ q next rfl ?_ htakes
    (followed_fragmentPart 63) ?_
  · intro v hv
    refine ⟨hq v hv, fun c hc => ?_⟩
    rw [followed_fragmentPart, beq_eq_false_iff_ne]
    exact ne_of_takes queryText v (hq v hv).takes 35 rfl c hc
  · rintro rfl
    exact absurd (hnext _ rfl) (by decide)

/-- What is behind the path. -/
def tailText (q f : Option (List UInt8)) : List UInt8 := optText 63 q ++ optText 35 f

def tailMarks (q f : Option (List UInt8)) : List (List Action) :=
  followedBy (optMarks .marku .saveQuery q) (optMarks .marku .saveFragment f)

theorem passes_tail (q f : Option (List UInt8)) (hq : ∀ v ∈ q, Belongs queryText v)
    (hf : ∀ v ∈ f, Belongs queryText v) :
    Passes (seq queryPart fragmentPart) (fun _ => false) (tailText q f) none (tailMarks q f) := by
  refine Passes.seq (passes_queryPart q hq _ ?_) (passes_fragmentPart f hf)
  intro d hd
  cases f with
  | none => cases hd
  | some v => exact (Option.some.inj hd).symm

theorem followed_tail (c : UInt8) :
    followed (seq queryPart fragmentPart) (fun _ => false) c = (c == 63 || c == 35) := by
  simp [followed, queryPart, fragmentPart, byte, opt, first, nullable]

theorem followed_path (L : UInt8 → Bool) (c : UInt8) :
    followed pathPart L c = (c == 47 || L c) := by
  simp [followed, pathPart, pathAbempty, segments, byte, opt, first, nullable]

/-- The first character behind the path. -/
theorem head_tailText (q f : Option (List UInt8)) :
    ∀ d ∈ (tailText q f).head?.or none, d = 63 ∨ d = 35 := by
  intro d hd
  cases q with
  | some v => exact Or.inl (Option.some.inj hd).symm
  | none =>
      cases f with
      | none => cases hd
      | some v => exact Or.inr (Option.some.inj hd).symm

/-! ## The whole -/

/-- What is on the text behind the scheme and its `:`. -/
def hierMarks (u : Option (List UInt8)) (h : List UInt8) (p : Option (List UInt8))
    (path : List UInt8) : List (List Action) :=
  [] :: [] :: followedBy (tag [.markh] (userMarks u ++ hostMarks h p))
    (marks .markh .savePath path)

theorem head_path (path : List UInt8) (hpath : Belongs pathAbempty path) :
    ∀ d ∈ path.head?, d = 47 := by
  intro d hd
  rcases path with _ | ⟨c, w⟩
  · cases hd
  · have hfirst := first_of_accepts pathAbempty c w
      (hpath.resolve_left (fun h => List.cons_ne_nil _ _ h.1))
    rw [← Option.some.inj hd]
    simpa [pathAbempty, segments, byte, opt, first, nullable] using hfirst

theorem passes_hierPart (u : Option (List UInt8)) (h : List UInt8) (p : Option (List UInt8))
    (path : List UInt8) (hu : ∀ v ∈ u, Belongs userinfo v) (hh : Belongs host h)
    (hp : ∀ d ∈ p, Belongs port d) (hpath : Belongs pathAbempty path) (next : Option UInt8)
    (hnext : ∀ d ∈ next, d = 63 ∨ d = 35) :
    Passes hierPart (followed (seq queryPart fragmentPart) fun _ => false)
      (47 :: 47 :: (userText u ++ (h ++ optText 58 p) ++ path)) next (hierMarks u h p path) := by
  have hpathL : ∀ c ∈ path, followed (seq queryPart fragmentPart) (fun _ => false) c = false := by
    intro c hc
    rw [followed_tail, Bool.or_eq_false_iff, beq_eq_false_iff_ne, beq_eq_false_iff_ne]
    exact ⟨ne_of_takes pathAbempty path hpath.takes 63 rfl c hc,
      ne_of_takes pathAbempty path hpath.takes 35 rfl c hc⟩
  have htakes : takes pathAbempty next = false := by
    cases next with
    | none => exact takes_none _
    | some d => rcases hnext d rfl with rfl | rfl <;> rfl
  have hpathPart := passes_marks pathAbempty .markh .savePath _ path next
    (Passes.plain pathAbempty _ path next rfl hpath hpathL htakes)
  have hauthority : Passes authority
      (followed pathPart (followed (seq queryPart fragmentPart) fun _ => false))
      (userText u ++ (h ++ optText 58 p)) (path.head?.or next)
      (tag [.markh] (userMarks u ++ hostMarks h p)) := by
    refine passes_authority _ ?_ u h p hu hh hp _ ?_
    · intro c hc
      rw [followed_path, followed_tail, ← hc, ends, Bool.or_assoc]
    · intro d hd
      cases path with
      | nil =>
          rw [List.head?_nil, Option.none_or] at hd
          rcases hnext d hd with rfl | rfl <;> rfl
      | cons c w =>
          rw [List.head?_cons, Option.some_or, Option.mem_some_iff] at hd
          rw [← hd, head_path (c :: w) hpath c rfl]
          rfl
  have hboth : Passes withAuthority (followed (seq queryPart fragmentPart) fun _ => false)
      (47 :: 47 :: (userText u ++ (h ++ optText 58 p) ++ path)) next (hierMarks u h p path) :=
    Passes.cons rfl (Passes.cons rfl (hauthority.seq hpathPart))
  refine hboth.alt_silent (does_plain _ rfl _ _ _ _) ?_ (stays_of_disjoint _ _ _ _ _ ?_)
  · -- A path that starts with a slash does not go on with another one.
    have hdead : shift (alt pathAbsolute (alt pathRootless pathEmpty)) false
        (shift (alt pathAbsolute (alt pathRootless pathEmpty)) true .idle (some 47)) (some 47) =
        .idle := rfl
    rw [moves, moves, hdead, moves_idle]
  · intro c hc
    rw [← List.cons_append, ← List.cons_append, List.mem_append, List.mem_cons,
      List.mem_cons] at hc
    rcases hc with (rfl | rfl | hc) | hc
    · rfl
    · rfl
    · have hend := not_ends_authority u h p hu hh hp c hc
      rw [ends, Bool.or_assoc, Bool.or_eq_false_iff] at hend
      rw [followed_tail, hend.2]
    · exact hpathL c hc

/-- What comes behind a scheme and a `:` is no relative reference, and nothing is executed as if it
    were one. -/
theorem relativeRef_dead (sch rest : List UInt8) (hsch : accepts scheme sch = true) :
    does relativeRef (fun _ => false) true .idle (sch ++ 58 :: rest) =
        List.replicate (sch ++ 58 :: rest).length [] ∧
      moves relativeRef true .idle (sch ++ 58 :: rest) = .idle := by
  rcases sch with _ | ⟨c, w⟩
  · cases hsch
  have htakes := takes_of_accepts scheme true .idle (c :: w) hsch
  have hchars (d : UInt8) (hd : takes scheme (some d) = false) (hne : d ≠ 58) :
      ∀ e ∈ c :: w ++ [58], e ≠ d := by
    intro e he
    rcases List.mem_append.1 he with he | he
    · exact ne_of_takes scheme _ htakes d hd e he
    · rw [List.mem_singleton.1 he]
      exact hne.symm
  have hslash := hchars 47 rfl (by decide)
  have htail : ∀ e ∈ c :: w ++ [58],
      followed (seq queryPart fragmentPart) (fun _ => false) e = false := by
    intro e he
    rw [followed_tail, Bool.or_eq_false_iff, beq_eq_false_iff_ne, beq_eq_false_iff_ne]
    exact ⟨hchars 63 rfl (by decide) e he, hchars 35 rfl (by decide) e he⟩
  have hc : c ≠ 47 := hslash c List.mem_cons_self
  -- Nothing starts with a slash.
  have hnot (m : Rule) (L : UInt8 → Bool) :=
    does_not_first (seq (byte '/') m) L c (w ++ [58])
      (by simpa [byte, first, nullable] using hc) rfl
  -- What starts with a segment has no `:` in it.
  have hnoscheme : moves pathNoscheme true .idle (c :: w ++ [58]) = .idle := by
    rcases seq_first segmentNzNc segments (fun _ => false) true .idle (c :: w ++ [58]) right_idle
      (stays_of_disjoint _ _ _ _ _ (fun e he => by
        simpa [followed, segments, byte, first, nullable] using hslash e he)) with
      ⟨hl, hr, -⟩
    refine moves_seq_idle segmentNzNc segments true .idle (c :: w) 58 ?_ hr
    rw [hl, moves_concat, shift_not_takes _ _ _ _ rfl]
  have hplain : moves (alt pathAbsolute (alt pathNoscheme pathEmpty)) true .idle
      (c :: w ++ [58]) = .idle := by
    refine moves_alt_idle _ _ _ _ _ _ (hnot _ fun _ => false).2 ?_
    refine moves_alt_idle _ _ _ _ _ _ hnoscheme ?_
    exact (does_not_first pathEmpty (fun _ => false) c (w ++ [58]) rfl rfl).2
  rcases seq_first relativePart (seq queryPart fragmentPart) (fun _ => false) true .idle
    (c :: w ++ [58]) right_idle (stays_of_disjoint _ _ _ _ _ htail) with ⟨hl, hr, hdoes, -⟩
  have hdead : moves relativeRef true .idle (c :: w ++ [58]) = .idle := by
    refine moves_seq_idle _ _ true .idle (c :: w) 58 ?_ hr
    rw [hl]
    exact moves_alt_idle _ _ _ _ _ _ (hnot _ fun _ => false).2 hplain
  have hsilent : does relativeRef (fun _ => false) true .idle (c :: w ++ [58]) =
      List.replicate (c :: w ++ [58]).length [] := by
    rw [relativeRef, hdoes, relativePart, does_alt_silent _ _ _ _ _ _ (does_plain _ rfl _ _ _ _)]
    exact (hnot _ _).1
  have hword : c :: w ++ 58 :: rest = c :: w ++ [58] ++ rest := by simp
  have hne : c :: w ++ [58] ≠ [] := by simp
  rw [hword, does_append relativeRef _ true .idle (c :: w ++ [58]) rest hne,
    moves_append relativeRef true .idle (c :: w ++ [58]) rest hne, hsilent, hdead, does_idle,
    moves_idle, List.replicate_append_replicate, ← List.length_append]
  exact ⟨rfl, rfl⟩

end UriParser

open UriParser

/-- What a URI is put together from. -/
structure Components where
  scheme : List UInt8
  userinfo : Option (List UInt8)
  host : List UInt8
  port : Option (List UInt8)
  path : List UInt8
  query : Option (List UInt8)
  fragment : Option (List UInt8)

namespace Components

/-- The text behind the scheme and its `:`, up to the end of the path. -/
def hierText (c : Components) : List UInt8 :=
  47 :: 47 :: (userText c.userinfo ++ (c.host ++ optText 58 c.port) ++ c.path)

/-- The text of a URI. -/
def text (c : Components) : List UInt8 :=
  c.scheme ++ 58 :: (c.hierText ++ tailText c.query c.fragment)

/-- Every part is in its class of the grammar. -/
structure InGrammar (c : Components) : Prop where
  scheme : accepts UriParser.scheme c.scheme = true
  userinfo : ∀ v ∈ c.userinfo, Belongs UriParser.userinfo v
  host : Belongs UriParser.host c.host
  port : ∀ d ∈ c.port, Belongs UriParser.port d
  path : Belongs pathAbempty c.path
  query : ∀ v ∈ c.query, Belongs queryText v
  fragment : ∀ v ∈ c.fragment, Belongs queryText v

/-- What is on the text and behind it. -/
def marksOf (c : Components) : List (List Action) :=
  followedBy (marks .marku .saveScheme c.scheme)
    ([] :: followedBy (hierMarks c.userinfo c.host c.port c.path) (tailMarks c.query c.fragment))

/-- The machine accepts the text, with these actions. -/
theorem passes_main (c : Components) (hc : c.InGrammar) :
    Passes main (fun _ => false) c.text none c.marksOf := by
  have htail := passes_tail c.query c.fragment hc.query hc.fragment
  have hhier := passes_hierPart c.userinfo c.host c.port c.path hc.userinfo hc.host hc.port hc.path
    _ (head_tailText c.query c.fragment)
  have hrest : Passes (Machine.seq (byte ':') (Machine.seq hierPart (Machine.seq queryPart
      fragmentPart))) (fun _ => false) (58 :: (c.hierText ++ tailText c.query c.fragment)) none
      ([] :: followedBy (hierMarks c.userinfo c.host c.port c.path)
        (tailMarks c.query c.fragment)) := Passes.cons rfl (hhier.seq htail)
  have hno : ∀ d ∈ c.scheme, d ≠ 58 :=
    ne_of_takes UriParser.scheme _ (takes_of_accepts _ _ _ _ hc.scheme) 58 rfl
  have hscheme : Passes UriParser.scheme (followed (Machine.seq (byte ':') (Machine.seq hierPart
      (Machine.seq queryPart fragmentPart))) fun _ => false) c.scheme (some 58)
      (marks .marku .saveScheme c.scheme) := by
    refine passes_marks _ .marku .saveScheme _ c.scheme (some 58)
      (Passes.plain _ _ c.scheme _ rfl (Or.inr ?_) ?_ rfl)
    · rw [← accepts_marks _ .marku .saveScheme]
      exact hc.scheme
    · intro d hd
      simpa [followed, byte, first, nullable] using hno d hd
  have huri : Passes uriRule (fun _ => false) c.text none c.marksOf := hscheme.seq hrest
  have hdead := relativeRef_dead c.scheme (c.hierText ++ tailText c.query c.fragment) hc.scheme
  rcases hsch : c.scheme with _ | ⟨d, w⟩
  · have hacc := hc.scheme
    rw [hsch] at hacc
    cases hacc
  · rw [text, hsch, List.cons_append] at huri ⊢
    rw [hsch, List.cons_append] at hdead
    exact huri.alt_silent hdead.1 hdead.2 (stays_of_disjoint _ _ _ _ _ fun _ _ => rfl)

end Components

end YkServer
