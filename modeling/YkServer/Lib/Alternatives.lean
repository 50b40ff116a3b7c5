import Mathlib.Data.List.Forall2
import YkServer.Lib.Passing

/-!
# Alternatives that Go on Together

What a machine with embedded actions does on a word that several alternatives read at once.

A grammar often has a rule for everything of some kind and special rules for a few of them. On a
word of the kind all of them are live, and each executes its own actions. What matters then is
that the special rules execute nothing that the general one does not execute on the same
character: an action of several parts of an expression on one transition is executed there
once, so that together they do what the general rule does alone.

A special rule may also be over before the word is, so nothing is asked here about where it is
behind the word.

## Main definitions

* `Runs`: The actions of an expression on a word, whether or not it is one of its words.
* `Echo`, `Echoes`: Executing nothing but what is executed anyway.
* `Same`, `SameTrace`: Actions that are the same up to repetition.
* `Framed`: An expression with an action in front and one behind.

## Theorems

* `Runs.alt`: Two alternatives.
* `Runs.seq`, `Runs.stuck`: A sequence whose first part is done, and one whose first part is not.
* `SameTrace.echo`: An alternative that does nothing new.
* `Same.eraseDups`: What is executed in the end.
* `restarts_alt`, `restarts_seq`, `restarts_entryGuard`: Rounds of alternatives.
-/

namespace Lib

namespace Ragel

variable {α A : Type}

/-! ## Actions on a word -/

/-- What an expression executes on a word on which nothing leaves it. -/
structure Runs (m : Machine α A) (L : α → Bool) (w : List α) (tr : List (List A)) : Prop where
  actions : does m L true .idle w = tr
  stays : Stays m L true .idle w

theorem Reads.runs {m : Machine α A} {L : α → Bool} {w : List α} {next : Option α}
    {tr : List (List A)} {out : List A} (h : Reads m L w next tr out) : Runs m L w tr :=
  ⟨h.actions, h.stays⟩

/-- Both alternatives execute their actions. -/
theorem does_alternatives (m n : Machine α A) (L : α → Bool) (entered : Bool) (s : Live)
    (w : List α) :
    does (.alt m n) L entered s w =
      List.zipWith (· ++ ·) (does m L entered s.left w) (does n L entered s.right w) := by
  induction w generalizing entered s with
  | nil => rfl
  | cons c w ih =>
      rw [does, does, does, fires_alt, shift_alt, ih, left_join, right_join]
      rfl

theorem Runs.alt {m n : Machine α A} {L : α → Bool} {w : List α} {tr₁ tr₂ : List (List A)}
    (hm : Runs m L w tr₁) (hn : Runs n L w tr₂) :
    Runs (.alt m n) L w (List.zipWith (· ++ ·) tr₁ tr₂) where
  actions := by
    rw [does_alternatives, left_idle, right_idle, hm.actions, hn.actions]
  stays := stays_alt m n L true .idle w hm.stays hn.stays

/-- Nothing is executed once the expression is over. -/
theorem does_over (m : Machine α A) (L : α → Bool) (w : List α) :
    does m L false .idle w = List.replicate w.length [] := by
  induction w with
  | nil => rfl
  | cons c w ih => rw [does, fires_idle, shift_idle, ih, List.length_cons, List.replicate_succ]

/-! ## Sequences -/

/-- The first part has a word, and the second goes on from there. -/
theorem Runs.seq {m n : Machine α A} {L : α → Bool} {u v : List α} {b : α}
    {tr₁ tr₂ : List (List A)} {out : List A} (hm : Runs m (followed n L) u tr₁) (hu : u ≠ [])
    (hfinal : final m (moves m true .idle u) = true)
    (hended : shift m false (moves m true .idle u) (some b) = .idle)
    (hout : fires m false (first n (some b) || (nullable n && L b)) (moves m true .idle u)
      (some b) = out)
    (hn : Runs n L (b :: v) tr₂) :
    Runs (.seq m n) L (u ++ b :: v) (tr₁ ++ tag out tr₂) ∧
      (moves (.seq m n) true .idle (u ++ b :: v)).left = .idle ∧
      (moves (.seq m n) true .idle (u ++ b :: v)).right = moves n true .idle (b :: v) := by
  rcases seq_first m n L true .idle u right_idle hm.stays with ⟨hleft, hright, hdoes, hstays⟩
  rw [left_idle] at hleft hdoes
  rw [← hleft] at hfinal hended hout
  rcases seq_between m n (L b) _ b hright hfinal hended with ⟨hstep, hfires⟩
  rw [hout] at hfires
  rcases seq_second m n L (.join .idle (shift n true .idle (some b))) v (left_join _ _) with
    ⟨hleft', hright', hdoes', hstays'⟩
  rw [right_join] at hright' hdoes' hstays'
  have htrace := hn.actions
  rw [does] at htrace
  refine ⟨⟨?_, ?_⟩, ?_, ?_⟩
  · rw [does_append _ _ _ _ _ _ hu, hdoes, hm.actions, does, hstep, hfires, hdoes', ← htrace, tag]
  · rw [stays_append _ _ _ _ _ _ hu, Stays, hstep]
    refine ⟨hstays, ?_, hstays' hn.stays.2⟩
    intro hcond
    rw [final_seq, hright, final_idle, Bool.false_or, hfinal, Bool.and_true, Bool.false_and,
      Bool.or_false] at hcond
    exact hn.stays.1 (by rw [hcond]; simp)
  · rw [moves_append _ _ _ _ _ hu, moves, hstep]
    exact hleft'
  · rw [moves_append _ _ _ _ _ hu, moves, hstep, hright', moves]

/-- The first part is not done where it is over. -/
theorem Runs.stuck {m n : Machine α A} {L : α → Bool} {u : List α} {b : α}
    {tr : List (List A)} (hm : Runs m (followed n L) u tr) (hu : u ≠ [])
    (hfinal : final m (moves m true .idle u) = false)
    (hended : shift m false (moves m true .idle u) (some b) = .idle)
    (hout : fires m false (first n (some b) || (nullable n && L b)) (moves m true .idle u)
      (some b) = [])
    (v : List α) :
    Runs (.seq m n) L (u ++ b :: v) (tr ++ List.replicate (v.length + 1) []) ∧
      moves (.seq m n) true .idle (u ++ b :: v) = .idle := by
  rcases seq_first m n L true .idle u right_idle hm.stays with ⟨hleft, hright, hdoes, hstays⟩
  rw [left_idle] at hleft hdoes
  rw [← hleft] at hfinal hended hout
  have hinto : into m false (moves (.seq m n) true .idle u) = false := by
    rw [into, hfinal]
    rfl
  have hstep : shift (.seq m n) false (moves (.seq m n) true .idle u) (some b) = .idle := by
    rw [shift_seq, hended, hinto, hright, shift_idle]
    rfl
  have hfires : fires (.seq m n) false (L b) (moves (.seq m n) true .idle u) (some b) = [] := by
    rw [fires_seq, hout, hinto, hright, fires_idle]
    rfl
  refine ⟨⟨?_, ?_⟩, ?_⟩
  · rw [does_append _ _ _ _ _ _ hu, hdoes, hm.actions, does, hstep, hfires, does_over,
      List.replicate_succ]
  · rw [stays_append _ _ _ _ _ _ hu, Stays, hstep]
    refine ⟨hstays, ?_, stays_idle _ _ _⟩
    intro hcond
    rw [final_seq, hright, final_idle, Bool.false_or, hfinal, Bool.and_false, Bool.false_and,
      Bool.or_false] at hcond
    cases hcond
  · rw [moves_append _ _ _ _ _ hu, moves, hstep, moves_idle]

/-- A word of one character and what is behind it. -/
theorem accepts_chars_seq (p : α → Bool) (n : Machine α A) (c : α) (w : List α)
    (h : accepts (.seq (.chars p) n) (c :: w) = true) :
    p c = true ∧ (w = [] ∧ nullable n = true ∨ accepts n w = true) := by
  have hp : p c = true := by
    by_contra hno
    rw [Bool.not_eq_true] at hno
    have hdead : shift (.seq (.chars p) n) true .idle (some c) = .idle := by
      simp [shift_seq, shift_chars, into, final, nullable, shift_idle, Live.join, Live.left,
        Live.right, hno]
    rw [accepts, moves, hdead, moves_idle, final_idle] at h
    cases h
  refine ⟨hp, ?_⟩
  cases w with
  | nil =>
      left
      have hlive : shift (.seq (.chars p) n) true .idle (some c) = .join .here .idle := by
        simp [shift_seq, shift_chars, into, final, nullable, shift_idle, Live.left, Live.right, hp]
      rw [accepts, moves, hlive, moves, final_seq, right_join, left_join, final_idle,
        Bool.false_or, Bool.and_eq_true] at h
      exact ⟨rfl, h.1⟩
  | cons d w =>
      right
      have hread : Reads (.chars p : Machine α A) (followed n (fun _ => false)) [c] (some d)
          (piece [] [c]) [] := Reads.chars p _ c (some d) hp
      rcases hread.moves_seq w with ⟨hleft, hright⟩
      rw [List.singleton_append] at hleft hright
      rw [accepts, final_seq, hleft, hright, final_idle, Bool.and_false, Bool.or_false] at h
      exact h

/-! ## Nothing new -/

/-- Nothing is executed but the one action that is executed anyway. -/
def Echo (xs ys : List A) : Prop := xs = [] ∨ ∃ a, xs = [a] ∧ ys = [a]

/-- Nothing new is executed on any character. -/
def Echoes (tr tr' : List (List A)) : Prop := List.Forall₂ Echo tr tr'

theorem echo_nil (ys : List A) : Echo [] ys := Or.inl rfl

theorem echo_one (a : A) : Echo [a] [a] := Or.inr ⟨a, rfl, rfl⟩

theorem Echoes.append {tr₁ tr₂ tr₁' tr₂' : List (List A)} (h₁ : Echoes tr₁ tr₁')
    (h₂ : Echoes tr₂ tr₂') : Echoes (tr₁ ++ tr₂) (tr₁' ++ tr₂') :=
  List.rel_append h₁ h₂

/-- Doing nothing is nothing new. -/
theorem echoes_silent (n : Nat) (tr : List (List A)) (h : tr.length = n) :
    Echoes (List.replicate n []) tr := by
  induction tr generalizing n with
  | nil =>
      subst h
      exact List.Forall₂.nil
  | cons ys tr ih =>
      subst h
      rw [List.length_cons, List.replicate_succ]
      exact List.Forall₂.cons (echo_nil ys) (ih _ rfl)

theorem length_piece (xs : List A) (w : List α) : (piece xs w).length = w.length := by
  cases w with
  | nil => rfl
  | cons c w => simp [piece, tag, List.replicate_succ]

theorem echoes_piece (xs ys : List A) (w : List α) (h : Echo xs ys) :
    Echoes (piece xs w) (piece ys w) := by
  cases w with
  | nil => exact List.Forall₂.nil
  | cons c w =>
      simp only [piece, List.length_cons, List.replicate_succ, tag, List.append_nil]
      exact List.Forall₂.cons h (echoes_silent _ _ List.length_replicate)

/-- The same actions, up to how often they stand there. -/
def Same (xs ys : List A) : Prop := xs = ys ∨ ∃ a, ys = [a] ∧ xs ≠ [] ∧ ∀ x ∈ xs, x = a

def SameTrace (tr tr' : List (List A)) : Prop := List.Forall₂ Same tr tr'

theorem sameTrace_refl (tr : List (List A)) : SameTrace tr tr := by
  induction tr with
  | nil => exact List.Forall₂.nil
  | cons xs tr ih => exact List.Forall₂.cons (Or.inl rfl) ih

theorem SameTrace.append {tr₁ tr₂ tr₁' tr₂' : List (List A)} (h₁ : SameTrace tr₁ tr₁')
    (h₂ : SameTrace tr₂ tr₂') : SameTrace (tr₁ ++ tr₂) (tr₁' ++ tr₂') :=
  List.rel_append h₁ h₂

theorem Same.echo {xs ys zs : List A} (hx : Echo xs zs) (hy : Same ys zs) : Same (xs ++ ys) zs := by
  rcases hx with rfl | ⟨a, rfl, rfl⟩
  · exact hy
  · refine Or.inr ⟨a, rfl, List.cons_ne_nil _ _, ?_⟩
    intro x hx
    rcases List.mem_cons.1 hx with rfl | hx
    · rfl
    · rcases hy with rfl | ⟨b, hb, -, hall⟩
      · exact List.mem_singleton.1 hx
      · rw [hall x hx]
        exact (List.singleton_inj.1 hb).symm

/-- An alternative that does nothing new. -/
theorem SameTrace.echo {tr₁ tr₂ tr : List (List A)} (h₁ : Echoes tr₁ tr) (h₂ : SameTrace tr₂ tr) :
    SameTrace (List.zipWith (· ++ ·) tr₁ tr₂) tr := by
  induction h₁ generalizing tr₂ with
  | nil =>
      cases h₂
      exact List.Forall₂.nil
  | cons hx _ ih =>
      rcases h₂ with _ | ⟨hy, hrest⟩
      exact List.Forall₂.cons (hx.elim (fun h => Same.echo (Or.inl h) hy)
        (fun h => Same.echo (Or.inr h) hy)) (ih hrest)

/-- Each action is executed once. -/
theorem Same.eraseDups [BEq A] [LawfulBEq A] {xs ys : List A} (h : Same xs ys)
    (hdup : ys.eraseDups = ys) : xs.eraseDups = ys := by
  rcases h with rfl | ⟨a, rfl, hne, hall⟩
  · exact hdup
  · rcases List.exists_cons_of_ne_nil hne with ⟨x, rest, rfl⟩
    have hx : x = a := hall x List.mem_cons_self
    subst hx
    have hrest : rest.filter (fun y => !y == x) = [] := by
      rw [List.filter_eq_nil_iff]
      intro y hy
      rw [hall y (List.mem_cons_of_mem _ hy)]
      simp
    rw [List.eraseDups_cons, hrest]
    rfl

/-! ## Frames -/

/-- Nothing is executed but `a` on the first character, and `b` behind the expression. -/
structure Framed (m : Machine α A) (a b : A) : Prop where
  entering : ∀ (L : α → Bool) (w : List α), w ≠ [] → (∀ c ∈ w, L c = false) →
    ∃ tr, Runs m L w tr ∧ Echoes tr (piece [a] w)
  leaving : ∀ left s c, Echo (fires m false left s c) [b]
  quiet : ∀ left s c, final m s = false → fires m false left s c = []

theorem framed_plain (m : Machine α A) (a b : A) (h : m.embedded = []) : Framed m a b where
  entering := by
    intro L w _ hL
    refine ⟨_, ⟨does_plain m h L true .idle w, stays_of_disjoint m L true .idle w hL⟩, ?_⟩
    exact echoes_silent _ _ (length_piece _ _)
  leaving := by
    intro left s c
    rw [fires_plain m h]
    exact echo_nil _
  quiet := fun left s c _ => fires_plain m h false left s c

theorem framed_frame (m : Machine α A) (a b : A) (h : m.embedded = []) :
    Framed (.leave b (.enter a m)) a b where
  entering := by
    intro L w hw hL
    have hstays := stays_enter a m L true .idle w (stays_of_disjoint m L true .idle w hL)
    refine ⟨_, ⟨does_leave b _ L true .idle w hstays, stays_leave b _ L true .idle w hstays⟩, ?_⟩
    rcases List.exists_cons_of_ne_nil hw with ⟨c, v, rfl⟩
    rw [does, fires_enter, fires_plain m h, does_enter, does_plain m h, List.append_nil, piece,
      List.length_cons, List.replicate_succ, tag, List.append_nil]
    refine List.Forall₂.cons ?_ (echoes_silent _ _ List.length_replicate)
    split
    · exact echo_one a
    · exact echo_nil _
  leaving := by
    intro left s c
    rw [fires_leave, fires_enter, fires_plain m h]
    simp only [Bool.false_and, Bool.false_eq_true, if_false, List.nil_append]
    split
    · exact echo_one b
    · exact echo_nil _
  quiet := by
    intro left s c hfinal
    rw [final_leave] at hfinal
    rw [fires_leave, fires_enter, fires_plain m h, hfinal]
    simp

/-! ## Rounds -/

theorem restarts_alt (m n : Machine α A) (s : Live) (hm : Restarts m s.left)
    (hn : Restarts n s.right) : Restarts (.alt m n) s := by
  intro c left
  rw [shift_alt, shift_alt, fires_alt, fires_alt, (hm c left).1, (hn c left).1, (hm c left).2,
    (hn c left).2, left_idle, right_idle]
  exact ⟨rfl, rfl⟩

theorem restarts_idle (m : Machine α A) : Restarts m .idle := fun _ _ => ⟨rfl, rfl⟩

/-- A sequence in whose second part nothing goes on. -/
theorem restarts_seq (m n : Machine α A) (s : Live) (hnull : nullable m = false)
    (hn : n.embedded = []) (hleft : s.left = .idle)
    (hright : ∀ c, shift n false s.right c = .idle) : Restarts (.seq m n) s := by
  intro c left
  rw [shift_seq, shift_seq, fires_seq, fires_seq, into_not_nullable m true s hnull,
    into_not_nullable m true .idle hnull, hleft, left_idle, right_idle, final_idle, hright,
    shift_idle, fires_plain n hn, fires_plain n hn]
  exact ⟨rfl, rfl⟩

theorem restarts_entryGuard (m n : Machine α A) (s : Live) (hnull : nullable m = false)
    (hn : n.embedded = []) (hleft : s.left = .idle)
    (hright : ∀ c, shift n false s.right c = .idle) : Restarts (.entryGuard m n) s := by
  intro c left
  have hinto : into m true s = false := by
    rw [into_not_nullable m true s hnull, hleft, final_idle]
  have hidle : into m true .idle = false := by
    rw [into_not_nullable m true .idle hnull, left_idle, final_idle]
  rw [shift_entryGuard, shift_entryGuard, fires_entryGuard, fires_entryGuard, hinto, hidle, hleft,
    left_idle, right_idle, hright, shift_idle, fires_plain n hn, fires_plain n hn]
  exact ⟨rfl, rfl⟩

end Ragel

end Lib
