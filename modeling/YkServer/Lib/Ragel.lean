import Mathlib.Data.List.Basic

/-!
# Machines with Embedded Actions

Regular expressions with actions on their transitions, as a Ragel specification
writes them, and how they run.

An expression is run by its positions: the places of a character class, of which
some are live. A character moves the live positions on to those of the positions
behind them that it belongs to. Nothing has to be built, and the live positions
are those states of the machine without determinism whose set is the state of the
machine with it.

An action is executed on a transition. An entering action is on those that take
the first character, a finishing action on those into a final state, a leaving
action on those that go on from a final state to what follows; what follows is
known from the outside only, so a run is told whether it takes the character. An
entering action of an expression that can be empty is a leaving action too, for
when it is. If a character moves several live positions, every action of these
transitions is executed once, in the order in which the expression is written,
entering actions before what they are embedded in and other actions after it.

The guarded concatenations give up the live positions of the first expression on
a character that enters the second, or that moves it into a final state. Giving
them up means that no character is there for them, which is why characters are
optional below.

## Main definitions

* `Machine`: Expressions.
* `Live`: Sets of live positions.
* `nullable`, `first`, `final`: Being empty, taking a first character, being done.
* `shift`: The live positions after a character.
* `fires`: The actions executed on a character.
* `FiresOn`: An action that only some characters execute.

## Theorems

* `firesOn_absent`: An action that is not embedded is not executed.
* `firesOn_seq`, `firesOn_alt`, `firesOn_finish`: Composition.
* `firesOn_leave`: A leaving action is executed by the first characters of what
  follows.
-/

namespace Lib

namespace Ragel

variable {α A : Type}

/-- Expressions over the characters `α` with actions `A`. -/
inductive Machine (α A : Type) where
  /-- The empty string. -/
  | null
  /-- One character of a class. -/
  | chars (p : α → Bool)
  /-- `m . n`. -/
  | seq (m n : Machine α A)
  /-- `m :> n`. -/
  | entryGuard (m n : Machine α A)
  /-- `m :>> n`. -/
  | finishGuard (m n : Machine α A)
  /-- `m | n`. -/
  | alt (m n : Machine α A)
  /-- `m*`. -/
  | star (m : Machine α A)
  /-- `m >a`. -/
  | enter (a : A) (m : Machine α A)
  /-- `m @a`. -/
  | finish (a : A) (m : Machine α A)
  /-- `m %a`. -/
  | leave (a : A) (m : Machine α A)

namespace Machine

/-- `m?`. -/
def opt (m : Machine α A) : Machine α A := alt m null

/-- `m+`. -/
def plus (m : Machine α A) : Machine α A := seq m (star m)

/-- `m{n}`. -/
def times (m : Machine α A) : Nat → Machine α A
  | 0 => null
  | n + 1 => seq m (times m n)

/-- `m{0,n}`. -/
def upTo (m : Machine α A) : Nat → Machine α A
  | 0 => null
  | n + 1 => opt (seq m (upTo m n))

/-- The actions of an expression. -/
def embedded : Machine α A → List A
  | null => []
  | chars _ => []
  | seq m n => embedded m ++ embedded n
  | entryGuard m n => embedded m ++ embedded n
  | finishGuard m n => embedded m ++ embedded n
  | alt m n => embedded m ++ embedded n
  | star m => embedded m
  | enter a m => a :: embedded m
  | finish a m => a :: embedded m
  | leave a m => a :: embedded m

end Machine

/-- A set of positions of an expression. The parts of a sequence or of an
    alternative are the two parts of a `node`; a set without elements is `idle`. -/
inductive Live where
  | idle
  | here
  | node (l r : Live)
  deriving DecidableEq, Repr

namespace Live

def left : Live → Live
  | node l _ => l
  | _ => idle

def right : Live → Live
  | node _ r => r
  | _ => idle

/-- The union of a set in the first part and one in the second. -/
def join : Live → Live → Live
  | idle, idle => idle
  | l, r => node l r

end Live

/-- The expression can be the empty string. -/
def nullable : Machine α A → Bool
  | .null => true
  | .chars _ => false
  | .seq m n => nullable m && nullable n
  | .entryGuard m n => nullable m && nullable n
  | .finishGuard m n => nullable m && nullable n
  | .alt m n => nullable m || nullable n
  | .star _ => true
  | .enter _ m => nullable m
  | .finish _ m => nullable m
  | .leave _ m => nullable m

/-- The character can be the first one. -/
def first : Machine α A → Option α → Bool
  | .null, _ => false
  | .chars p, c => c.any p
  | .seq m n, c => first m c || (nullable m && first n c)
  | .entryGuard m n, c => first m c || (nullable m && first n c)
  | .finishGuard m n, c => first m c || (nullable m && first n c)
  | .alt m n, c => first m c || first n c
  | .star m, c => first m c
  | .enter _ m, c => first m c
  | .finish _ m, c => first m c
  | .leave _ m, c => first m c

/-- A live position is final. -/
def final : Machine α A → Live → Bool
  | _, .idle => false
  | .null, _ => false
  | .chars _, s => s == .here
  | .seq m n, s => final n s.right || (nullable n && final m s.left)
  | .entryGuard m n, s => final n s.right || (nullable n && final m s.left)
  | .finishGuard m n, s => final n s.right || (nullable n && final m s.left)
  | .alt m n, s => final m s.left || final n s.right
  | .star m, s => final m s
  | .enter _ m, s => final m s
  | .finish _ m, s => final m s
  | .leave _ m, s => final m s

/-- The second part of a sequence is entered. -/
def into (m : Machine α A) (entered : Bool) (s : Live) : Bool :=
  final m s.left || (entered && nullable m)

/-- The live positions after a character. The expression may be entered with it. -/
def shift : Machine α A → Bool → Live → Option α → Live
  -- Nothing is live and nothing is entered; stated first so that runs stay cheap.
  | _, false, .idle, _ => .idle
  | .null, _, _, _ => .idle
  | .chars p, entered, _, c => if entered && c.any p then .here else .idle
  | .seq m n, entered, s, c => .join (shift m entered s.left c) (shift n (into m entered s) s.right c)
  -- The first part gives up when the second is entered.
  | .entryGuard m n, entered, s, c =>
    .join (shift m entered s.left (if into m entered s && first n c then none else c))
      (shift n (into m entered s) s.right c)
  -- The first part gives up when the second is done.
  | .finishGuard m n, entered, s, c =>
    .join (shift m entered s.left
        (if final n (shift n (into m entered s) s.right c) then none else c))
      (shift n (into m entered s) s.right c)
  | .alt m n, entered, s, c => .join (shift m entered s.left c) (shift n entered s.right c)
  -- A round that is done may be followed by another one.
  | .star m, entered, s, c => shift m (entered || final m s) s c
  | .enter _ m, entered, s, c => shift m entered s c
  | .finish _ m, entered, s, c => shift m entered s c
  | .leave _ m, entered, s, c => shift m entered s c

/-- The actions executed on a character. The expression may be entered with it,
    and it may be one that what follows the expression can start with. -/
def fires : Machine α A → Bool → Bool → Live → Option α → List A
  | _, false, _, .idle, _ => []
  | .null, _, _, _, _ => []
  | .chars _, _, _, _, _ => []
  -- What the second part can start with leaves the first part; if the second part can be
  -- empty, so does what leaves the whole.
  | .seq m n, entered, left, s, c =>
    fires m entered (first n c || (nullable n && left)) s.left c ++
      fires n (into m entered s) left s.right c
  | .entryGuard m n, entered, left, s, c =>
    fires m entered (first n c || (nullable n && left)) s.left
        (if into m entered s && first n c then none else c) ++
      fires n (into m entered s) left s.right c
  | .finishGuard m n, entered, left, s, c =>
    fires m entered (first n c || (nullable n && left)) s.left
        (if final n (shift n (into m entered s) s.right c) then none else c) ++
      fires n (into m entered s) left s.right c
  | .alt m n, entered, left, s, c =>
    fires m entered left s.left c ++ fires n entered left s.right c
  | .star m, entered, left, s, c => fires m (entered || final m s) (first m c || left) s c
  -- An empty expression is entered and left with one character, so its entering action runs
  -- when what follows is entered.
  | .enter a m, entered, left, s, c =>
    (if entered && (first m c || (nullable m && left)) then [a] else []) ++
      fires m entered left s c
  | .finish a m, entered, left, s, c =>
    fires m entered left s c ++ if final m (shift m entered s c) then [a] else []
  -- The action is executed on the character behind the expression.
  | .leave a m, entered, left, s, c =>
    fires m entered left s c ++
      if left && (final m s || (entered && nullable m)) then [a] else []

/-- Being one of no or one elements. -/
theorem mem_ite_singleton (p : Bool) (a b : A) :
    (a ∈ if p then [b] else []) ↔ p = true ∧ a = b := by
  cases p <;> simp

/-! ## Equations

The definitions say first that nothing happens to an expression without live
positions that is not entered. That is also what the other cases say, so they hold
without exception. -/

theorem fires_idle (m : Machine α A) (left : Bool) (c : Option α) :
    fires m false left .idle c = [] := by
  cases m <;> rfl

theorem shift_idle (m : Machine α A) (c : Option α) : shift m false .idle c = .idle := by
  cases m <;> rfl

theorem final_idle (m : Machine α A) : final m .idle = false := by
  cases m <;> rfl

theorem left_idle : Live.idle.left = .idle := rfl

theorem right_idle : Live.idle.right = .idle := rfl

/-- A first part that is over does not enter the second. -/
theorem into_over (m : Machine α A) (s : Live) (h : s.left = .idle) : into m false s = false := by
  rw [into, h, final_idle]
  rfl

theorem into_idle (m : Machine α A) : into m false .idle = false := into_over m .idle left_idle

theorem into_final (m : Machine α A) (entered : Bool) (s : Live) (h : final m s.left = true) :
    into m entered s = true := by
  rw [into, h]
  rfl

theorem into_not_nullable (m : Machine α A) (entered : Bool) (s : Live)
    (h : nullable m = false) : into m entered s = final m s.left := by
  rw [into, h, Bool.and_false, Bool.or_false]

/-- Entering the first part matters to the second only if the first can be empty. -/
theorem into_congr {β : Type} (m : Machine α A) (s : Live) (g : Bool → β)
    (h : nullable m = true → g true = g false) : g (into m true s) = g (into m false s) := by
  cases hm : nullable m with
  | false => rw [into_not_nullable m true s hm, into_not_nullable m false s hm]
  | true =>
      cases into m true s with
      | true =>
          cases into m false s with
          | true => rfl
          | false => exact h hm
      | false =>
          cases into m false s with
          | true => exact (h hm).symm
          | false => rfl

theorem left_join (l r : Live) : (Live.join l r).left = l := by
  cases l <;> cases r <;> rfl

theorem right_join (l r : Live) : (Live.join l r).right = r := by
  cases l <;> cases r <;> rfl

theorem final_seq (m n : Machine α A) (s : Live) :
    final (.seq m n) s = (final n s.right || (nullable n && final m s.left)) := by
  cases s with
  | idle => simp only [left_idle, right_idle, final_idle, Bool.and_false, Bool.or_false]
  | here => rfl
  | node l r => rfl

theorem final_entryGuard (m n : Machine α A) (s : Live) :
    final (.entryGuard m n) s = (final n s.right || (nullable n && final m s.left)) := by
  cases s with
  | idle => simp only [left_idle, right_idle, final_idle, Bool.and_false, Bool.or_false]
  | here => rfl
  | node l r => rfl

theorem shift_null (entered : Bool) (s : Live) (c : Option α) :
    shift (.null : Machine α A) entered s c = .idle := by
  cases entered <;> cases s <;> rfl

theorem shift_chars (p : α → Bool) (entered : Bool) (s : Live) (c : Option α) :
    shift (.chars p : Machine α A) entered s c =
      if entered && c.any p then .here else .idle := by
  cases entered <;> cases s <;> rfl

theorem shift_seq (m n : Machine α A) (entered : Bool) (s : Live) (c : Option α) :
    shift (.seq m n) entered s c =
      .join (shift m entered s.left c) (shift n (into m entered s) s.right c) := by
  cases entered <;> cases s <;>
    first | rfl | simp only [left_idle, right_idle, into_idle, shift_idle, Live.join]

theorem shift_entryGuard (m n : Machine α A) (entered : Bool) (s : Live) (c : Option α) :
    shift (.entryGuard m n) entered s c =
      .join (shift m entered s.left (if into m entered s && first n c then none else c))
        (shift n (into m entered s) s.right c) := by
  cases entered <;> cases s <;>
    first | rfl | simp only [left_idle, right_idle, into_idle, shift_idle, Live.join]

theorem shift_finishGuard (m n : Machine α A) (entered : Bool) (s : Live) (c : Option α) :
    shift (.finishGuard m n) entered s c =
      .join (shift m entered s.left
          (if final n (shift n (into m entered s) s.right c) then none else c))
        (shift n (into m entered s) s.right c) := by
  cases entered <;> cases s <;>
    first | rfl | simp only [left_idle, right_idle, into_idle, shift_idle, Live.join]

theorem shift_alt (m n : Machine α A) (entered : Bool) (s : Live) (c : Option α) :
    shift (.alt m n) entered s c = .join (shift m entered s.left c) (shift n entered s.right c) := by
  cases entered <;> cases s <;>
    first | rfl | simp only [left_idle, right_idle, shift_idle, Live.join]

theorem shift_star (m : Machine α A) (entered : Bool) (s : Live) (c : Option α) :
    shift (.star m) entered s c = shift m (entered || final m s) s c := by
  cases entered <;> cases s <;>
    first | rfl | simp only [final_idle, Bool.or_false, shift_idle]

theorem shift_enter (a : A) (m : Machine α A) (entered : Bool) (s : Live) (c : Option α) :
    shift (.enter a m) entered s c = shift m entered s c := by
  cases entered <;> cases s <;> first | rfl | simp only [shift_idle]

theorem shift_leave (a : A) (m : Machine α A) (entered : Bool) (s : Live) (c : Option α) :
    shift (.leave a m) entered s c = shift m entered s c := by
  cases entered <;> cases s <;> first | rfl | simp only [shift_idle]

theorem shift_finish (a : A) (m : Machine α A) (entered : Bool) (s : Live) (c : Option α) :
    shift (.finish a m) entered s c = shift m entered s c := by
  cases entered <;> cases s <;> first | rfl | simp only [shift_idle]

theorem fires_seq (m n : Machine α A) (entered left : Bool) (s : Live) (c : Option α) :
    fires (.seq m n) entered left s c =
      fires m entered (first n c || (nullable n && left)) s.left c ++
        fires n (into m entered s) left s.right c := by
  cases entered <;> cases s <;>
    first | rfl | simp only [left_idle, right_idle, into_idle, fires_idle, List.append_nil]

theorem fires_entryGuard (m n : Machine α A) (entered left : Bool) (s : Live) (c : Option α) :
    fires (.entryGuard m n) entered left s c =
      fires m entered (first n c || (nullable n && left)) s.left
          (if into m entered s && first n c then none else c) ++
        fires n (into m entered s) left s.right c := by
  cases entered <;> cases s <;>
    first | rfl | simp only [left_idle, right_idle, into_idle, fires_idle, List.append_nil]

theorem fires_finishGuard (m n : Machine α A) (entered left : Bool) (s : Live) (c : Option α) :
    fires (.finishGuard m n) entered left s c =
      fires m entered (first n c || (nullable n && left)) s.left
          (if final n (shift n (into m entered s) s.right c) then none else c) ++
        fires n (into m entered s) left s.right c := by
  cases entered <;> cases s <;>
    first | rfl | simp only [left_idle, right_idle, into_idle, fires_idle, List.append_nil]

theorem fires_alt (m n : Machine α A) (entered left : Bool) (s : Live) (c : Option α) :
    fires (.alt m n) entered left s c =
      fires m entered left s.left c ++ fires n entered left s.right c := by
  cases entered <;> cases s <;>
    first | rfl | simp only [left_idle, right_idle, fires_idle, List.append_nil]

theorem fires_star (m : Machine α A) (entered left : Bool) (s : Live) (c : Option α) :
    fires (.star m) entered left s c =
      fires m (entered || final m s) (first m c || left) s c := by
  cases entered <;> cases s <;>
    first | rfl | simp only [final_idle, Bool.or_false, fires_idle]

theorem fires_enter (a : A) (m : Machine α A) (entered left : Bool) (s : Live) (c : Option α) :
    fires (.enter a m) entered left s c =
      (if entered && (first m c || (nullable m && left)) then [a] else []) ++
        fires m entered left s c := by
  cases entered <;> cases s <;>
    first | rfl | simp only [Bool.false_and, fires_idle, List.append_nil]; rfl

theorem fires_finish (a : A) (m : Machine α A) (entered left : Bool) (s : Live) (c : Option α) :
    fires (.finish a m) entered left s c =
      fires m entered left s c ++ if final m (shift m entered s c) then [a] else [] := by
  cases entered <;> cases s <;>
    first | rfl | simp only [shift_idle, final_idle, fires_idle, List.nil_append]; rfl

theorem fires_leave (a : A) (m : Machine α A) (entered left : Bool) (s : Live) (c : Option α) :
    fires (.leave a m) entered left s c =
      fires m entered left s c ++
        if left && (final m s || (entered && nullable m)) then [a] else [] := by
  cases entered <;> cases s <;>
    first
      | rfl
      | simp only [final_idle, Bool.false_and, Bool.or_false, Bool.and_false, fires_idle,
          List.nil_append]; rfl

/-! ## Where a character does not lead -/

/-- Some position of the expression takes the character. -/
def takes : Machine α A → Option α → Bool
  | .null, _ => false
  | .chars p, c => c.any p
  | .seq m n, c => takes m c || takes n c
  | .entryGuard m n, c => takes m c || takes n c
  | .finishGuard m n, c => takes m c || takes n c
  | .alt m n, c => takes m c || takes n c
  | .star m, c => takes m c
  | .enter _ m, c => takes m c
  | .finish _ m, c => takes m c
  | .leave _ m, c => takes m c

theorem takes_none (m : Machine α A) : takes m none = false := by
  induction m with
  | null => rfl
  | chars p => rfl
  | seq m n ihm ihn | entryGuard m n ihm ihn | finishGuard m n ihm ihn | alt m n ihm ihn =>
      rw [takes, ihm, ihn]
      rfl
  | star m ih | enter a m ih | finish a m ih | leave a m ih => exact ih

/-- A character that no position takes leaves no live position. -/
theorem shift_not_takes (m : Machine α A) (entered : Bool) (s : Live) (c : Option α)
    (h : takes m c = false) : shift m entered s c = .idle := by
  induction m generalizing entered s c with
  | null => exact shift_null entered s c
  | chars p =>
      have hp : c.any p = false := h
      rw [shift_chars, hp, Bool.and_false]
      rfl
  | seq m n ihm ihn =>
      rw [takes, Bool.or_eq_false_iff] at h
      rw [shift_seq, ihm _ _ _ h.1, ihn _ _ _ h.2]
      rfl
  | entryGuard m n ihm ihn =>
      rw [takes, Bool.or_eq_false_iff] at h
      -- Without a character no position of the first part goes on either.
      rw [shift_entryGuard, ihn _ _ _ h.2, ihm _ _ _ (by split; exacts [takes_none m, h.1])]
      rfl
  | finishGuard m n ihm ihn =>
      rw [takes, Bool.or_eq_false_iff] at h
      rw [shift_finishGuard, ihn _ _ _ h.2, ihm _ _ _ (by split; exacts [takes_none m, h.1])]
      rfl
  | alt m n ihm ihn =>
      rw [takes, Bool.or_eq_false_iff] at h
      rw [shift_alt, ihm _ _ _ h.1, ihn _ _ _ h.2]
      rfl
  | star m ih =>
      rw [shift_star]
      exact ih _ _ _ h
  | enter a m ih =>
      rw [shift_enter]
      exact ih _ _ _ h
  | finish a m ih =>
      rw [shift_finish]
      exact ih _ _ _ h
  | leave a m ih =>
      rw [shift_leave]
      exact ih _ _ _ h

theorem shift_none (m : Machine α A) (entered : Bool) (s : Live) :
    shift m entered s none = .idle :=
  shift_not_takes m entered s none (takes_none m)

/-- Entering the first part does not matter to the second one if the character
    cannot be its first one. -/
theorem shift_into (m n : Machine α A) (s : Live) (c : Option α)
    (h : (nullable m && first n c) = false)
    (hn : first n c = false → ∀ s, shift n true s c = shift n false s c) :
    (into m true s && first n c) = (into m false s && first n c) ∧
      shift n (into m true s) s.right c = shift n (into m false s) s.right c := by
  have hfirst : nullable m = true → first n c = false := by
    intro hm
    rwa [hm, Bool.true_and] at h
  refine ⟨into_congr m s (· && first n c) ?_, into_congr m s (shift n · s.right c) ?_⟩
  · intro hm
    rw [hfirst hm]
    rfl
  · intro hm
    exact hn (hfirst hm) _

/-- A character that cannot be the first one enters nothing. -/
theorem shift_not_first (m : Machine α A) (s : Live) (c : Option α) (h : first m c = false) :
    shift m true s c = shift m false s c := by
  induction m generalizing s c with
  | null => rw [shift_null, shift_null]
  | chars p =>
      have hp : c.any p = false := h
      rw [shift_chars, shift_chars, hp, Bool.and_false, Bool.and_false]
  | seq m n ihm ihn =>
      rw [first, Bool.or_eq_false_iff] at h
      rw [shift_seq, shift_seq, ihm _ _ h.1, (shift_into m n s c h.2 (fun hn s => ihn s c hn)).2]
  | entryGuard m n ihm ihn =>
      rw [first, Bool.or_eq_false_iff] at h
      rcases shift_into m n s c h.2 (fun hn s => ihn s c hn) with ⟨hguard, hshift⟩
      rw [shift_entryGuard, shift_entryGuard, hshift, hguard]
      split
      · rw [shift_none, shift_none]
      · rw [ihm _ _ h.1]
  | finishGuard m n ihm ihn =>
      rw [first, Bool.or_eq_false_iff] at h
      rw [shift_finishGuard, shift_finishGuard,
        (shift_into m n s c h.2 (fun hn s => ihn s c hn)).2]
      split
      · rw [shift_none, shift_none]
      · rw [ihm _ _ h.1]
  | alt m n ihm ihn =>
      rw [first, Bool.or_eq_false_iff] at h
      rw [shift_alt, shift_alt, ihm _ _ h.1, ihn _ _ h.2]
  | star m ih =>
      rw [shift_star, shift_star, Bool.true_or, Bool.false_or]
      -- A finished round enters the expression anyway.
      cases final m s with
      | true => rfl
      | false => exact ih s c h
  | enter a m ih =>
      rw [shift_enter, shift_enter]
      exact ih s c h
  | finish a m ih =>
      rw [shift_finish, shift_finish]
      exact ih s c h
  | leave a m ih =>
      rw [shift_leave, shift_leave]
      exact ih s c h

/-- As soon as a live position is final, none leads on. -/
def Ends (m : Machine α A) : Prop :=
  ∀ entered s c, final m (shift m entered s c) = true →
    ∀ c', shift m false (shift m entered s c) c' = .idle

theorem final_shift_seq (m n : Machine α A) (hnull : nullable n = false) (entered : Bool)
    (s : Live) (c : Option α) :
    final (.seq m n) (shift (.seq m n) entered s c) =
      final n (shift n (into m entered s) s.right c) := by
  rw [shift_seq, final_seq, right_join, hnull, Bool.false_and, Bool.or_false]

/-- A sequence ends like its second part, if the first part does not take the
    character that ends it. -/
theorem ends_seq (m n : Machine α A) (hn : Ends n) (hnull : nullable n = false)
    (hlast : ∀ entered s c, final n (shift n entered s c) = true → takes m c = false) :
    Ends (.seq m n) := by
  intro entered s c h c'
  rw [final_shift_seq m n hnull] at h
  -- The first part has no live positions left, so the second is not entered again.
  rw [shift_seq m n entered, shift_not_takes m _ _ _ (hlast _ _ _ h), shift_seq, left_join,
    right_join, into, left_join, final_idle, shift_idle, Bool.false_and, Bool.or_false,
    hn _ _ _ h]
  rfl

/-! ## What executes an action -/

/-- An action is executed only if it is there. -/
theorem embedded_of_mem_fires (m : Machine α A) (a : A) (entered left : Bool) (s : Live)
    (c : Option α) (h : a ∈ fires m entered left s c) : a ∈ m.embedded := by
  induction m generalizing entered left s c with
  -- Neither expression has an action.
  | null => cases entered <;> cases s <;> exact absurd h (by simp [fires])
  | chars p => cases entered <;> cases s <;> exact absurd h (by simp [fires])
  | seq m n ihm ihn =>
      rw [fires_seq, List.mem_append] at h
      exact List.mem_append.2 (h.imp (ihm _ _ _ _) (ihn _ _ _ _))
  | entryGuard m n ihm ihn =>
      rw [fires_entryGuard, List.mem_append] at h
      exact List.mem_append.2 (h.imp (ihm _ _ _ _) (ihn _ _ _ _))
  | finishGuard m n ihm ihn =>
      rw [fires_finishGuard, List.mem_append] at h
      exact List.mem_append.2 (h.imp (ihm _ _ _ _) (ihn _ _ _ _))
  | alt m n ihm ihn =>
      rw [fires_alt, List.mem_append] at h
      exact List.mem_append.2 (h.imp (ihm _ _ _ _) (ihn _ _ _ _))
  | star m ih =>
      rw [fires_star] at h
      exact ih _ _ _ _ h
  | enter b m ih =>
      rw [fires_enter, List.mem_append, mem_ite_singleton] at h
      exact List.mem_cons.2 (h.imp And.right (ih _ _ _ _))
  | finish b m ih =>
      rw [fires_finish, List.mem_append, mem_ite_singleton] at h
      exact List.mem_cons.2 (h.symm.imp And.right (ih _ _ _ _))
  | leave b m ih =>
      rw [fires_leave, List.mem_append, mem_ite_singleton] at h
      exact List.mem_cons.2 (h.symm.imp And.right (ih _ _ _ _))

/-- The actions of an expression that has none. -/
theorem fires_plain (m : Machine α A) (h : m.embedded = []) (entered left : Bool) (s : Live)
    (c : Option α) : fires m entered left s c = [] := by
  rw [List.eq_nil_iff_forall_not_mem]
  intro a ha
  have hmem := embedded_of_mem_fires m a entered left s c ha
  rw [h] at hmem
  exact absurd hmem (by simp)

/-- Only characters of the class execute the action. -/
def FiresOn (a : A) (p : α → Bool) (m : Machine α A) : Prop :=
  ∀ entered left s c, a ∈ fires m entered left s c → c.any p = true

theorem firesOn_absent (a : A) (p : α → Bool) (m : Machine α A) (h : a ∉ m.embedded) :
    FiresOn a p m :=
  fun entered left s c ha => absurd (embedded_of_mem_fires m a entered left s c ha) h

theorem firesOn_seq (a : A) (p : α → Bool) (m n : Machine α A) (hm : FiresOn a p m)
    (hn : FiresOn a p n) : FiresOn a p (.seq m n) := by
  intro entered left s c h
  rw [fires_seq, List.mem_append] at h
  rcases h with h | h
  · exact hm _ _ _ _ h
  · exact hn _ _ _ _ h

theorem firesOn_alt (a : A) (p : α → Bool) (m n : Machine α A) (hm : FiresOn a p m)
    (hn : FiresOn a p n) : FiresOn a p (.alt m n) := by
  intro entered left s c h
  rw [fires_alt, List.mem_append] at h
  rcases h with h | h
  · exact hm _ _ _ _ h
  · exact hn _ _ _ _ h

theorem firesOn_finish (a b : A) (p : α → Bool) (m : Machine α A) (hm : FiresOn a p m)
    (hab : a ≠ b) : FiresOn a p (.finish b m) := by
  intro entered left s c h
  rw [fires_finish, List.mem_append, mem_ite_singleton] at h
  rcases h with h | ⟨-, h⟩
  · exact hm _ _ _ _ h
  · exact absurd h hab

/-- A leaving action is executed by the characters that what follows starts with,
    if there is no way past it. -/
theorem firesOn_leave (a : A) (p : α → Bool) (m n : Machine α A) (hm : FiresOn a p m)
    (hn : FiresOn a p n) (hnull : nullable n = false)
    (hfirst : ∀ c, first n c = true → c.any p = true) :
    FiresOn a p (.seq (.leave a m) n) := by
  intro entered left s c h
  -- The action stands on its own only in the middle disjunct, on a character that `n`
  -- starts with.
  rw [fires_seq, fires_leave, List.mem_append, List.mem_append, mem_ite_singleton, hnull,
    Bool.false_and, Bool.or_false, Bool.and_eq_true] at h
  rcases h with (h | ⟨⟨h, -⟩, -⟩) | h
  · exact hm _ _ _ _ h
  · exact hfirst c h
  · exact hn _ _ _ _ h

/-- A finishing action that is nowhere else is executed by the characters that
    move the expression into a final state. -/
theorem mem_fires_finish (a : A) (m : Machine α A) (h : a ∉ m.embedded) (entered left : Bool)
    (s : Live) (c : Option α) :
    a ∈ fires (.finish a m) entered left s c ↔ final m (shift m entered s c) = true := by
  rw [fires_finish, List.mem_append, mem_ite_singleton]
  constructor
  · rintro (ha | ⟨hfinal, -⟩)
    · exact absurd (embedded_of_mem_fires m a _ _ _ _ ha) h
    · exact hfinal
  · intro hfinal
    exact Or.inr ⟨hfinal, rfl⟩

end Ragel

end Lib
