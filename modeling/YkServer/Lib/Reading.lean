import YkServer.Lib.Ragel

/-!
# Machines That Read Words

What a machine with embedded actions does on a whole word that belongs to it, put
together from what its parts do on the parts of the word.

A part is entered with the first character of its word, and behind the word comes
a character that is not its own. Whether a character could leave the part is known
to what is around it, so it is a set of characters here; a word stays in the part
if none of them comes where the part could be left. The character behind the word
executes the leaving actions and leaves no position of the part live. It is missing
where a guard gives the part up.

## Main definitions

* `moves`, `does`: The live positions after a word, and the actions on it.
* `accepts`: Being a word of an expression.
* `Stays`: No character of the word could be one behind it.
* `Reads`: What an expression does with one of its words.
* `Restarts`: A round that is over is like none.
* `Unfinished`: Nothing in front is a word of the expression.

## Theorems

* `Reads.plain`: Expressions without actions.
* `Reads.enter`, `Reads.leave`: Entering and leaving actions.
* `Reads.seq`, `Reads.seq_empty`, `Reads.entryGuard`: Concatenation.
* `Reads.alt_left`, `Reads.alt_right`: Alternatives.
* `reads_upTo`: A bounded number of characters.
* `rounds_more`: A round, and what comes behind it.
* `finish_unfinished`: A finishing action.
-/

namespace Lib

namespace Ragel

variable {α A : Type}

/-- The live positions after a word. -/
def moves (m : Machine α A) : Bool → Live → List α → Live
  | _, s, [] => s
  | entered, s, c :: w => moves m false (shift m entered s (some c)) w

/-- The actions on each character of a word. `L` are the characters that what
    follows the expression can start with. -/
def does (m : Machine α A) (L : α → Bool) : Bool → Live → List α → List (List A)
  | _, _, [] => []
  | entered, s, c :: w =>
    fires m entered (L c) s (some c) :: does m L false (shift m entered s (some c)) w

/-- A word of the expression, one that is not empty. -/
def accepts (m : Machine α A) (w : List α) : Bool := final m (moves m true .idle w)

/-- Where the expression could be left, the word does not go on with a character
    that could leave it. -/
def Stays (m : Machine α A) (L : α → Bool) : Bool → Live → List α → Prop
  | _, _, [] => True
  | entered, s, c :: w =>
    ((final m s || (entered && nullable m)) = true → L c = false) ∧
      Stays m L false (shift m entered s (some c)) w

/-- No part of the word from its start is a word of the expression. -/
def Unfinished (m : Machine α A) : Bool → Live → List α → Prop
  | _, _, [] => True
  | entered, s, c :: w =>
    final m (shift m entered s (some c)) = false ∧
      Unfinished m false (shift m entered s (some c)) w

/-- More actions on the first character. -/
def tag (as : List A) : List (List A) → List (List A)
  | [] => []
  | xs :: tr => (as ++ xs) :: tr

/-- Actions on the first character of a word and none on the others. -/
def piece (as : List A) (w : List α) : List (List A) := tag as (List.replicate w.length [])

theorem tag_nil (tr : List (List A)) : tag [] tr = tr := by
  cases tr <;> rfl

theorem piece_nil (w : List α) : (piece [] w : List (List A)) = List.replicate w.length [] :=
  tag_nil _

theorem tag_plain (as : List A) (w : List α) : tag as (piece [] w) = piece as w := by
  rw [piece_nil]
  rfl

theorem tag_piece (as bs : List A) (w : List α) (tr : List (List A)) (hw : w ≠ []) :
    tag as (piece bs w ++ tr) = piece (as ++ bs) w ++ tr := by
  cases w with
  | nil => exact absurd rfl hw
  | cons c w =>
      rw [piece, piece, List.length_cons, List.replicate_succ, tag, tag, List.cons_append,
        List.cons_append, tag, List.append_nil, List.append_nil]

/-! ## Words in two parts -/

theorem moves_idle (m : Machine α A) (w : List α) : moves m false .idle w = .idle := by
  induction w with
  | nil => rfl
  | cons c w ih => rw [moves, shift_idle, ih]

theorem moves_append (m : Machine α A) (entered : Bool) (s : Live) (u v : List α) (hu : u ≠ []) :
    moves m entered s (u ++ v) = moves m false (moves m entered s u) v := by
  induction u generalizing entered s with
  | nil => exact absurd rfl hu
  | cons c u ih =>
      rw [List.cons_append, moves, moves]
      by_cases hnil : u = []
      · rw [hnil]
        rfl
      · exact ih _ _ hnil

theorem does_append (m : Machine α A) (L : α → Bool) (entered : Bool) (s : Live) (u v : List α)
    (hu : u ≠ []) :
    does m L entered s (u ++ v) =
      does m L entered s u ++ does m L false (moves m entered s u) v := by
  induction u generalizing entered s with
  | nil => exact absurd rfl hu
  | cons c u ih =>
      rw [List.cons_append, does, does, moves, List.cons_append]
      by_cases hnil : u = []
      · rw [hnil]
        rfl
      · rw [ih _ _ hnil]

theorem stays_append (m : Machine α A) (L : α → Bool) (entered : Bool) (s : Live) (u v : List α)
    (hu : u ≠ []) :
    Stays m L entered s (u ++ v) ↔
      Stays m L entered s u ∧ Stays m L false (moves m entered s u) v := by
  induction u generalizing entered s with
  | nil => exact absurd rfl hu
  | cons c u ih =>
      rw [List.cons_append, Stays, Stays, moves]
      by_cases hnil : u = []
      · rw [hnil, List.nil_append, Stays, moves, and_true]
      · rw [ih _ _ hnil, and_assoc]

theorem does_plain (m : Machine α A) (h : m.embedded = []) (L : α → Bool) (entered : Bool)
    (s : Live) (w : List α) : does m L entered s w = List.replicate w.length [] := by
  induction w generalizing entered s with
  | nil => rfl
  | cons c w ih => rw [does, fires_plain m h, ih, List.length_cons, List.replicate_succ]

/-! ## Characters an expression does not start with -/

theorem first_none (m : Machine α A) : first m none = false := by
  induction m with
  | null => rfl
  | chars p => rfl
  | seq m n ihm ihn | entryGuard m n ihm ihn | finishGuard m n ihm ihn =>
      rw [first, ihm, ihn, Bool.and_false]
      rfl
  | alt m n ihm ihn =>
      rw [first, ihm, ihn]
      rfl
  | star m ih | enter a m ih | finish a m ih | leave a m ih => exact ih

theorem fires_null (entered left : Bool) (s : Live) (c : Option α) :
    fires (.null : Machine α A) entered left s c = [] := by
  cases entered <;> cases s <;> rfl

theorem fires_chars (p : α → Bool) (entered left : Bool) (s : Live) (c : Option α) :
    fires (.chars p : Machine α A) entered left s c = [] := by
  cases entered <;> cases s <;> rfl

/-- Entering the first part does not matter to what the second one executes, if the
    character cannot enter it. -/
theorem fires_into (m n : Machine α A) (left : Bool) (s : Live) (c : Option α)
    (hfirst : (nullable m && first n c) = false)
    (hleft : (nullable m && nullable n && left) = false)
    (hn : first n c = false → (nullable n && left) = false → ∀ s,
      fires n true left s c = fires n false left s c) :
    fires n (into m true s) left s.right c = fires n (into m false s) left s.right c := by
  refine into_congr m s (fires n · left s.right c) ?_
  intro hm
  rw [hm, Bool.true_and] at hfirst hleft
  exact hn hfirst hleft _

/-- A character that neither enters an expression nor passes an empty one by executes
    what it executes without an entry. -/
theorem fires_not_first (m : Machine α A) (left : Bool) (s : Live) (c : Option α)
    (h : first m c = false) (hleft : (nullable m && left) = false) :
    fires m true left s c = fires m false left s c := by
  induction m generalizing left s c with
  | null => rw [fires_null, fires_null]
  | chars p => rw [fires_chars, fires_chars]
  | seq m n ihm ihn =>
      rw [first, Bool.or_eq_false_iff] at h
      rw [nullable] at hleft
      rw [fires_seq, fires_seq, fires_into m n left s c h.2 hleft (fun hf hl s => ihn _ s c hf hl),
        ihm _ _ _ h.1 (by rw [Bool.and_or_distrib_left, h.2, ← Bool.and_assoc, hleft]; rfl)]
  | entryGuard m n ihm ihn =>
      rw [first, Bool.or_eq_false_iff] at h
      rw [nullable] at hleft
      rcases shift_into m n s c h.2 (fun hn s => shift_not_first n s c hn) with ⟨hguard, -⟩
      rw [fires_entryGuard, fires_entryGuard, hguard,
        fires_into m n left s c h.2 hleft (fun hf hl s => ihn _ s c hf hl)]
      rw [ihm _ _ _ (by split; exacts [first_none m, h.1])
        (by rw [Bool.and_or_distrib_left, h.2, ← Bool.and_assoc, hleft]; rfl)]
  | finishGuard m n ihm ihn =>
      rw [first, Bool.or_eq_false_iff] at h
      rw [nullable] at hleft
      rcases shift_into m n s c h.2 (fun hn s => shift_not_first n s c hn) with ⟨-, hshift⟩
      rw [fires_finishGuard, fires_finishGuard, hshift,
        fires_into m n left s c h.2 hleft (fun hf hl s => ihn _ s c hf hl)]
      rw [ihm _ _ _ (by split; exacts [first_none m, h.1])
        (by rw [Bool.and_or_distrib_left, h.2, ← Bool.and_assoc, hleft]; rfl)]
  | alt m n ihm ihn =>
      rw [first, Bool.or_eq_false_iff] at h
      rw [nullable, Bool.and_or_distrib_right, Bool.or_eq_false_iff] at hleft
      rw [fires_alt, fires_alt, ihm _ _ _ h.1 hleft.1, ihn _ _ _ h.2 hleft.2]
  | star m ih =>
      have hlast : left = false := hleft
      have hm : first m c = false := h
      rw [fires_star, fires_star, hlast, hm, Bool.true_or, Bool.false_or]
      -- A finished round enters the expression anyway.
      cases final m s with
      | true => rfl
      | false => exact ih _ _ _ hm (Bool.and_false _)
  | enter a m ih =>
      rw [nullable] at hleft
      have hm : first m c = false := h
      rw [fires_enter, fires_enter, hm, hleft, ih _ _ _ hm hleft]
      rfl
  | finish a m ih =>
      rw [nullable] at hleft
      rw [fires_finish, fires_finish, ih _ _ _ h hleft, shift_not_first m s c h]
  | leave a m ih =>
      rw [nullable] at hleft
      have hcond : (left && (final m s || (true && nullable m))) =
          (left && (final m s || (false && nullable m))) := by
        rw [Bool.true_and, Bool.false_and, Bool.or_false, Bool.and_or_distrib_left,
          Bool.and_comm left (nullable m), hleft, Bool.or_false]
      rw [fires_leave, fires_leave, ih _ _ _ h hleft, hcond]

/-- An expression that is not live, if the character does not enter it. -/
theorem not_entered (m : Machine α A) (entered left : Bool) (c : Option α)
    (h : entered = true → first m c = false ∧ (nullable m && left) = false) :
    shift m entered .idle c = .idle ∧ fires m entered left .idle c = [] := by
  cases entered with
  | false => exact ⟨shift_idle m c, fires_idle m left c⟩
  | true =>
      rcases h rfl with ⟨hfirst, hleft⟩
      rw [shift_not_first m _ c hfirst, fires_not_first m left _ c hfirst hleft]
      exact ⟨shift_idle m c, fires_idle m left c⟩

/-- A word of the expression starts with a character that can be the first one, and
    every character of it is taken. -/
theorem takes_of_accepts (m : Machine α A) (entered : Bool) (s : Live) (w : List α)
    (h : final m (moves m entered s w) = true) : ∀ c ∈ w, takes m (some c) = true := by
  induction w generalizing entered s with
  | nil => exact fun c hc => absurd hc (by simp)
  | cons c w ih =>
      intro d hd
      rw [moves] at h
      rcases List.mem_cons.1 hd with rfl | hd
      · by_contra hno
        rw [shift_not_takes m entered s _ (Bool.eq_false_iff.2 hno), moves_idle, final_idle] at h
        cases h
      · exact ih _ _ h d hd

theorem first_of_accepts (m : Machine α A) (c : α) (w : List α)
    (h : final m (moves m true .idle (c :: w)) = true) : first m (some c) = true := by
  by_contra hno
  rw [moves, shift_not_first m _ _ (Bool.eq_false_iff.2 hno), shift_idle, moves_idle,
    final_idle] at h
  cases h

/-- What an expression does with one of its words: the actions on its characters,
    and those on the character behind it, with which it is over. -/
structure Reads (m : Machine α A) (L : α → Bool) (w : List α) (next : Option α)
    (tr : List (List A)) (out : List A) : Prop where
  actions : does m L true .idle w = tr
  accepted : final m (moves m true .idle w) = true
  stays : Stays m L true .idle w
  leaves : fires m false true (moves m true .idle w) next = out
  ended : shift m false (moves m true .idle w) next = .idle

theorem Reads.ne_nil {m : Machine α A} {L : α → Bool} {w : List α} {next : Option α}
    {tr : List (List A)} {out : List A} (h : Reads m L w next tr out) : w ≠ [] := by
  rintro rfl
  have hfinal := h.accepted
  rw [moves, final_idle] at hfinal
  cases hfinal

/-! ## Parts without parts -/

theorem stays_of_disjoint (m : Machine α A) (L : α → Bool) (entered : Bool) (s : Live)
    (w : List α) (h : ∀ c ∈ w, L c = false) : Stays m L entered s w := by
  induction w generalizing entered s with
  | nil => trivial
  | cons c w ih =>
      exact ⟨fun _ => h c List.mem_cons_self, ih _ _ (fun d hd => h d (List.mem_cons_of_mem _ hd))⟩

/-- A word of an expression without actions, none of whose characters can be behind
    it. -/
theorem Reads.plain (m : Machine α A) (L : α → Bool) (w : List α) (next : Option α)
    (hplain : m.embedded = []) (hacc : accepts m w = true)
    (hL : ∀ c ∈ w, L c = false) (hnext : takes m next = false) :
    Reads m L w next (piece [] w) [] where
  actions := by rw [does_plain m hplain, piece_nil]
  accepted := hacc
  stays := stays_of_disjoint m L _ _ w hL
  leaves := fires_plain m hplain _ _ _ _
  ended := shift_not_takes m _ _ _ hnext

/-- One character. -/
theorem Reads.chars (p : α → Bool) (L : α → Bool) (c : α) (next : Option α) (hp : p c = true) :
    Reads (.chars p : Machine α A) L [c] next (piece [] [c]) [] where
  actions := by
    rw [does, fires_chars]
    rfl
  accepted := by
    rw [moves, shift_chars]
    simp [hp, moves, final]
  stays := ⟨(fun h => by cases h), trivial⟩
  leaves := fires_chars _ _ _ _ _
  ended := by
    rw [shift_chars]
    rfl

/-- Some characters of a class. -/
theorem accepts_plus_chars (p : α → Bool) (w : List α) (hne : w ≠ [])
    (h : ∀ c ∈ w, p c = true) : accepts (Machine.plus (.chars p) : Machine α A) w = true := by
  -- Behind the first character, the rounds are at their only position.
  have hstar : ∀ w, (∀ c ∈ w, p c = true) → ∀ s : Live, s.right = .here →
      final (Machine.plus (.chars p) : Machine α A)
        (moves (Machine.plus (.chars p) : Machine α A) false s w) = true := by
    intro w
    induction w with
    | nil =>
        intro _ s hs
        rw [moves, Machine.plus, final_seq, hs]
        rfl
    | cons c w ih =>
        intro h s hs
        rw [moves]
        refine ih (fun d hd => h d (List.mem_cons_of_mem _ hd)) _ ?_
        rw [Machine.plus, shift_seq, right_join, shift_star, shift_chars, hs]
        simp [h c List.mem_cons_self, final]
  rcases List.exists_cons_of_ne_nil hne with ⟨c, w, rfl⟩
  have hc : p c = true := h c List.mem_cons_self
  have hfirst : shift (Machine.plus (.chars p) : Machine α A) true .idle (some c) =
      .node .here .idle := by
    rw [Machine.plus, shift_seq, shift_chars]
    simp [hc, into, final, nullable, left_idle, right_idle, shift_idle, Live.join]
  rw [accepts, moves, hfirst]
  cases w with
  | nil => rfl
  | cons d w =>
      have hd : p d = true := h d (List.mem_cons_of_mem _ List.mem_cons_self)
      rw [moves]
      refine hstar w (fun e he => h e (List.mem_cons_of_mem _ (List.mem_cons_of_mem _ he))) _ ?_
      rw [Machine.plus, shift_seq, right_join, shift_star, shift_chars]
      simp [hd, into, final, Live.left, Live.right]

/-! ## Entering and leaving actions -/

theorem final_enter (a : A) (m : Machine α A) (s : Live) : final (.enter a m) s = final m s := by
  cases s <;> cases m <;> rfl

theorem final_leave (a : A) (m : Machine α A) (s : Live) : final (.leave a m) s = final m s := by
  cases s <;> cases m <;> rfl

theorem final_star (m : Machine α A) (s : Live) : final (.star m) s = final m s := by
  cases s <;> cases m <;> rfl

theorem final_alt (m n : Machine α A) (s : Live) :
    final (.alt m n) s = (final m s.left || final n s.right) := by
  cases s with
  | idle => simp only [left_idle, right_idle, final_idle, Bool.or_false]
  | here => rfl
  | node l r => rfl

theorem moves_enter (a : A) (m : Machine α A) (entered : Bool) (s : Live) (w : List α) :
    moves (.enter a m) entered s w = moves m entered s w := by
  induction w generalizing entered s with
  | nil => rfl
  | cons c w ih => rw [moves, moves, shift_enter, ih]

theorem moves_leave (a : A) (m : Machine α A) (entered : Bool) (s : Live) (w : List α) :
    moves (.leave a m) entered s w = moves m entered s w := by
  induction w generalizing entered s with
  | nil => rfl
  | cons c w ih => rw [moves, moves, shift_leave, ih]

theorem stays_enter (a : A) (m : Machine α A) (L : α → Bool) (entered : Bool) (s : Live)
    (w : List α) (h : Stays m L entered s w) : Stays (.enter a m) L entered s w := by
  induction w generalizing entered s with
  | nil => trivial
  | cons c w ih =>
      rw [Stays, final_enter, nullable, shift_enter]
      exact ⟨h.1, ih _ _ h.2⟩

theorem stays_leave (a : A) (m : Machine α A) (L : α → Bool) (entered : Bool) (s : Live)
    (w : List α) (h : Stays m L entered s w) : Stays (.leave a m) L entered s w := by
  induction w generalizing entered s with
  | nil => trivial
  | cons c w ih =>
      rw [Stays, final_leave, nullable, shift_leave]
      exact ⟨h.1, ih _ _ h.2⟩

/-- An entering action is on the first character only. -/
theorem does_enter (a : A) (m : Machine α A) (L : α → Bool) (s : Live) (w : List α) :
    does (.enter a m) L false s w = does m L false s w := by
  induction w generalizing s with
  | nil => rfl
  | cons c w ih =>
      rw [does, does, fires_enter, shift_enter, ih, Bool.false_and]
      rfl

/-- A word that stays does not execute a leaving action. -/
theorem does_leave (a : A) (m : Machine α A) (L : α → Bool) (entered : Bool) (s : Live)
    (w : List α) (h : Stays m L entered s w) :
    does (.leave a m) L entered s w = does m L entered s w := by
  induction w generalizing entered s with
  | nil => rfl
  | cons c w ih =>
      have hno : (L c && (final m s || (entered && nullable m))) = false := by
        cases hcond : final m s || (entered && nullable m) with
        | false => exact Bool.and_false _
        | true => rw [h.1 hcond, Bool.false_and]
      rw [does, does, fires_leave, hno, shift_leave, ih _ _ h.2]
      simp

theorem Reads.enter {m : Machine α A} {L : α → Bool} {w : List α} {next : Option α}
    {tr : List (List A)} {out : List A} (a : A) (h : Reads m L w next tr out) :
    Reads (.enter a m) L w next (tag [a] tr) out where
  actions := by
    rcases List.exists_cons_of_ne_nil h.ne_nil with ⟨c, v, rfl⟩
    have hfirst := first_of_accepts m c v h.accepted
    rw [← h.actions, does, does, fires_enter, does_enter, shift_enter, hfirst]
    rfl
  accepted := by
    rw [moves_enter, final_enter]
    exact h.accepted
  stays := stays_enter a m L _ _ w h.stays
  leaves := by
    rw [moves_enter, fires_enter, Bool.false_and]
    exact h.leaves
  ended := by
    rw [moves_enter, shift_enter]
    exact h.ended

theorem Reads.leave {m : Machine α A} {L : α → Bool} {w : List α} {next : Option α}
    {tr : List (List A)} {out : List A} (a : A) (h : Reads m L w next tr out) :
    Reads (.leave a m) L w next tr (out ++ [a]) where
  actions := by
    rw [does_leave a m L _ _ w h.stays]
    exact h.actions
  accepted := by
    rw [moves_leave, final_leave]
    exact h.accepted
  stays := stays_leave a m L _ _ w h.stays
  leaves := by
    rw [moves_leave, fires_leave, h.accepted, h.leaves]
    rfl
  ended := by
    rw [moves_leave, shift_leave]
    exact h.ended

/-! ## Concatenation -/

/-- What can follow the first part of a sequence that `L` follows. -/
def followed (n : Machine α A) (L : α → Bool) (c : α) : Bool :=
  first n (some c) || (nullable n && L c)

/-- A character of the first part that does not enter the second. -/
theorem into_stays (m n : Machine α A) (L : α → Bool) (entered : Bool) (s : Live) (c : α)
    (h : (final m s.left || (entered && nullable m)) = true → followed n L c = false) :
    into m entered s = true →
      first n (some c) = false ∧ (nullable n && L c) = false := by
  intro hinto
  have hno := h hinto
  rw [followed, Bool.or_eq_false_iff] at hno
  exact hno

/-- A character that can leave the sequence leaves its first part. -/
theorem stays_first (m n : Machine α A) (L : α → Bool) (entered : Bool) (s : Live) (c : α)
    (hright : s.right = .idle)
    (h : (final m s.left || (entered && nullable m)) = true → followed n L c = false) :
    (final (.seq m n) s || (entered && nullable (.seq m n))) = true → L c = false := by
  intro hcond
  rw [final_seq, hright, final_idle, Bool.false_or, nullable, ← Bool.and_assoc,
    Bool.and_comm (entered && nullable m), ← Bool.and_or_distrib_left, Bool.and_eq_true] at hcond
  rcases hcond with ⟨hnull, hcond⟩
  have hno := (into_stays m n L entered s c h hcond).2
  rwa [hnull, Bool.true_and] at hno

/-- The first part of a sequence, as long as the word stays in it. -/
theorem seq_first (m n : Machine α A) (L : α → Bool) (entered : Bool) (s : Live) (u : List α)
    (hright : s.right = .idle) (h : Stays m (followed n L) entered s.left u) :
    (moves (.seq m n) entered s u).left = moves m entered s.left u ∧
      (moves (.seq m n) entered s u).right = .idle ∧
      does (.seq m n) L entered s u = does m (followed n L) entered s.left u ∧
      Stays (.seq m n) L entered s u := by
  induction u generalizing entered s with
  | nil => exact ⟨rfl, hright, rfl, trivial⟩
  | cons c u ih =>
      rcases not_entered n (into m entered s) (L c) (some c)
        (into_stays m n L entered s c h.1) with ⟨hshift, hfires⟩
      have hstep : shift (.seq m n) entered s (some c) =
          .join (shift m entered s.left (some c)) .idle := by
        rw [shift_seq, hright, hshift]
      have hrest := h.2
      rw [← left_join (shift m entered s.left (some c)) .idle] at hrest
      rcases ih false _ (right_join _ _) hrest with ⟨h₁, h₂, h₃, h₄⟩
      rw [left_join] at h₁ h₃
      rw [moves, does, Stays, hstep, fires_seq, hright, hfires, List.append_nil]
      refine ⟨h₁, h₂, ?_, stays_first m n L entered s c hright h.1, h₄⟩
      rw [h₃, does]
      rfl

/-- The second part of a sequence, when the first is over. -/
theorem seq_second (m n : Machine α A) (L : α → Bool) (s : Live) (v : List α)
    (hleft : s.left = .idle) :
    (moves (.seq m n) false s v).left = .idle ∧
      (moves (.seq m n) false s v).right = moves n false s.right v ∧
      does (.seq m n) L false s v = does n L false s.right v ∧
      (Stays n L false s.right v → Stays (.seq m n) L false s v) := by
  induction v generalizing s with
  | nil => exact ⟨hleft, rfl, rfl, fun _ => trivial⟩
  | cons c v ih =>
      have hinto := into_over m s hleft
      have hstep : shift (.seq m n) false s (some c) =
          .join .idle (shift n false s.right (some c)) := by
        rw [shift_seq, hinto, hleft, shift_idle]
      have hfinal : final (.seq m n) s = final n s.right := by
        rw [final_seq, hleft, final_idle, Bool.and_false, Bool.or_false]
      rcases ih (.join .idle (shift n false s.right (some c))) (left_join _ _) with ⟨h₁, h₂, h₃, h₄⟩
      rw [right_join] at h₂ h₃ h₄
      refine ⟨?_, ?_, ?_, ?_⟩
      · rw [moves, hstep, h₁]
      · rw [moves, hstep, h₂, moves]
      · rw [does, hstep, fires_seq, hinto, hleft, fires_idle, List.nil_append, h₃, does]
      · rintro ⟨hc, hv⟩
        refine ⟨?_, ?_⟩
        · rw [hfinal]
          exact hc
        · rw [hstep]
          exact h₄ hv

/-- The character between the two parts of a sequence. -/
theorem seq_between (m n : Machine α A) (left : Bool) (s : Live) (b : α) (hright : s.right = .idle)
    (hfinal : final m s.left = true) (hended : shift m false s.left (some b) = .idle) :
    shift (.seq m n) false s (some b) = .join .idle (shift n true .idle (some b)) ∧
      fires (.seq m n) false left s (some b) =
        fires m false (first n (some b) || (nullable n && left)) s.left (some b) ++
          fires n true left .idle (some b) := by
  rw [shift_seq, fires_seq, into_final m false s hfinal, hright, hended]
  exact ⟨rfl, rfl⟩

/-- The first part of a sequence behind a word of it. -/
theorem Reads.first_part {m : Machine α A} (n : Machine α A) {L : α → Bool} {u : List α}
    {next : Option α} {tr : List (List A)} {out : List A}
    (hm : Reads m (followed n L) u next tr out) :
    ((moves (.seq m n) true .idle u).right = .idle ∧
        does (.seq m n) L true .idle u = tr ∧ Stays (.seq m n) L true .idle u) ∧
      final m (moves (.seq m n) true .idle u).left = true ∧
      shift m false (moves (.seq m n) true .idle u).left next = .idle ∧
      fires m false true (moves (.seq m n) true .idle u).left next = out := by
  rcases seq_first m n L true .idle u right_idle hm.stays with ⟨hleft, hright, hdoes, hstays⟩
  rw [left_idle] at hleft hdoes
  rw [hleft, hdoes]
  exact ⟨⟨hright, hm.actions, hstays⟩, hm.accepted, hm.ended, hm.leaves⟩

/-- The positions behind a word in two parts. -/
theorem Reads.moves_seq {m n : Machine α A} {L : α → Bool} {u : List α} {b : α}
    {tr : List (List A)} {out : List A} (hm : Reads m (followed n L) u (some b) tr out)
    (v : List α) :
    (moves (.seq m n) true .idle (u ++ b :: v)).left = .idle ∧
      (moves (.seq m n) true .idle (u ++ b :: v)).right = moves n true .idle (b :: v) := by
  rcases hm.first_part n with ⟨⟨hright, -, -⟩, hfinal, hended, -⟩
  rcases seq_between m n false _ b hright hfinal hended with ⟨hstep, -⟩
  rcases seq_second m n L (.join .idle (shift n true .idle (some b))) v (left_join _ _) with
    ⟨hleft', hright', -, -⟩
  rw [moves_append _ _ _ _ _ hm.ne_nil, moves, hstep]
  exact ⟨hleft', by rw [hright', right_join, moves]⟩

/-- The actions on a word in two parts. -/
theorem Reads.does_seq {m n : Machine α A} {L : α → Bool} {u : List α} {b : α}
    {tr : List (List A)} {out : List A} (hm : Reads m (followed n L) u (some b) tr out)
    (hfirst : first n (some b) = true) (v : List α) :
    does (.seq m n) L true .idle (u ++ b :: v) = tr ++ tag out (does n L true .idle (b :: v)) := by
  rcases hm.first_part n with ⟨⟨hright, hdoes, -⟩, hfinal, hended, hout⟩
  rcases seq_between m n (L b) _ b hright hfinal hended with ⟨hstep, hfires⟩
  rw [hfirst, Bool.true_or, hout] at hfires
  rcases seq_second m n L (.join .idle (shift n true .idle (some b))) v (left_join _ _) with
    ⟨-, -, hdoes', -⟩
  rw [right_join] at hdoes'
  rw [does_append _ _ _ _ _ _ hm.ne_nil, hdoes, does, hstep, hfires, hdoes', does, tag]

/-- A word of each part. -/
theorem Reads.seq {m n : Machine α A} {L : α → Bool} {u v : List α} {b : α} {next : Option α}
    {tr₁ tr₂ : List (List A)} {out₁ out₂ : List A}
    (hm : Reads m (followed n L) u (some b) tr₁ out₁) (hn : Reads n L (b :: v) next tr₂ out₂) :
    Reads (.seq m n) L (u ++ b :: v) next (tr₁ ++ tag out₁ tr₂) out₂ := by
  have hfirst := first_of_accepts n b v hn.accepted
  rcases hm.first_part n with ⟨⟨hright, -, hstays⟩, hfinal, hended, -⟩
  rcases seq_between m n (L b) _ b hright hfinal hended with ⟨hstep, -⟩
  rcases seq_second m n L (.join .idle (shift n true .idle (some b))) v (left_join _ _) with
    ⟨-, -, -, hstays'⟩
  rw [right_join] at hstays'
  rcases hm.moves_seq v with ⟨hleft', hright'⟩
  have hinto := into_over m _ hleft'
  refine ⟨?_, ?_, ?_, ?_, ?_⟩
  · rw [hm.does_seq hfirst, hn.actions]
  · rw [final_seq, hright', hn.accepted]
    rfl
  · rw [stays_append _ _ _ _ _ _ hm.ne_nil, Stays, hstep]
    refine ⟨hstays, ?_, hstays' hn.stays.2⟩
    -- If the second part can be empty, the word does not go on with a character behind it.
    intro hcond
    rw [final_seq, hright, final_idle, Bool.false_or, hfinal, Bool.and_true, Bool.false_and,
      Bool.or_false] at hcond
    exact hn.stays.1 (by rw [hcond]; simp)
  · rw [fires_seq, hinto, hleft', hright', fires_idle, List.nil_append, hn.leaves]
  · rw [shift_seq, hinto, hleft', hright', shift_idle, hn.ended]
    rfl

/-- A word of the first part, if the second can be empty. -/
theorem Reads.seq_empty {m n : Machine α A} {L : α → Bool} {u : List α} {next : Option α}
    {tr : List (List A)} {out : List A} (hm : Reads m (followed n L) u next tr out)
    (hnull : nullable n = true) (hfirst : first n next = false)
    (hfires : fires n true true .idle next = []) : Reads (.seq m n) L u next tr out := by
  rcases hm.first_part n with ⟨⟨hright, hdoes, hstays⟩, hfinal, hended, hout⟩
  have hinto := into_final m false _ hfinal
  refine ⟨hdoes, ?_, hstays, ?_, ?_⟩
  · rw [final_seq, hfinal, hnull, Bool.true_and, Bool.or_true]
  · rw [fires_seq, hinto, hright, hfires, hnull, Bool.true_and, Bool.or_true, hout,
      List.append_nil]
  · rw [shift_seq, hinto, hright, hended, shift_not_first n _ _ hfirst, shift_idle]
    rfl

/-! ## Guards -/

/-- Where the guard does not give the first part up, a guarded concatenation is a
    sequence. -/
theorem guard_open (m n : Machine α A) (entered left : Bool) (s : Live) (c : Option α)
    (h : (into m entered s && first n c) = false) :
    shift (.entryGuard m n) entered s c = shift (.seq m n) entered s c ∧
      fires (.entryGuard m n) entered left s c = fires (.seq m n) entered left s c := by
  rw [shift_entryGuard, fires_entryGuard, shift_seq, fires_seq, h]
  exact ⟨rfl, rfl⟩

theorem final_guard (m n : Machine α A) (s : Live) :
    final (.entryGuard m n) s = final (.seq m n) s := by
  rw [final_entryGuard, final_seq]

theorem guard_first (m n : Machine α A) (L : α → Bool) (entered : Bool) (s : Live) (u : List α)
    (hright : s.right = .idle) (h : Stays m (followed n L) entered s.left u) :
    moves (.entryGuard m n) entered s u = moves (.seq m n) entered s u ∧
      does (.entryGuard m n) L entered s u = does (.seq m n) L entered s u ∧
      (Stays (.seq m n) L entered s u → Stays (.entryGuard m n) L entered s u) := by
  induction u generalizing entered s with
  | nil => exact ⟨rfl, rfl, fun _ => trivial⟩
  | cons c u ih =>
      have hopen : (into m entered s && first n (some c)) = false := by
        cases hinto : into m entered s with
        | false => rfl
        | true => rw [(into_stays m n L entered s c h.1 hinto).1, Bool.and_false]
      rcases guard_open m n entered (L c) s (some c) hopen with ⟨hshift, hfires⟩
      rcases not_entered n (into m entered s) (L c) (some c)
        (into_stays m n L entered s c h.1) with ⟨hidle, -⟩
      have hstep : shift (.seq m n) entered s (some c) =
          .join (shift m entered s.left (some c)) .idle := by
        rw [shift_seq, hright, hidle]
      have hrest := h.2
      rw [← left_join (shift m entered s.left (some c)) .idle] at hrest
      rcases ih false _ (right_join _ _) hrest with ⟨h₁, h₂, h₃⟩
      rw [← hstep] at h₁ h₂ h₃
      rw [moves, moves, does, does, Stays, Stays, hshift, hfires, final_guard, h₁, h₂]
      exact ⟨rfl, rfl, fun hu => ⟨hu.1, h₃ hu.2⟩⟩

theorem guard_second (m n : Machine α A) (L : α → Bool) (s : Live) (v : List α)
    (hleft : s.left = .idle) :
    moves (.entryGuard m n) false s v = moves (.seq m n) false s v ∧
      does (.entryGuard m n) L false s v = does (.seq m n) L false s v ∧
      (Stays (.seq m n) L false s v → Stays (.entryGuard m n) L false s v) := by
  induction v generalizing s with
  | nil => exact ⟨rfl, rfl, fun _ => trivial⟩
  | cons c v ih =>
      have hinto := into_over m s hleft
      rcases guard_open m n false (L c) s (some c) (by rw [hinto]; rfl) with ⟨hshift, hfires⟩
      have hstep : (shift (.seq m n) false s (some c)).left = .idle := by
        rw [shift_seq, left_join, hleft, shift_idle]
      rcases ih _ hstep with ⟨h₁, h₂, h₃⟩
      rw [moves, moves, does, does, Stays, Stays, hshift, hfires, final_guard, h₁, h₂]
      exact ⟨rfl, rfl, fun hv => ⟨hv.1, h₃ hv.2⟩⟩

/-- A word of each part of a guarded concatenation. The character that enters the
    second part is not there for the first. -/
theorem Reads.entryGuard {m n : Machine α A} {L : α → Bool} {u v : List α} {b : α}
    {next : Option α} {tr₁ tr₂ : List (List A)} {out₁ out₂ : List A}
    (hm : Reads m (followed n L) u none tr₁ out₁) (hn : Reads n L (b :: v) next tr₂ out₂) :
    Reads (.entryGuard m n) L (u ++ b :: v) next (tr₁ ++ tag out₁ tr₂) out₂ ∧
      (moves (.entryGuard m n) true .idle (u ++ b :: v)).left = .idle ∧
      (moves (.entryGuard m n) true .idle (u ++ b :: v)).right = moves n true .idle (b :: v) := by
  have hfirst := first_of_accepts n b v hn.accepted
  rcases hm.first_part n with ⟨⟨hright, hdoes, hstays⟩, hfinal, -, hout⟩
  rcases guard_first m n L true .idle u right_idle hm.stays with ⟨hmoves, hdoes₁, hstays₁⟩
  rw [← hmoves] at hright hfinal hout
  rw [← hdoes₁] at hdoes
  have hinto := into_final m false _ hfinal
  have hstep : shift (.entryGuard m n) false (moves (.entryGuard m n) true .idle u) (some b) =
      .join .idle (shift n true .idle (some b)) := by
    rw [shift_entryGuard, hinto, hfirst, hright]
    exact congrArg (Live.join · _) (shift_none m _ _)
  have hfires : fires (.entryGuard m n) false (L b) (moves (.entryGuard m n) true .idle u)
      (some b) = out₁ ++ fires n true (L b) .idle (some b) := by
    rw [fires_entryGuard, hinto, hfirst, hright, Bool.true_or]
    exact congrArg (· ++ _) hout
  -- From here on the second part is alone.
  rcases seq_second m n L (.join .idle (shift n true .idle (some b))) v (left_join _ _) with
    ⟨hleft₂, hright₂, hdoes₂, hstays₂⟩
  rcases guard_second m n L (.join .idle (shift n true .idle (some b))) v (left_join _ _) with
    ⟨hmoves₃, hdoes₃, hstays₃⟩
  rw [right_join] at hright₂ hdoes₂ hstays₂
  have hmoves' : moves (.entryGuard m n) true .idle (u ++ b :: v) =
      moves (.seq m n) false (.join .idle (shift n true .idle (some b))) v := by
    rw [moves_append _ _ _ _ _ hm.ne_nil, moves, hstep, hmoves₃]
  have hleft' : (moves (.entryGuard m n) true .idle (u ++ b :: v)).left = .idle := by
    rw [hmoves', hleft₂]
  have hright' : (moves (.entryGuard m n) true .idle (u ++ b :: v)).right =
      moves n true .idle (b :: v) := by
    rw [hmoves', hright₂, moves]
  have hinto' := into_over m _ hleft'
  rcases guard_open m n false true (moves (.entryGuard m n) true .idle (u ++ b :: v)) next
    (by rw [hinto']; rfl) with ⟨hshift, hfires'⟩
  refine ⟨⟨?_, ?_, ?_, ?_, ?_⟩, hleft', hright'⟩
  · rw [does_append _ _ _ _ _ _ hm.ne_nil, hdoes, does, hstep, hfires, hdoes₃, hdoes₂,
      ← hn.actions, does, tag]
  · rw [final_entryGuard, hright', hn.accepted]
    rfl
  · rw [stays_append _ _ _ _ _ _ hm.ne_nil, Stays, hstep]
    refine ⟨hstays₁ hstays, ?_, hstays₃ (hstays₂ hn.stays.2)⟩
    intro hcond
    rw [final_entryGuard, hright, final_idle, Bool.false_or, hfinal, Bool.and_true,
      Bool.false_and, Bool.or_false] at hcond
    exact hn.stays.1 (by rw [hcond]; simp)
  · rw [hfires', fires_seq, hinto', hleft', hright', fires_idle, List.nil_append, hn.leaves]
  · rw [hshift, shift_seq, hinto', hleft', hright', shift_idle, hn.ended]
    rfl

/-! ## Alternatives -/

theorem moves_alt (m n : Machine α A) (entered : Bool) (s : Live) (w : List α) :
    (moves (.alt m n) entered s w).left = moves m entered s.left w ∧
      (moves (.alt m n) entered s w).right = moves n entered s.right w := by
  induction w generalizing entered s with
  | nil => exact ⟨rfl, rfl⟩
  | cons c w ih =>
      rcases ih false (shift (.alt m n) entered s (some c)) with ⟨hleft, hright⟩
      rw [shift_alt, left_join] at hleft
      rw [shift_alt, right_join] at hright
      rw [moves, shift_alt, hleft, hright]
      exact ⟨rfl, rfl⟩

theorem stays_alt (m n : Machine α A) (L : α → Bool) (entered : Bool) (s : Live) (w : List α)
    (hm : Stays m L entered s.left w) (hn : Stays n L entered s.right w) :
    Stays (.alt m n) L entered s w := by
  induction w generalizing entered s with
  | nil => trivial
  | cons c w ih =>
      refine ⟨?_, ih _ _ ?_ ?_⟩
      · intro hcond
        rw [final_alt, nullable] at hcond
        by_cases hleft : (final m s.left || (entered && nullable m)) = true
        · exact hm.1 hleft
        · refine hn.1 ?_
          rw [Bool.not_eq_true, Bool.or_eq_false_iff] at hleft
          rw [hleft.1, Bool.false_or, Bool.and_or_distrib_left, hleft.2, Bool.false_or] at hcond
          exact hcond
      · rw [shift_alt, left_join]
        exact hm.2
      · rw [shift_alt, right_join]
        exact hn.2

theorem stays_idle (m : Machine α A) (L : α → Bool) (w : List α) : Stays m L false .idle w := by
  induction w with
  | nil => trivial
  | cons c w ih =>
      rw [Stays, final_idle, shift_idle]
      exact ⟨(fun h => by cases h), ih⟩

/-- One side of an alternative that is over. -/
theorem does_alt (m n : Machine α A) (L : α → Bool) (s : Live) (w : List α) :
    (s.right = .idle → does (.alt m n) L false s w = does m L false s.left w) ∧
      (s.left = .idle → does (.alt m n) L false s w = does n L false s.right w) := by
  induction w generalizing s with
  | nil => exact ⟨fun _ => rfl, fun _ => rfl⟩
  | cons c w ih =>
      rcases ih (shift (.alt m n) false s (some c)) with ⟨hleft, hright⟩
      rw [shift_alt, left_join, right_join] at hleft hright
      refine ⟨?_, ?_⟩
      · intro hidle
        rw [hidle, shift_idle] at hleft
        rw [does, does, shift_alt, fires_alt, hidle, shift_idle, fires_idle, List.append_nil,
          hleft rfl]
      · intro hidle
        rw [hidle, shift_idle] at hright
        rw [does, does, shift_alt, fires_alt, hidle, shift_idle, fires_idle, List.nil_append,
          hright rfl]

/-- A word with which the second alternative does not start. -/
theorem alt_first (m n : Machine α A) (L : α → Bool) (b : α) (w : List α)
    (hfirst : first n (some b) = false) (hleft : (nullable n && L b) = false) :
    does (.alt m n) L true .idle (b :: w) = does m L true .idle (b :: w) ∧
      (moves (.alt m n) true .idle (b :: w)).left = moves m true .idle (b :: w) ∧
      (moves (.alt m n) true .idle (b :: w)).right = .idle := by
  rcases not_entered n true (L b) (some b) (fun _ => ⟨hfirst, hleft⟩) with ⟨hshift, hfires⟩
  rcases moves_alt m n true .idle (b :: w) with ⟨hl, hr⟩
  have hidle : moves n true .idle (b :: w) = .idle := by
    rw [moves, hshift, moves_idle]
  rw [right_idle, hidle] at hr
  refine ⟨?_, hl, hr⟩
  rw [does, fires_alt, shift_alt, left_idle, right_idle, hshift, hfires, List.append_nil,
    (does_alt m n L _ w).1 (right_join _ _), left_join, does]

/-- A word of the first alternative, with which the second does not start. -/
theorem Reads.alt_left {m n : Machine α A} {L : α → Bool} {b : α} {w : List α} {next : Option α}
    {tr : List (List A)} {out : List A} (hm : Reads m L (b :: w) next tr out)
    (hfirst : first n (some b) = false) (hleft : (nullable n && L b) = false) :
    Reads (.alt m n) L (b :: w) next tr out := by
  rcases alt_first m n L b w hfirst hleft with ⟨hdoes, hl, hr⟩
  refine ⟨?_, ?_, ?_, ?_, ?_⟩
  · rw [hdoes, hm.actions]
  · rw [final_alt, hl, hm.accepted]
    rfl
  · refine stays_alt m n L _ _ _ hm.stays ⟨?_, ?_⟩
    · intro hcond
      rw [right_idle, final_idle, Bool.false_or, Bool.true_and] at hcond
      rwa [hcond, Bool.true_and] at hleft
    · rw [right_idle, shift_not_first n _ _ hfirst, shift_idle]
      exact stays_idle n L w
  · rw [fires_alt, hl, hr, hm.leaves, fires_idle, List.append_nil]
  · rw [shift_alt, hl, hr, hm.ended, shift_idle]
    rfl

/-- A word of the second alternative, with which the first does not start. -/
theorem Reads.alt_right {m n : Machine α A} {L : α → Bool} {b : α} {w : List α} {next : Option α}
    {tr : List (List A)} {out : List A} (hn : Reads n L (b :: w) next tr out)
    (hfirst : first m (some b) = false) (hleft : (nullable m && L b) = false) :
    Reads (.alt m n) L (b :: w) next tr out := by
  rcases not_entered m true (L b) (some b) (fun _ => ⟨hfirst, hleft⟩) with ⟨hshift, hfires⟩
  rcases moves_alt m n true .idle (b :: w) with ⟨hl, hr⟩
  have hidle : moves m true .idle (b :: w) = .idle := by
    rw [moves, hshift, moves_idle]
  rw [right_idle] at hr
  rw [left_idle, hidle] at hl
  refine ⟨?_, ?_, ?_, ?_, ?_⟩
  · rw [does, fires_alt, shift_alt, left_idle, right_idle, hshift, hfires, List.nil_append,
      (does_alt m n L _ w).2 (left_join _ _), right_join, ← hn.actions, does]
  · rw [final_alt, hr, hn.accepted, Bool.or_true]
  · refine stays_alt m n L _ _ _ ⟨?_, ?_⟩ hn.stays
    · intro hcond
      rw [left_idle, final_idle, Bool.false_or, Bool.true_and] at hcond
      rwa [hcond, Bool.true_and] at hleft
    · rw [left_idle, hshift]
      exact stays_idle m L w
  · rw [fires_alt, hl, hr, hn.leaves, fires_idle, List.nil_append]
  · rw [shift_alt, hl, hr, hn.ended, shift_idle]
    rfl

/-- Some characters of a class, at least one and at most `n + 1`. -/
theorem reads_upTo (p : α → Bool) (L : α → Bool) (n : Nat) (c : α) (w : List α)
    (next : Option α) (hlen : w.length ≤ n) (hp : ∀ d ∈ c :: w, p d = true)
    (hL : ∀ d, p d = true → L d = false) (hnext : next.any p = false) :
    Reads (.seq (.chars p) (Machine.upTo (.chars p) n) : Machine α A) L (c :: w) next
      (piece [] (c :: w)) [] := by
  have hc : p c = true := hp c List.mem_cons_self
  induction w generalizing n c with
  | nil =>
      refine (Reads.chars p _ c next hc).seq_empty ?_ ?_ ?_
      · cases n <;> rfl
      · cases n with
        | zero => rfl
        | succ n => simp [Machine.upTo, Machine.opt, first, nullable, hnext]
      · refine fires_plain _ ?_ _ _ _ _
        clear hlen
        induction n with
        | zero => rfl
        | succ n ih => simpa [Machine.upTo, Machine.opt, Machine.embedded] using ih
  | cons d w ih =>
      cases n with
      | zero => cases hlen
      | succ n =>
          rw [List.length_cons, Nat.add_le_add_iff_right] at hlen
          have hd : p d = true := hp d (List.mem_cons_of_mem _ List.mem_cons_self)
          have hrest := ih n d hlen (fun e he => hp e (List.mem_cons_of_mem _ he)) hd
          have hopt := hrest.alt_left (n := .null) rfl (by rw [hL d hd]; rfl)
          exact (Reads.chars p _ c (some d) hc).seq hopt

/-! ## Rounds -/

/-- A round that is over makes no difference to the next one. -/
def Restarts (m : Machine α A) (s : Live) : Prop :=
  ∀ c left, shift m true s c = shift m true .idle c ∧
    fires m true left s c = fires m true left .idle c

/-- What can follow a round. -/
def again (m : Machine α A) (L : α → Bool) (c : α) : Bool := first m (some c) || L c

/-- A word that stays in a round. -/
theorem star_round (m : Machine α A) (L : α → Bool) (entered : Bool) (s : Live) (u : List α)
    (h : Stays m (again m L) entered s u) :
    moves (.star m) entered s u = moves m entered s u ∧
      does (.star m) L entered s u = does m (again m L) entered s u := by
  induction u generalizing entered s with
  | nil => exact ⟨rfl, rfl⟩
  | cons c u ih =>
      -- A finished round is entered again, but not with this character.
      have hsame : shift m (entered || final m s) s (some c) = shift m entered s (some c) ∧
          fires m (entered || final m s) (again m L c) s (some c) =
            fires m entered (again m L c) s (some c) := by
        cases hfinal : final m s with
        | false => rw [Bool.or_false]; exact ⟨rfl, rfl⟩
        | true =>
            have hno := h.1 (by rw [hfinal]; rfl)
            rw [hno]
            rw [again, Bool.or_eq_false_iff] at hno
            cases entered with
            | true => exact ⟨rfl, rfl⟩
            | false =>
                exact ⟨shift_not_first m s _ hno.1,
                  fires_not_first m false s _ hno.1 (Bool.and_false _)⟩
      rcases ih false (shift m entered s (some c)) h.2 with ⟨hmoves, hdoes⟩
      rw [moves, moves, does, does, shift_star, fires_star, hsame.1, hmoves, hdoes]
      exact ⟨rfl, congrArg (· :: _) hsame.2⟩

theorem stays_star (m : Machine α A) (L : α → Bool) (s : Live) (u : List α)
    (h : Stays m (again m L) false s u) : Stays (.star m) L false s u := by
  induction u generalizing s with
  | nil => trivial
  | cons c u ih =>
      refine ⟨?_, ?_⟩
      · intro hcond
        rw [final_star, Bool.false_and, Bool.or_false] at hcond
        have hno := h.1 (by rw [hcond]; rfl)
        rw [again, Bool.or_eq_false_iff] at hno
        exact hno.2
      · have hshift := (star_round m L false s [c] ⟨h.1, trivial⟩).1
        rw [moves, moves, moves, moves] at hshift
        rw [hshift]
        exact ih _ h.2

/-- A sequence is not finished as long as a word stays in its first part, if its
    second part cannot be empty. -/
theorem unfinished_first (m n : Machine α A) (L : α → Bool) (entered : Bool) (s : Live)
    (u : List α) (hnull : nullable n = false) (hright : s.right = .idle)
    (h : Stays m (followed n L) entered s.left u) : Unfinished (.seq m n) entered s u := by
  induction u generalizing entered s with
  | nil => trivial
  | cons c u ih =>
      rcases not_entered n (into m entered s) (L c) (some c)
        (into_stays m n L entered s c h.1) with ⟨hidle, -⟩
      have hstep : shift (.seq m n) entered s (some c) =
          .join (shift m entered s.left (some c)) .idle := by
        rw [shift_seq, hright, hidle]
      rw [Unfinished, hstep]
      refine ⟨?_, ih _ _ (right_join _ _) ?_⟩
      · rw [final_seq, right_join, final_idle, hnull]
        rfl
      · rw [left_join]
        exact h.2

/-- A word in front of which the expression is not over stays in it. -/
theorem stays_unfinished (m : Machine α A) (L : α → Bool) (entered : Bool) (s : Live)
    (w : List α) (hnull : nullable m = false) (hs : final m s = false)
    (h : Unfinished m entered s w) : Stays m L entered s w := by
  induction w generalizing entered s with
  | nil => trivial
  | cons c w ih =>
      refine ⟨?_, ih _ _ h.1 h.2⟩
      rw [hs, hnull, Bool.and_false]
      exact fun hno => by cases hno

theorem unfinished_append (m : Machine α A) (entered : Bool) (s : Live) (u v : List α)
    (hu : u ≠ []) (h₁ : Unfinished m entered s u)
    (h₂ : Unfinished m false (moves m entered s u) v) : Unfinished m entered s (u ++ v) := by
  induction u generalizing entered s with
  | nil => exact absurd rfl hu
  | cons c u ih =>
      rw [List.cons_append, Unfinished]
      by_cases hnil : u = []
      · subst hnil
        exact ⟨h₁.1, h₂⟩
      · exact ⟨h₁.1, ih _ _ hnil h₁.2 h₂⟩

/-- Rounds and what is behind them: after a round everything is as it was at first. -/
theorem rounds_more {m n : Machine α A} {L : α → Bool} {u : List α} {b : α} {next : Option α}
    {tr : List (List A)} {out : List A}
    (hm : Reads m (again m (followed n L)) (b :: u) next tr out)
    (hrestarts : Restarts m (moves m true .idle (b :: u))) (hb : followed n L b = false)
    (c : α) (v : List α) :
    does (.seq (.star m) n) L true .idle (b :: u ++ c :: v) =
        tr ++ does (.seq (.star m) n) L true .idle (c :: v) ∧
      moves (.seq (.star m) n) true .idle (b :: u ++ c :: v) =
        moves (.seq (.star m) n) true .idle (c :: v) ∧
      (nullable n = false → Unfinished (.seq (.star m) n) true .idle (c :: v) →
        Unfinished (.seq (.star m) n) true .idle (b :: u ++ c :: v)) := by
  rcases star_round m (followed n L) true .idle (b :: u) hm.stays with ⟨hmoves, hdoes⟩
  have hstays : Stays (.star m) (followed n L) true .idle (b :: u) := by
    refine ⟨fun _ => hb, ?_⟩
    have hshift := (star_round m (followed n L) true .idle [b] ⟨hm.stays.1, trivial⟩).1
    rw [moves, moves, moves, moves] at hshift
    rw [hshift]
    exact stays_star m _ _ u hm.stays.2
  rcases seq_first (.star m) n L true .idle (b :: u) right_idle hstays with
    ⟨hleft, hright, hdoes', -⟩
  rw [left_idle, hmoves] at hleft
  rw [left_idle, hdoes, hm.actions] at hdoes'
  -- The next character finds the round finished, as if it were the first one.
  have hinto : into (.star m) false (moves (.seq (.star m) n) true .idle (b :: u)) = true := by
    rw [into, hleft, final_star, hm.accepted]
    rfl
  have hstart : into (.star m) true .idle = true := rfl
  have hshift : shift (.seq (.star m) n) false (moves (.seq (.star m) n) true .idle (b :: u))
      (some c) = shift (.seq (.star m) n) true .idle (some c) := by
    rw [shift_seq, hinto, hleft, hright, shift_star, hm.accepted, shift_seq, hstart, left_idle,
      right_idle, shift_star, Bool.false_or, Bool.true_or, (hrestarts (some c) false).1]
  have hfires : fires (.seq (.star m) n) false (L c)
      (moves (.seq (.star m) n) true .idle (b :: u)) (some c) =
      fires (.seq (.star m) n) true (L c) .idle (some c) := by
    rw [fires_seq, hinto, hleft, hright, fires_star, hm.accepted, fires_seq, hstart, left_idle,
      right_idle, fires_star, Bool.false_or, Bool.true_or, (hrestarts (some c) _).2]
  refine ⟨?_, ?_, ?_⟩
  · rw [does_append _ _ _ _ _ _ hm.ne_nil, hdoes', does, hshift, hfires, does]
  · rw [moves_append _ _ _ _ _ hm.ne_nil, moves, hshift, moves]
  · intro hnull h
    refine unfinished_append _ _ _ _ _ hm.ne_nil
      (unfinished_first _ n L true .idle _ hnull right_idle hstays) ?_
    rw [Unfinished, hshift]
    exact h

/-! ## Finishing actions -/

theorem unfinished_second (m n : Machine α A) (s : Live) (v : List α) (hleft : s.left = .idle)
    (h : Unfinished n false s.right v) : Unfinished (.seq m n) false s v := by
  induction v generalizing s with
  | nil => trivial
  | cons c v ih =>
      have hinto := into_over m s hleft
      rw [Unfinished, shift_seq, hinto, hleft, shift_idle]
      refine ⟨?_, ih _ (left_join _ _) ?_⟩
      · rw [final_seq, left_join, right_join, final_idle, h.1, Bool.and_false]
        rfl
      · rw [right_join]
        exact h.2

/-- A word of the first part and an unfinished one of the second. -/
theorem Reads.unfinished_seq {m n : Machine α A} {L : α → Bool} {u : List α} {b : α}
    {tr : List (List A)} {out : List A} (hm : Reads m (followed n L) u (some b) tr out)
    (hnull : nullable n = false) (v : List α) (h : Unfinished n true .idle (b :: v)) :
    Unfinished (.seq m n) true .idle (u ++ b :: v) := by
  rcases hm.first_part n with ⟨⟨hright, -, -⟩, hfinal, hended, -⟩
  rcases seq_between m n (L b) _ b hright hfinal hended with ⟨hstep, -⟩
  refine unfinished_append _ _ _ _ _ hm.ne_nil
    (unfinished_first m n L true .idle u hnull right_idle hm.stays) ?_
  rw [Unfinished, hstep]
  refine ⟨?_, unfinished_second m n _ v (left_join _ _) ?_⟩
  · rw [final_seq, left_join, right_join, final_idle, h.1, Bool.and_false]
    rfl
  · rw [right_join]
    exact h.2

/-- An unfinished word of the first alternative, with which the second does not start. -/
theorem unfinished_alt (m n : Machine α A) (entered : Bool) (s : Live) (w : List α)
    (hright : s.right = .idle) (hfirst : entered = true → ∀ c ∈ w.head?, first n (some c) = false)
    (h : Unfinished m entered s.left w) : Unfinished (.alt m n) entered s w := by
  induction w generalizing entered s with
  | nil => trivial
  | cons c w ih =>
      have hidle : shift n entered .idle (some c) = .idle := by
        cases entered with
        | false => exact shift_idle n _
        | true => rw [shift_not_first n _ _ (hfirst rfl c rfl), shift_idle]
      rw [Unfinished, shift_alt, hright, hidle]
      refine ⟨?_, ih _ _ (right_join _ _) (fun hno => by cases hno) ?_⟩
      · rw [final_alt, left_join, right_join, final_idle, h.1]
        rfl
      · rw [left_join]
        exact h.2

theorem moves_finish (a : A) (m : Machine α A) (entered : Bool) (s : Live) (w : List α) :
    moves (.finish a m) entered s w = moves m entered s w := by
  induction w generalizing entered s with
  | nil => rfl
  | cons c w ih => rw [moves, moves, shift_finish, ih]

/-- A finishing action is not executed before a word of the expression is complete. -/
theorem finish_unfinished (a : A) (m : Machine α A) (L : α → Bool) (entered : Bool) (s : Live)
    (w : List α) (h : Unfinished m entered s w) :
    does (.finish a m) L entered s w = does m L entered s w := by
  induction w generalizing entered s with
  | nil => rfl
  | cons c w ih =>
      rw [does, does, fires_finish, shift_finish, h.1, ih _ _ h.2]
      simp

theorem final_finish (a : A) (m : Machine α A) (s : Live) : final (.finish a m) s = final m s := by
  cases s <;> cases m <;> rfl

/-- A finishing action is executed on the last character of a word that is complete
    with it and not before. -/
theorem finish_last (a : A) (m : Machine α A) (L : α → Bool) (w : List α) (c : α)
    (tr : List (List A)) (xs : List A) (hw : w ≠ [])
    (h : Unfinished m true .idle w) (hfinal : final m (moves m true .idle (w ++ [c])) = true)
    (hdoes : does m L true .idle (w ++ [c]) = tr ++ [xs]) :
    does (.finish a m) L true .idle (w ++ [c]) = tr ++ [xs ++ [a]] := by
  rw [does_append _ _ _ _ _ _ hw] at hdoes ⊢
  rw [moves_append _ _ _ _ _ hw, moves, moves] at hfinal
  rcases List.append_inj' hdoes rfl with ⟨hfront, hlast⟩
  rw [does, does, List.singleton_inj] at hlast
  rw [finish_unfinished a m L _ _ w h, hfront, moves_finish, does, does, fires_finish, hlast,
    hfinal]
  rfl

end Ragel

end Lib
