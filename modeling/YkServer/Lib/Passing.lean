import YkServer.Lib.Reading

/-!
# Words that May Be Empty

What a machine with embedded actions does on a word that belongs to it and on the character
behind it, where the word may be empty.

An expression that is passed by with the empty word still executes its entering and leaving
actions, on the character behind it. So the actions on a word and those on the character
behind it are one list here, which has one entry more than the word has characters, and a
concatenation has the last entry of its first part in front of the first entry of the
second.

A part that can be empty can also stay live beside what follows it, which then starts over
when the part is done after all. What was executed on the way is executed all the same.

## Main definitions

* `followedBy`: The actions on one word and then another.
* `Passes`: What an expression does with a word and the character behind it.

## Theorems

* `fires_not_takes`: A character that is not taken executes nothing.
* `Passes.seq`, `Passes.enter`, `Passes.leave`, `Reads.opt`: Composition.
* `Passes.does_seq`: A word of the first part and a beginning of the second.
* `Reads.beside`: A first part that stays live and is not done.
* `Passes.restart`: A first part that is done later.
* `Reads.alt_silent`: An alternative that does nothing.
-/

namespace Lib

namespace Ragel

variable {α A : Type}

/-! ## Characters that are not taken -/

theorem first_not_takes (m : Machine α A) (c : Option α) (h : takes m c = false) :
    first m c = false := by
  induction m with
  | null => rfl
  | chars p => exact h
  | seq m n ihm ihn | entryGuard m n ihm ihn | finishGuard m n ihm ihn =>
      rw [takes, Bool.or_eq_false_iff] at h
      rw [first, ihm h.1, ihn h.2, Bool.and_false]
      rfl
  | alt m n ihm ihn =>
      rw [takes, Bool.or_eq_false_iff] at h
      rw [first, ihm h.1, ihn h.2]
      rfl
  | star m ih | enter a m ih | finish a m ih | leave a m ih => exact ih h

/-- A character that is not taken, and is not one behind the expression, executes nothing. -/
theorem fires_not_takes (m : Machine α A) (entered : Bool) (s : Live) (c : Option α)
    (h : takes m c = false) : fires m entered false s c = [] := by
  induction m generalizing entered s c with
  | null => exact fires_null entered false s c
  | chars p => exact fires_chars p entered false s c
  | seq m n ihm ihn =>
      rw [takes, Bool.or_eq_false_iff] at h
      rw [fires_seq, first_not_takes n c h.2, Bool.and_false, Bool.or_false, ihm _ _ _ h.1,
        ihn _ _ _ h.2]
      rfl
  | entryGuard m n ihm ihn =>
      rw [takes, Bool.or_eq_false_iff] at h
      rw [fires_entryGuard, first_not_takes n c h.2, Bool.and_false, Bool.or_false,
        Bool.and_false, if_neg Bool.false_ne_true, ihm _ _ _ h.1, ihn _ _ _ h.2]
      rfl
  | finishGuard m n ihm ihn =>
      rw [takes, Bool.or_eq_false_iff] at h
      rw [fires_finishGuard, first_not_takes n c h.2, Bool.and_false, Bool.or_false,
        shift_not_takes n _ _ c h.2, final_idle, if_neg Bool.false_ne_true, ihm _ _ _ h.1,
        ihn _ _ _ h.2]
      rfl
  | alt m n ihm ihn =>
      rw [takes, Bool.or_eq_false_iff] at h
      rw [fires_alt, ihm _ _ _ h.1, ihn _ _ _ h.2]
      rfl
  | star m ih =>
      have hm : takes m c = false := h
      rw [fires_star, first_not_takes m c hm, Bool.or_false]
      exact ih _ _ _ hm
  | enter a m ih =>
      have hm : takes m c = false := h
      rw [fires_enter, first_not_takes m c hm, Bool.and_false, Bool.or_false, Bool.and_false,
        ih _ _ _ hm]
      rfl
  | finish a m ih =>
      have hm : takes m c = false := h
      rw [fires_finish, shift_not_takes m _ _ c hm, final_idle, ih _ _ _ hm]
      rfl
  | leave a m ih =>
      have hm : takes m c = false := h
      rw [fires_leave, Bool.false_and, ih _ _ _ hm]
      rfl

/-! ## Actions on a word and behind it -/

/-- The actions on a word and on the character behind it, when there is another word with its
    actions. -/
def followedBy (xs ys : List (List A)) : List (List A) :=
  xs.dropLast ++ tag (xs.getLast?.getD []) ys

theorem followedBy_concat (tr : List (List A)) (out : List A) (ys : List (List A)) :
    followedBy (tr ++ [out]) ys = tr ++ tag out ys := by
  rw [followedBy, List.dropLast_concat, List.getLast?_concat, Option.getD_some]

theorem followedBy_singleton (out : List A) (ys : List (List A)) :
    followedBy [out] ys = tag out ys := followedBy_concat [] out ys

theorem tag_concat (as : List A) (tr : List (List A)) (out : List A) (htr : tr ≠ []) :
    tag as (tr ++ [out]) = tag as tr ++ [out] := by
  cases tr with
  | nil => exact absurd rfl htr
  | cons x tr => rfl

/-- Being a word of an expression, the empty one included. -/
def Belongs (m : Machine α A) (w : List α) : Prop :=
  (w = [] ∧ nullable m = true) ∨ accepts m w = true

/-- Characters of a class, or none. -/
theorem belongs_star_chars (p : α → Bool) (w : List α) (h : ∀ c ∈ w, p c = true) :
    Belongs (.star (.chars p) : Machine α A) w := by
  have hmore : ∀ w : List α, (∀ c ∈ w, p c = true) →
      moves (.star (.chars p) : Machine α A) false .here w = .here := by
    intro w hw
    induction w with
    | nil => rfl
    | cons c w ih =>
        have hc : p c = true := hw c List.mem_cons_self
        have hstep : shift (.star (.chars p) : Machine α A) false .here (some c) = .here := by
          rw [shift_star, shift_chars, Option.any_some, hc]
          rfl
        rw [moves, hstep, ih (fun d hd => hw d (List.mem_cons_of_mem _ hd))]
  cases w with
  | nil => exact Or.inl ⟨rfl, rfl⟩
  | cons c w =>
      have hc : p c = true := h c List.mem_cons_self
      have hstep : shift (.star (.chars p) : Machine α A) true .idle (some c) = .here := by
        rw [shift_star, shift_chars, Option.any_some, hc]
        rfl
      refine Or.inr ?_
      rw [accepts, moves, hstep, hmore w (fun d hd => h d (List.mem_cons_of_mem _ hd))]
      rfl

theorem Belongs.takes {m : Machine α A} {w : List α} (h : Belongs m w) :
    ∀ c ∈ w, Ragel.takes m (some c) = true := by
  rcases h with ⟨rfl, -⟩ | h
  · exact fun c hc => absurd hc List.not_mem_nil
  · exact takes_of_accepts m true .idle w h

/-- What an expression does with a word, which may be empty, and with the character behind it. -/
inductive Passes (m : Machine α A) (L : α → Bool) : List α → Option α → List (List A) → Prop where
  | skips (next : Option α) (hnull : nullable m = true) (hfirst : first m next = false) :
      Passes m L [] next [fires m true true .idle next]
  | reads (w : List α) (next : Option α) (tr : List (List A)) (out : List A)
      (h : Reads m L w next tr out) : Passes m L w next (tr ++ [out])

theorem Reads.passes {m : Machine α A} {L : α → Bool} {w : List α} {next : Option α}
    {tr : List (List A)} {out : List A} (h : Reads m L w next tr out) :
    Passes m L w next (tr ++ [out]) := Passes.reads w next tr out h

theorem Reads.trace_ne_nil {m : Machine α A} {L : α → Bool} {w : List α} {next : Option α}
    {tr : List (List A)} {out : List A} (h : Reads m L w next tr out) : tr ≠ [] := by
  rcases List.exists_cons_of_ne_nil h.ne_nil with ⟨c, v, rfl⟩
  rw [← h.actions, does]
  exact List.cons_ne_nil _ _

theorem belongs_iff (m : Machine α A) (w : List α) :
    Belongs m w ↔ (final m (moves m true .idle w) || (w.isEmpty && nullable m)) = true := by
  cases w with
  | nil => simp [Belongs, accepts, moves, final_idle]
  | cons c w => simp [Belongs, accepts]

theorem Passes.enter {m : Machine α A} {L : α → Bool} {w : List α} {next : Option α}
    {full : List (List A)} (a : A) (h : Passes m L w next full) :
    Passes (.enter a m) L w next (tag [a] full) := by
  cases h with
  | skips next hnull hfirst =>
      have hfires : fires (.enter a m) true true .idle next =
          [a] ++ fires m true true .idle next := by
        rw [fires_enter, hnull, hfirst]
        rfl
      rw [tag, ← hfires]
      exact Passes.skips next hnull hfirst
  | reads w next tr out h =>
      rw [tag_concat _ _ _ h.trace_ne_nil]
      exact (h.enter a).passes

theorem Passes.leave {m : Machine α A} {L : α → Bool} {w : List α} {next : Option α}
    {full : List (List A)} (a : A) (h : Passes m L w next full) :
    Passes (.leave a m) L w next (followedBy full [[a]]) := by
  cases h with
  | skips next hnull hfirst =>
      have hfires : fires (.leave a m) true true .idle next =
          fires m true true .idle next ++ [a] := by
        rw [fires_leave, hnull, Bool.true_and, Bool.true_and, Bool.or_true]
        rfl
      rw [followedBy_singleton, tag, ← hfires]
      exact Passes.skips next hnull hfirst
  | reads w next tr out h =>
      rw [followedBy_concat]
      exact (h.leave a).passes

/-- A word of an expression without actions. -/
theorem Passes.plain (m : Machine α A) (L : α → Bool) (w : List α) (next : Option α)
    (hplain : m.embedded = []) (hw : Belongs m w) (hL : ∀ c ∈ w, L c = false)
    (hnext : takes m next = false) :
    Passes m L w next (List.replicate (w.length + 1) []) := by
  rcases hw with ⟨rfl, hnull⟩ | hacc
  · have hskips := Passes.skips (L := L) next hnull (first_not_takes m next hnext)
    rw [fires_plain m hplain] at hskips
    exact hskips
  · have hreads := (Reads.plain m L w next hplain hacc hL hnext).passes
    rw [piece_nil, ← List.replicate_succ'] at hreads
    exact hreads

/-! ## The last character -/

theorem moves_concat (m : Machine α A) (entered : Bool) (s : Live) (u : List α) (c : α) :
    moves m entered s (u ++ [c]) = shift m (entered && u.isEmpty) (moves m entered s u) (some c) := by
  by_cases hu : u = []
  · subst hu
    rw [List.isEmpty_nil, Bool.and_true]
    rfl
  · rw [moves_append _ _ _ _ _ hu, moves, moves, List.isEmpty_eq_false_iff.2 hu, Bool.and_false]

theorem does_concat (m : Machine α A) (L : α → Bool) (entered : Bool) (s : Live) (u : List α)
    (c : α) :
    does m L entered s (u ++ [c]) = does m L entered s u ++
      [fires m (entered && u.isEmpty) (L c) (moves m entered s u) (some c)] := by
  by_cases hu : u = []
  · subst hu
    rw [List.isEmpty_nil, Bool.and_true]
    rfl
  · rw [does_append _ _ _ _ _ _ hu, does, does, List.isEmpty_eq_false_iff.2 hu, Bool.and_false]

/-! ## One part after another -/

/-- The first part is passed by. -/
theorem seq_skip (m n : Machine α A) (L : α → Bool) (b : α) (v : List α)
    (hnull : nullable m = true) (hfirst : first m (some b) = false) :
    (moves (.seq m n) true .idle (b :: v)).left = .idle ∧
      (moves (.seq m n) true .idle (b :: v)).right = moves n true .idle (b :: v) ∧
      does (.seq m n) L true .idle (b :: v) =
        tag (fires m true (followed n L b) .idle (some b)) (does n L true .idle (b :: v)) ∧
      (Stays n L true .idle (b :: v) → Stays (.seq m n) L true .idle (b :: v)) := by
  have hinto : into m true .idle = true := by
    rw [into, hnull, Bool.true_and, Bool.or_true]
  have hstep : shift (.seq m n) true .idle (some b) =
      .join .idle (shift n true .idle (some b)) := by
    rw [shift_seq, hinto, left_idle, right_idle, shift_not_first m _ _ hfirst, shift_idle]
  rcases seq_second m n L (.join .idle (shift n true .idle (some b))) v (left_join _ _) with
    ⟨hleft, hright, hdoes, hstays⟩
  rw [right_join] at hright hdoes hstays
  refine ⟨?_, ?_, ?_, ?_⟩
  · rw [moves, hstep, hleft]
  · rw [moves, hstep, hright, moves]
  · rw [does, hstep, hdoes, fires_seq, hinto, left_idle, right_idle, does, tag]
    rfl
  · intro h
    refine ⟨?_, ?_⟩
    · intro hcond
      rw [final_idle, Bool.false_or, Bool.true_and, nullable, Bool.and_eq_true] at hcond
      exact h.1 (by rw [hcond.2]; simp)
    · rw [hstep]
      exact hstays h.2

theorem Reads.seq_behind {m n : Machine α A} {L : α → Bool} {b : α} {v : List α}
    {next : Option α} {tr : List (List A)} {out : List A} (hn : Reads n L (b :: v) next tr out)
    (hnull : nullable m = true) (hfirst : first m (some b) = false) :
    Reads (.seq m n) L (b :: v) next (tag (fires m true true .idle (some b)) tr) out := by
  rcases seq_skip m n L b v hnull hfirst with ⟨hleft, hright, hdoes, hstays⟩
  have hinto := into_over m _ hleft
  refine ⟨?_, ?_, hstays hn.stays, ?_, ?_⟩
  · rw [hdoes, hn.actions, followed, first_of_accepts n b v hn.accepted, Bool.true_or]
  · rw [final_seq, hright, hn.accepted]
    rfl
  · rw [fires_seq, hinto, hleft, hright, fires_idle, List.nil_append, hn.leaves]
  · rw [shift_seq, hinto, hleft, hright, shift_idle, hn.ended]
    rfl

/-- The second part is passed by. -/
theorem Reads.seq_before {m n : Machine α A} {L : α → Bool} {u : List α} {next : Option α}
    {tr : List (List A)} {out : List A} (hm : Reads m (followed n L) u next tr out)
    (hnull : nullable n = true) (hfirst : first n next = false) :
    Reads (.seq m n) L u next tr (out ++ fires n true true .idle next) := by
  rcases hm.first_part n with ⟨⟨hright, hdoes, hstays⟩, hfinal, hended, hout⟩
  have hinto := into_final m false _ hfinal
  refine ⟨hdoes, ?_, hstays, ?_, ?_⟩
  · rw [final_seq, hfinal, hnull, Bool.true_and, Bool.or_true]
  · rw [fires_seq, hinto, hright, hnull, Bool.true_and, Bool.or_true, hout]
  · rw [shift_seq, hinto, hright, hended, shift_not_first n _ _ hfirst, shift_idle]
    rfl

theorem Passes.seq {m n : Machine α A} {L : α → Bool} {u v : List α} {next : Option α}
    {full₁ full₂ : List (List A)} (hm : Passes m (followed n L) u (v.head?.or next) full₁)
    (hn : Passes n L v next full₂) :
    Passes (.seq m n) L (u ++ v) next (followedBy full₁ full₂) := by
  cases hn with
  | skips next hnull hfirst =>
      rw [List.append_nil]
      cases hm with
      | skips next' hnull' hfirst' =>
          have hinto : into m true .idle = true := by
            rw [into, hnull', Bool.true_and, Bool.or_true]
          have hfires : fires (.seq m n) true true .idle next =
              fires m true true .idle next ++ fires n true true .idle next := by
            rw [fires_seq, hinto, hnull, Bool.true_and, Bool.or_true, left_idle, right_idle]
          rw [followedBy_singleton, tag]
          refine hfires ▸ Passes.skips next ?_ ?_
          · rw [nullable, hnull, hnull']
            rfl
          · have hm' : first m next = false := hfirst'
            rw [first, hm', hfirst, Bool.and_false, Bool.or_false]
      | reads u next' tr out h =>
          rw [followedBy_concat, tag]
          exact (Reads.seq_before h hnull hfirst).passes
  | reads v next tr₂ out₂ hn =>
      rcases List.exists_cons_of_ne_nil hn.ne_nil with ⟨b, v, rfl⟩
      cases hm with
      | skips next' hnull hfirst =>
          rw [followedBy_singleton, tag_concat _ _ _ hn.trace_ne_nil]
          exact (hn.seq_behind hnull hfirst).passes
      | reads u next' tr out h =>
          rw [followedBy_concat, tag_concat _ _ _ hn.trace_ne_nil, ← List.append_assoc]
          exact (Reads.seq h hn).passes

/-- One character and what is behind it. -/
theorem Passes.cons {p : α → Bool} {n : Machine α A} {L : α → Bool} {c : α} {v : List α}
    {next : Option α} {full : List (List A)} (hp : p c = true) (hn : Passes n L v next full) :
    Passes (.seq (.chars p) n) L (c :: v) next ([] :: full) := by
  have hchars := (Reads.chars (A := A) p (followed n L) c (v.head?.or next) hp).passes
  have hseq := hchars.seq hn
  rw [followedBy_concat, tag_nil] at hseq
  exact hseq

/-- The actions on a word of the first part and a beginning of the second. -/
theorem Passes.does_seq {m n : Machine α A} {L : α → Bool} {u : List α} {b : α}
    {full : List (List A)} (h : Passes m (followed n L) u (some b) full)
    (hfirst : first n (some b) = true) (v : List α) :
    does (.seq m n) L true .idle (u ++ b :: v) =
      followedBy full (does n L true .idle (b :: v)) := by
  cases h with
  | skips next hnull hnot =>
      rcases seq_skip m n L b v hnull hnot with ⟨-, -, hdoes, -⟩
      rw [List.nil_append, hdoes, followedBy_singleton, followed, hfirst, Bool.true_or]
  | reads u next tr out h => rw [h.does_seq hfirst v, followedBy_concat]

/-- One character and a beginning of the second part. -/
theorem does_chars_seq (p : α → Bool) (n : Machine α A) (L : α → Bool) (c : α) (v : List α)
    (hp : p c = true) :
    does (.seq (.chars p) n) L true .idle (c :: v) = [] :: does n L true .idle v := by
  have hnot : into (.chars p : Machine α A) true .idle = false := rfl
  have hstep : shift (.seq (.chars p) n) true .idle (some c) = .node .here .idle := by
    rw [shift_seq, hnot, right_idle, shift_idle, left_idle, shift_chars, Option.any_some, hp]
    rfl
  rw [does, hstep, fires_seq, hnot, fires_chars, right_idle, fires_idle, List.nil_append]
  cases v with
  | nil => rfl
  | cons b v =>
      rcases seq_between (.chars p) n (L b) (.node .here .idle) b rfl rfl
        (by rw [shift_chars]; rfl) with ⟨hnext, hfires⟩
      rcases seq_second (.chars p) n L (.join .idle (shift n true .idle (some b))) v
        (left_join _ _) with ⟨-, -, hdoes, -⟩
      rw [right_join] at hdoes
      rw [does, hfires, fires_chars, List.nil_append, hnext, hdoes, does]

/-! ## Optional parts -/

/-- An optional part that is there. -/
theorem Reads.opt {m : Machine α A} {L : α → Bool} {b : α} {w : List α} {next : Option α}
    {tr : List (List A)} {out : List A} (h : Reads m L (b :: w) next tr out) (hL : L b = false) :
    Reads (Machine.opt m) L (b :: w) next tr out :=
  h.alt_left rfl (by rw [hL]; rfl)

theorem Passes.opt {m : Machine α A} {L : α → Bool} {b : α} {w : List α} {next : Option α}
    {full : List (List A)} (h : Passes m L (b :: w) next full) (hL : L b = false) :
    Passes (Machine.opt m) L (b :: w) next full := by
  cases h with
  | reads w next tr out h => exact (h.opt hL).passes

/-- An optional part that is not there. -/
theorem Passes.opt_absent (m : Machine α A) (L : α → Bool) (next : Option α)
    (hnull : nullable m = false) (hfirst : first m next = false) :
    Passes (Machine.opt m) L [] next [[]] := by
  have hfires : fires (Machine.opt m) true true .idle next = [] := by
    rw [Machine.opt, fires_alt, left_idle, right_idle, fires_null,
      (not_entered m true true next (fun _ => ⟨hfirst, by rw [hnull]; rfl⟩)).2]
    rfl
  refine hfires ▸ Passes.skips next ?_ ?_
  · rw [Machine.opt, nullable, hnull]
    rfl
  · rw [Machine.opt, first, hfirst]
    rfl

/-! ## Parts that are over with their last character -/

theorem final_shift_chars (p : α → Bool) (entered : Bool) (s : Live) (c : Option α) :
    final (.chars p : Machine α A) (shift (.chars p : Machine α A) entered s c) =
      (entered && c.any p) := by
  rw [shift_chars]
  cases entered && c.any p <;> rfl

theorem ends_chars (p : α → Bool) : Ends (.chars p : Machine α A) := by
  intro entered s c h c'
  rw [shift_chars]
  rfl

/-- An expression that ends as soon as it is done is not done inside one of its words. -/
theorem stays_of_ends (m : Machine α A) (L : α → Bool) (hends : Ends m) (hnull : nullable m = false)
    (entered : Bool) (s : Live) (w : List α)
    (hs : final m s = true → entered = false ∧ ∀ c, shift m false s c = .idle)
    (h : final m (moves m entered s w) = true) : Stays m L entered s w := by
  induction w generalizing entered s with
  | nil => trivial
  | cons c w ih =>
      refine ⟨?_, ih false _ (fun hfinal => ⟨rfl, hends entered s _ hfinal⟩) h⟩
      intro hcond
      rw [hnull, Bool.and_false, Bool.or_false] at hcond
      rcases hs hcond with ⟨rfl, hdead⟩
      rw [moves, hdead, moves_idle, final_idle] at h
      cases h

theorem ended_of_ends (m : Machine α A) (hends : Ends m) (w : List α) (hw : accepts m w = true)
    (next : Option α) : shift m false (moves m true .idle w) next = .idle := by
  rcases List.eq_nil_or_concat w with rfl | ⟨v, c, rfl⟩
  · exact shift_idle m next
  · rw [List.concat_eq_append, accepts] at hw
    rw [List.concat_eq_append]
    by_cases hv : v = []
    · subst hv
      exact hends _ _ _ hw next
    · rw [moves_append _ _ _ _ _ hv, moves, moves] at hw ⊢
      exact hends _ _ _ hw next

theorem Reads.of_ends (m : Machine α A) (L : α → Bool) (w : List α) (next : Option α)
    (hplain : m.embedded = []) (hends : Ends m) (hnull : nullable m = false)
    (hacc : accepts m w = true) : Reads m L w next (piece [] w) [] where
  actions := by rw [does_plain m hplain, piece_nil]
  accepted := hacc
  stays := stays_of_ends m L hends hnull true .idle w
    (fun h => by rw [final_idle] at h; cases h) hacc
  leaves := fires_plain m hplain _ _ _ _
  ended := ended_of_ends m hends w hacc next

/-! ## Parts that stay live -/

theorem final_unfinished (m : Machine α A) (entered : Bool) (s : Live) (w : List α)
    (hs : final m s = false) (h : Unfinished m entered s w) :
    final m (moves m entered s w) = false := by
  induction w generalizing entered s with
  | nil => exact hs
  | cons c w ih => exact ih _ _ h.1 h.2

/-- No character of the word executes an action that only other characters execute. -/
theorem does_silent (m : Machine α A) (L p : α → Bool) (entered : Bool) (s : Live) (w : List α)
    (hon : ∀ a ∈ m.embedded, FiresOn a p m) (hp : ∀ c ∈ w, p c = false) :
    does m L entered s w = List.replicate w.length [] := by
  induction w generalizing entered s with
  | nil => rfl
  | cons c w ih =>
      have hnone : fires m entered (L c) s (some c) = [] := by
        rw [List.eq_nil_iff_forall_not_mem]
        intro a ha
        have hc := hon a (embedded_of_mem_fires m a _ _ _ _ ha) _ _ _ _ ha
        rw [Option.any_some, hp c List.mem_cons_self] at hc
        cases hc
      rw [does, hnone, ih _ _ (fun d hd => hp d (List.mem_cons_of_mem _ hd)), List.length_cons,
        List.replicate_succ]

/-- A first part that is live beside the second, as long as it is not done and does
    nothing. -/
theorem seq_beside (m n : Machine α A) (L : α → Bool) (entered : Bool) (s : Live) (w : List α)
    (hinto : into m entered s = entered) (hunfinished : Unfinished m entered s.left w)
    (hsilent : does m (followed n L) entered s.left w = List.replicate w.length []) :
    (moves (.seq m n) entered s w).left = moves m entered s.left w ∧
      (moves (.seq m n) entered s w).right = moves n entered s.right w ∧
      does (.seq m n) L entered s w = does n L entered s.right w ∧
      (final m s.left = false → Stays n L entered s.right w → Stays (.seq m n) L entered s w) := by
  induction w generalizing entered s with
  | nil => exact ⟨rfl, rfl, rfl, fun _ _ => trivial⟩
  | cons c w ih =>
      rw [does, List.length_cons, List.replicate_succ, List.cons.injEq] at hsilent
      have hstep : shift (.seq m n) entered s (some c) =
          .join (shift m entered s.left (some c)) (shift n entered s.right (some c)) := by
        rw [shift_seq, hinto]
      have hnext : into m false (.join (shift m entered s.left (some c))
          (shift n entered s.right (some c))) = false := by
        rw [into, left_join, hunfinished.1]
        rfl
      rcases ih false _ hnext (by rw [left_join]; exact hunfinished.2)
        (by rw [left_join]; exact hsilent.2) with ⟨hleft, hright, hdoes, hstays⟩
      rw [left_join] at hleft hstays
      rw [right_join] at hright hdoes hstays
      refine ⟨?_, ?_, ?_, ?_⟩
      · rw [moves, hstep, hleft, moves]
      · rw [moves, hstep, hright, moves]
      · have hfires : fires m entered (first n (some c) || (nullable n && L c)) s.left (some c) =
            [] := hsilent.1
        rw [does, hstep, hdoes, fires_seq, hinto, hfires, List.nil_append, does]
      · intro hfinal h
        refine ⟨?_, ?_⟩
        · intro hcond
          rw [final_seq, hfinal, Bool.and_false, Bool.or_false, nullable] at hcond
          refine h.1 ?_
          rw [Bool.or_eq_true, Bool.and_eq_true, Bool.and_eq_true] at hcond
          rw [Bool.or_eq_true, Bool.and_eq_true]
          exact hcond.imp id (fun hno => ⟨hno.1, hno.2.2⟩)
        · rw [hstep]
          exact hstays hunfinished.1 h.2

/-- A word of the second part, with which the first is live but not done. -/
theorem Reads.beside {m n : Machine α A} {L : α → Bool} {w : List α} {next : Option α}
    {tr : List (List A)} {out : List A} (hn : Reads n L w next tr out) (hnull : nullable m = true)
    (hunfinished : Unfinished m true .idle w)
    (hsilent : does m (followed n L) true .idle w = List.replicate w.length [])
    (hended : shift m false (moves m true .idle w) next = .idle)
    (hleaves : ∀ left, fires m false left (moves m true .idle w) next = []) :
    Reads (.seq m n) L w next tr out := by
  have hfinal := final_unfinished m true .idle w (final_idle m) hunfinished
  have hinto : into m true .idle = true := by
    rw [into, hnull, Bool.true_and, Bool.or_true]
  rcases seq_beside m n L true .idle w hinto hunfinished hsilent with ⟨hl, hr, hdoes, hstays⟩
  rw [left_idle] at hl hstays
  rw [right_idle] at hr hdoes hstays
  have hover : into m false (moves (.seq m n) true .idle w) = false := by
    rw [into, hl, hfinal]
    rfl
  refine ⟨?_, ?_, hstays (final_idle m) hn.stays, ?_, ?_⟩
  · rw [hdoes, hn.actions]
  · rw [final_seq, hr, hn.accepted]
    rfl
  · rw [fires_seq, hover, hl, hr, hleaves, List.nil_append, hn.leaves]
  · rw [shift_seq, hover, hl, hr, hended, hn.ended]
    rfl

/-- A first part that is done later than the second was live, after which the second starts
    over. -/
theorem Passes.restart {m n : Machine α A} {L : α → Bool} {u v : List α} {next : Option α}
    {full : List (List A)} (hu : u ≠ []) (hright : (moves (.seq m n) true .idle u).right = .idle)
    (hfinal : final m (moves (.seq m n) true .idle u).left = true)
    (hended : ∀ c, shift m false (moves (.seq m n) true .idle u).left c = .idle)
    (hleaves : ∀ left c, fires m false left (moves (.seq m n) true .idle u).left c = [])
    (hstays : Stays (.seq m n) L true .idle u) (hn : Passes n L v next full) :
    Passes (.seq m n) L (u ++ v) next (does (.seq m n) L true .idle u ++ full) := by
  have hinto := into_final m false _ hfinal
  cases hn with
  | skips next hnull hfirst =>
      rw [List.append_nil]
      refine Passes.reads u next _ _ ⟨rfl, ?_, hstays, ?_, ?_⟩
      · rw [final_seq, hfinal, hnull, Bool.true_and, Bool.or_true]
      · rw [fires_seq, hinto, hright, hleaves, List.nil_append]
      · rw [shift_seq, hinto, hright, hended, shift_not_first n _ _ hfirst, shift_idle]
        rfl
  | reads v next tr out hn =>
      rcases List.exists_cons_of_ne_nil hn.ne_nil with ⟨b, v, rfl⟩
      rcases seq_between m n (L b) _ b hright hfinal (hended _) with ⟨hstep, hfires⟩
      rw [hleaves, List.nil_append] at hfires
      rcases seq_second m n L (.join .idle (shift n true .idle (some b))) v (left_join _ _) with
        ⟨hl, hr, hdoes, hstays'⟩
      rw [right_join] at hr hdoes hstays'
      have hmoves : moves (.seq m n) true .idle (u ++ b :: v) =
          moves (.seq m n) false (.join .idle (shift n true .idle (some b))) v := by
        rw [moves_append _ _ _ _ _ hu, moves, hstep]
      rw [← hmoves] at hl hr
      have hr' : (moves (.seq m n) true .idle (u ++ b :: v)).right = moves n true .idle (b :: v) :=
        by rw [hr, moves]
      have hover := into_over m _ hl
      rw [← List.append_assoc]
      refine Passes.reads _ next _ _ ⟨?_, ?_, ?_, ?_, ?_⟩
      · rw [does_append _ _ _ _ _ _ hu, does, hstep, hfires, hdoes, ← hn.actions, does]
      · rw [final_seq, hr', hn.accepted]
        rfl
      · rw [stays_append _ _ _ _ _ _ hu, Stays, hstep]
        refine ⟨hstays, ?_, hstays' hn.stays.2⟩
        intro hcond
        rw [final_seq, hright, final_idle, Bool.false_or, hfinal, Bool.and_true, Bool.false_and,
          Bool.or_false] at hcond
        exact hn.stays.1 (by rw [hcond]; simp)
      · rw [fires_seq, hover, hl, hr', fires_idle, List.nil_append, hn.leaves]
      · rw [shift_seq, hover, hl, hr', shift_idle, hn.ended]
        rfl

/-! ## Alternatives that do nothing -/

theorem does_alt_silent (m n : Machine α A) (L : α → Bool) (entered : Bool) (s : Live)
    (w : List α) (h : does n L entered s.right w = List.replicate w.length []) :
    does (.alt m n) L entered s w = does m L entered s.left w := by
  induction w generalizing entered s with
  | nil => rfl
  | cons c w ih =>
      rw [does, List.length_cons, List.replicate_succ, List.cons.injEq] at h
      rw [does, does, fires_alt, shift_alt, h.1, List.append_nil,
        ih _ _ (by rw [right_join]; exact h.2), left_join]

theorem does_idle (m : Machine α A) (L : α → Bool) (w : List α) :
    does m L false .idle w = List.replicate w.length [] := by
  induction w with
  | nil => rfl
  | cons c w ih => rw [does, fires_idle, shift_idle, ih, List.length_cons, List.replicate_succ]

/-- A word with which an expression does not start. -/
theorem does_not_first (m : Machine α A) (L : α → Bool) (c : α) (w : List α)
    (hfirst : first m (some c) = false) (hleft : (nullable m && L c) = false) :
    does m L true .idle (c :: w) = List.replicate (c :: w).length [] ∧
      moves m true .idle (c :: w) = .idle := by
  rcases not_entered m true (L c) (some c) (fun _ => ⟨hfirst, hleft⟩) with ⟨hshift, hfires⟩
  rw [does, moves, hshift, hfires, does_idle, moves_idle]
  exact ⟨rfl, rfl⟩

/-- A sequence without live positions in either part. -/
theorem moves_seq_idle (m n : Machine α A) (entered : Bool) (s : Live) (u : List α) (c : α)
    (hleft : (moves (.seq m n) entered s (u ++ [c])).left = .idle)
    (hright : (moves (.seq m n) entered s (u ++ [c])).right = .idle) :
    moves (.seq m n) entered s (u ++ [c]) = .idle := by
  rw [moves_concat, shift_seq] at hleft hright ⊢
  rw [left_join] at hleft
  rw [right_join] at hright
  rw [hleft, hright]
  rfl

theorem moves_alt_idle (m n : Machine α A) (entered : Bool) (s : Live) (u : List α) (c : α)
    (hleft : moves m entered s.left (u ++ [c]) = .idle)
    (hright : moves n entered s.right (u ++ [c]) = .idle) :
    moves (.alt m n) entered s (u ++ [c]) = .idle := by
  rcases moves_alt m n entered s (u ++ [c]) with ⟨hl, hr⟩
  rw [hleft] at hl
  rw [hright] at hr
  rw [moves_concat, shift_alt] at hl hr ⊢
  rw [left_join] at hl
  rw [right_join] at hr
  rw [hl, hr]
  rfl

/-- A word of the first alternative on which the second does nothing and dies. -/
theorem Reads.alt_silent {m n : Machine α A} {L : α → Bool} {w : List α} {next : Option α}
    {tr : List (List A)} {out : List A} (hm : Reads m L w next tr out)
    (hsilent : does n L true .idle w = List.replicate w.length [])
    (hdead : moves n true .idle w = .idle) (hstays : Stays n L true .idle w) :
    Reads (.alt m n) L w next tr out := by
  rcases moves_alt m n true .idle w with ⟨hl, hr⟩
  rw [left_idle] at hl
  rw [right_idle, hdead] at hr
  refine ⟨?_, ?_, ?_, ?_, ?_⟩
  · rw [does_alt_silent m n L true .idle w (by rw [right_idle]; exact hsilent), left_idle,
      hm.actions]
  · rw [final_alt, hl, hm.accepted]
    rfl
  · refine stays_alt m n L _ _ _ ?_ ?_
    · rw [left_idle]
      exact hm.stays
    · rw [right_idle]
      exact hstays
  · rw [fires_alt, hl, hr, hm.leaves, fires_idle, List.append_nil]
  · rw [shift_alt, hl, hr, hm.ended, shift_idle]
    rfl

theorem Passes.alt_silent {m n : Machine α A} {L : α → Bool} {c : α} {w : List α}
    {next : Option α} {full : List (List A)} (hm : Passes m L (c :: w) next full)
    (hsilent : does n L true .idle (c :: w) = List.replicate (c :: w).length [])
    (hdead : moves n true .idle (c :: w) = .idle) (hstays : Stays n L true .idle (c :: w)) :
    Passes (.alt m n) L (c :: w) next full := by
  cases hm with
  | reads w next tr out h => exact (h.alt_silent hsilent hdead hstays).passes

end Ragel

end Lib
