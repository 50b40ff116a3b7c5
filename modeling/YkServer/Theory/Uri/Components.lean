import YkServer.Theory.Uri.Machine
import YkServer.Theory.Util.Decimal

/-!
# The Components of a URI

What the actions on a URI store.

The actions are followed from left to right. Those on the last character of a part are held back,
because the part behind it may be empty, and then its actions are on the same character. A mark
that is already where it is set anew makes no difference, so that nothing is lost where an action
is executed once for several parts.

The components are exact but for the userinfo. `saveUserinfo` takes the text from the mark, and the
mark is where the userinfo starts unless a port could have started behind its first `:`.

## Main definitions

* `UriParser.advance`: The actions on a part, with those held back.
* `UriParser.Settles`, `UriParser.Leads`: What the actions held back come to.
* `UriParser.kept`: What is kept of a userinfo.
* `Components.Valid`: The URIs that should be read.
* `Components.uri`, `Components.found`: The components of a text, and those that are stored.

## Theorems

* `advance_followedBy`: One part and then another.
* `create_ok`: From the actions to `Create`.
* `perform_saveHost`, `perform_savePort` and the like: Single actions.
* `advance_hostPort`, `advance_guess`, `advance_authority`: Authorities.
* `advance_path`, `advance_optional`: What is behind them.
* `Components.create_text`: What `Create` makes of a URI.
-/

namespace YkServer

open Lib Lib.Ragel

namespace UriParser

open HttpParser (digit)

/-! ## Actions one after another -/

/-- The actions on the characters from a position on. Those on the last character are held back,
    behind the ones held back before. -/
def advance (s : List UInt8) : Nat → List Action → List (List Action) →
    Prog UriError UriParser (List Action)
  | _, pending, [] => pure pending
  | p, pending, as :: tr =>
    if tr = [] then pure (pending ++ as)
    else do
      performAll s p (pending ++ as).eraseDups
      advance s (p + 1) [] tr

theorem advance_singleton (s : List UInt8) (p : Nat) (pending as : List Action) (q : UriParser) :
    advance s p pending [as] q = .ok (pending ++ as) q := rfl

theorem advance_cons (s : List UInt8) (p : Nat) (pending as out : List Action)
    (tr : List (List Action)) (q q₁ q₂ : UriParser) (htr : tr ≠ [])
    (h : performAll s p (pending ++ as).eraseDups q = .ok () q₁)
    (hrest : advance s (p + 1) [] tr q₁ = .ok out q₂) :
    advance s p pending (as :: tr) q = .ok out q₂ := by
  rw [advance, if_neg htr, bind_ok _ _ _ _ _ h, hrest]

theorem advance_cons_inv (s : List UInt8) (p : Nat) (pending as out : List Action)
    (tr : List (List Action)) (q q₂ : UriParser) (htr : tr ≠ [])
    (h : advance s p pending (as :: tr) q = .ok out q₂) :
    ∃ q₁, performAll s p (pending ++ as).eraseDups q = .ok () q₁ ∧
      advance s (p + 1) [] tr q₁ = .ok out q₂ := by
  rw [advance, if_neg htr] at h
  rcases bind_eq_ok _ _ _ _ _ h with ⟨⟨⟩, q₁, h₁, h₂⟩
  exact ⟨q₁, h₁, h₂⟩

/-- Characters on which nothing is executed. -/
theorem advance_plain (s : List UInt8) (p n : Nat) (out : List Action) (q : UriParser) :
    advance s p [] (List.replicate n [] ++ [out]) q = .ok out q := by
  induction n generalizing p with
  | zero => rfl
  | succ n ih =>
      rw [List.replicate_succ, List.cons_append]
      exact advance_cons _ _ _ _ _ _ _ _ _ (by simp) rfl (ih (p + 1))

theorem advance_tag (s : List UInt8) (p : Nat) (pending as : List Action)
    (tr : List (List Action)) (htr : tr ≠ []) (q : UriParser) :
    advance s p pending (tag as tr) q = advance s p (pending ++ as) tr q := by
  cases tr with
  | nil => exact absurd rfl htr
  | cons bs tr => rw [tag, advance, advance, List.append_assoc]

/-- One word and then another. -/
theorem advance_followedBy (s : List UInt8) (p n : Nat) (pending as out : List Action)
    (f g : List (List Action)) (q q₁ q₂ : UriParser) (hn : f.length = n + 1) (hg : g ≠ [])
    (hf : advance s p pending f q = .ok as q₁) (h : advance s (p + n) as g q₁ = .ok out q₂) :
    advance s p pending (followedBy f g) q = .ok out q₂ := by
  induction f generalizing p n pending q with
  | nil => cases hn
  | cons xs f ih =>
      cases f with
      | nil =>
          rw [advance_singleton] at hf
          cases hf
          cases hn
          rw [followedBy_singleton, advance_tag _ _ _ _ _ hg]
          exact h
      | cons ys f =>
          rcases advance_cons_inv _ _ _ _ _ _ _ _ (List.cons_ne_nil _ _) hf with ⟨q', h₁, h₂⟩
          rcases n with _ | n
          · cases hn
          have hfollowed : followedBy (xs :: ys :: f) g = xs :: followedBy (ys :: f) g := by
            simp [followedBy]
          have hne : followedBy (ys :: f) g ≠ [] := by
            rw [followedBy]
            cases g with
            | nil => exact absurd rfl hg
            | cons z g => simp [tag]
          rw [hfollowed]
          refine advance_cons _ _ _ _ _ _ _ _ _ hne h₁ (ih (p + 1) n [] q' ?_ h₂ ?_)
          · exact Nat.succ.inj hn
          · rw [Nat.add_right_comm, Nat.add_assoc]
            exact h

/-! ## The loop -/

theorem exec_ok (s rest : List UInt8) (p : Nat) (entered : Bool) (live : Live) (out as : List Action)
    (q q' : UriParser) (hfinal : final main (moves main entered live rest) = true)
    (h : advance s p [] (does main (fun _ => false) entered live rest ++ [out]) q = .ok as q') :
    exec s rest p entered live q = .ok (some (moves main entered live rest)) q' ∧ as = out := by
  induction rest generalizing p entered live q with
  | nil =>
      rw [does, List.nil_append, advance_singleton] at h
      cases h
      exact ⟨rfl, rfl⟩
  | cons c rest ih =>
      have hlive : shift main entered live (some c) ≠ .idle := by
        intro hidle
        rw [moves, hidle, moves_idle, final_idle] at hfinal
        cases hfinal
      rw [does, List.cons_append] at h
      rcases advance_cons_inv _ _ _ _ _ _ _ _ (by simp) h with ⟨q₁, h₁, h₂⟩
      rcases ih (p + 1) false _ q₁ hfinal h₂ with ⟨hexec, hout⟩
      rw [List.nil_append] at h₁
      rw [exec, if_neg hlive, actions, bind_ok _ _ _ _ _ h₁, hexec]
      exact ⟨rfl, hout⟩

/-- A text that the machine accepts. -/
theorem create_ok (s : List UInt8) (full : List (List Action)) (hs : s ≠ [])
    (h : Passes main (fun _ => false) s none full) (out : List Action) (q q' : UriParser)
    (hadvance : advance s 0 [] full ⟨none, Uri.new⟩ = .ok out q)
    (hend : performAll s s.length out.eraseDups q = .ok () q') :
    Uri.create s ⟨none, Uri.new⟩ = .ok (some q'.uri) q' := by
  cases h with
  | skips next hnull hfirst => exact absurd rfl hs
  | reads w next tr out' h =>
      have hacc := h.accepted
      rw [← h.actions] at hadvance
      rcases exec_ok s s 0 true .idle out' out _ q hacc hadvance with ⟨hexec, rfl⟩
      have hempty : s.isEmpty = false := List.isEmpty_eq_false_iff.2 hs
      rw [Uri.create, bind_ok _ _ _ _ _ hexec]
      simp only [hacc, Bool.true_or, if_true, actions, hempty, h.leaves]
      rw [bind_ok _ _ _ _ _ hend, bind_ok _ _ _ _ _ (get_apply _)]
      rfl

/-! ## Single actions -/

theorem performAll_cons (s : List UInt8) (p : Nat) (a : Action) (as : List Action)
    (q q₁ q₂ : UriParser) (h : perform s p a q = .ok () q₁)
    (hrest : performAll s p as q₁ = .ok () q₂) : performAll s p (a :: as) q = .ok () q₂ := by
  rw [performAll, bind_ok _ _ _ _ _ h, hrest]

theorem performAll_singleton (s : List UInt8) (p : Nat) (a : Action) (q q' : UriParser)
    (h : perform s p a q = .ok () q') : performAll s p [a] q = .ok () q' :=
  performAll_cons s p a [] q q' q' h rfl

section Marked

variable {s w post : List UInt8} {m : Nat} (h : s.drop m = w ++ post)
include h

/-- The text between the mark and a position. -/
theorem marked_ok (u : Uri) : marked s (m + w.length) ⟨some m, u⟩ = .ok w ⟨some m, u⟩ := by
  rw [marked, bind_ok _ _ _ _ _ (get_apply _)]
  have hnot : ¬ m + w.length < m := by omega
  simp only [if_neg hnot, Nat.add_sub_cancel_left, h, List.take_left]
  rfl

theorem drop_behind : s.drop (m + w.length) = post := by
  rw [← List.drop_drop, h, List.drop_left]

theorem perform_saveScheme (u : Uri) : perform s (m + w.length) .saveScheme ⟨some m, u⟩ =
    .ok () ⟨none, { u with m_scheme := w }⟩ := by
  rw [perform, bind_ok _ _ _ _ _ (marked_ok h u)]
  rfl

theorem perform_savePath (u : Uri) : perform s (m + w.length) .savePath ⟨some m, u⟩ =
    .ok () ⟨none, { u with m_path := w }⟩ := by
  rw [perform, bind_ok _ _ _ _ _ (marked_ok h u)]
  rfl

theorem perform_saveQuery (u : Uri) : perform s (m + w.length) .saveQuery ⟨some m, u⟩ =
    .ok () ⟨none, { u with m_query := w }⟩ := by
  rw [perform, bind_ok _ _ _ _ _ (marked_ok h u)]
  rfl

theorem perform_saveFragment (u : Uri) : perform s (m + w.length) .saveFragment ⟨some m, u⟩ =
    .ok () ⟨none, { u with m_fragment := w }⟩ := by
  rw [perform, bind_ok _ _ _ _ _ (marked_ok h u)]
  rfl

theorem perform_saveHost (u : Uri) : perform s (m + w.length) .saveHost ⟨some m, u⟩ =
    .ok () ⟨some m, { u with m_host := w }⟩ := by
  rw [perform, bind_ok _ _ _ _ _ (get_apply _)]
  simp only [Option.isSome_some, if_true]
  rw [bind_ok _ _ _ _ _ (marked_ok h u)]
  rfl

theorem perform_saveUserinfo (u : Uri) : perform s (m + w.length) .saveUserinfo ⟨some m, u⟩ =
    .ok () ⟨none, { u with m_userinfo := w }⟩ := by
  rw [perform, bind_ok _ _ _ _ _ (get_apply _)]
  simp only [Option.isSome_some, if_true]
  rw [bind_ok _ _ _ _ _ (marked_ok h u)]
  rfl

end Marked

/-! ## Ports -/

theorem atoi_digits (d post : List UInt8) (hne : d ≠ []) (hd : ∀ c ∈ d, digit c = true)
    (hpost : ∀ c ∈ post.head?, digit c = false) (hle : decimal d ≤ 65535) :
    atoi (d ++ post) = some (decimal d : Int) := by
  have hleading := leading_digits d post hne (fun c hc => by rw [← digit_eq, hd c hc])
    (fun c hc => by rw [← digit_eq, hpost c hc])
  rcases d with _ | ⟨c, d⟩
  · exact absurd rfl hne
  · have hc := hd c List.mem_cons_self
    have hspace := not_isSpace_of_isDigit c (by rw [← digit_eq, hc])
    have hsign : c ≠ 45 ∧ c ≠ 43 := by
      refine ⟨?_, ?_⟩ <;> rintro rfl <;> exact absurd hc (by decide)
    rw [List.cons_append] at hleading ⊢
    rw [atoi, List.dropWhile_cons_of_neg (Bool.eq_false_iff.1 hspace)]
    split
    case h_1 hminus => exact absurd (List.cons.inj hminus).1 hsign.1
    case h_2 hplus => exact absurd (List.cons.inj hplus).1 hsign.2
    case h_3 =>
      rw [hleading, Option.getD_some, if_pos (by omega)]

theorem perform_savePort (s d post : List UInt8) (m : Nat) (h : s.drop m = d ++ post) (u : Uri)
    (hne : d ≠ []) (hd : ∀ c ∈ d, digit c = true) (hpost : ∀ c ∈ post.head?, digit c = false)
    (hle : decimal d ≤ 65535) :
    perform s (m + d.length) .savePort ⟨some m, u⟩ =
      .ok () ⟨none, { u with m_port := decimal d }⟩ := by
  have hmoved : m + d.length ≠ m := by
    have hlen := List.length_pos_iff.2 hne
    omega
  rw [perform, bind_ok _ _ _ _ _ (get_apply _)]
  simp only [if_pos hmoved, h, atoi_digits d post hne hd hpost hle]
  rfl

/-! ## Words between two actions -/

/-- The held back actions and a mark leave the components `u`. -/
def Settles (s : List UInt8) (p : Nat) (pending : List Action) (q : UriParser) (u : Uri) : Prop :=
  performAll s p (pending ++ [Action.markh]).eraseDups q = .ok () ⟨some p, u⟩ ∧
    performAll s p (pending ++ [Action.markh, Action.savePath]).eraseDups q =
      .ok () ⟨none, { u with m_path := [] }⟩

/-- The held back actions leave the components `u`. -/
def Leads (s : List UInt8) (p : Nat) (pending : List Action) (q : UriParser) (u : Uri) : Prop :=
  performAll s p pending.eraseDups q = .ok () ⟨none, u⟩

theorem length_marks (a b : Action) (w : List UInt8) : (marks a b w).length = w.length + 1 := by
  cases w with
  | nil => rfl
  | cons c w => simp [marks, followedBy, tag, List.replicate_succ]

theorem marks_cons (a b : Action) (c : UInt8) (w : List UInt8) :
    marks a b (c :: w) = [a] :: (List.replicate w.length [] ++ [[b]]) := by
  rw [marks, List.length_cons, List.replicate_succ, List.replicate_succ', tag, List.append_nil,
    ← List.cons_append, followedBy_concat, tag, List.nil_append, List.cons_append]

/-- A word that is not empty: the first action is executed and the second held back. -/
theorem advance_marks (s : List UInt8) (p : Nat) (pending : List Action) (a b : Action)
    (w : List UInt8) (hw : w ≠ []) (q q' : UriParser)
    (h : performAll s p (pending ++ [a]).eraseDups q = .ok () q') :
    advance s p pending (marks a b w) q = .ok [b] q' := by
  rcases w with _ | ⟨c, w⟩
  · exact absurd rfl hw
  · rw [marks_cons]
    exact advance_cons _ _ _ _ _ _ _ _ _ (by simp) h (advance_plain s (p + 1) _ _ _)

/-- Nothing is executed on an empty word, and both actions are held back. -/
theorem advance_marks_nil (s : List UInt8) (p : Nat) (pending : List Action) (a b : Action)
    (q : UriParser) : advance s p pending (marks a b []) q = .ok (pending ++ [a, b]) q := rfl

/-- A path that is empty. -/
theorem perform_noPath (s : List UInt8) (p : Nat) (q : UriParser) :
    performAll s p [.markh, .savePath] q = .ok () ⟨none, { q.uri with m_path := [] }⟩ := by
  have hpath : s.drop p = [] ++ s.drop p := rfl
  exact performAll_cons _ _ _ _ _ _ _ rfl
    (performAll_singleton _ _ _ _ _ (perform_savePath hpath q.uri))

/-! ## Behind the authority -/

theorem drop_succ (s rest : List UInt8) (c : UInt8) (p : Nat) (h : s.drop p = c :: rest) :
    s.drop (p + 1) = rest := by
  rw [← List.drop_drop, h, List.drop_one, List.tail_cons]

theorem advance_path (s w post : List UInt8) (p : Nat) (pending : List Action) (q : UriParser)
    (u : Uri) (h : s.drop p = w ++ post) (hq : Settles s p pending q u) :
    ∃ out q', advance s p pending (marks .markh .savePath w) q = .ok out q' ∧
      Leads s (p + w.length) out q' { u with m_path := w } := by
  by_cases hw : w = []
  · subst hw
    exact ⟨_, q, advance_marks_nil s p pending .markh .savePath q, hq.2⟩
  · refine ⟨_, _, advance_marks s p pending .markh .savePath w hw q _ hq.1, ?_⟩
    exact performAll_singleton _ _ _ _ _ (perform_savePath h u)

/-- An optional part that is saved by `a` as `set` says. -/
theorem advance_optional (s : List UInt8) (a : Action) (set : List UInt8 → Uri → Uri)
    (hsave : ∀ v post m u, s.drop m = v ++ post →
      perform s (m + v.length) a ⟨some m, u⟩ = .ok () ⟨none, set v u⟩)
    (b : UInt8) (w : Option (List UInt8)) (post : List UInt8) (p : Nat) (pending : List Action)
    (q : UriParser) (u : Uri) (hne : ∀ v ∈ w, v ≠ []) (h : s.drop p = optText b w ++ post)
    (hq : Leads s p pending q u) :
    ∃ out q', advance s p pending (optMarks .marku a w) q = .ok out q' ∧
      Leads s (p + (optText b w).length) out q' (w.elim u (set · u)) := by
  cases w with
  | none =>
      refine ⟨_, q, rfl, ?_⟩
      rw [List.append_nil]
      exact hq
  | some v =>
      have hv := drop_succ s (v ++ post) b p h
      refine ⟨[a], ⟨some (p + 1), u⟩, ?_, ?_⟩
      · refine advance_cons _ _ _ _ _ _ _ ⟨none, u⟩ _ ?_ ?_ ?_
        · exact List.ne_nil_of_length_eq_add_one (length_marks _ _ v)
        · rw [List.append_nil]
          exact hq
        · exact advance_marks s (p + 1) [] .marku a v (hne v rfl) _ _ rfl
      · rw [optText, List.length_cons, Nat.add_comm v.length, ← Nat.add_assoc]
        exact performAll_singleton _ _ _ _ _ (hsave v post (p + 1) u hv)

/-! ## Hosts and ports -/

/-- A mark that is set anyway is not set twice. -/
theorem eraseDups_markh (pending as : List Action) (h : pending = [] ∨ pending = [.markh]) :
    (pending ++ Action.markh :: as).eraseDups = (Action.markh :: as).eraseDups := by
  rcases h with rfl | rfl
  · rfl
  · simp [List.eraseDups_cons]

theorem advance_host (s w post : List UInt8) (p : Nat) (pending : List Action) (q : UriParser)
    (h : s.drop p = w ++ post) (hpending : pending = [] ∨ pending = [.markh]) :
    ∃ out q', advance s p pending (marks .markh .saveHost w) q = .ok out q' ∧
      Settles s (p + w.length) out q' { q.uri with m_host := w } ∧
      performAll s (p + w.length) out.eraseDups q' =
        .ok () ⟨some p, { q.uri with m_host := w }⟩ := by
  by_cases hw : w = []
  · subst hw
    have hhost : perform s p .saveHost ⟨some p, q.uri⟩ =
        .ok () ⟨some p, { q.uri with m_host := [] }⟩ := perform_saveHost h q.uri
    have hpath : perform s p .savePath ⟨some p, { q.uri with m_host := [] }⟩ =
        .ok () ⟨none, { q.uri with m_host := [], m_path := [] }⟩ := perform_savePath h _
    -- The mark for the path is where the one for the host is.
    have hdups : [Action.markh, .saveHost, .markh].eraseDups = [.markh, .saveHost] ∧
        [Action.markh, .saveHost, .markh, .savePath].eraseDups = [.markh, .saveHost, .savePath] ∧
        [Action.markh, .saveHost].eraseDups = [.markh, .saveHost] := by
      decide
    have hsaved : performAll s p [.markh, .saveHost] q =
        .ok () ⟨some p, { q.uri with m_host := [] }⟩ :=
      performAll_cons _ _ _ _ _ _ _ rfl (performAll_singleton _ _ _ _ _ hhost)
    refine ⟨_, q, advance_marks_nil s p pending .markh .saveHost q, ⟨?_, ?_⟩, ?_⟩
    · rw [List.append_assoc, List.cons_append, eraseDups_markh _ _ hpending]
      exact hdups.1 ▸ hsaved
    · rw [List.append_assoc, List.cons_append, eraseDups_markh _ _ hpending]
      refine hdups.2.1 ▸ performAll_cons _ _ _ _ _ _ _ rfl ?_
      exact performAll_cons _ _ _ _ _ _ _ hhost (performAll_singleton _ _ _ _ _ hpath)
    · rw [eraseDups_markh _ _ hpending]
      exact hdups.2.2 ▸ hsaved
  · have hhost := perform_saveHost h q.uri
    refine ⟨_, ⟨some p, q.uri⟩, advance_marks s p pending .markh .saveHost w hw q _ ?_, ⟨?_, ?_⟩, ?_⟩
    · rw [eraseDups_markh _ _ hpending]
      rfl
    · exact performAll_cons _ _ _ _ _ _ _ hhost rfl
    · exact performAll_cons _ _ _ _ _ _ _ hhost (perform_noPath s _ _)
    · exact performAll_singleton _ _ _ _ _ hhost

/-- The port that is written, or none. -/
def portValue : Option (List UInt8) → Int
  | none => 0
  | some d => decimal d

theorem advance_hostPort (s w post : List UInt8) (port : Option (List UInt8)) (p : Nat)
    (pending : List Action) (q : UriParser) (h : s.drop p = w ++ (optText 58 port ++ post))
    (hpending : pending = [] ∨ pending = [.markh]) (hq : q.uri.m_port = 0)
    (hport : ∀ d ∈ port, d ≠ [] ∧ (∀ c ∈ d, digit c = true) ∧ decimal d ≤ 65535)
    (hpost : ∀ c ∈ post.head?, digit c = false) :
    ∃ out q', advance s p pending (hostMarks w port) q = .ok out q' ∧
      Settles s (p + w.length + (optText 58 port).length) out q'
        { q.uri with m_host := w, m_port := portValue port } := by
  rcases advance_host s w (optText 58 port ++ post) p pending q h hpending with
    ⟨out, q', hadvance, hsettles, hsaved⟩
  have hlen := length_marks .markh .saveHost w
  cases port with
  | none =>
      refine ⟨out ++ [], q', ?_, ?_⟩
      · exact advance_followedBy s p w.length pending out _ _ _ q q' q' hlen
          (List.cons_ne_nil _ _) hadvance rfl
      · have hsame : { q.uri with m_host := w, m_port := portValue none } =
            { q.uri with m_host := w } := by
          rw [portValue, ← hq]
        rw [List.append_nil, hsame]
        exact hsettles
  | some d =>
      rcases hport d rfl with ⟨hne, hd, hle⟩
      have hdigits : s.drop (p + w.length + 1) = d ++ post := drop_succ s _ 58 _ (drop_behind h)
      have hsave := perform_savePort s d post _ hdigits { q.uri with m_host := w } hne hd hpost hle
      refine ⟨[.savePort], ⟨some (p + w.length + 1), { q.uri with m_host := w }⟩, ?_, ?_⟩
      · refine advance_followedBy s p w.length pending out _ _ _ q q' _ hlen
          (List.cons_ne_nil _ _) hadvance ?_
        refine advance_cons _ _ _ _ _ _ _ ⟨some p, { q.uri with m_host := w }⟩ _ ?_ ?_
          (advance_marks s _ [] .markh .savePort d hne _ _ rfl)
        · exact List.ne_nil_of_length_eq_add_one (length_marks _ _ d)
        · rw [List.append_nil]
          exact hsaved
      · rw [optText, List.length_cons, Nat.add_comm d.length, ← Nat.add_assoc]
        exact ⟨performAll_cons _ _ _ _ _ _ _ hsave rfl,
          performAll_cons _ _ _ _ _ _ _ hsave (perform_noPath s _ _)⟩

/-! ## Userinfos -/

/-- What is kept of a userinfo: only what is behind the first `:`, if that is a digit. -/
def kept (u : List UInt8) : List UInt8 :=
  if (behindColon u).head?.any digit then behindColon u else u

/-- Some entries are executed, the last one included, before others. -/
theorem advance_append (s : List UInt8) (p : Nat) (pending as out out' : List Action)
    (f g : List (List Action)) (q q₁ q₂ q₃ : UriParser) (hg : g ≠ [])
    (hf : advance s p pending (f ++ [as]) q = .ok out q₁)
    (hlast : performAll s (p + f.length) out.eraseDups q₁ = .ok () q₂)
    (h : advance s (p + f.length + 1) [] g q₂ = .ok out' q₃) :
    advance s p pending (f ++ [as] ++ g) q = .ok out' q₃ := by
  have hfollowed : f ++ [as] ++ g = followedBy (f ++ [as]) ([] :: g) := by
    rw [followedBy_concat, tag, List.append_nil, List.append_assoc, List.singleton_append]
  rw [hfollowed]
  refine advance_followedBy s p f.length pending out _ _ _ q q₁ q₃ (by simp)
    (List.cons_ne_nil _ _) hf ?_
  refine advance_cons _ _ _ _ _ _ _ q₂ _ hg ?_ h
  rw [List.append_nil]
  exact hlast

/-- The text behind a `:` in a userinfo, which could be a port. -/
theorem advance_portGuess (s b post : List UInt8) (p : Nat) (m : Nat) (u : Uri)
    (h : s.drop p = b ++ post) :
    advance s p [] (portGuess b ++ [[.saveUserinfo]]) ⟨some m, u⟩ =
      .ok [.saveUserinfo] ⟨some (if b.head?.any digit then p else m), u⟩ := by
  cases b with
  | nil => rfl
  | cons d b =>
      rw [portGuess, List.length_cons, List.replicate_succ, tag, List.append_nil, List.cons_append]
      refine advance_cons _ _ _ _ _ _ _ _ _ (by simp) ?_ (advance_plain s (p + 1) _ _ _)
      cases hdigit : (d :: b).head?.any digit <;> rfl

theorem advance_guess (s v post : List UInt8) (p : Nat) (q : UriParser)
    (h : s.drop p = v ++ post) :
    ∃ out q' host, advance s p [.markh] (guess v ++ [[.saveUserinfo]]) q = .ok out q' ∧
      performAll s (p + v.length) out.eraseDups q' =
        .ok () ⟨none, { q.uri with m_userinfo := kept v, m_host := host }⟩ := by
  by_cases hcolon : 58 ∈ v
  · have hsplit := split_colon v hcolon
    rw [guess, if_pos hcolon]
    rw [kept]
    generalize v.takeWhile (· != 58) = a at hsplit ⊢
    generalize behindColon v = b at hsplit ⊢
    subst hsplit
    have hfront : s.drop p = a ++ (58 :: (b ++ post)) := by
      rw [h, List.append_assoc, List.cons_append]
    have hbehind : s.drop (p + a.length + 1) = b ++ post :=
      drop_succ s _ 58 _ (drop_behind hfront)
    rcases advance_host s a _ p [.markh] q hfront (Or.inr rfl) with ⟨out, q₁, hadvance, -, hsaved⟩
    have hguess := advance_portGuess s b post (p + a.length + 1) p { q.uri with m_host := a } hbehind
    have hfollowed : followedBy (marks .markh .saveHost a) ([] :: portGuess b) ++
        [[.saveUserinfo]] = followedBy (marks .markh .saveHost a)
          ([] :: (portGuess b ++ [[.saveUserinfo]])) := by
      rw [followedBy, followedBy, tag, tag, List.append_assoc, List.cons_append]
    refine ⟨[.saveUserinfo], ⟨some (if b.head?.any digit then p + a.length + 1 else p),
      { q.uri with m_host := a }⟩, a, ?_, ?_⟩
    · rw [hfollowed]
      refine advance_followedBy s p a.length _ out _ _ _ q q₁ _ (length_marks _ _ a)
        (List.cons_ne_nil _ _) hadvance ?_
      refine advance_cons _ _ _ _ _ _ _ _ _ (by simp) ?_ hguess
      rw [List.append_nil]
      exact hsaved
    · refine performAll_singleton _ _ _ _ _ ?_
      have hlen : (a ++ 58 :: b).length = a.length + 1 + b.length := by
        rw [List.length_append, List.length_cons, Nat.add_comm b.length, Nat.add_assoc]
      -- The mark is where the userinfo starts, unless a port could have started since.
      split
      · rw [hlen, ← Nat.add_assoc, ← Nat.add_assoc]
        exact perform_saveUserinfo hbehind _
      · exact perform_saveUserinfo h _
  · have hkept : kept v = v := by
      have hnone : v.dropWhile (· != 58) = [] := by
        rw [List.dropWhile_eq_nil_iff]
        exact fun c hc => bne_iff_ne.2 (fun heq => hcolon (heq ▸ hc))
      rw [kept, behindColon, hnone]
      rfl
    have hsave := perform_saveUserinfo h q.uri
    rw [guess, if_neg hcolon, hkept]
    rcases v with _ | ⟨c, v⟩
    · exact ⟨_, q, q.uri.m_host, rfl,
        performAll_cons _ _ _ _ _ _ _ rfl (performAll_singleton _ _ _ _ _ hsave)⟩
    · refine ⟨[.saveUserinfo], ⟨some p, q.uri⟩, q.uri.m_host, ?_,
        performAll_singleton _ _ _ _ _ hsave⟩
      rw [List.length_cons, List.replicate_succ, tag, List.append_nil, List.cons_append]
      exact advance_cons _ _ _ _ _ _ _ _ _ (by simp) rfl (advance_plain s (p + 1) _ _ _)

/-! ## Lengths -/

theorem length_tag (as : List Action) (tr : List (List Action)) :
    (tag as tr).length = tr.length := by
  cases tr <;> rfl

theorem length_followedBy (f g : List (List Action)) :
    (followedBy f g).length = f.length - 1 + g.length := by
  rw [followedBy, List.length_append, List.length_dropLast, length_tag]

theorem length_optMarks (a b : Action) (x : UInt8) (w : Option (List UInt8)) :
    (optMarks a b w).length = (optText x w).length + 1 := by
  cases w with
  | none => rfl
  | some v => rw [optMarks, optText, List.length_cons, length_marks, List.length_cons]

theorem length_hostMarks (w : List UInt8) (port : Option (List UInt8)) :
    (hostMarks w port).length = w.length + (optText 58 port).length + 1 := by
  rw [hostMarks, length_followedBy, length_marks, length_optMarks _ _ 58]
  omega

theorem length_guess (v : List UInt8) : (guess v).length = v.length := by
  rw [guess]
  split
  case isTrue hcolon =>
    have hsplit := congrArg List.length (split_colon v hcolon)
    rw [List.length_append, List.length_cons] at hsplit
    rw [length_followedBy, length_marks, List.length_cons, portGuess, length_tag,
      List.length_replicate]
    omega
  case isFalse => rw [length_tag, List.length_replicate]

theorem length_userMarks (u : Option (List UInt8)) :
    (userMarks u).length = (userText u).length := by
  cases u with
  | none => rfl
  | some v =>
      rw [userMarks, userText, List.length_append, List.length_append, length_guess]
      rfl

theorem length_tailMarks (q f : Option (List UInt8)) :
    (tailMarks q f).length = (tailText q f).length + 1 := by
  rw [tailMarks, tailText, length_followedBy, length_optMarks _ _ 63, length_optMarks _ _ 35,
    List.length_append]
  rfl

/-! ## Authorities -/

theorem advance_authority (s post : List UInt8) (u : Option (List UInt8)) (w : List UInt8)
    (port : Option (List UInt8)) (p : Nat) (q : UriParser)
    (h : s.drop p = userText u ++ (w ++ optText 58 port) ++ post) (hq : q.uri.m_port = 0)
    (huser : q.uri.m_userinfo = [])
    (hport : ∀ d ∈ port, d ≠ [] ∧ (∀ c ∈ d, digit c = true) ∧ decimal d ≤ 65535)
    (hpost : ∀ c ∈ post.head?, digit c = false) :
    ∃ out q', advance s p [] (tag [.markh] (userMarks u ++ hostMarks w port)) q = .ok out q' ∧
      Settles s (p + (userText u ++ (w ++ optText 58 port)).length) out q'
        { q.uri with m_userinfo := u.elim [] kept, m_host := w, m_port := portValue port } := by
  have hhost : hostMarks w port ≠ [] := List.ne_nil_of_length_eq_add_one (length_hostMarks w port)
  rw [advance_tag _ _ _ _ _ (List.append_ne_nil_of_right_ne_nil _ hhost)]
  rw [List.append_assoc, List.append_assoc] at h
  cases u with
  | none =>
      rcases advance_hostPort s w post port p [.markh] q h (Or.inr rfl) hq hport hpost with
        ⟨out, q', hadvance, hsettles⟩
      refine ⟨out, q', hadvance, ?_⟩
      rw [userText, List.nil_append, List.length_append, ← Nat.add_assoc, Option.elim_none, ← huser]
      exact hsettles
  | some v =>
      rw [userText, List.append_assoc, List.singleton_append] at h
      rcases advance_guess s v _ p q h with ⟨out₁, q₁, host, hguess, hsaved⟩
      have hbehind := drop_succ s _ 64 _ (drop_behind h)
      rcases advance_hostPort s w post port (p + v.length + 1) []
        ⟨none, { q.uri with m_userinfo := kept v, m_host := host }⟩ hbehind (Or.inl rfl) hq hport
        hpost with ⟨out, q', hadvance, hsettles⟩
      refine ⟨out, q', ?_, ?_⟩
      · refine advance_append s p [.markh] [.saveUserinfo] out₁ out (guess v) _ q q₁
          ⟨none, { q.uri with m_userinfo := kept v, m_host := host }⟩ q' hhost hguess ?_ ?_
        · rw [length_guess]
          exact hsaved
        · rw [length_guess]
          exact hadvance
      · have hlen : p + (userText (some v) ++ (w ++ optText 58 port)).length =
            p + v.length + 1 + w.length + (optText 58 port).length := by
          simp [userText]
          omega
        rw [hlen]
        exact hsettles

end UriParser

open UriParser
open HttpParser (digit)

namespace Components

/-- The components `Create` finds in a text. -/
def found (c : Components) : Uri where
  m_scheme := c.scheme
  m_userinfo := c.userinfo.elim [] kept
  m_host := c.host
  m_path := c.path
  m_query := c.query.getD []
  m_fragment := c.fragment.getD []
  m_port := portValue c.port

/-- The components a text is put together from. -/
def uri (c : Components) : Uri := { c.found with m_userinfo := c.userinfo.getD [] }

/-- A URI as `Create` should read it: every part in its class, a port from 1 to 65535, and neither
    an empty query nor an empty fragment. -/
structure Valid (c : Components) : Prop extends c.InGrammar where
  portRange : ∀ d ∈ c.port, 1 ≤ decimal d ∧ decimal d ≤ 65535
  queryText : ∀ v ∈ c.query, v ≠ []
  fragmentText : ∀ v ∈ c.fragment, v ≠ []

theorem Valid.digits {c : Components} (hc : c.Valid) :
    ∀ d ∈ c.port, d ≠ [] ∧ (∀ e ∈ d, digit e = true) ∧ decimal d ≤ 65535 := by
  intro d hd
  refine ⟨?_, (hc.port d hd).takes, (hc.portRange d hd).2⟩
  rintro rfl
  exact absurd (hc.portRange [] hd).1 (by decide)

theorem advance_hier (c : Components) (hc : c.Valid) (s post : List UInt8) (p : Nat)
    (q : UriParser) (h : s.drop p = c.hierText ++ post) (hq : q.uri.m_port = 0)
    (huser : q.uri.m_userinfo = []) (hpost : ∀ d ∈ post.head?, digit d = false) :
    ∃ out q', advance s p [] (hierMarks c.userinfo c.host c.port c.path) q = .ok out q' ∧
      Leads s (p + c.hierText.length) out q'
        { q.uri with
          m_userinfo := c.userinfo.elim [] kept
          m_host := c.host
          m_path := c.path
          m_port := portValue c.port } := by
  rw [hierText, List.cons_append, List.cons_append, List.append_assoc] at h
  have hslashes := drop_succ s _ 47 _ (drop_succ s _ 47 p h)
  have hnodigit : ∀ d ∈ (c.path ++ post).head?, digit d = false := by
    intro d hd
    cases hpath : c.path with
    | nil =>
        rw [hpath] at hd
        exact hpost d hd
    | cons e w =>
        rw [hpath] at hd
        have hslash := head_path c.path hc.path e (by rw [hpath]; rfl)
        rw [← Option.some.inj hd, hslash]
        rfl
  rcases advance_authority s (c.path ++ post) c.userinfo c.host c.port (p + 1 + 1) q hslashes hq
    huser hc.digits hnodigit with ⟨out₁, q₁, hauthority, hsettles⟩
  rcases advance_path s c.path post _ out₁ q₁ _ (drop_behind hslashes) hsettles with
    ⟨out, q', hpath, hleads⟩
  have hlen : (tag [.markh] (userMarks c.userinfo ++ hostMarks c.host c.port)).length =
      (userText c.userinfo ++ (c.host ++ optText 58 c.port)).length + 1 := by
    rw [length_tag, List.length_append, length_userMarks, length_hostMarks, List.length_append,
      List.length_append]
    rfl
  have hfollowed := advance_followedBy s (p + 1 + 1) _ [] out₁ out _ _ q q₁ q' hlen
    (List.ne_nil_of_length_eq_add_one (length_marks _ _ c.path)) hauthority hpath
  have hne : followedBy (tag [.markh] (userMarks c.userinfo ++ hostMarks c.host c.port))
      (marks .markh .savePath c.path) ≠ [] := by
    rw [← List.length_pos_iff, length_followedBy, length_marks]
    omega
  refine ⟨out, q', ?_, ?_⟩
  · refine advance_cons _ _ _ _ _ _ _ q _ (List.cons_ne_nil _ _) rfl ?_
    exact advance_cons _ _ _ _ _ _ _ q _ hne rfl hfollowed
  · have hend : p + c.hierText.length = p + 1 + 1 +
        (userText c.userinfo ++ (c.host ++ optText 58 c.port)).length + c.path.length := by
      rw [hierText, List.length_cons, List.length_cons, List.length_append]
      omega
    rw [hend]
    exact hleads

theorem length_hierMarks (c : Components) :
    (hierMarks c.userinfo c.host c.port c.path).length = c.hierText.length + 1 := by
  rw [hierMarks, hierText, List.length_cons, List.length_cons, length_followedBy, length_tag,
    length_marks, List.length_append, length_userMarks, length_hostMarks]
  simp only [List.length_cons, List.length_append]
  omega

theorem advance_tail (c : Components) (hc : c.Valid) (s : List UInt8) (p : Nat)
    (pending : List Action) (q : UriParser) (u : Uri)
    (h : s.drop p = tailText c.query c.fragment) (hquery : u.m_query = [])
    (hfragment : u.m_fragment = []) (hq : Leads s p pending q u) :
    ∃ out q', advance s p pending (tailMarks c.query c.fragment) q = .ok out q' ∧
      Leads s (p + (tailText c.query c.fragment).length) out q'
        { u with m_query := c.query.getD [], m_fragment := c.fragment.getD [] } := by
  have hpart : s.drop (p + (optText 63 c.query).length) = optText 35 c.fragment ++ [] := by
    rw [List.append_nil]
    exact drop_behind h
  rcases advance_optional s .saveQuery (fun v u => { u with m_query := v })
    (fun v post m u hv => perform_saveQuery hv u) 63 c.query _ p pending q u hc.queryText h hq with
    ⟨out₁, q₁, hadvance₁, hleads₁⟩
  rcases advance_optional s .saveFragment (fun v u => { u with m_fragment := v })
    (fun v post m u hv => perform_saveFragment hv u) 35 c.fragment [] _ out₁ q₁ _ hc.fragmentText
    hpart hleads₁ with ⟨out, q', hadvance, hleads⟩
  refine ⟨out, q', ?_, ?_⟩
  · exact advance_followedBy s p _ pending out₁ out _ _ q q₁ q' (length_optMarks _ _ 63 c.query)
      (List.ne_nil_of_length_eq_add_one (length_optMarks _ _ 35 c.fragment)) hadvance₁ hadvance
  · have hset : c.fragment.elim (c.query.elim u fun v => { u with m_query := v })
        (fun v => { c.query.elim u fun v => { u with m_query := v } with m_fragment := v }) =
        { u with m_query := c.query.getD [], m_fragment := c.fragment.getD [] } := by
      cases u
      cases c.query <;> cases c.fragment <;> simp_all
    rw [tailText, List.length_append, ← Nat.add_assoc, ← hset]
    exact hleads

/-- `Create` on the text of a URI. -/
theorem create_text (c : Components) (hc : c.Valid) :
    ∃ q, Uri.create c.text ⟨none, Uri.new⟩ = .ok (some c.found) q := by
  have hsch : c.scheme ≠ [] := by
    intro hnil
    have hacc := hc.scheme
    rw [hnil] at hacc
    cases hacc
  have hstart : c.text.drop 0 = c.scheme ++ 58 :: (c.hierText ++ tailText c.query c.fragment) := rfl
  have hhier := drop_succ c.text _ 58 _ (drop_behind hstart)
  have hscheme := advance_marks c.text 0 [] .marku .saveScheme c.scheme hsch ⟨none, Uri.new⟩
    ⟨some 0, Uri.new⟩ rfl
  have hsaved := performAll_singleton _ _ _ _ _ (perform_saveScheme hstart Uri.new)
  have hnodigit : ∀ d ∈ (tailText c.query c.fragment).head?, digit d = false := by
    intro d hd
    rcases head_tailText c.query c.fragment d (by rw [Option.or_none]; exact hd) with rfl | rfl <;>
      rfl
  rcases advance_hier c hc c.text _ _ ⟨none, { Uri.new with m_scheme := c.scheme }⟩ hhier rfl rfl
    hnodigit with ⟨out₁, q₁, hadvance₁, hleads₁⟩
  rcases advance_tail c hc c.text _ out₁ q₁ _ (drop_behind hhier) rfl rfl hleads₁ with
    ⟨out, q', hadvance, hleads⟩
  have hlen : 0 + c.scheme.length + 1 + c.hierText.length +
      (tailText c.query c.fragment).length = c.text.length := by
    rw [text, List.length_append, List.length_cons, List.length_append]
    omega
  have hmarks := length_marks .marku .saveScheme c.scheme
  have htail : tailMarks c.query c.fragment ≠ [] :=
    List.ne_nil_of_length_eq_add_one (length_tailMarks _ _)
  have hrest := advance_followedBy c.text _ _ [] out₁ out _ _ _ q₁ q' (length_hierMarks c) htail
    hadvance₁ hadvance
  have hfull : advance c.text 0 [] c.marksOf ⟨none, Uri.new⟩ = .ok out q' := by
    refine advance_followedBy c.text 0 _ [] _ out _ _ _ _ q' hmarks (List.cons_ne_nil _ _)
      hscheme ?_
    refine advance_cons _ _ _ _ _ _ _ _ _ ?_ hsaved hrest
    rw [← List.length_pos_iff, length_followedBy, length_tailMarks]
    omega
  have hne : c.text ≠ [] := by
    rw [text]
    exact List.append_ne_nil_of_right_ne_nil _ (List.cons_ne_nil _ _)
  rw [hlen] at hleads
  exact ⟨_, create_ok c.text c.marksOf hne (c.passes_main hc.toInGrammar) out q' _ hfull hleads⟩

end Components

end YkServer
