import Mathlib.Data.List.Induction
import YkServer.Lib.Registry
import YkServer.Core.HttpServlet

/-!
# Which Servlet a Uri Gets

The tables of the dispatcher as a question about the calls made so far.

Every call is an edit of one of the two tables, or of none. The list of patterns is
kept by dropping the first entry of the pattern and adding the new one at the end;
as a pattern is in the list at most once, the list is the one of the live
registrations, in the order they were made. The table of exact uris has what the last
call for the uri left. A lookup therefore finds the registrations that no later call
has touched.

## Main definitions

* `ServletDispatch.exactEdits`, `ServletDispatch.globEdits`: Calls as edits.
* `ServletDispatch.Matches`: A pattern matches a uri.
* `ServletDispatch.History`: What the tables have after some calls.

## Theorems

* `ServletDispatch.history_step`: A call keeps the history.
* `ServletDispatch.history_run`: The tables after any calls.
* `ServletDispatch.lookup_run`: What every lookup finds after any calls.
-/

namespace YkServer.ServletDispatch

open Lib

variable {ω κ σ : Type}

/-- What a call does to the table of exact uris. -/
def exactEdit : Call ω κ σ → List (Edit (List UInt8) (IServletCreator ω κ σ))
  | .addServlet uri slt => [.set uri (holdServletCreator slt)]
  | .addServletFunction uri cb => [.set uri (holdServletCreator (some (.functionServlet cb)))]
  | .addServletCreator uri creator => [.set uri creator]
  | .delServlet uri => [.remove uri]
  | _ => []

/-- What a call does to the list of patterns. -/
def globEdit : Call ω κ σ → List (Edit (List UInt8) (IServletCreator ω κ σ))
  | .addGlobServlet uri slt => [.set uri (holdServletCreator slt)]
  | .addGlobServletFunction uri cb =>
      [.set uri (holdServletCreator (some (.functionServlet cb)))]
  | .addGlobServletCreator uri creator => [.set uri creator]
  | .delGlobServlet uri => [.remove uri]
  | _ => []

/-- The edits of the table of exact uris, in order. -/
def exactEdits (calls : List (Call ω κ σ)) : List (Edit (List UInt8) (IServletCreator ω κ σ)) :=
  calls.flatMap exactEdit

/-- The edits of the list of patterns, in order. -/
def globEdits (calls : List (Call ω κ σ)) : List (Edit (List UInt8) (IServletCreator ω κ σ)) :=
  calls.flatMap globEdit

/-- A pattern matches a uri. -/
def Matches (fnmatch : List UInt8 → List UInt8 → Nat → Int) (pattern uri : List UInt8) : Prop :=
  fnmatch (cStr pattern) (cStr uri) 0 = 0

/-- The tables have the live registrations of some calls. -/
structure History (calls : List (Call ω κ σ)) (d : ServletDispatch ω κ σ) : Prop where
  datas : ∀ uri, d.m_datas uri = liveValue (exactEdits calls) uri
  globs : d.m_globs = live (globEdits calls)

/-! ## A call -/

/-- A call that edits the table of exact uris. -/
theorem history_exact (calls : List (Call ω κ σ)) (d : ServletDispatch ω κ σ)
    (h : History calls d) (call : Call ω κ σ) (e : Edit (List UInt8) (IServletCreator ω κ σ))
    (hexact : exactEdit call = [e]) (hglob : globEdit call = [])
    (hstep : step d call = { d with m_datas := Function.update d.m_datas e.key e.value }) :
    History (calls ++ [call]) (step d call) where
  datas uri := by
    have hupdate : (step d call).m_datas uri
        = if uri = e.key then e.value else d.m_datas uri := by
      rw [hstep]
      exact Function.update_apply d.m_datas e.key e.value uri
    rw [hupdate, exactEdits, List.flatMap_append, List.flatMap_singleton, hexact,
      liveValue_concat, h.datas, exactEdits]
    simp only [beq_iff_eq]
  globs := by
    rw [hstep, globEdits, List.flatMap_append, List.flatMap_singleton, hglob, List.append_nil]
    exact h.globs

/-- A call that edits the list of patterns. -/
theorem history_glob (calls : List (Call ω κ σ)) (d : ServletDispatch ω κ σ)
    (h : History calls d) (call : Call ω κ σ) (e : Edit (List UInt8) (IServletCreator ω κ σ))
    (hexact : exactEdit call = []) (hglob : globEdit call = [e])
    (hstep : step d call = { d with m_globs := eraseGlob e.key d.m_globs ++ live [e] }) :
    History (calls ++ [call]) (step d call) where
  datas uri := by
    rw [hstep, exactEdits, List.flatMap_append, List.flatMap_singleton, hexact, List.append_nil]
    exact h.datas uri
  globs := by
    rw [hstep, globEdits, List.flatMap_append, List.flatMap_singleton, hglob, live_concat,
      eraseGlob, h.globs, globEdits]
    simp only
    rw [eraseP_eq_filter _ _ (nodup_live _)]

/-- A call keeps the history. -/
theorem history_step (calls : List (Call ω κ σ)) (d : ServletDispatch ω κ σ)
    (h : History calls d) (call : Call ω κ σ) : History (calls ++ [call]) (step d call) := by
  cases call with
  | addServlet uri slt => exact history_exact calls d h _ _ rfl rfl rfl
  | addServletFunction uri cb => exact history_exact calls d h _ _ rfl rfl rfl
  | addServletCreator uri creator => exact history_exact calls d h _ _ rfl rfl rfl
  | delServlet uri => exact history_exact calls d h _ _ rfl rfl rfl
  | addGlobServlet uri slt => exact history_glob calls d h _ _ rfl rfl rfl
  | addGlobServletFunction uri cb => exact history_glob calls d h _ _ rfl rfl rfl
  | addGlobServletCreator uri creator => exact history_glob calls d h _ _ rfl rfl rfl
  | delGlobServlet uri =>
      refine history_glob calls d h _ _ rfl rfl ?_
      rw [live, live, List.append_nil]
      rfl
  | setDefault v =>
      constructor
      · intro uri
        rw [exactEdits, List.flatMap_append, List.flatMap_singleton]
        exact (h.datas uri).trans (congrArg (liveValue · uri) (List.append_nil _).symm)
      · rw [globEdits, List.flatMap_append, List.flatMap_singleton]
        exact h.globs.trans (congrArg live (List.append_nil _).symm)

/-- The tables after any calls. -/
theorem history_run (calls : List (Call ω κ σ)) : History calls (run calls) := by
  induction calls using List.reverseRecOn with
  | nil => exact ⟨fun uri => rfl, rfl⟩
  | append_singleton calls call ih =>
      rw [run, List.foldl_append]
      exact history_step calls (run calls) ih call

/-! ## Lookups -/

section

variable (calls : List (Call ω κ σ)) (uri : List UInt8) (w : ω)

theorem nodup_globs_run : ((run calls).m_globs.map Prod.fst).Nodup := by
  rw [(history_run calls).globs]
  exact nodup_live (globEdits calls)

theorem getServlet_run (found : Option (IServletCreator ω κ σ))
    (h : liveValue (exactEdits calls) uri = found) :
    getServlet (run calls) uri w = found.elim (none, w) (fun creator => creator.get w) := by
  rw [getServlet, (history_run calls).datas, h]
  cases found with
  | none => rfl
  | some creator => rfl

theorem getGlobServlet_run (found : Option (IServletCreator ω κ σ))
    (h : liveValue (globEdits calls) uri = found) :
    getGlobServlet (run calls) uri w = found.elim (none, w) (fun creator => creator.get w) := by
  rw [liveValue] at h
  rw [getGlobServlet, (history_run calls).globs, ← h]
  split
  · rename_i hfind
    rw [hfind]
    rfl
  · rename_i it hfind
    rw [hfind]
    rfl

theorem getMatchedServlet_of_exact (fnmatch : List UInt8 → List UInt8 → Nat → Int)
    (creator : IServletCreator ω κ σ) (h : liveValue (exactEdits calls) uri = some creator) :
    getMatchedServlet fnmatch (run calls) uri w = creator.get w := by
  rw [getMatchedServlet, (history_run calls).datas, h]

/-- With no exact entry the first pattern in the list decides. -/
theorem getMatchedServlet_of_none (fnmatch : List UInt8 → List UInt8 → Nat → Int)
    (h : liveValue (exactEdits calls) uri = none)
    (found : Option (List UInt8 × IServletCreator ω κ σ))
    (hfind : (live (globEdits calls)).find? (fun it => fnmatch (cStr it.1) (cStr uri) 0 == 0)
      = found) :
    getMatchedServlet fnmatch (run calls) uri w
      = found.elim (getDefault (run calls), w) (fun it => it.2.get w) := by
  rw [getMatchedServlet, (history_run calls).datas, h, (history_run calls).globs]
  simp only
  rw [hfind]
  cases found with
  | none => rfl
  | some it => rfl

/-- What every lookup finds after any calls: the live exact entry; with no such entry
    the live pattern that matches and was registered first, and the default if none
    matches. The list of patterns has every pattern at most once. -/
theorem lookup_run (fnmatch : List UInt8 → List UInt8 → Nat → Int) :
    ((run calls).m_globs.map Prod.fst).Nodup
      ∧ (∀ i creator, Live (exactEdits calls) i uri creator →
        getMatchedServlet fnmatch (run calls) uri w = creator.get w
          ∧ getServlet (run calls) uri w = creator.get w)
      ∧ ((∀ i creator, ¬ Live (exactEdits calls) i uri creator) →
        getServlet (run calls) uri w = (none, w)
          ∧ (∀ i pattern creator, Live (globEdits calls) i pattern creator →
            Matches fnmatch pattern uri →
            (∀ i' pattern' creator', i' < i → Live (globEdits calls) i' pattern' creator' →
              ¬ Matches fnmatch pattern' uri) →
            getMatchedServlet fnmatch (run calls) uri w = creator.get w)
          ∧ ((∀ i pattern creator, Live (globEdits calls) i pattern creator →
              ¬ Matches fnmatch pattern uri) →
            getMatchedServlet fnmatch (run calls) uri w = (getDefault (run calls), w)))
      ∧ (∀ i creator, Live (globEdits calls) i uri creator →
        getGlobServlet (run calls) uri w = creator.get w)
      ∧ ((∀ i creator, ¬ Live (globEdits calls) i uri creator) →
        getGlobServlet (run calls) uri w = (none, w)) := by
  refine ⟨nodup_globs_run calls, ?_, ?_, ?_, ?_⟩
  · intro i creator hlive
    have hvalue := liveValue_eq_some _ i uri creator hlive
    exact ⟨getMatchedServlet_of_exact calls uri w fnmatch creator hvalue,
      getServlet_run calls uri w _ hvalue⟩
  · intro hno
    have hvalue := liveValue_eq_none _ uri hno
    refine ⟨getServlet_run calls uri w _ hvalue, ?_, ?_⟩
    · intro i pattern creator hlive hmatch hfirst
      have hfind := find_live_of_first (globEdits calls)
        (fun it => fnmatch (cStr it.1) (cStr uri) 0 == 0) i pattern creator hlive
        (beq_iff_eq.2 hmatch)
        (fun i' p' c' hi' hlive' => beq_false_of_ne (hfirst i' p' c' hi' hlive'))
      exact getMatchedServlet_of_none calls uri w fnmatch hvalue _ hfind
    · intro hnot
      have hfind := find_live_of_none (globEdits calls)
        (fun it => fnmatch (cStr it.1) (cStr uri) 0 == 0)
        (fun i p c hlive => beq_false_of_ne (hnot i p c hlive))
      exact getMatchedServlet_of_none calls uri w fnmatch hvalue _ hfind
  · intro i creator hlive
    exact getGlobServlet_run calls uri w _ (liveValue_eq_some _ i uri creator hlive)
  · intro hno
    exact getGlobServlet_run calls uri w _ (liveValue_eq_none _ uri hno)

end

end YkServer.ServletDispatch
