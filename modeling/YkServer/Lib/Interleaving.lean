import Mathlib.Logic.Basic

/-!
# Interleavings

Threads that share a state, as a function from actions to partial steps. An
action says which thread moves and what it does; it can be taken only where the
step function has a result for it. A run is a list of actions, so an interleaving
of any number of threads is any list at all.

A condition on a run is asked of each action in the state in which it is taken.
`run_inv` is the rule for what holds in every state that such runs reach, and
`run_related` the one for what the later states of a run have to do with the
earlier ones.

## Main definitions

* `run`: The state a run leads to.
* `Along`: A condition on every action of a run.

## Theorems

* `run_append`, `along_append`: A run in two parts.
* `run_inv`: Invariants.
* `run_goes`: Runs that go through.
* `run_related`: Relations between the ends of a run.
* `along_iff`: Conditions that come to the same.
* `throughout_iff`: What holds in every state a run passes through.
* `run_good_or_bad`: What is spoilt for good by a step without the condition.
-/

namespace Lib

variable {σ ι : Type}

/-- The state a run leads to, if each of its actions can be taken. -/
def run (step : ι → σ → Option σ) : List ι → σ → Option σ
  | [], s => some s
  | a :: as, s =>
    match step a s with
    | some s' => run step as s'
    | none => none

/-- Every action of a run meets a condition in the state in which it is taken. -/
def Along (step : ι → σ → Option σ) (P : σ → ι → Prop) : List ι → σ → Prop
  | [], _ => True
  | a :: as, s => P s a ∧
    match step a s with
    | some s' => Along step P as s'
    | none => True

variable {step : ι → σ → Option σ} {P : σ → ι → Prop}

theorem run_cons (a : ι) (as : List ι) (s s' : σ) (h : step a s = some s') :
    run step (a :: as) s = run step as s' := by
  simp only [run, h]

/-- What a run does first. -/
theorem run_cons_eq_some (a : ι) (as : List ι) (s s'' : σ) (h : run step (a :: as) s = some s'') :
    ∃ s', step a s = some s' ∧ run step as s' = some s'' := by
  rcases hstep : step a s with _ | s'
  · simp only [run, hstep] at h
    cases h
  · rw [run_cons a as s s' hstep] at h
    exact ⟨s', rfl, h⟩

theorem along_cons (a : ι) (as : List ι) (s s' : σ) (h : step a s = some s') :
    Along step P (a :: as) s ↔ P s a ∧ Along step P as s' := by
  simp only [Along, h]

theorem run_append (as bs : List ι) (s s' : σ) (h : run step as s = some s') :
    run step (as ++ bs) s = run step bs s' := by
  induction as generalizing s with
  | nil =>
      cases h
      rfl
  | cons a as ih =>
      rcases run_cons_eq_some a as s s' h with ⟨s₁, hstep, hrun⟩
      rw [List.cons_append, run_cons a _ s s₁ hstep, ih s₁ hrun]

/-- A condition along a run in two parts. -/
theorem along_append (as bs : List ι) (s s' : σ) (h : run step as s = some s') :
    Along step P (as ++ bs) s ↔ Along step P as s ∧ Along step P bs s' := by
  induction as generalizing s with
  | nil =>
      rw [run, Option.some.injEq] at h
      rw [h]
      exact (and_iff_right trivial).symm
  | cons a as ih =>
      rcases run_cons_eq_some a as s s' h with ⟨s₁, hstep, hrun⟩
      rw [List.cons_append, along_cons a _ s s₁ hstep, along_cons a as s s₁ hstep, ih s₁ hrun,
        and_assoc]

/-- The rule for relations: a step keeps the invariant and relates the states
    before and after it, and the relation can be chained. -/
theorem run_related (I : σ → Prop) (R : σ → σ → Prop) (hrefl : ∀ s, R s s)
    (htrans : ∀ s₁ s₂ s₃, R s₁ s₂ → R s₂ s₃ → R s₁ s₃)
    (hstep : ∀ s a s', I s → P s a → step a s = some s' → I s' ∧ R s s')
    (as : List ι) (s s' : σ) (hs : I s) (hP : Along step P as s) (h : run step as s = some s') :
    I s' ∧ R s s' := by
  induction as generalizing s with
  | nil =>
      rw [run, Option.some.injEq] at h
      rw [← h]
      exact ⟨hs, hrefl s⟩
  | cons a as ih =>
      rcases run_cons_eq_some a as s s' h with ⟨s₁, hone, hrun⟩
      rw [along_cons a as s s₁ hone] at hP
      -- One step, and the rest of the run from where it leads.
      rcases hstep s a s₁ hs hP.1 hone with ⟨hinv, hrel⟩
      rcases ih s₁ hinv hP.2 hrun with ⟨hinv', hrel'⟩
      exact ⟨hinv', htrans s s₁ s' hrel hrel'⟩

/-- The rule for invariants. -/
theorem run_inv (I : σ → Prop) (hstep : ∀ s a s', I s → P s a → step a s = some s' → I s')
    (as : List ι) (s s' : σ) (hs : I s) (hP : Along step P as s) (h : run step as s = some s') :
    I s' :=
  (run_related I (fun _ _ => True) (fun _ => trivial) (fun _ _ _ _ _ => trivial)
    (fun s a s' hs hP h => ⟨hstep s a s' hs hP h, trivial⟩) as s s' hs hP h).1

/-- The rule for runs that go through. -/
theorem run_goes (I : σ → Prop)
    (hstep : ∀ s a, I s → P s a → ∃ s', step a s = some s' ∧ I s')
    (as : List ι) (s : σ) (hs : I s) (hP : Along step P as s) :
    ∃ s', run step as s = some s' ∧ I s' := by
  induction as generalizing s with
  | nil => exact ⟨s, rfl, hs⟩
  | cons a as ih =>
      rcases hstep s a hs hP.1 with ⟨s₁, hone, hinv⟩
      rw [along_cons a as s s₁ hone] at hP
      rw [run_cons a as s s₁ hone]
      exact ih s₁ hinv hP.2

/-- Two conditions that come to the same wherever the invariant holds. -/
theorem along_iff {Q : σ → ι → Prop} (I : σ → Prop) (hiff : ∀ s a, I s → (P s a ↔ Q s a))
    (hstep : ∀ s a s', I s → Q s a → step a s = some s' → I s') (as : List ι) (s : σ)
    (hs : I s) : Along step P as s ↔ Along step Q as s := by
  induction as generalizing s with
  | nil => exact Iff.rfl
  | cons a as ih =>
      rcases hone : step a s with _ | s'
      · -- The action cannot be taken, and nothing is asked of the rest.
        simp only [Along, hone, and_true]
        exact hiff s a hs
      · rw [along_cons a as s s' hone, along_cons a as s s' hone, hiff s a hs]
        exact and_congr_right (fun hQ => ih s' (hstep s a s' hs hQ hone))

/-- What holds in every state a run passes through, if a step from a good state leads to a
    good state where the condition holds, and to one without the property where it does not. -/
theorem throughout_iff (J Q : σ → Prop) (hgood : ∀ s, J s → Q s)
    (hkeeps : ∀ s a s', J s → P s a → step a s = some s' → J s')
    (hneeds : ∀ s a s', J s → step a s = some s' → Q s' → P s a)
    (as : List ι) (s s' : σ) (hJ : J s) (hrun : run step as s = some s') :
    (∀ bs cs t, as = bs ++ cs → run step bs s = some t → Q t) ↔ Along step P as s := by
  induction as generalizing s with
  | nil =>
      refine iff_of_true ?_ trivial
      intro bs cs t hsplit hbs
      rw [(List.append_eq_nil_iff.1 hsplit.symm).1, run, Option.some.injEq] at hbs
      rw [← hbs]
      exact hgood s hJ
  | cons a as ih =>
      rcases run_cons_eq_some a as s s' hrun with ⟨s₁, hone, hrest⟩
      rw [along_cons a as s s₁ hone]
      constructor
      · intro hall
        -- The state behind the first step is one of those the run passes through.
        have hP : P s a :=
          hneeds s a s₁ hJ hone (hall [a] as s₁ rfl (by rw [run_cons a [] s s₁ hone, run]))
        refine ⟨hP, (ih s₁ (hkeeps s a s₁ hJ hP hone) hrest).1 ?_⟩
        intro bs cs t hsplit hbs
        refine hall (a :: bs) cs t (by rw [hsplit, List.cons_append]) ?_
        rw [run_cons a bs s s₁ hone, hbs]
      · rintro ⟨hP, hPs⟩ bs cs t hsplit hbs
        cases bs with
        | nil =>
            rw [run, Option.some.injEq] at hbs
            rw [← hbs]
            exact hgood s hJ
        | cons b bs =>
            rw [List.cons_append, List.cons.injEq] at hsplit
            rw [← hsplit.1, run_cons a bs s s₁ hone] at hbs
            exact (ih s₁ (hkeeps s a s₁ hJ hP hone) hrest).2 hPs bs cs t hsplit.2 hbs

/-- A condition on the actions alone. -/
theorem along_of_mem {Q : ι → Prop} (as : List ι) (s : σ) (h : ∀ a ∈ as, Q a) :
    Along step (fun _ a => Q a) as s := by
  induction as generalizing s with
  | nil => trivial
  | cons a as ih =>
      have hrest := fun s => ih s (fun b hb => h b (List.mem_cons_of_mem _ hb))
      refine ⟨h a List.mem_cons_self, ?_⟩
      rcases step a s with _ | s'
      · trivial
      · exact hrest s'

/-- A weaker condition. -/
theorem along_mono {Q : σ → ι → Prop} (hPQ : ∀ s a, P s a → Q s a) (as : List ι) (s : σ)
    (h : Along step P as s) : Along step Q as s := by
  induction as generalizing s with
  | nil => trivial
  | cons a as ih =>
      rcases h with ⟨ha, hrest⟩
      refine ⟨hPQ s a ha, ?_⟩
      rcases hone : step a s with _ | s'
      · trivial
      · rw [hone] at hrest
        exact ih s' hrest

/-- No condition at all. -/
theorem along_true (as : List ι) (s : σ) : Along step (fun _ _ => True) as s := by
  induction as generalizing s with
  | nil => trivial
  | cons a as ih =>
      rcases hstep : step a s with _ | s'
      · simp only [Along, hstep, and_self]
      · rw [along_cons a as s s' hstep]
        exact ⟨trivial, ih s'⟩

/-- A condition without which something is spoilt for good: where it holds all along the run
    ends in a good state, and where it does not in a bad one. -/
theorem run_good_or_bad (J B : σ → Prop)
    (hkeeps : ∀ s a s', J s → P s a → step a s = some s' → J s')
    (hspoils : ∀ s a s', J s → ¬P s a → step a s = some s' → B s')
    (hstays : ∀ s a s', B s → step a s = some s' → B s')
    (as : List ι) (s s' : σ) (hJ : J s) (hrun : run step as s = some s') :
    Along step P as s ∧ J s' ∨ ¬Along step P as s ∧ B s' := by
  induction as generalizing s with
  | nil =>
      rw [run, Option.some.injEq] at hrun
      rw [← hrun]
      exact .inl ⟨trivial, hJ⟩
  | cons a as ih =>
      rcases run_cons_eq_some a as s s' hrun with ⟨s₁, hone, hrest⟩
      rw [along_cons a as s s₁ hone]
      by_cases hP : P s a
      · rw [and_iff_right hP]
        exact ih s₁ (hkeeps s a s₁ hJ hP hone) hrest
      · refine .inr ⟨fun hall => hP hall.1, ?_⟩
        exact run_inv B (fun s a s' hB _ hstep => hstays s a s' hB hstep) as s₁ s'
          (hspoils s a s₁ hJ hP hone) (along_true as s₁) hrest

end Lib
