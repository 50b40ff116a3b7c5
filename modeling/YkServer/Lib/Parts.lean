import YkServer.Lib.Prog

/-!
# Invariants of a Part of the State

Frame rules. A program that is built from programs on one part of the state leaves the
other part alone, and one that never touches a field leaves the field alone. `Keeps` says that for
an invariant; the rules here go through the ways in which programs are put together.

`Yields` asks for one thing of the value and the state where a program returns, and for another
where it throws an exception.

## Main definitions

* `Outcome.Yields`: What an outcome is like if it carries a state.

## Theorems

* `keeps_pure`, `keeps_get`, `keeps_modify`, `keeps_raise`, `keeps_undef`: Single steps.
* `keeps_ite`: A branch.
* `keeps_first`, `keeps_second`, `keeps_within`: Parts of the state.
* `keeps_ok`: What a program that returns has kept.
* `yields_bind`, `yields_mono`: Sequencing, and weaker demands.
-/

namespace Lib

variable {ε σ τ α : Type} (I : σ → Prop)

theorem keeps_pure (a : α) : Keeps I (pure a : Prog ε σ α) := fun _ hs => hs

theorem keeps_get : Keeps I (Prog.get : Prog ε σ σ) := fun _ hs => hs

theorem keeps_modify (f : σ → σ) (h : ∀ s, I s → I (f s)) :
    Keeps I (Prog.modify f : Prog ε σ Unit) := h

theorem keeps_raise (e : ε) : Keeps I (Prog.raise e : Prog ε σ α) := fun _ hs => hs

theorem keeps_undef : Keeps I (Prog.undef : Prog ε σ α) := fun _ _ => trivial

theorem keeps_hang : Keeps I (fun _ => .hang : Prog ε σ α) := fun _ _ => trivial

theorem keeps_ite (c : Prop) [Decidable c] (m n : Prog ε σ α) (hm : Keeps I m)
    (hn : Keeps I n) : Keeps I (if c then m else n) := by
  split
  · exact hm
  · exact hn

/-- A program on the half with the invariant. -/
theorem keeps_first (m : Prog ε σ α) (h : Keeps I m) :
    Keeps (fun st : σ × τ => I st.1) (Prog.first m) := by
  intro st hst
  have hend := h st.1 hst
  rw [Prog.first]
  cases hm : m st.1 with
  | ok a s =>
      rw [hm] at hend
      exact hend
  | throw e s =>
      rw [hm] at hend
      exact hend
  | fault => trivial
  | hang => trivial

/-- A program on the other half. -/
theorem keeps_second (m : Prog ε τ α) :
    Keeps (fun st : σ × τ => I st.1) (Prog.second m) := by
  intro st hst
  rw [Prog.second]
  cases m st.2 with
  | ok a t => exact hst
  | throw e t => exact hst
  | fault => trivial
  | hang => trivial

/-- A program with a local variable. -/
theorem keeps_within (t : τ) (m : Prog ε (σ × τ) α)
    (h : Keeps (fun st : σ × τ => I st.1) m) : Keeps I (Prog.within t m) := by
  intro s hs
  have hend := h (s, t) hs
  rw [Prog.within]
  cases hm : m (s, t) with
  | ok a st =>
      rw [hm] at hend
      exact hend
  | throw e st =>
      rw [hm] at hend
      exact hend
  | fault => trivial
  | hang => trivial

theorem keeps_ok (m : Prog ε σ α) (h : Keeps I m) (s s' : σ) (a : α) (hs : I s)
    (hrun : m s = .ok a s') : I s' := by
  have hend := h s hs
  rw [hrun] at hend
  exact hend

/-- What an outcome is like if it carries a state. -/
def Outcome.Yields (P : α → σ → Prop) (Q : σ → Prop) : Outcome ε σ α → Prop
  | .ok a s => P a s
  | .throw _ s => Q s
  | .fault => True
  | .hang => True

theorem yields_mono {P P' : α → σ → Prop} {Q Q' : σ → Prop} (o : Outcome ε σ α)
    (h : o.Yields P Q) (hP : ∀ a s, P a s → P' a s) (hQ : ∀ s, Q s → Q' s) : o.Yields P' Q' := by
  cases o with
  | ok a s => exact hP a s h
  | throw e s => exact hQ s h
  | fault => trivial
  | hang => trivial

/-- The second half is asked about where the first one leads. -/
theorem yields_bind {β : Type} {P : α → σ → Prop} {R : β → σ → Prop} {Q : σ → Prop}
    (m : Prog ε σ α) (f : α → Prog ε σ β) (s : σ) (hm : (m s).Yields P Q)
    (hf : ∀ a s', P a s' → (f a s').Yields R Q) : ((m >>= f) s).Yields R Q := by
  rcases hms : m s with ⟨a, s'⟩ | ⟨e, s'⟩ | _ | _
  · rw [hms] at hm
    rw [bind_ok m f s s' a hms]
    exact hf a s' hm
  · rw [hms] at hm
    rw [bind_throw m f s s' e hms]
    exact hm
  · rw [bind_fault m f s hms]
    trivial
  · simp only [bind, hms, Outcome.Yields]

/-- A program on the first half leaves the second half alone. -/
theorem yields_first (m : Prog ε σ α) (s : σ) (t : τ) :
    ((Prog.first m : Prog ε (σ × τ) α) (s, t)).Yields (fun _ st => st.2 = t)
      (fun st => st.2 = t) := by
  rw [Prog.first]
  cases m s with
  | ok a s' => exact rfl
  | throw e s' => exact rfl
  | fault => trivial
  | hang => trivial

end Lib
