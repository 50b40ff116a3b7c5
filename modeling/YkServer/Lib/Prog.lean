import Mathlib.Logic.Basic

/-!
# Programs over a State

The shallow monad every imperative body of the development is written in. A
program reads and writes a state and ends in one of four ways: it returns, it
throws an exception and leaves the state it had reached, it commits undefined
behaviour such as following a null pointer, or the bound its loops were given
runs out before it is done. The last two carry no state, because nothing that
comes after them can be relied on.

`Keeps` is the rule for invariants. It asks for the invariant again in both
endings that have a state, the exceptional one included, so an operation that
fails half way must still leave a good state behind. `Always` asks besides that
the program does end in a state. The two `bind` rules are what lets a composite
operation be settled from its parts.

## Main definitions

* `Outcome`: How a program ends.
* `Prog`: A program over a state.
* `Prog.raise`: Throw an exception in the current state.
* `Prog.undef`: Undefined behaviour.
* `Prog.attempt`: Run a program, turning an exception into a value.
* `Prog.first`, `Prog.second`, `Prog.within`: Programs on a part of the state, and
  local variables.
* `Outcome.Ends`: Every state an outcome carries satisfies a predicate.
* `Outcome.Safe`: The same, and the outcome does carry a state.
* `Keeps`: A program re-establishes an invariant wherever it ends in a state.
* `Always`: The same, and it does end in a state.

## Theorems

* `bind_ok`, `bind_throw`, `bind_fault`: Sequencing after each ending.
* `bind_eq_ok`: What a sequence that returns did.
* `first_eq_ok`, `second_eq_ok`, `within_eq_ok`: What a program on a part of the state did.
* `safe_bind`, `safe_seq`, `always_bind`, `keeps_bind`: The invariant rules for sequencing.
-/

namespace Lib

variable {ε σ τ α β : Type}

/-- How a program ends: with a value, with an exception, in undefined
    behaviour, or still looping when its bound ran out. -/
inductive Outcome (ε σ α : Type) where
  | ok (a : α) (s : σ)
  | throw (e : ε) (s : σ)
  | fault
  | hang
  deriving Repr, DecidableEq

/-- A program: from a state to the way it ends. -/
def Prog (ε σ α : Type) := σ → Outcome ε σ α

instance : Monad (Prog ε σ) where
  pure a := fun s => .ok a s
  bind m f := fun s => match m s with
    | .ok a s' => f a s'
    | .throw e s' => .throw e s'
    | .fault => .fault
    | .hang => .hang

namespace Prog

/-- Throw an exception, leaving the state as it is. -/
def raise (e : ε) : Prog ε σ α := fun s => .throw e s

/-- Undefined behaviour: nothing can be said about what follows. -/
def undef : Prog ε σ α := fun _ => .fault

/-- The current state. -/
def get : Prog ε σ σ := fun s => .ok s s

/-- Change the current state. -/
def modify (f : σ → σ) : Prog ε σ Unit := fun s => .ok () (f s)

/-- Run a program and turn an exception into a value, as a `catch (...)`
    around it does. Undefined behaviour is not an exception and passes
    through. -/
def attempt (m : Prog ε σ α) : Prog ε σ (Except ε α) := fun s => match m s with
  | .ok a s' => .ok (.ok a) s'
  | .throw e s' => .ok (.error e) s'
  | .fault => .fault
  | .hang => .hang

/-- Run a program on the first half of the state. -/
def first (m : Prog ε σ α) : Prog ε (σ × τ) α := fun s => match m s.1 with
  | .ok a s' => .ok a (s', s.2)
  | .throw e s' => .throw e (s', s.2)
  | .fault => .fault
  | .hang => .hang

/-- Run a program on the second half of the state. -/
def second (m : Prog ε τ α) : Prog ε (σ × τ) α := fun s => match m s.2 with
  | .ok a t' => .ok a (s.1, t')
  | .throw e t' => .throw e (s.1, t')
  | .fault => .fault
  | .hang => .hang

/-- Run a program with a local variable, whose last value is returned with the
    result. An exception destroys the variable. -/
def within (t : τ) (m : Prog ε (σ × τ) α) : Prog ε σ (α × τ) := fun s => match m (s, t) with
  | .ok a (s', t') => .ok (a, t') s'
  | .throw e (s', _) => .throw e s'
  | .fault => .fault
  | .hang => .hang

end Prog

theorem pure_apply (a : α) (s : σ) : (pure a : Prog ε σ α) s = .ok a s := rfl

theorem get_apply (s : σ) : (Prog.get : Prog ε σ σ) s = .ok s s := rfl

theorem modify_apply (f : σ → σ) (s : σ) : (Prog.modify f : Prog ε σ Unit) s = .ok () (f s) := rfl

theorem bind_ok (m : Prog ε σ α) (f : α → Prog ε σ β) (s s' : σ) (a : α)
    (h : m s = .ok a s') : (m >>= f) s = f a s' := by
  simp only [bind, h]

theorem bind_throw (m : Prog ε σ α) (f : α → Prog ε σ β) (s s' : σ) (e : ε)
    (h : m s = .throw e s') : (m >>= f) s = .throw e s' := by
  simp only [bind, h]

theorem first_ok (m : Prog ε σ α) (s s' : σ) (t : τ) (a : α) (h : m s = .ok a s') :
    Prog.first m (s, t) = .ok a (s', t) := by
  simp only [Prog.first, h]

theorem second_ok (m : Prog ε τ α) (s : σ) (t t' : τ) (a : α) (h : m t = .ok a t') :
    Prog.second m (s, t) = .ok a (s, t') := by
  simp only [Prog.second, h]

theorem second_fault (m : Prog ε τ α) (s : σ) (t : τ) (h : m t = .fault) :
    Prog.second m (s, t) = .fault := by
  simp only [Prog.second, h]

theorem within_ok (m : Prog ε (σ × τ) α) (s s' : σ) (t t' : τ) (a : α)
    (h : m (s, t) = .ok a (s', t')) : Prog.within t m s = .ok (a, t') s' := by
  simp only [Prog.within, h]

theorem within_fault (m : Prog ε (σ × τ) α) (s : σ) (t : τ) (h : m (s, t) = .fault) :
    Prog.within t m s = .fault := by
  simp only [Prog.within, h]

/-- A program on the first half that returns leaves the other half. -/
theorem first_eq_ok (m : Prog ε σ α) (st st' : σ × τ) (a : α)
    (h : Prog.first m st = .ok a st') : m st.1 = .ok a st'.1 ∧ st'.2 = st.2 := by
  rcases hm : m st.1 with ⟨b, s'⟩ | ⟨e, s'⟩ | _ | _ <;> simp only [Prog.first, hm] at h <;> cases h
  exact ⟨rfl, rfl⟩

theorem second_eq_ok (m : Prog ε τ α) (st st' : σ × τ) (a : α)
    (h : Prog.second m st = .ok a st') : m st.2 = .ok a st'.2 ∧ st'.1 = st.1 := by
  rcases hm : m st.2 with ⟨b, s'⟩ | ⟨e, s'⟩ | _ | _ <;> simp only [Prog.second, hm] at h <;> cases h
  exact ⟨rfl, rfl⟩

theorem within_eq_ok (m : Prog ε (σ × τ) α) (t : τ) (s s' : σ) (p : α × τ)
    (h : Prog.within t m s = .ok p s') : m (s, t) = .ok p.1 (s', p.2) := by
  rcases hm : m (s, t) with ⟨b, s'⟩ | ⟨e, s'⟩ | _ | _ <;> simp only [Prog.within, hm] at h <;>
    cases h
  rfl

theorem within_eq_throw (m : Prog ε (σ × τ) α) (t : τ) (s s' : σ) (e : ε)
    (h : Prog.within t m s = .throw e s') : ∃ t', m (s, t) = .throw e (s', t') := by
  rcases hm : m (s, t) with ⟨b, s'⟩ | ⟨e, s', t'⟩ | _ | _ <;> simp only [Prog.within, hm] at h <;>
    cases h
  exact ⟨t', rfl⟩

/-- A program on a local variable alone leaves the state. -/
theorem within_second_eq_ok (m : Prog ε τ α) (s s' : σ) (t t' : τ) (a : α)
    (h : Prog.within t (Prog.second m) s = .ok (a, t') s') : m t = .ok a t' ∧ s' = s :=
  second_eq_ok m (s, t) (s', t') a (within_eq_ok _ t s s' (a, t') h)

theorem attempt_ok (m : Prog ε σ α) (s s' : σ) (a : α) (h : m s = .ok a s') :
    Prog.attempt m s = .ok (.ok a) s' := by
  simp only [Prog.attempt, h]

theorem bind_fault (m : Prog ε σ α) (f : α → Prog ε σ β) (s : σ)
    (h : m s = .fault) : (m >>= f) s = .fault := by
  simp only [bind, h]

theorem bind_hang (m : Prog ε σ α) (f : α → Prog ε σ β) (s : σ)
    (h : m s = .hang) : (m >>= f) s = .hang := by
  simp only [bind, h]

/-- A sequence that returns is one whose halves return. -/
theorem bind_eq_ok (m : Prog ε σ α) (f : α → Prog ε σ β) (s s'' : σ) (b : β)
    (h : (m >>= f) s = .ok b s'') : ∃ a s', m s = .ok a s' ∧ f a s' = .ok b s'' := by
  -- Every other way the first half can end is also how the whole ends.
  rcases hms : m s with ⟨a, s'⟩ | ⟨e, s'⟩ | _ | _
  · rw [bind_ok m f s s' a hms] at h
    exact ⟨a, s', rfl, h⟩
  · rw [bind_throw m f s s' e hms] at h
    cases h
  · rw [bind_fault m f s hms] at h
    cases h
  · simp only [bind, hms] at h
    cases h

/-- Every state the outcome carries satisfies the predicate. -/
def Outcome.Ends (I : σ → Prop) : Outcome ε σ α → Prop
  | .ok _ s => I s
  | .throw _ s => I s
  | .fault => True
  | .hang => True

/-- The outcome carries a state, and that state satisfies the predicate. -/
def Outcome.Safe (I : σ → Prop) : Outcome ε σ α → Prop
  | .ok _ s => I s
  | .throw _ s => I s
  | .fault => False
  | .hang => False

theorem Outcome.Safe.ends (I : σ → Prop) (o : Outcome ε σ α) (h : o.Safe I) : o.Ends I := by
  cases o with
  | ok a s => exact h
  | throw e s => exact h
  | fault => exact h.elim
  | hang => exact h.elim

theorem Outcome.Safe.mono (P Q : σ → Prop) (o : Outcome ε σ α) (h : ∀ s, P s → Q s)
    (ho : o.Safe P) : o.Safe Q := by
  cases o with
  | ok a s => exact h s ho
  | throw e s => exact h s ho
  | fault => exact ho.elim
  | hang => exact ho.elim

/-- The program re-establishes the invariant wherever it ends in a state. -/
def Keeps (I : σ → Prop) (m : Prog ε σ α) : Prop :=
  ∀ s, I s → (m s).Ends I

/-- The program always ends in a state, and re-establishes the invariant. -/
def Always (I : σ → Prop) (m : Prog ε σ α) : Prop :=
  ∀ s, I s → (m s).Safe I

theorem Always.keeps (I : σ → Prop) (m : Prog ε σ α) (h : Always I m) : Keeps I m :=
  fun s hs => Outcome.Safe.ends I _ (h s hs)

theorem always_pure (I : σ → Prop) (a : α) : Always I (pure a : Prog ε σ α) :=
  fun _ hs => hs

theorem always_get (I : σ → Prop) : Always I (Prog.get : Prog ε σ σ) :=
  fun _ hs => hs

theorem always_raise (I : σ → Prop) (e : ε) : Always I (Prog.raise e : Prog ε σ α) :=
  fun _ hs => hs

/-- Sequencing from one state: the second half is only asked about where the
    first half leads. An exception in the first half ends the whole, in the
    state the first half left. -/
theorem safe_bind (I : σ → Prop) (m : Prog ε σ α) (f : α → Prog ε σ β) (s : σ)
    (hm : (m s).Safe I) (hf : ∀ a s', m s = .ok a s' → I s' → (f a s').Safe I) :
    ((m >>= f) s).Safe I := by
  -- A fault or a hang of the first half contradicts its safety.
  rcases hms : m s with ⟨a, s'⟩ | ⟨e, s'⟩ | _ | _
  · rw [hms] at hm
    rw [bind_ok m f s s' a hms]
    exact hf a s' hms hm
  · rw [hms] at hm
    rw [bind_throw m f s s' e hms]
    exact hm
  · rw [hms] at hm
    exact hm.elim
  · rw [hms] at hm
    exact hm.elim

/-- Sequencing with a condition on the end only: the first half ends in a state,
    and from there on the condition is met. -/
theorem safe_seq (P Q : σ → Prop) (m : Prog ε σ α) (f : α → Prog ε σ β) (s : σ)
    (hm : (m s).Safe P) (hthrow : ∀ s', P s' → Q s')
    (hf : ∀ a s', m s = .ok a s' → P s' → (f a s').Safe Q) : ((m >>= f) s).Safe Q := by
  rcases hms : m s with ⟨a, s'⟩ | ⟨e, s'⟩ | _ | _
  · rw [hms] at hm
    rw [bind_ok m f s s' a hms]
    exact hf a s' hms hm
  · rw [hms] at hm
    rw [bind_throw m f s s' e hms]
    exact hthrow s' hm
  · rw [hms] at hm
    exact hm.elim
  · rw [hms] at hm
    exact hm.elim

theorem always_bind (I : σ → Prop) (m : Prog ε σ α) (f : α → Prog ε σ β)
    (hm : Always I m) (hf : ∀ a, Always I (f a)) : Always I (m >>= f) :=
  fun s hs => safe_bind I m f s (hm s hs) (fun a s' _ hs' => hf a s' hs')

/-- Sequencing keeps an invariant both halves keep. -/
theorem keeps_bind (I : σ → Prop) (m : Prog ε σ α) (f : α → Prog ε σ β)
    (hm : Keeps I m) (hf : ∀ a, Keeps I (f a)) : Keeps I (m >>= f) := by
  intro s hs
  have hend := hm s hs
  rcases hms : m s with ⟨a, s'⟩ | ⟨e, s'⟩ | _ | _
  · rw [hms] at hend
    rw [bind_ok m f s s' a hms]
    exact hf a s' hend
  · rw [hms] at hend
    rw [bind_throw m f s s' e hms]
    exact hend
  -- Neither a fault nor a hang carries a state to check.
  · rw [bind_fault m f s hms]
    trivial
  · simp only [bind, hms, Outcome.Ends]

end Lib
