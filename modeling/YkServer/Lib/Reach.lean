import YkServer.Lib.Prog

/-!
# Reachable States

States that a sequence of operations leads to, each operation taken only where
a guard allows it and only if it returns. An operation that throws or runs into
undefined behaviour ends the run, so nothing is reached through it.

## Main definitions

* `Reaches`: The states runs lead to.

## Theorems

* `Reaches.inv`: What holds at the start and is kept by every guarded operation
  holds in every state reached.
-/

namespace Lib

variable {ε σ ι α : Type}

/-- The states reached from `init` by operations that the guard allows. -/
inductive Reaches (perform : ι → Prog ε σ α) (guard : σ → ι → Prop) (init : σ) : σ → Prop where
  | start : Reaches perform guard init init
  | step (s s' : σ) (op : ι) (a : α) : Reaches perform guard init s → guard s op →
      perform op s = .ok a s' → Reaches perform guard init s'

/-- The rule for invariants over runs. -/
theorem Reaches.inv (perform : ι → Prog ε σ α) (guard : σ → ι → Prop) (init : σ)
    (I : σ → Prop) (hinit : I init)
    (hstep : ∀ s s' op a, I s → guard s op → perform op s = .ok a s' → I s')
    (s : σ) (h : Reaches perform guard init s) : I s := by
  induction h with
  | start => exact hinit
  | step s s' op a _ hguard hrun ih => exact hstep s s' op a ih hguard hrun

end Lib
