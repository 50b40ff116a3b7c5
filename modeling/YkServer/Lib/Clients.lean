import YkServer.Lib.Interleaving
import YkServer.Lib.Table

/-!
# Clients of a Server

Programs that do nothing but ask a server and wait for its answers, and any number of them at
one server. The server answers one request at a time, and whose turn it is is
up to the run.

What a program achieves is said by `Meets`: between two of its requests the state may move by a
relation, which is what the other clients are relied on to do, and each request is answered in a
state in which a condition on it holds. Where the relation is a preorder and every
request that is answered keeps to it, the clients do not disturb each other, and what each
of them achieves alone they achieve together.

## Main definitions

* `Asking`: A program that asks a server.
* `Asking.alone`: A program with the server to itself.
* `Asking.Meets`: What a program achieves among others.
* `Asking.Within`: A bound on the requests of a program.
* `Server`: A server and its clients.
* `Server.step`: The server answers a request.
* `Server.Achieves`: What the clients achieve together.

## Theorems

* `meets_mono`, `meets_weaken`, `meets_bind`: The rules for programs.
* `within_bind`: The requests of two programs.
* `step_meets`: A step of the server.
* `run_requests`: How many requests are answered in a run.
-/

namespace Lib

/-- A program that asks a server. -/
inductive Asking (κ ρ α : Type) where
  | ret (a : α)
  | ask (q : κ) (k : ρ → Asking κ ρ α)

namespace Asking

variable {κ ρ α β σ : Type}

/-- One program behind another. -/
def bind : Asking κ ρ α → (α → Asking κ ρ β) → Asking κ ρ β
  | .ret a, f => f a
  | .ask q k, f => .ask q (fun r => (k r).bind f)

variable (serve : κ → σ → ρ × σ) (rely : σ → σ → Prop) (granted : κ → σ → Prop)

/-- A program with the server to itself. -/
def alone : Asking κ ρ α → σ → α × σ
  | .ret a, s => (a, s)
  | .ask q k, s => alone (k (serve q s).1) (serve q s).2

/-- A program ends with a result and a state that meet a condition, if the state moves by the
    relation before each of its requests, and each request is answered where it is granted. -/
def Meets (Q : α → σ → Prop) : Asking κ ρ α → σ → Prop
  | .ret a, s => Q a s
  | .ask q k, s => ∀ s', rely s s' → granted q s' → Meets Q (k (serve q s').1) (serve q s').2

/-- A program asks so many times at most. -/
def Within : Asking κ ρ α → Nat → Prop
  | .ret _, _ => True
  | .ask _ _, 0 => False
  | .ask _ k, n + 1 => ∀ r, (k r).Within n

variable {serve rely granted}

/-- What every answer keeps, a program keeps. -/
theorem alone_keeps (I : σ → Prop) (hserve : ∀ q s, I s → I (serve q s).2)
    (p : Asking κ ρ α) (s : σ) (hs : I s) : I (p.alone serve s).2 := by
  induction p generalizing s with
  | ret a => exact hs
  | ask q k ih => exact ih _ _ (hserve q s hs)

/-- What a program achieves it achieves when the others have moved. -/
theorem meets_mono {Q : α → σ → Prop} (htrans : ∀ s₁ s₂ s₃, rely s₁ s₂ → rely s₂ s₃ → rely s₁ s₃)
    (hstable : ∀ a s s', rely s s' → Q a s → Q a s') (p : Asking κ ρ α) (s s' : σ)
    (hrely : rely s s') (h : p.Meets serve rely granted Q s) : p.Meets serve rely granted Q s' := by
  cases p with
  | ret a => exact hstable a s s' hrely h
  | ask q k =>
      intro s₂ hrely₂ hgranted
      exact h s₂ (htrans s s' s₂ hrely hrely₂) hgranted

/-- A program achieves what follows from what it achieves. -/
theorem meets_weaken {P Q : α → σ → Prop} (h : ∀ a s, P a s → Q a s) (p : Asking κ ρ α) (s : σ)
    (hp : p.Meets serve rely granted P s) : p.Meets serve rely granted Q s := by
  induction p generalizing s with
  | ret a => exact h a s hp
  | ask q k ih =>
      intro s' hrely hgranted
      exact ih _ _ (hp s' hrely hgranted)

/-- The second program begins where the first one ends. -/
theorem meets_bind {Q : β → σ → Prop} (f : α → Asking κ ρ β) (p : Asking κ ρ α) (s : σ)
    (h : p.Meets serve rely granted (fun a s => (f a).Meets serve rely granted Q s) s) :
    (p.bind f).Meets serve rely granted Q s := by
  induction p generalizing s with
  | ret a => exact h
  | ask q k ih =>
      intro s' hrely hgranted
      exact ih _ _ (h s' hrely hgranted)

theorem within_add (n k : Nat) (p : Asking κ ρ α) (h : p.Within n) : p.Within (n + k) := by
  induction p generalizing n with
  | ret a => trivial
  | ask q next ih =>
      cases n with
      | zero => exact absurd h id
      | succ n =>
          rw [Nat.succ_add]
          intro r
          exact ih r n (h r)

/-- The requests of one program behind another. -/
theorem within_bind (m n : Nat) (p : Asking κ ρ α) (f : α → Asking κ ρ β) (hp : p.Within m)
    (hf : ∀ a, (f a).Within n) : (p.bind f).Within (m + n) := by
  induction p generalizing m with
  | ret a =>
      rw [Nat.add_comm]
      exact within_add n m (f a) (hf a)
  | ask q k ih =>
      cases m with
      | zero => exact absurd hp id
      | succ m =>
          rw [Nat.succ_add]
          intro r
          exact ih r m (hp r)

end Asking

/-- A server and its clients. -/
structure Server (σ κ ρ α : Type) where
  state : σ
  clients : List (Asking κ ρ α)

namespace Server

variable {σ κ ρ α : Type} (serve : κ → σ → ρ × σ)

/-- The server answers the request of a client. -/
def step (i : Nat) (w : Server σ κ ρ α) : Option (Server σ κ ρ α) :=
  match w.clients[i]? with
  | some (.ask q k) => some ⟨(serve q w.state).2, w.clients.set i (k (serve q w.state).1)⟩
  | _ => none

/-- The request that is answered is granted. -/
def Grants (granted : κ → σ → Prop) (w : Server σ κ ρ α) (i : Nat) : Prop :=
  ∀ q k, w.clients[i]? = some (.ask q k) → granted q w.state

/-- Each client achieves what it is to achieve. -/
def Achieves (rely : σ → σ → Prop) (granted : κ → σ → Prop) (Q : Nat → α → σ → Prop)
    (w : Server σ κ ρ α) : Prop :=
  ∀ (j : Nat) (p : Asking κ ρ α), w.clients[j]? = some p → p.Meets serve rely granted (Q j) w.state

variable {serve}

/-- What a step does. -/
theorem step_eq_some (i : Nat) (w w' : Server σ κ ρ α) (h : step serve i w = some w') :
    ∃ q k, w.clients[i]? = some (.ask q k) ∧
      w' = ⟨(serve q w.state).2, w.clients.set i (k (serve q w.state).1)⟩ := by
  unfold step at h
  split at h
  · rename_i q k hi
    exact ⟨q, k, hi, (Option.some.inj h).symm⟩
  · cases h

/-- A client that has not ended can be answered. -/
theorem step_isSome (i : Nat) (w : Server σ κ ρ α) (q : κ) (k : ρ → Asking κ ρ α)
    (hi : w.clients[i]? = some (.ask q k)) : (step serve i w).isSome = true := by
  simp only [step, hi, Option.isSome_some]

/-- A request that is granted leaves all clients with what they are to achieve. -/
theorem step_meets {rely : σ → σ → Prop} {granted : κ → σ → Prop} {Q : Nat → α → σ → Prop}
    (hrefl : ∀ s, rely s s) (htrans : ∀ s₁ s₂ s₃, rely s₁ s₂ → rely s₂ s₃ → rely s₁ s₃)
    (hstable : ∀ j a s s', rely s s' → Q j a s → Q j a s') (hserve : ∀ q s, rely s (serve q s).2)
    (i : Nat) (w w' : Server σ κ ρ α) (h : w.Achieves serve rely granted Q)
    (hgranted : w.Grants granted i) (hstep : step serve i w = some w') :
    w'.Achieves serve rely granted Q := by
  rcases step_eq_some i w w' hstep with ⟨q, k, hi, rfl⟩
  intro j p hj
  simp only at hj ⊢
  rcases update_cases w.clients i (.ask q k) _ hi j p hj with ⟨rfl, rfl⟩ | ⟨-, hold⟩
  · exact h j (.ask q k) hi w.state (hrefl w.state) (hgranted q k hi)
  · exact Asking.meets_mono htrans (hstable j) p _ _ (hserve q w.state) (h j p hold)

/-- In a run no client is answered more often than it asks. -/
theorem run_requests (as : List Nat) (w w' : Server σ κ ρ α) (i n : Nat) (p : Asking κ ρ α)
    (hi : w.clients[i]? = some p) (hp : p.Within n) (hrun : run (step serve) as w = some w') :
    as.count i ≤ n ∧ ∃ p', w'.clients[i]? = some p' := by
  induction as generalizing w n p with
  | nil =>
      cases hrun
      exact ⟨Nat.zero_le n, p, hi⟩
  | cons a as ih =>
      rcases run_cons_eq_some a as w w' hrun with ⟨w₁, hstep, hrest⟩
      rcases step_eq_some a w w₁ hstep with ⟨q, k, ha, rfl⟩
      have hget := getElem?_update w.clients a (.ask q k) (k (serve q w.state).1) ha i
      by_cases hai : i = a
      · -- It has one request less to make.
        rw [if_pos hai] at hget
        rw [← hai, hi, Option.some.injEq] at ha
        rw [ha] at hp
        cases n with
        | zero => exact absurd hp id
        | succ n =>
            rcases ih _ n _ hget (hp _) hrest with ⟨hle, hend⟩
            rw [hai, List.count_cons_self, ← hai]
            exact ⟨Nat.succ_le_succ hle, hend⟩
      · rw [if_neg hai] at hget
        rcases ih _ n p (hget.trans hi) hp hrest with ⟨hle, hend⟩
        rw [List.count_cons_of_ne (fun heq => hai heq.symm)]
        exact ⟨hle, hend⟩

end Server

end Lib
