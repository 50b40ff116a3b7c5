import YkServer.Core.StreamManager
import YkServer.Lib.Interleaving
import Mathlib.Algebra.Order.Ring.Nat

/-!
# Callbacks of Managed Streams

Every stream in the list of a manager should carry the callbacks of the manager. All
operations see to it but one: `setConnection` asks for the connect callback where it
means the disconnect callback, so a manager with only the latter does not pass it on. The
length of the list is kept a second time in 32 bits.

## Main definitions

* `StreamManager.Carried`: Callbacks and length are right.
* `StreamManager.Fits`: The operation keeps them right.

## Theorems

* `modifyAll_other`, `modifyAll_keeps`, `modifyAll_sets`: Loops over pointers.
* `carried_add`, `carried_setConnection`: When an operation keeps callbacks and length.
* `callbacks_carried_iff`: The same for sequences of operations.
-/

namespace YkServer

open Lib

namespace StreamManager

/-- Every stream carries the callbacks the manager has, and the length is right. -/
structure Carried (m : StreamManager) : Prop where
  connect : m.connectCb.isSome → ∀ p ∈ m.datas, (m.streams p).connectCb = m.connectCb
  disconnect : m.disconnectCb.isSome → ∀ p ∈ m.datas, (m.streams p).disconnectCb = m.disconnectCb
  size : m.size.toNat = m.datas.length

/-- The list stays below `2 ^ 32` streams, and `setConnection` is given streams that carry the
    disconnect callback already if that is the only one the manager has. -/
def Fits (m : StreamManager) : Action → Prop
  | .add _ => m.datas.length + 1 < 2 ^ 32
  | .setConnection ps => ps.length < 2 ^ 32 ∧
      (m.connectCb = none → m.disconnectCb.isSome →
        ∀ p ∈ ps, (m.streams p).disconnectCb = m.disconnectCb)
  | _ => True

/-! ## Loops over pointers -/

variable {β : Type}

theorem modify_self (m : StreamManager) (p : Nat) (f : ManagedStream → ManagedStream) :
    (m.modify p f).streams p = f (m.streams p) :=
  Function.update_self p _ _

theorem modify_of_ne (m : StreamManager) (p q : Nat) (f : ManagedStream → ManagedStream)
    (hq : q ≠ p) : (m.modify p f).streams q = m.streams q :=
  Function.update_of_ne hq _ _

/-- The manager itself stays as it is. -/
theorem modifyAll_manager (m : StreamManager) (ps : List Nat) (f : ManagedStream → ManagedStream) :
    (m.modifyAll ps f).size = m.size ∧ (m.modifyAll ps f).datas = m.datas ∧
      (m.modifyAll ps f).connectCb = m.connectCb ∧
      (m.modifyAll ps f).disconnectCb = m.disconnectCb := by
  induction ps generalizing m with
  | nil => exact ⟨rfl, rfl, rfl, rfl⟩
  | cons p ps ih => exact ih (m.modify p f)

theorem modifyAll_other (m : StreamManager) (ps : List Nat) (f : ManagedStream → ManagedStream)
    (q : Nat) (hq : q ∉ ps) : (m.modifyAll ps f).streams q = m.streams q := by
  induction ps generalizing m with
  | nil => rfl
  | cons p ps ih =>
      rw [List.mem_cons, not_or] at hq
      exact (ih (m.modify p f) hq.2).trans (modify_of_ne m p q f hq.1)

/-- What the loop does not change. -/
theorem modifyAll_keeps (m : StreamManager) (ps : List Nat) (f : ManagedStream → ManagedStream)
    (view : ManagedStream → β) (hf : ∀ s, view (f s) = view s) (q : Nat) :
    view ((m.modifyAll ps f).streams q) = view (m.streams q) := by
  induction ps generalizing m with
  | nil => rfl
  | cons p ps ih =>
      refine (ih (m.modify p f)).trans ?_
      by_cases hq : q = p
      · rw [hq, modify_self, hf]
      · rw [modify_of_ne m p q f hq]

/-- What the loop sets for every stream it comes by. -/
theorem modifyAll_sets (m : StreamManager) (ps : List Nat) (f : ManagedStream → ManagedStream)
    (view : ManagedStream → β) (v : β) (hf : ∀ s, view (f s) = v) (q : Nat) (hq : q ∈ ps) :
    view ((m.modifyAll ps f).streams q) = v := by
  induction ps generalizing m with
  | nil => exact absurd hq List.not_mem_nil
  | cons p ps ih =>
      by_cases hrest : q ∈ ps
      · exact ih (m.modify p f) hrest
      · -- It is the first one, and the rest of the loop leaves it alone.
        have hfirst : q = p := (List.mem_cons.1 hq).resolve_right hrest
        refine (congrArg view (modifyAll_other (m.modify p f) ps f q hrest)).trans ?_
        rw [hfirst, modify_self, hf]

/-! ## The operations -/

theorem add_manager (m : StreamManager) (p : Nat) :
    (m.add p).size = m.size + 1 ∧ (m.add p).datas = m.datas ++ [p] ∧
      (m.add p).connectCb = m.connectCb ∧ (m.add p).disconnectCb = m.disconnectCb := by
  unfold add
  rcases m.connectCb with _ | c <;> rcases m.disconnectCb with _ | d <;> exact ⟨rfl, rfl, rfl, rfl⟩

theorem modifyIf_of_ne (c : Prop) [Decidable c] (m : StreamManager) (p q : Nat)
    (f : ManagedStream → ManagedStream) (hq : q ≠ p) :
    (if c then m.modify p f else m).streams q = m.streams q := by
  split
  · exact modify_of_ne m p q f hq
  · rfl

theorem add_other (m : StreamManager) (p q : Nat) (hq : q ≠ p) :
    (m.add p).streams q = m.streams q :=
  (modifyIf_of_ne _ _ p q _ hq).trans (modifyIf_of_ne _ _ p q _ hq)

/-- A new stream is given the callbacks there are. -/
theorem add_connectCb (m : StreamManager) (p : Nat) (h : m.connectCb.isSome) :
    ((m.add p).streams p).connectCb = m.connectCb := by
  simp only [add, h, if_true]
  split
  · rw [modify_self, modify_self]
  · rw [modify_self]

theorem add_disconnectCb (m : StreamManager) (p : Nat) (h : m.disconnectCb.isSome) :
    ((m.add p).streams p).disconnectCb = m.disconnectCb := by
  have hsame : ∀ m' : StreamManager, m'.disconnectCb = m.disconnectCb →
      ((if m'.disconnectCb.isSome then m'.modify p ({ · with disconnectCb := m'.disconnectCb })
        else m').streams p).disconnectCb = m.disconnectCb := by
    intro m' hm'
    rw [if_pos (by rw [hm', h]), modify_self, hm']
  refine hsame _ ?_
  split <;> rfl

theorem carried_add (m : StreamManager) (p : Nat) (h : Carried m) :
    Carried (m.add p) ↔ m.datas.length + 1 < 2 ^ 32 := by
  rcases add_manager m p with ⟨hsize, hdatas, hconnect, hdisconnect⟩
  have hlen : (m.add p).size.toNat = (m.add p).datas.length ↔ m.datas.length + 1 < 2 ^ 32 := by
    rw [hsize, hdatas, UInt32.toNat_add, h.size, List.length_append, List.length_singleton]
    simp only [UInt32.toNat_one]
    have hlt := m.size.toNat_lt
    rw [h.size] at hlt
    omega
  constructor
  · intro hafter
    exact hlen.1 hafter.size
  · intro hfits
    refine ⟨?_, ?_, hlen.2 hfits⟩
    · rw [hconnect, hdatas]
      intro hsome q hq
      by_cases hqp : q = p
      · rw [hqp, add_connectCb m p hsome]
      · rw [add_other m p q hqp]
        exact h.connect hsome q (by simpa [hqp] using hq)
    · rw [hdisconnect, hdatas]
      intro hsome q hq
      by_cases hqp : q = p
      · rw [hqp, add_disconnectCb m p hsome]
      · rw [add_other m p q hqp]
        exact h.disconnect hsome q (by simpa [hqp] using hq)

theorem setConnection_manager (m : StreamManager) (ps : List Nat) :
    (m.setConnection ps).size = UInt32.ofNat ps.length ∧ (m.setConnection ps).datas = ps ∧
      (m.setConnection ps).connectCb = m.connectCb ∧
      (m.setConnection ps).disconnectCb = m.disconnectCb := by
  simp only [setConnection]
  rcases modifyAll_manager (if m.connectCb.isSome || m.disconnectCb.isSome then
      modifyAll { m with datas := ps, size := UInt32.ofNat ps.length } ps
        (setCbs m.connectCb m.disconnectCb)
    else { m with datas := ps, size := UInt32.ofNat ps.length }) m.datas ManagedStream.close with
    ⟨hsize, hdatas, hconnect, hdisconnect⟩
  rw [hsize, hdatas, hconnect, hdisconnect]
  split
  · exact modifyAll_manager _ ps _
  · exact ⟨rfl, rfl, rfl, rfl⟩

/-- The streams that are closed keep their callbacks, so only the loop over the new ones
    matters. -/
theorem setConnection_view (m : StreamManager) (ps : List Nat) (view : ManagedStream → β)
    (hclose : ∀ s, view s.close = view s) (q : Nat) :
    view ((m.setConnection ps).streams q) =
      view ((if m.connectCb.isSome || m.disconnectCb.isSome then
          modifyAll { m with datas := ps, size := UInt32.ofNat ps.length } ps
            (setCbs m.connectCb m.disconnectCb)
        else { m with datas := ps, size := UInt32.ofNat ps.length }).streams q) :=
  modifyAll_keeps _ m.datas ManagedStream.close view hclose q

/-- With a connect callback, both are passed on. -/
theorem setConnection_both (m : StreamManager) (ps : List Nat) (h : m.connectCb.isSome) (q : Nat)
    (hq : q ∈ ps) :
    ((m.setConnection ps).streams q).connectCb = m.connectCb ∧
      ((m.setConnection ps).streams q).disconnectCb = m.disconnectCb := by
  constructor
  · rw [setConnection_view m ps ManagedStream.connectCb (fun _ => rfl) q, h, Bool.true_or,
      if_pos rfl]
    exact modifyAll_sets _ ps _ ManagedStream.connectCb m.connectCb
      (fun s => by simp only [setCbs, h, if_true]) q hq
  · rw [setConnection_view m ps ManagedStream.disconnectCb (fun _ => rfl) q, h, Bool.true_or,
      if_pos rfl]
    exact modifyAll_sets _ ps _ ManagedStream.disconnectCb m.disconnectCb
      (fun s => by simp only [setCbs, h, if_true]) q hq

/-- Without one, nothing is. -/
theorem setConnection_neither (m : StreamManager) (ps : List Nat) (h : m.connectCb = none)
    (q : Nat) :
    ((m.setConnection ps).streams q).disconnectCb = (m.streams q).disconnectCb := by
  rw [setConnection_view m ps ManagedStream.disconnectCb (fun _ => rfl) q]
  split
  · refine modifyAll_keeps _ ps _ ManagedStream.disconnectCb (fun s => ?_) q
    simp only [setCbs, h, Option.isSome_none, Bool.false_eq_true, if_false]
  · rfl

theorem carried_setConnection (m : StreamManager) (ps : List Nat) :
    Carried (m.setConnection ps) ↔ Fits m (.setConnection ps) := by
  rcases setConnection_manager m ps with ⟨hsize, hdatas, hconnect, hdisconnect⟩
  have hlen : (m.setConnection ps).size.toNat = (m.setConnection ps).datas.length ↔
      ps.length < 2 ^ 32 := by
    rw [hsize, hdatas, UInt32.toNat_ofNat']
    omega
  constructor
  · intro hafter
    refine ⟨hlen.1 hafter.size, ?_⟩
    intro hnone hsome p hp
    rw [← setConnection_neither m ps hnone p, ← hdisconnect]
    exact hafter.disconnect (by rw [hdisconnect, hsome]) p (by rw [hdatas]; exact hp)
  · rintro ⟨hsmall, hgiven⟩
    refine ⟨?_, ?_, hlen.2 hsmall⟩
    · rw [hconnect, hdatas]
      intro hsome p hp
      exact (setConnection_both m ps hsome p hp).1
    · rw [hdisconnect, hdatas]
      intro hsome p hp
      rcases hc : m.connectCb with _ | c
      · rw [setConnection_neither m ps hc p]
        exact hgiven hc hsome p hp
      · exact (setConnection_both m ps (by rw [hc]; rfl) p hp).2

theorem carried_nil (m : StreamManager) (hdatas : m.datas = []) (hsize : m.size = 0) :
    Carried m := by
  refine ⟨?_, ?_, ?_⟩
  · rw [hdatas]
    exact fun _ _ hp => absurd hp List.not_mem_nil
  · rw [hdatas]
    exact fun _ _ hp => absurd hp List.not_mem_nil
  · rw [hdatas, hsize]
    rfl

theorem carried_setConnectCb (m : StreamManager) (v : Option Nat) (h : Carried m) :
    Carried (m.setConnectCb v) := by
  rcases modifyAll_manager { m with connectCb := v } m.datas ({ · with connectCb := v }) with
    ⟨hsize, hdatas, hconnect, hdisconnect⟩
  have hset : ∀ p ∈ m.datas, ((m.setConnectCb v).streams p).connectCb = v :=
    modifyAll_sets _ m.datas _ ManagedStream.connectCb v (fun _ => rfl)
  have hkept : ∀ p, ((m.setConnectCb v).streams p).disconnectCb = (m.streams p).disconnectCb :=
    modifyAll_keeps _ m.datas _ ManagedStream.disconnectCb (fun _ => rfl)
  refine ⟨?_, ?_, ?_⟩
  · intro _ p hp
    rw [setConnectCb, hdatas] at hp
    rw [hset p hp, setConnectCb, hconnect]
  · intro hsome p hp
    rw [setConnectCb, hdatas] at hp
    rw [setConnectCb, hdisconnect] at hsome
    rw [hkept p, setConnectCb, hdisconnect]
    exact h.disconnect hsome p hp
  · rw [setConnectCb, hsize, hdatas]
    exact h.size

theorem carried_setDisconnectCb (m : StreamManager) (v : Option Nat) (h : Carried m) :
    Carried (m.setDisconnectCb v) := by
  rcases modifyAll_manager { m with disconnectCb := v } m.datas ({ · with disconnectCb := v }) with
    ⟨hsize, hdatas, hconnect, hdisconnect⟩
  have hset : ∀ p ∈ m.datas, ((m.setDisconnectCb v).streams p).disconnectCb = v :=
    modifyAll_sets _ m.datas _ ManagedStream.disconnectCb v (fun _ => rfl)
  have hkept : ∀ p, ((m.setDisconnectCb v).streams p).connectCb = (m.streams p).connectCb :=
    modifyAll_keeps _ m.datas _ ManagedStream.connectCb (fun _ => rfl)
  refine ⟨?_, ?_, ?_⟩
  · intro hsome p hp
    rw [setDisconnectCb, hdatas] at hp
    rw [setDisconnectCb, hconnect] at hsome
    rw [hkept p, setDisconnectCb, hconnect]
    exact h.connect hsome p hp
  · intro _ p hp
    rw [setDisconnectCb, hdatas] at hp
    rw [hset p hp, setDisconnectCb, hdisconnect]
  · rw [setDisconnectCb, hsize, hdatas]
    exact h.size

/-- An operation keeps callbacks and length right exactly if it fits. -/
theorem step_carried_iff (m m' : StreamManager) (a : Action) (h : Carried m)
    (hstep : step a m = some m') : Carried m' ↔ Fits m a := by
  cases a with
  | add p =>
      cases hstep
      exact carried_add m p h
  | clear =>
      cases hstep
      exact iff_of_true (carried_nil m.clear rfl rfl) trivial
  | setConnection ps =>
      cases hstep
      exact carried_setConnection m ps
  | setConnectCb v =>
      cases hstep
      exact iff_of_true (carried_setConnectCb m v h) trivial
  | setDisconnectCb v =>
      cases hstep
      exact iff_of_true (carried_setDisconnectCb m v h) trivial

/-- No operation fails. -/
theorem run_total (acts : List Action) (m : StreamManager) : ∃ m', run step acts m = some m' := by
  induction acts generalizing m with
  | nil => exact ⟨m, rfl⟩
  | cons a acts ih =>
      have hone : ∃ m₁, step a m = some m₁ := by
        cases a <;> exact ⟨_, rfl⟩
      rcases hone with ⟨m₁, hone⟩
      rw [run_cons a acts m m₁ hone]
      exact ih m₁

/-- Whatever callbacks the streams have of their own, and whatever is done with the manager:
    after every operation the streams carry the callbacks of the manager and the length is
    right, if and only if every operation fits. -/
theorem callbacks_carried_iff (streams : Nat → ManagedStream) (acts : List Action) :
    (∀ before rest m, acts = before ++ rest → run step before (new streams) = some m →
      (m.connectCb.isSome → ∀ p ∈ m.datas, (m.streams p).connectCb = m.connectCb) ∧
      (m.disconnectCb.isSome → ∀ p ∈ m.datas, (m.streams p).disconnectCb = m.disconnectCb) ∧
      m.size.toNat = m.datas.length) ↔
    Along step Fits acts (new streams) := by
  rcases run_total acts (new streams) with ⟨m', hrun⟩
  rw [← throughout_iff Carried Carried (fun _ h => h)
    (fun m a m₁ h hfits hstep => (step_carried_iff m m₁ a h hstep).2 hfits)
    (fun m a m₁ h hstep => (step_carried_iff m m₁ a h hstep).1) acts (new streams) m'
    (carried_nil (new streams) rfl rfl) hrun]
  constructor
  · intro hall before rest m hsplit hm
    rcases hall before rest m hsplit hm with ⟨hconnect, hdisconnect, hsize⟩
    exact ⟨hconnect, hdisconnect, hsize⟩
  · intro hall before rest m hsplit hm
    have h := hall before rest m hsplit hm
    exact ⟨h.connect, h.disconnect, h.size⟩

/-- The manager has a disconnect callback and no connect callback, and the stream it is given
    goes without. -/
theorem callbacks_missed :
    ∃ m, run step [.setDisconnectCb (some 7), .setConnection [0]]
        (new (fun _ => ⟨none, none, true, true⟩)) = some m ∧
      ¬(m.disconnectCb.isSome → ∀ p ∈ m.datas, (m.streams p).disconnectCb = m.disconnectCb) := by
  refine ⟨_, rfl, ?_⟩
  intro hall
  exact absurd (hall rfl 0 List.mem_cons_self) (by decide)

end StreamManager

end YkServer
