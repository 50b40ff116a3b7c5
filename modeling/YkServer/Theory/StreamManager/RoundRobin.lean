import YkServer.Lib.Rotation
import YkServer.Theory.StreamManager.Callbacks

/-!
# Round Robin

`get` looks at as many streams as there are, one after the other, and returns the first that
is connected. Where it looks is decided by a counter of 32 bits. As long as the counter
does not wrap in the call every stream gets its turn; if it does, the streams in one
stretch of the list get none, unless their number is a power of two. A stream that stands
in the list twice may have its turn all the same.

## Main definitions

* `StreamManager.LeftOut`: The places in the list that `get` does not look at.
* `StreamManager.Finds`: What is expected of `get`.

## Theorems

* `size_run`: The length is the length, in 32 bits.
* `getLoop_spec`: The loop.
* `finds_iff`: When `get` finds a stream.
* `covered_nodup_iff`: The same where no stream stands in the list twice.
-/

namespace YkServer

open Lib

namespace StreamManager

/-- `get` does not look at the place. -/
def LeftOut (ps : List Nat) (idx : UInt32) (q : Nat) : Prop :=
  ps.length % 2 ^ 32 ≤ q ∨ Missed (2 ^ 32) (ps.length % 2 ^ 32) idx.toNat q

/-- If some stream stays connected all through the call, the call returns a stream that is
    connected when it is looked at last. -/
def Finds (m : StreamManager) (idx : UInt32) : Prop :=
  ∀ isConnected : Nat → Nat → Bool,
    (∃ p ∈ m.datas, ∀ k < m.size.toNat, isConnected k p = true) →
      ∃ k < m.size.toNat, ∃ p ∈ m.datas,
        m.get isConnected idx = some (some p, idx + UInt32.ofNat (k + 1)) ∧
          isConnected k p = true

/-- Every stream stands at a place that `get` looks at. -/
def Covered (ps : List Nat) (idx : UInt32) : Prop :=
  ∀ q p, ps[q]? = some p → LeftOut ps idx q → ∃ q', ps[q']? = some p ∧ ¬LeftOut ps idx q'

theorem size_step (m : StreamManager) (a : Action) (m' : StreamManager)
    (h : m.size.toNat = m.datas.length % 2 ^ 32) (hstep : step a m = some m') :
    m'.size.toNat = m'.datas.length % 2 ^ 32 := by
  cases a with
  | add p =>
      cases hstep
      rcases add_manager m p with ⟨hsize, hdatas, -⟩
      rw [hsize, hdatas, UInt32.toNat_add, h, List.length_append, List.length_singleton]
      exact Nat.mod_add_mod _ _ _
  | clear =>
      cases hstep
      rfl
  | setConnection ps =>
      cases hstep
      rcases setConnection_manager m ps with ⟨hsize, hdatas, -⟩
      rw [hsize, hdatas, UInt32.toNat_ofNat']
  | setConnectCb v =>
      cases hstep
      rcases modifyAll_manager { m with connectCb := v } m.datas ({ · with connectCb := v }) with
        ⟨hsize, hdatas, -⟩
      rw [setConnectCb, hsize, hdatas]
      exact h
  | setDisconnectCb v =>
      cases hstep
      rcases modifyAll_manager { m with disconnectCb := v } m.datas
        ({ · with disconnectCb := v }) with ⟨hsize, hdatas, -⟩
      rw [setDisconnectCb, hsize, hdatas]
      exact h

theorem size_run (streams : Nat → ManagedStream) (acts : List Action) (m : StreamManager)
    (hrun : run step acts (new streams) = some m) :
    m.size.toNat = m.datas.length % 2 ^ 32 :=
  run_inv (fun m => m.size.toNat = m.datas.length % 2 ^ 32)
    (fun m a m' h _ hstep => size_step m a m' h hstep) acts (new streams) m rfl
    (along_true acts (new streams)) hrun

/-! ## The loop -/

/-- Where the counter is after some rounds. -/
theorem toNat_add_ofNat (idx : UInt32) (j : Nat) :
    (idx + UInt32.ofNat j).toNat = (idx.toNat + j) % 2 ^ 32 := by
  rw [UInt32.toNat_add, UInt32.toNat_ofNat', Nat.add_mod_mod]

theorem add_one_add_ofNat (idx : UInt32) (j : Nat) :
    idx + 1 + UInt32.ofNat j = idx + UInt32.ofNat (j + 1) := by
  rw [← UInt32.toNat_inj, toNat_add_ofNat, toNat_add_ofNat, UInt32.toNat_add]
  change ((idx.toNat + 1) % 2 ^ 32 + j) % 2 ^ 32 = _
  omega

/-- The stream that is looked at in a round. -/
def looked (m : StreamManager) (idx : UInt32) (j : Nat) : Option Nat :=
  m.datas[(idx.toNat + j) % 2 ^ 32 % m.size.toNat]?

theorem looked_succ (m : StreamManager) (idx : UInt32) (j : Nat) :
    m.looked (idx + 1) j = m.looked idx (j + 1) := by
  have hidx : ((idx + 1).toNat + j) % 2 ^ 32 = (idx.toNat + (j + 1)) % 2 ^ 32 := by
    rw [UInt32.toNat_add]
    change ((idx.toNat + 1) % 2 ^ 32 + j) % 2 ^ 32 = _
    omega
  rw [looked, looked, hidx]

/-- The loop ends at the first stream that is connected, or when its rounds are over. -/
theorem getLoop_spec (m : StreamManager) (isConnected : Nat → Nat → Bool)
    (hpos : 0 < m.size.toNat) (hsize : m.size.toNat ≤ m.datas.length) (rounds k : Nat)
    (idx : UInt32) :
    (∃ j < rounds, ∃ p, m.looked idx j = some p ∧ isConnected (k + j) p = true ∧
      m.getLoop isConnected rounds k idx = some (some p, idx + UInt32.ofNat (j + 1))) ∨
    (∀ j < rounds, ∀ p, m.looked idx j = some p → isConnected (k + j) p = false) ∧
      m.getLoop isConnected rounds k idx = some (none, idx + UInt32.ofNat rounds) := by
  induction rounds generalizing k idx with
  | zero =>
      refine Or.inr ⟨fun j hj => absurd hj (Nat.not_lt_zero j), ?_⟩
      rw [getLoop]
      exact congrArg (fun i => some (none, i)) (UInt32.add_zero idx).symm
  | succ rounds ih =>
      obtain ⟨p, hp⟩ : ∃ p, m.looked idx 0 = some p :=
        ⟨_, List.getElem?_eq_getElem (Nat.lt_of_lt_of_le (Nat.mod_lt _ hpos) hsize)⟩
      have hfirst : m.datas[(idx % m.size).toNat]? = some p := by
        rw [UInt32.toNat_mod]
        rw [looked, Nat.add_zero, Nat.mod_eq_of_lt idx.toNat_lt] at hp
        exact hp
      rw [getLoop, hfirst, Option.bind_eq_bind, Option.bind_some]
      by_cases hconn : isConnected k p = true
      · rw [if_pos hconn]
        exact Or.inl ⟨0, Nat.succ_pos _, p, hp, hconn, rfl⟩
      · rw [if_neg hconn]
        rcases ih (k + 1) (idx + 1) with ⟨j, hj, q, hq, hconn', hloop⟩ | ⟨hnone, hloop⟩
        · refine Or.inl ⟨j + 1, Nat.succ_lt_succ hj, q, ?_, ?_, ?_⟩
          · rw [← looked_succ, hq]
          · rw [← hconn', Nat.add_right_comm, Nat.add_assoc]
          · rw [hloop, add_one_add_ofNat]
        · refine Or.inr ⟨fun j hj q hq => ?_, by rw [hloop, add_one_add_ofNat]⟩
          cases j with
          | zero =>
              rw [hp, Option.some.injEq] at hq
              rw [← hq]
              exact Bool.eq_false_iff.2 hconn
          | succ j =>
              rw [← looked_succ] at hq
              have hrest := hnone j (Nat.lt_of_succ_lt_succ hj) q hq
              rw [Nat.add_right_comm] at hrest
              exact hrest

/-- The places the loop looks at. -/
theorem looked_iff (m : StreamManager) (hsize : m.size.toNat = m.datas.length % 2 ^ 32)
    (idx : UInt32) (p : Nat) :
    (∃ j < m.size.toNat, m.looked idx j = some p) ↔
      ∃ q, m.datas[q]? = some p ∧ ¬LeftOut m.datas idx q := by
  have hlt := m.size.toNat_lt
  have hreached := fun q hq =>
    reached_iff (2 ^ 32) m.size.toNat idx.toNat q idx.toNat_lt (Nat.le_of_lt hlt) hq
  simp only [LeftOut, ← hsize, not_or, Nat.not_le]
  constructor
  · rintro ⟨j, hj, hp⟩
    have hq := Nat.mod_lt ((idx.toNat + j) % 2 ^ 32) (Nat.zero_lt_of_lt hj)
    exact ⟨_, hp, hq, (hreached _ hq).1 ⟨j, hj, rfl⟩⟩
  · rintro ⟨q, hp, hq, hnot⟩
    rcases (hreached q hq).2 hnot with ⟨j, hj, hat⟩
    exact ⟨j, hj, by rw [looked, hat]; exact hp⟩

/-- Whatever has been done with a manager, and whatever the counter is: `get` finds a stream
    if and only if every stream stands at a place that it looks at. -/
theorem finds_iff (streams : Nat → ManagedStream) (acts : List Action) (m : StreamManager)
    (hrun : run step acts (new streams) = some m) (idx : UInt32) :
    m.Finds idx ↔ Covered m.datas idx := by
  have hsize := size_run streams acts m hrun
  have hlooked := looked_iff m hsize idx
  constructor
  · intro hfinds q p hp _
    -- Let this stream be the only one that is connected.
    rcases hfinds (fun _ r => decide (r = p))
      ⟨p, List.mem_of_getElem? hp, fun _ _ => decide_eq_true rfl⟩ with
      ⟨k, hk, r, -, hget, hr⟩
    rw [decide_eq_true_eq] at hr
    rw [hr] at hget
    rcases getLoop_spec m (fun _ r => decide (r = p)) (Nat.zero_lt_of_lt hk)
      (hsize ▸ Nat.mod_le _ _) m.size.toNat 0 idx with ⟨j, hj, r, hat, hconn, -⟩ | ⟨-, hloop⟩
    · rw [decide_eq_true_eq] at hconn
      rw [hconn] at hat
      exact (hlooked p).1 ⟨j, hj, hat⟩
    · rw [get, hloop] at hget
      cases hget
  · rintro hcovered isConnected ⟨p, hp, hstays⟩
    have hturn : ∃ j < m.size.toNat, m.looked idx j = some p := by
      rw [hlooked]
      rcases List.getElem?_of_mem hp with ⟨q, hq⟩
      by_cases hleft : LeftOut m.datas idx q
      · exact hcovered q p hq hleft
      · exact ⟨q, hq, hleft⟩
    rcases hturn with ⟨j, hj, hat⟩
    rcases getLoop_spec m isConnected (Nat.zero_lt_of_lt hj) (hsize ▸ Nat.mod_le _ _)
      m.size.toNat 0 idx with ⟨k, hk, r, hr, hconn, hloop⟩ | ⟨hnone, -⟩
    · rw [Nat.zero_add] at hconn
      exact ⟨k, hk, r, List.mem_of_getElem? hr, hloop, hconn⟩
    · have hno := hnone j hj p hat
      rw [Nat.zero_add, hstays j hj] at hno
      cases hno

/-- Where no stream stands in the list twice, every one has its turn if the counter does not
    wrap, or the length is a power of two. -/
theorem covered_nodup_iff (ps : List Nat) (hnodup : ps.Nodup) (hlen : ps.length < 2 ^ 32)
    (idx : UInt32) :
    Covered ps idx ↔ idx.toNat + ps.length ≤ 2 ^ 32 ∨ ps.length ∣ 2 ^ 32 := by
  have hnone : Covered ps idx ↔ ¬∃ q, Missed (2 ^ 32) ps.length idx.toNat q := by
    constructor
    · rintro hcovered ⟨q, hmissed⟩
      have hq : q < ps.length := hmissed.2.2.2.1
      rcases hcovered q _ (List.getElem?_eq_getElem hq)
        (Or.inr (by rw [Nat.mod_eq_of_lt hlen]; exact hmissed)) with ⟨q', hat, hnot⟩
      rw [LeftOut, Nat.mod_eq_of_lt hlen, not_or] at hnot
      -- The stream stands nowhere else.
      have hsame : q' = q :=
        (List.getElem?_inj (Nat.not_le.1 hnot.1) hnodup).1
          (hat.trans (List.getElem?_eq_getElem hq).symm)
      rw [hsame] at hnot
      exact hnot.2 hmissed
    · intro hnone q p hp hleft
      rw [LeftOut, Nat.mod_eq_of_lt hlen] at hleft
      rcases hleft with hle | hmissed
      · rw [List.getElem?_eq_none hle] at hp
        cases hp
      · exact absurd ⟨q, hmissed⟩ hnone
  rw [hnone]
  rcases Nat.eq_zero_or_pos ps.length with hzero | hpos
  · rw [hzero]
    refine iff_of_true ?_ (Or.inl (Nat.le_of_lt idx.toNat_lt))
    rintro ⟨q, hmissed⟩
    exact absurd hmissed.2.2.2.1 (Nat.not_lt_zero q)
  · rw [missed_exists_iff _ _ _ idx.toNat_lt hpos, not_and_or, not_not, Nat.not_lt]

/-- Two streams, of which the second one is connected. -/
theorem finds_second :
    ∃ m, run step [.add 5, .add 6] (new (fun _ => ⟨none, none, true, false⟩)) = some m ∧
      ∃ k, m.get (fun _ p => decide (p = 6)) 4294967295 =
        some (some 6, 4294967295 + UInt32.ofNat (k + 1)) := by
  refine ⟨_, rfl, ?_⟩
  -- The counter wraps, but there are two of them.
  have hcovered := (covered_nodup_iff [5, 6] (by decide) (by decide) 4294967295).2
    (Or.inr (by decide))
  rcases (finds_iff (fun _ => ⟨none, none, true, false⟩) [.add 5, .add 6] _ rfl
    4294967295).2 hcovered (fun _ p => decide (p = 6)) ⟨6, by decide, fun _ _ => rfl⟩ with
    ⟨k, -, p, -, hget, hp⟩
  rw [of_decide_eq_true hp] at hget
  exact ⟨k, hget⟩

/-- The counter wraps, and of three streams the last has no turn. -/
theorem misses_third :
    ∃ m, run step [.setConnection [5, 6, 7]] (new (fun _ => ⟨none, none, true, true⟩)) = some m ∧
      m.datas ≠ [] ∧ ¬m.Finds 4294967295 := by
  refine ⟨_, rfl, List.cons_ne_nil _ _, fun hfinds => ?_⟩
  rcases hfinds (fun _ p => decide (p = 7)) ⟨7, by decide, fun _ _ => rfl⟩ with
    ⟨k, -, p, -, hget, -⟩
  cases hget

end StreamManager

end YkServer
