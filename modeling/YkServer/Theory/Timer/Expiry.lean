import YkServer.Theory.Timer.Callbacks
import YkServer.Theory.Timer.Front

/-!
# Which Timers Expire

`listExpiredCb` hands out the timers that are due and no others. It searches the
set for a probe with the present time as its deadline. The probe's address decides
which of the timers that are due right now are in front of it, and the scan behind it
takes the rest of them, so the address does not matter in the end.

The set is cut in two at that place. The front part is handed out in its order, which
is that of the deadlines; of its timers the recurring ones go back into the set with a
new deadline, and the others lose their callbacks.

A clock that has gone back by more than an hour makes all timers due. The comparison
subtracts an hour from the last reading, which is taken to be at least that.

## Main definitions

* `TimerManager.Due`: The timer is due.
* `TimerManager.Expired`: What is expected of `listExpiredCb`.

## Theorems

* `expiredCount_due`: Where the set is cut.
* `listExpiredCb_eq`: The loop is run over what is in front of it.
* `listExpiredCb_exact`: One call, from any state with the invariant.
* `expired_exact`: One call after any run.
-/

namespace YkServer

open Lib

namespace TimerManager

/-- The timer is due, or the clock was an hour ahead. -/
def Due (s : TimerManager) (now : UInt64) (p : Nat) : Prop :=
  now.toNat < s.previouseTime.toNat - 3600000 ∨ s.deadline p ≤ now.toNat

/-- What is expected of `listExpiredCb`: the callbacks of the timers that are due, in
    the order of their deadlines and each once; the others stay as they are, and of the
    expired ones the recurring timers stay with a new deadline. -/
structure Expired (s : TimerManager) (now : UInt64) (cbs : List (Nat × Option Nat))
    (s' : TimerManager) : Prop where
  due : ∀ p, p ∈ cbs.map Prod.fst ↔ p ∈ s.timers ∧ s.Due now p
  nodup : (cbs.map Prod.fst).Nodup
  ordered : (cbs.map Prod.fst).Pairwise (fun p q => s.deadline p ≤ s.deadline q)
  callbacks : ∀ x ∈ cbs, x.2 = s.cbOf x.1 ∧ x.2.isSome = true
  inv : s'.Inv
  untouched : ∀ p, p ∉ cbs.map Prod.fst → s'.heap p = s.heap p
  remaining : ∀ p, p ∉ cbs.map Prod.fst → (p ∈ s'.timers ↔ p ∈ s.timers)
  recurring : ∀ p t, p ∈ cbs.map Prod.fst → s.heap p = some t →
    (p ∈ s'.timers ↔ t.recurring = true) ∧
      (t.recurring = true → s'.heap p = some { t with next := now + t.ms } ∧
        s'.deadline p = now.toNat + t.ms.toNat)

/-! ## Where the set is cut -/

theorem rolledBack_iff (s : TimerManager) (now : UInt64)
    (hprev : 3600000 ≤ s.previouseTime.toNat) :
    s.rolledBack now = true ↔ now.toNat < s.previouseTime.toNat - 3600000 := by
  have hhour : (60 * 60 * 1000 : UInt64).toNat = 3600000 := rfl
  have hsub : (s.previouseTime - 60 * 60 * 1000).toNat = s.previouseTime.toNat - 3600000 := by
    rw [UInt64.toNat_sub_of_le _ _ (UInt64.le_iff_toNat_le.2 (by rw [hhour]; exact hprev)), hhour]
  rw [rolledBack, Bool.and_eq_true, decide_eq_true_eq, decide_eq_true_eq,
    UInt64.lt_iff_toNat_lt, UInt64.lt_iff_toNat_lt, hsub]
  omega

/-- A timer in front of the probe has a deadline up to now, and one behind it a deadline
    from now on. -/
theorem rank_probe (s : TimerManager) (now : UInt64) (nowTimer p : Nat) :
    (s.rank p < rankOf (now, nowTimer) → s.deadline p ≤ now.toNat) ∧
      (¬s.rank p < rankOf (now, nowTimer) → now.toNat ≤ s.deadline p) := by
  rw [rank, rankOf, rankOf, Prod.Lex.toLex_lt_toLex]
  have hdead : (s.key p).1.toNat = s.deadline p := rfl
  simp only [hdead]
  omega

/-- Without a change of the clock the set is cut behind the last timer that is due. -/
theorem expiredCount_due (s : TimerManager) (h : s.Sorted) (now : UInt64) (nowTimer : Nat) :
    (∀ p ∈ s.timers.take (s.expiredCount false now nowTimer), s.deadline p ≤ now.toNat) ∧
      ∀ p ∈ s.timers.drop (s.expiredCount false now nowTimer), now.toNat < s.deadline p := by
  set it := s.lowerBound (now, nowTimer) with hit
  have hcount : s.expiredCount false now nowTimer =
      it + ((s.timers.drop it).takeWhile (fun q => decide ((s.key q).1 = now))).length := rfl
  -- The search: those in front of the probe, and those behind it.
  have hsearch := scan_prefix (fun q => decide (s.rank q < rankOf (now, nowTimer))) s.timers
    (h.imp (fun hlt hb => decide_eq_true (lt_trans hlt (of_decide_eq_true hb))))
  have hplace : (s.timers.takeWhile (fun q => decide (s.rank q < rankOf (now, nowTimer)))).length
      = it := (lowerBound_eq s (now, nowTimer)).symm
  rw [hplace] at hsearch
  have hge : ∀ p ∈ s.timers.drop it, now.toNat ≤ s.deadline p := fun p hp =>
    (s.rank_probe now nowTimer p).2 (of_decide_eq_false (hsearch.2 p hp))
  -- The scan: behind the probe the timers that are due right now come first.
  have hequal : ∀ q, decide ((s.key q).1 = now) = true ↔ s.deadline q = now.toNat := by
    intro q
    rw [decide_eq_true_eq, deadline, UInt64.toNat_inj]
  have hdrop : (s.timers.drop it).Pairwise (fun p q => s.rank p < s.rank q) :=
    List.Pairwise.sublist (List.drop_sublist _ _) h
  have hscan := scan_prefix (fun q => decide ((s.key q).1 = now)) (s.timers.drop it)
    (hdrop.imp_of_mem (fun {a b} ha _ hlt hb => by
      have hle := s.deadline_le_of_rank_lt a b hlt
      have hlow := hge a ha
      rw [hequal] at hb ⊢
      omega))
  rw [hcount, List.take_add, ← List.drop_drop]
  constructor
  · intro p hp
    rcases List.mem_append.1 hp with hfront | hnow
    · exact (s.rank_probe now nowTimer p).1 (of_decide_eq_true (hsearch.1 p hfront))
    · exact Nat.le_of_eq ((hequal p).1 (hscan.1 p hnow))
  · intro p hp
    have hne : ¬s.deadline p = now.toNat := by
      rw [← hequal, hscan.2 p hp]
      exact Bool.false_ne_true
    have hlow := hge p (List.mem_of_mem_drop hp)
    omega

/-- The set is cut behind the last timer that is due, in any case. -/
theorem mem_take_due (s : TimerManager) (h : s.Sorted) (now : UInt64) (nowTimer : Nat)
    (hprev : 3600000 ≤ s.previouseTime.toNat) (p : Nat) :
    p ∈ s.timers.take (s.expiredCount (s.rolledBack now) now nowTimer) ↔
      p ∈ s.timers ∧ s.Due now p := by
  by_cases hback : s.rolledBack now = true
  · have hall : s.timers.take (s.expiredCount (s.rolledBack now) now nowTimer) = s.timers := by
      rw [hback]
      exact List.take_length
    rw [hall]
    exact ⟨fun hp => ⟨hp, Or.inl ((s.rolledBack_iff now hprev).1 hback)⟩, And.left⟩
  · rw [Bool.eq_false_iff.2 hback]
    rcases s.expiredCount_due h now nowTimer with ⟨htake, hdrop⟩
    constructor
    · intro hp
      exact ⟨List.mem_of_mem_take hp, Or.inr (htake p hp)⟩
    · rintro ⟨hp, hdue⟩
      rw [← List.take_append_drop (s.expiredCount false now nowTimer) s.timers,
        List.mem_append] at hp
      rcases hp with hfront | hrest
      · exact hfront
      · have hlate := hdrop p hrest
        rcases hdue with hrolled | hle
        · exact absurd ((s.rolledBack_iff now hprev).2 hrolled) hback
        · omega

/-! ## The call -/

/-- The call cuts the set and runs the loop. Where it returns early the front part is
    empty. -/
theorem listExpiredCb_eq (s : TimerManager) (h : s.Inv) (now : UInt64) (nowTimer : Nat) :
    ∃ s₀, s₀.heap = s.heap ∧
      Apart s₀ (s.timers.take (s.expiredCount (s.rolledBack now) now nowTimer)) ∧
      listExpiredCb now nowTimer s =
        collect now (s.timers.take (s.expiredCount (s.rolledBack now) now nowTimer)) s₀ := by
  rcases listExpiredCb_collect s h now nowTimer with
    ⟨it, s₀, hheap, hapart, hrun, rfl | ⟨rfl, hback, hlate⟩⟩
  · exact ⟨s₀, hheap, hapart, hrun⟩
  · have hnone : s.timers.take (s.expiredCount (s.rolledBack now) now nowTimer) =
        s.timers.take 0 := by
      rw [hback, List.take_zero, List.eq_nil_iff_forall_not_mem]
      rcases htimers : s.timers with _ | ⟨p, ps⟩
      · intro q hq
        rw [List.take_nil] at hq
        cases hq
      · -- Whoever is in front of the cut is due, so the first timer would be.
        rcases h.front p ps htimers with ⟨t, hp⟩
        have hnext := hlate p t (by rw [htimers, List.head?_cons]) hp
        have hfront := (s.expiredCount_due h.sorted now nowTimer).1 p
        rw [htimers, deadline_some s p t hp] at hfront
        intro q hq
        rcases hcount : s.expiredCount false now nowTimer with _ | n
        · rw [hcount, List.take_zero] at hq
          cases hq
        · rw [hcount, List.take_succ_cons] at hfront
          exact absurd (UInt64.lt_iff_toNat_lt.1 hnext)
            (Nat.not_lt.2 (hfront List.mem_cons_self))
    rw [hnone]
    exact ⟨s₀, hheap, hapart, hrun⟩

/-- A call from any state with the invariant does what is expected. -/
theorem listExpiredCb_exact (s : TimerManager) (h : s.Inv) (now : UInt64) (nowTimer : Nat)
    (hprev : 3600000 ≤ s.previouseTime.toNat)
    (hwrap : ∀ p ∈ s.timers, ∀ t, s.heap p = some t → now.toNat + t.ms.toNat < 2 ^ 64) :
    ∃ cbs s', listExpiredCb now nowTimer s = .ok cbs s' ∧ s.Expired now cbs s' := by
  rcases s.listExpiredCb_eq h now nowTimer with ⟨s₀, hheap₀, hapart, hrun⟩
  have hdue := s.mem_take_due h.sorted now nowTimer hprev
  set out := s.timers.take (s.expiredCount (s.rolledBack now) now nowTimer) with hout
  have hsub : out.Sublist s.timers := List.take_sublist _ _
  rcases collect_exact now out s₀ hapart with ⟨s', hcollect, hinv, hheap⟩
  refine ⟨_, s', hrun.trans hcollect, ?_⟩
  have hfst := s₀.map_fst_callbacks out
  have hcb : ∀ p, s₀.cbOf p = s.cbOf p := fun p => by rw [cbOf, hheap₀, cbOf]
  have huntouched : ∀ p, p ∉ out → s'.heap p = s.heap p := fun p hp => by
    rw [hheap, if_neg hp, hheap₀]
  refine ⟨?_, ?_, ?_, ?_, hinv, ?_, ?_, ?_⟩
  · rw [hfst]
    exact hdue
  · rw [hfst]
    exact h.sorted.nodup.sublist hsub
  · rw [hfst]
    exact (List.Pairwise.sublist hsub h.sorted).imp (s.deadline_le_of_rank_lt _ _)
  · intro x hx
    rcases List.mem_map.1 hx with ⟨p, hp, rfl⟩
    refine ⟨hcb p, ?_⟩
    rw [hcb, ← h.mem_cbOf]
    exact hsub.mem hp
  · rw [hfst]
    exact huntouched
  · rw [hfst]
    intro p hp
    rw [hinv.mem, h.mem]
    simp only [live, huntouched p hp]
  · rw [hfst]
    intro p t hp ht
    have hnew : s'.heap p = some (t.expire now) := by
      rw [hheap, if_pos hp, hheap₀, ht, Option.map_some]
    have hlive : t.cb.isSome = true := by
      rw [← live_some s p t ht, ← h.mem]
      exact hsub.mem hp
    by_cases hrec : t.recurring = true
    · rw [Timer.expire, if_pos hrec] at hnew
      refine ⟨?_, fun _ => ⟨hnew, ?_⟩⟩
      · rw [hinv.mem, live_some s' p _ hnew]
        exact ⟨fun _ => hrec, fun _ => hlive⟩
      · rw [deadline_some s' p _ hnew, UInt64.toNat_add]
        exact Nat.mod_eq_of_lt (hwrap p (hsub.mem hp) t ht)
    · rw [Timer.expire, if_neg hrec] at hnew
      refine ⟨?_, fun hyes => absurd hyes hrec⟩
      rw [hinv.mem, live_some s' p _ hnew]
      exact ⟨fun hno => absurd hno Bool.false_ne_true, fun hyes => absurd hyes hrec⟩

end TimerManager

namespace TimerHistory

open TimerManager

/-- After any run of valid calls, `listExpiredCb` hands out exactly the timers that are
    due, in the order of their deadlines, and leaves the others and the recurring ones,
    those with their new deadlines. The address of the probe does not matter. -/
theorem expired_exact (start : UInt64) (ops : List Op) (h : TimerHistory)
    (hvalid : Along step Valid ops (new start)) (hrun : run step ops (new start) = some h)
    (now : UInt64) (nowTimer : Nat) (hprev : 3600000 ≤ h.manager.previouseTime.toNat)
    (hwrap : ∀ p ∈ h.manager.timers, ∀ t, h.manager.heap p = some t →
      now.toNat + t.ms.toNat < 2 ^ 64) :
    ∃ cbs s', listExpiredCb now nowTimer h.manager = .ok cbs s' ∧
      h.manager.Expired now cbs s' := by
  rcases run_total ops (new start) (inv_new start) hvalid with ⟨h', hrun', hinv⟩
  rw [hrun, Option.some.injEq] at hrun'
  rw [← hrun'] at hinv
  exact listExpiredCb_exact h.manager hinv.manager now nowTimer hprev hwrap

/-- Two timers that are due right now, one on each side of the probe. -/
theorem expired_exact_tie :
    ∃ h cbs s', run step [.addTimer 1 10 7 false 4000000, .addTimer 3 10 8 true 4000000]
        (new 4000000) = some h ∧
      listExpiredCb 4000010 2 h.manager = .ok cbs s' ∧ h.manager.Expired 4000010 cbs s' := by
  have hvalid : Along step Valid [.addTimer 1 10 7 false 4000000, .addTimer 3 10 8 true 4000000]
      (new 4000000) := ⟨rfl, rfl, trivial⟩
  rcases run_total _ (new 4000000) (inv_new 4000000) hvalid with ⟨h, hrun, -⟩
  have hheap : h.manager.heap = Function.update (Function.update (fun _ => none) 1
      (some ⟨false, 10, 4000010, some 7⟩)) 3 (some ⟨true, 10, 4000010, some 8⟩) ∧
      h.manager.previouseTime = 4000000 ∧ h.manager.timers = [1, 3] := by
    cases hrun
    exact ⟨rfl, rfl, rfl⟩
  rcases hheap with ⟨hheap, hprev, htimers⟩
  have hwrap : ∀ p ∈ h.manager.timers, ∀ t, h.manager.heap p = some t →
      (4000010 : UInt64).toNat + t.ms.toNat < 2 ^ 64 := by
    intro p hp t ht
    rw [htimers, List.mem_cons, List.mem_singleton] at hp
    rw [hheap] at ht
    rcases hp with rfl | rfl
    · cases ht
      decide
    · cases ht
      decide
  rcases expired_exact 4000000 _ h hvalid hrun 4000010 2 (by rw [hprev]; decide) hwrap with
    ⟨cbs, s', hout, hexp⟩
  exact ⟨h, cbs, s', hrun, hout, hexp⟩

end TimerHistory

end YkServer
