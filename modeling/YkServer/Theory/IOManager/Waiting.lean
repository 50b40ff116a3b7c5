import YkServer.Core.Idle
import YkServer.Theory.Timer.Front

/-!
# How Long a Thread Waits

A thread without work is to wait three seconds at most, and not longer than until the
earliest deadline. It does so if the time until then, with the sign bit of an `int` in
mind, is not taken for a negative number. A negative timeout means forever, and the
distances for which that happens come back every `2 ^ 32` milliseconds.

## Main definitions

* `TimerManager.untilEarliest`: The time until the earliest deadline.
* `IOManager.Bounded`: What is expected of a timeout.

## Theorems

* `getNextTimer_until`: `getNextTimer` is that time.
* `waitLoop_eq`: All calls of a round get the same timeout.
* `bounded_iff`: When it is as expected.
* `wait_bounded_iff`: After any run of the timers.
-/

namespace YkServer

open Lib

namespace TimerManager

/-- The time until the earliest deadline, if there is a timer. -/
def untilEarliest (s : TimerManager) (now : UInt64) : Option Nat :=
  (s.timers.map (fun p => s.deadline p - now.toNat)).min?

/-- The first timer is the earliest. -/
theorem untilEarliest_cons (s : TimerManager) (h : s.Sorted) (now : UInt64) (p : Nat)
    (ps : List Nat) (htimers : s.timers = p :: ps) :
    s.untilEarliest now = some (s.deadline p - now.toNat) := by
  rw [untilEarliest, htimers, List.map_cons]
  refine List.min?_eq_some_iff.2 ⟨List.mem_cons_self, ?_⟩
  intro d hd
  rcases List.mem_cons.1 hd with rfl | hrest
  · exact Nat.le_refl _
  · rcases List.mem_map.1 hrest with ⟨q, hq, rfl⟩
    unfold Sorted at h
    rw [htimers] at h
    have hle := s.deadline_le_of_rank_lt p q (List.rel_of_pairwise_cons h hq)
    omega

/-- The time until the earliest deadline as a word, which is the largest one if there is
    no timer. -/
theorem getNextTimer_until (s : TimerManager) (h : s.Inv) (now : UInt64) :
    ∃ next s', getNextTimer now s = .ok next s' ∧
      ((s.untilEarliest now = none ∧ next = 0 - 1) ∨ s.untilEarliest now = some next.toNat) := by
  rcases getNextTimer_spec s (fun p ps => h.front p ps) now with ⟨next, hrun, hnone, hsome⟩
  refine ⟨next, _, hrun, ?_⟩
  rcases htimers : s.timers with _ | ⟨p, ps⟩
  · refine Or.inl ⟨?_, hnone htimers⟩
    rw [untilEarliest, htimers]
    rfl
  · rcases h.front p ps htimers with ⟨t, hp⟩
    right
    rw [s.untilEarliest_cons h.sorted now p ps htimers, deadline_some s p t hp,
      hsome p ps t htimers hp]
    split
    · next hge =>
        rw [Nat.sub_eq_zero_of_le (UInt64.le_iff_toNat_le.1 hge)]
        rfl
    · next hlt => rw [UInt64.toNat_sub_of_le _ _ (UInt64.le_of_lt (UInt64.not_le.1 hlt))]

end TimerManager

namespace IOManager

/-- What is expected of a timeout: neither forever nor longer than three seconds, nor longer
    than until the earliest deadline. -/
def Bounded (earliest : Option Nat) (timeout : Int) : Prop :=
  0 ≤ timeout ∧ timeout ≤ 3000 ∧ ∀ d, earliest = some d → timeout ≤ d

theorem limitTimeout_max : limitTimeout MAX_TIMEOUT = MAX_TIMEOUT := by decide

/-- The limit is put in force once. -/
theorem limitTimeout_twice (next : UInt64) :
    limitTimeout (limitTimeout next) = limitTimeout next := by
  by_cases hmax : next = 0 - 1
  · subst hmax
    decide
  · by_cases hlong : intOfWord next.toNat > MAX_TIMEOUT.toNat
    · rw [show limitTimeout next = MAX_TIMEOUT from (if_pos hmax).trans (if_pos hlong),
        limitTimeout_max]
    · have hsame : limitTimeout next = next := (if_pos hmax).trans (if_neg hlong)
      rw [hsame, hsame]

theorem waitLoop_eq (interrupts : Nat) (next : UInt64) :
    waitLoop interrupts next =
      List.replicate (interrupts + 1) (intOfWord (limitTimeout next).toNat) := by
  induction interrupts generalizing next with
  | zero => rfl
  | succ n ih => rw [waitLoop, ih, limitTimeout_twice, List.replicate_succ (n := n + 1)]

/-- The low half of a word as an `int`. -/
theorem intOfWord_eq (n : Nat) :
    (n % 2 ^ 32 < 2 ^ 31 ∧ intOfWord n = (n % 2 ^ 32 : Nat)) ∨
      (2 ^ 31 ≤ n % 2 ^ 32 ∧ intOfWord n < 0) := by
  by_cases hlow : n % 2 ^ 32 < 2 ^ 31
  · exact Or.inl ⟨hlow, if_pos hlow⟩
  · refine Or.inr ⟨by omega, ?_⟩
    rw [intOfWord, if_neg hlow]
    omega

/-- The timeout is as expected unless the distance is taken for a negative number. -/
theorem bounded_iff (next : UInt64) (earliest : Option Nat)
    (h : (earliest = none ∧ next = 0 - 1) ∨ earliest = some next.toNat) :
    Bounded earliest (intOfWord (limitTimeout next).toNat) ↔
      ∀ d, earliest = some d → d = 2 ^ 64 - 1 ∨ d % 2 ^ 32 < 2 ^ 31 := by
  by_cases hmax : next = 0 - 1
  · subst hmax
    have hlimit : intOfWord (limitTimeout (0 - 1)).toNat = 3000 := by decide
    have hlarge : ((0 : UInt64) - 1).toNat = 2 ^ 64 - 1 := by decide
    rw [hlimit]
    refine iff_of_true ⟨by decide, by decide, fun d hd => ?_⟩ (fun d hd => Or.inl ?_)
    · rcases h with ⟨hnone, -⟩ | hsome
      · rw [hnone] at hd
        cases hd
      · rw [hsome, Option.some.injEq, hlarge] at hd
        omega
    · rcases h with ⟨hnone, -⟩ | hsome
      · rw [hnone] at hd
        cases hd
      · rw [hsome, Option.some.injEq, hlarge] at hd
        exact hd.symm
  · have hsome : earliest = some next.toNat := h.resolve_left (fun hboth => hmax hboth.2)
    have hless : next.toNat ≠ 2 ^ 64 - 1 := fun heq =>
      hmax (UInt64.toNat_inj.1 (heq.trans (by decide : 2 ^ 64 - 1 = ((0 : UInt64) - 1).toNat)))
    have hlimit : limitTimeout next =
        if intOfWord next.toNat > MAX_TIMEOUT.toNat then MAX_TIMEOUT else next := if_pos hmax
    have hthree : MAX_TIMEOUT.toNat = 3000 := by decide
    have hdist : (∀ d, earliest = some d → d = 2 ^ 64 - 1 ∨ d % 2 ^ 32 < 2 ^ 31) ↔
        next.toNat % 2 ^ 32 < 2 ^ 31 := by
      simp only [hsome, Option.some.injEq, forall_eq', hless, false_or]
    rw [hdist, hlimit, Bounded, hthree]
    rcases intOfWord_eq next.toNat with ⟨hlow, hint⟩ | ⟨hhigh, hneg⟩
    · refine iff_of_true ?_ hlow
      have hle := Nat.mod_le next.toNat (2 ^ 32)
      by_cases hlong : intOfWord next.toNat > (3000 : Nat)
      · rw [if_pos hlong, show intOfWord MAX_TIMEOUT.toNat = 3000 from by decide]
        refine ⟨by decide, by decide, fun d hd => ?_⟩
        rw [hsome, Option.some.injEq] at hd
        omega
      · rw [if_neg hlong]
        refine ⟨by omega, by omega, fun d hd => ?_⟩
        rw [hsome, Option.some.injEq] at hd
        omega
    · rw [if_neg (by omega)]
      exact iff_of_false (fun hbound => absurd hbound.1 (by omega)) (by omega)

end IOManager

namespace TimerHistory

open TimerManager

/-- After any run of valid calls, whatever the clock shows and however often it is interrupted:
    the timeouts that a round of `idle` hands to `epoll_wait` are as expected if and only if the
    distance to the earliest deadline, taken as an `int`, is not negative; or it is so
    large that it stands for no timer. -/
theorem wait_bounded_iff (start : UInt64) (ops : List Op) (h : TimerHistory)
    (hvalid : Along step Valid ops (new start)) (hrun : run step ops (new start) = some h)
    (pendingEventCount : Int) (schedulerStopping : Bool) (interrupts : Nat) (now : UInt64) :
    ∃ timeouts s', IOManager.idleRound pendingEventCount schedulerStopping interrupts now
        h.manager = .ok timeouts s' ∧
      ((∀ t ∈ timeouts, IOManager.Bounded (h.manager.untilEarliest now) t) ↔
        ∀ d, h.manager.untilEarliest now = some d → d = 2 ^ 64 - 1 ∨ d % 2 ^ 32 < 2 ^ 31) := by
  rcases run_total ops (new start) (inv_new start) hvalid with ⟨h', hrun', hinv⟩
  rw [hrun, Option.some.injEq] at hrun'
  rw [← hrun'] at hinv
  rcases getNextTimer_until h.manager hinv.manager now with ⟨next, s', hnext, hdist⟩
  have hiff := IOManager.bounded_iff next _ hdist
  unfold IOManager.idleRound
  rw [bind_ok _ _ _ _ _ hnext]
  by_cases hlast : (decide (next = 0 - 1) && decide (pendingEventCount = 0) &&
      schedulerStopping) = true
  · -- The last round does not wait; there is no timer then.
    rw [if_pos hlast]
    refine ⟨[], s', rfl, iff_of_true (fun t ht => absurd ht List.not_mem_nil) ?_⟩
    rw [Bool.and_eq_true, Bool.and_eq_true, decide_eq_true_eq] at hlast
    rw [hlast.1.1] at hiff hdist
    refine hiff.1 ⟨by decide, by decide, fun d hd => ?_⟩
    rcases hdist with ⟨hnone, -⟩ | hsome
    · rw [hnone] at hd
      cases hd
    · rw [hsome, Option.some.injEq] at hd
      rw [← hd]
      decide
  · rw [if_neg hlast]
    refine ⟨IOManager.waitLoop interrupts next, s', rfl, ?_⟩
    rw [IOManager.waitLoop_eq, ← hiff]
    simp only [List.mem_replicate, ne_eq, Nat.succ_ne_zero, not_false_eq_true, true_and,
      forall_eq]

/-- A timer of ten milliseconds, and a wait that is interrupted once. -/
theorem wait_bounded_ten :
    ∃ h timeouts s', run step [.addTimer 1 10 7 false 4000000] (new 4000000) = some h ∧
      IOManager.idleRound 0 false 1 4000000 h.manager = .ok timeouts s' ∧ timeouts ≠ [] ∧
      h.manager.untilEarliest 4000000 = some 10 ∧ ∀ t ∈ timeouts, 0 ≤ t ∧ t ≤ 10 := by
  have hvalid : Along step Valid [.addTimer 1 10 7 false 4000000] (new 4000000) := ⟨rfl, trivial⟩
  have hall : ∃ h s', run step [.addTimer 1 10 7 false 4000000] (new 4000000) = some h ∧
      h.manager.untilEarliest 4000000 = some 10 ∧
      IOManager.idleRound 0 false 1 4000000 h.manager = .ok [10, 10] s' :=
    ⟨_, _, rfl, rfl, rfl⟩
  rcases hall with ⟨h, s₁, hrun, hearliest, hwaits⟩
  rcases wait_bounded_iff 4000000 _ h hvalid hrun 0 false 1 4000000 with
    ⟨timeouts, s', hround, hiff⟩
  rw [hround] at hwaits
  cases hwaits
  rw [hearliest] at hiff
  have hbounded := hiff.2 (fun d hd => by cases hd; exact Or.inr (by decide))
  exact ⟨h, [10, 10], s₁, hrun, hround, List.cons_ne_nil _ _, hearliest,
    fun t ht => ⟨(hbounded t ht).1, (hbounded t ht).2.2 10 rfl⟩⟩

/-- A timer of twenty-five days, for which the thread waits forever. -/
theorem waits_forever :
    ∃ h, Along step Valid [.addTimer 1 2147483648 7 false 4000000] (new 4000000) ∧
      run step [.addTimer 1 2147483648 7 false 4000000] (new 4000000) = some h ∧
      ∃ timeouts s', IOManager.idleRound 0 false 0 4000000 h.manager = .ok timeouts s' ∧
        ¬∀ t ∈ timeouts, IOManager.Bounded (h.manager.untilEarliest 4000000) t := by
  refine ⟨_, ⟨rfl, trivial⟩, rfl, [-2147483648], _, rfl, ?_⟩
  intro hall
  exact absurd (hall (-2147483648) (List.mem_singleton_self _)).1 (by decide)

end TimerHistory

end YkServer
