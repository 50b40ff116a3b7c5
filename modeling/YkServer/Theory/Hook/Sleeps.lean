import YkServer.Core.Sleep
import YkServer.Lib.Interleaving
import YkServer.Lib.Table
import YkServer.Theory.Timer.Callbacks

/-!
# Sleeping as Long as Asked

A sleep is to arm one timer with the time that was asked for, to the millisecond, and to
return when that timer has woken its fiber and nothing else has. Each function fails at
that in its own way. `sleep` computes milliseconds in 32 bits, which is enough for
seven weeks. `usleep` multiplies where it should divide; apart from 0 there is one
argument for which the product wraps to the right number. `nanosleep` does not
yield, and the timer it leaves behind wakes its fiber at some later time, possibly
out of another sleep.

A call in a scheduler that is not an `IOManager` has nobody to arm a timer, and ends the
process.

In a run without such calls a timer that has been armed stands for one wake-up: it has its
callback, or the callback waits to be run, or the fiber is in the queue.

## Main definitions

* `SleepFun.AsLong`: A delay is the time asked for.
* `SleepFun.Exact`: The arguments that are handled correctly.
* `SleepWorld.wakeups`: The wake-ups a timer stands for.
* `SleepWorld.Slept`: What is expected of a call.

## Theorems

* `asLong_sleep`, `asLong_usleep`: Which delays are right.
* `inv_act`, `good_step`: Every step with such arguments.
* `sleeps_iff`: A run.
-/

namespace YkServer

open Lib

namespace SleepFun

/-- The time asked for, in nanoseconds. -/
def nanos : SleepFun → Int
  | .sleep seconds => seconds.toNat * 10 ^ 9
  | .usleep usec => usec.toNat * 10 ^ 3
  | .nanosleep sec nsec => sec * 10 ^ 9 + nsec

/-- The delay is the time asked for, rounded up or down to a millisecond. -/
def AsLong (fn : SleepFun) (ms : UInt64) : Prop :=
  fn.nanos - 10 ^ 6 < (ms.toNat * 10 ^ 6 : Nat) ∧ (ms.toNat * 10 ^ 6 : Nat) < fn.nanos + 10 ^ 6

/-- The arguments for which the delay is right and the fiber waits for it. -/
def Exact : SleepFun → Prop
  | .sleep seconds => seconds.toNat * 1000 < 2 ^ 32
  | .usleep usec => usec = 0 ∨ usec = 3139624233
  | .nanosleep _ _ => False

theorem asLong_sleep (seconds : UInt32) :
    AsLong (.sleep seconds) (seconds * 1000).toUInt64 ↔ seconds.toNat * 1000 < 2 ^ 32 := by
  have hms : (seconds * 1000).toUInt64.toNat = seconds.toNat * 1000 % 2 ^ 32 := by
    rw [UInt32.toNat_toUInt64, UInt32.toNat_mul]
    rfl
  rw [AsLong, hms, nanos]
  omega

/-- A product of so many rounds of 32 bits that what is left of it is a thousandth of a
    factor. -/
theorem thousandth_rounds :
    ∀ q < 1000, 590971 * q % 999999 < 1000 ∨ 998999 < 590971 * q % 999999 → q = 0 ∨ q = 731 := by
  decide +kernel

theorem asLong_usleep (usec : UInt32) :
    AsLong (.usleep usec) (usec * 1000).toUInt64 ↔ usec = 0 ∨ usec = 3139624233 := by
  have hms : (usec * 1000).toUInt64.toNat = usec.toNat * 1000 % 2 ^ 32 := by
    rw [UInt32.toNat_toUInt64, UInt32.toNat_mul]
    rfl
  have hlt := usec.toNat_lt
  have hzero : usec = 0 ↔ usec.toNat = 0 := by rw [← UInt32.toNat_inj]; rfl
  have hone : usec = 3139624233 ↔ usec.toNat = 3139624233 := by rw [← UInt32.toNat_inj]; rfl
  rw [AsLong, hms, nanos, hzero, hone]
  generalize usec.toNat = n at hlt
  constructor
  · rintro ⟨hlow, hhigh⟩
    -- The product is this many rounds and a rest, and the rest is to be `n / 1000`.
    obtain ⟨q, d, hd, hsplit⟩ : ∃ q d, d < 2 ^ 32 ∧ n * 1000 = 2 ^ 32 * q + d :=
      ⟨n * 1000 / 2 ^ 32, n * 1000 % 2 ^ 32, Nat.mod_lt _ (by decide), by omega⟩
    have hrest : n * 1000 % 2 ^ 32 = d := by omega
    rw [hrest] at hlow hhigh
    -- So the rounds leave next to nothing where `n` is divided by a million less one.
    obtain ⟨k, rfl⟩ : ∃ k, n = 4294971 * q + k := ⟨n - 4294971 * q, by omega⟩
    have hnear : 590971 * q % 999999 < 1000 ∨ 998999 < 590971 * q % 999999 := by
      by_cases hle : 999999 * k ≤ 590971 * q
      · obtain ⟨e, he⟩ : ∃ e, 590971 * q = e + 999999 * k := ⟨590971 * q - 999999 * k, by omega⟩
        rw [he, Nat.add_mul_mod_self_left, Nat.mod_eq_of_lt (by omega)]
        omega
      · obtain ⟨e, he⟩ : ∃ e, 590971 * q = e + 999999 * (k - 1) :=
          ⟨590971 * q - 999999 * (k - 1), by omega⟩
        rw [he, Nat.add_mul_mod_self_left, Nat.mod_eq_of_lt (by omega)]
        omega
    rcases thousandth_rounds q (by omega) hnear with rfl | rfl
    · omega
    · omega
  · rintro (rfl | rfl)
    · decide
    · decide

end SleepFun

namespace SleepWorld

/-- The wake-ups a timer stands for: it has its callback, or the callback waits to be run,
    or has put the fiber in the queue. -/
def wakeups (w : SleepWorld) (p : Nat) : Nat :=
  (if (w.timers.cbOf p).isSome then 1 else 0) + (w.pending.map Prod.fst).count p +
    (w.queue.map Prod.fst).count p

/-- What is expected of a call: it arms one timer, a one-shot timer with the time asked for;
    it waits as long as this has a wake-up to come; and it returns 0 when the timer has woken
    it. -/
def Slept (w : SleepWorld) (c : SleepCall) : Prop :=
  (c.pos = .called ∧ c.armed = [] ∧ c.woken = []) ∨
  ∃ p t, c.armed = [p] ∧ w.timers.heap p = some t ∧ t.recurring = false ∧ c.fn.AsLong t.ms ∧
    ((c.pos = .armed ∨ c.pos = .parked) ∧ c.woken = [] ∧ w.wakeups p = 1 ∨
      c.pos = .returned 0 ∧ c.woken = [p] ∧ w.wakeups p = 0)

/-- A call that arms its timer has an `IOManager` to arm it, and asks for a time that the code
    gets right. -/
def AsksWell (w : SleepWorld) : Action → Prop
  | .arm i _ _ => ∀ c, w.callAt i .called = some c → c.iom = true ∧ c.fn.Exact
  | _ => True

/-- All calls are as expected, and the timers, callbacks and entries of the queue are those
    of calls. -/
structure Inv (w : SleepWorld) : Prop where
  timers : w.timers.Inv
  oneShot : w.timers.OneShot
  slept : ∀ (i : Nat) (c : SleepCall), w.calls[i]? = some c → w.Slept c
  owner : ∀ (p i : Nat), w.timers.cbOf p = some i ∨ (p, i) ∈ w.pending →
    ∃ c : SleepCall, w.calls[i]? = some c ∧ p ∈ c.armed
  queue : ∀ p f, (p, f) ∈ w.queue →
    ∃ (i : Nat) (c : SleepCall), w.calls[i]? = some c ∧ p ∈ c.armed ∧ c.fiber = f
  apart : ∀ (i j : Nat) (c d : SleepCall) (p : Nat), w.calls[i]? = some c →
    w.calls[j]? = some d → p ∈ c.armed → p ∈ d.armed → i = j
  single : ∀ (i j : Nat) (c d : SleepCall), w.calls[i]? = some c → w.calls[j]? = some d →
    c.active = true → d.active = true → c.fiber = d.fiber → i = j

theorem inv_new (now : UInt64) : (new now).Inv := by
  refine ⟨TimerManager.inv_new now, fun p t hp => (by cases hp), fun i c hc => (by cases hc),
    ?_, fun p f hq => absurd hq List.not_mem_nil, fun i j c d p hc => (by cases hc),
    fun i j c d hc => (by cases hc)⟩
  rintro p i (hcb | hmem)
  · cases hcb
  · cases hmem

/-- A call is as expected if its timer is as before. -/
theorem slept_frame (w w' : SleepWorld) (c : SleepCall) (h : w.Slept c)
    (hwake : ∀ p ∈ c.armed, w'.wakeups p = w.wakeups p)
    (hheap : ∀ p ∈ c.armed, ∀ t, w.timers.heap p = some t →
      ∃ t', w'.timers.heap p = some t' ∧ t'.recurring = t.recurring ∧ t'.ms = t.ms) :
    w'.Slept c := by
  rcases h with hcalled | ⟨p, t, harmed, hp, hrec, hms, hrest⟩
  · exact Or.inl hcalled
  · have hmem : p ∈ c.armed := by rw [harmed]; exact List.mem_singleton_self p
    rcases hheap p hmem t hp with ⟨t', hp', hrec', hms'⟩
    refine Or.inr ⟨p, t', harmed, hp', hrec'.trans hrec, by rw [hms']; exact hms, ?_⟩
    rw [hwake p hmem]
    exact hrest

/-- The timer of a call that is as expected exists. -/
theorem Slept.known {w : SleepWorld} {c : SleepCall} (h : w.Slept c) (p : Nat)
    (hp : p ∈ c.armed) : ∃ t, w.timers.heap p = some t := by
  rcases h with ⟨-, harmed, -⟩ | ⟨q, t, harmed, hq, -⟩
  · rw [harmed] at hp
    cases hp
  · rw [harmed, List.mem_singleton] at hp
    exact ⟨t, by rw [hp]; exact hq⟩

/-- Free memory is no timer of a call. -/
theorem Inv.unowned {w : SleepWorld} (h : w.Inv) (p : Nat) (hfree : w.timers.heap p = none)
    (i : Nat) (c : SleepCall) (hc : w.calls[i]? = some c) : p ∉ c.armed := by
  intro hp
  rcases (h.slept i c hc).known p hp with ⟨t, ht⟩
  rw [hfree] at ht
  cases ht

/-- It stands for no wake-up either. -/
theorem Inv.free {w : SleepWorld} (h : w.Inv) (p : Nat) (hfree : w.timers.heap p = none) :
    w.wakeups p = 0 := by
  have hcall := h.unowned p hfree
  have hcb : w.timers.cbOf p = none := by
    rw [TimerManager.cbOf, hfree]
    rfl
  have hpending : (w.pending.map Prod.fst).count p = 0 := by
    refine List.count_eq_zero.2 (fun hmem => ?_)
    rcases List.mem_map.1 hmem with ⟨⟨q, i⟩, hx, rfl⟩
    rcases h.owner q i (Or.inr hx) with ⟨c, hc, hp⟩
    exact hcall i c hc hp
  have hqueue : (w.queue.map Prod.fst).count p = 0 := by
    refine List.count_eq_zero.2 (fun hmem => ?_)
    rcases List.mem_map.1 hmem with ⟨⟨q, f⟩, hx, rfl⟩
    rcases h.queue q f hx with ⟨i, c, hc, hp, -⟩
    exact hcall i c hc hp
  rw [wakeups, hcb, hpending, hqueue]
  rfl

/-- A call whose timer has a wake-up to come waits for it. -/
theorem Slept.waits {w : SleepWorld} {c : SleepCall} (h : w.Slept c) (p : Nat) (hp : p ∈ c.armed)
    (hwake : w.wakeups p ≠ 0) : (c.pos = .armed ∨ c.pos = .parked) ∧ c.armed = [p] := by
  rcases h with ⟨-, harmed, -⟩ | ⟨q, t, harmed, -, -, -, ⟨hpos, -, -⟩ | ⟨-, -, hnone⟩⟩
  · rw [harmed] at hp
    cases hp
  · rw [harmed, List.mem_singleton] at hp
    rw [hp]
    exact ⟨hpos, harmed⟩
  · rw [harmed, List.mem_singleton] at hp
    rw [hp] at hwake
    exact absurd hnone hwake

/-- A call that has yet to arm its timer. -/
theorem Slept.fresh {w : SleepWorld} {c : SleepCall} (h : w.Slept c) (hpos : c.pos = .called) :
    c.armed = [] ∧ c.woken = [] := by
  rcases h with ⟨-, hboth⟩ | ⟨-, -, -, -, -, -, ⟨hno | hno, -⟩ | ⟨hno, -⟩⟩
  · exact hboth
  · rw [hpos] at hno
    cases hno
  · rw [hpos] at hno
    cases hno
  · rw [hpos] at hno
    cases hno

theorem active_of_waits (c : SleepCall) (h : c.pos = .armed ∨ c.pos = .parked) :
    c.active = true := by
  rcases h with hpos | hpos
  · rw [SleepCall.active, hpos]
  · rw [SleepCall.active, hpos]

/-- An entry of the queue belongs to the fiber of a call that waits. -/
theorem Inv.queued {w : SleepWorld} (h : w.Inv) (p f : Nat) (hq : (p, f) ∈ w.queue) :
    ∃ (i : Nat) (c : SleepCall), w.calls[i]? = some c ∧ c.armed = [p] ∧ c.active = true ∧
      c.fiber = f := by
  rcases h.queue p f hq with ⟨i, c, hc, hp, hf⟩
  have hwake : w.wakeups p ≠ 0 := by
    have hcount : 0 < (w.queue.map Prod.fst).count p :=
      List.count_pos_iff.2 (List.mem_map.2 ⟨(p, f), hq, rfl⟩)
    unfold wakeups
    omega
  rcases (h.slept i c hc).waits p hp hwake with ⟨hpos, harmed⟩
  exact ⟨i, c, hc, harmed, active_of_waits c hpos, hf⟩

/-! ## Steps -/

variable {w w' : SleepWorld}

theorem callAt_eq_some {i : Nat} {pos : SleepPos} {c : SleepCall} (h : w.callAt i pos = some c) :
    w.calls[i]? = some c ∧ c.pos = pos := by
  rw [callAt, Option.filter_eq_some_iff, decide_eq_true_iff] at h
  exact h

theorem onTimers_eq_some {α : Type} {m : Prog Empty TimerManager α} {a : α}
    (h : onTimers m w = some (a, w')) :
    ∃ s, m w.timers = .ok a s ∧ w' = { w with timers := s } := by
  unfold onTimers at h
  split at h
  · rename_i a' s hm
    cases h
    exact ⟨s, hm, rfl⟩
  · cases h

/-- A fiber that is in no call. -/
theorem not_busy {f : Nat} (h : ¬w.busy f = true) (i : Nat) (c : SleepCall)
    (hc : w.calls[i]? = some c) (hactive : c.active = true) : c.fiber ≠ f := by
  intro hf
  refine h (List.any_eq_true.2 ⟨c, List.mem_of_getElem? hc, ?_⟩)
  rw [hactive, Bool.true_and, decide_eq_true_iff]
  exact hf

/-- A step that arms no timer: every call keeps its fiber and its timers, and none comes
    back. -/
theorem inv_views (h : w.Inv) (hinv : w'.timers.Inv) (hshot : w'.timers.OneShot)
    (hview : ∀ (j : Nat) (d' : SleepCall), w'.calls[j]? = some d' →
      ∃ d : SleepCall, w.calls[j]? = some d ∧ d'.fiber = d.fiber ∧ d'.armed = d.armed ∧
        (d'.active = true → d.active = true) ∧ w'.Slept d')
    (hback : ∀ (j : Nat) (d : SleepCall), w.calls[j]? = some d →
      ∃ d' : SleepCall, w'.calls[j]? = some d' ∧ d'.fiber = d.fiber ∧ d'.armed = d.armed)
    (howner : ∀ (p i : Nat), w'.timers.cbOf p = some i ∨ (p, i) ∈ w'.pending →
      w.timers.cbOf p = some i ∨ (p, i) ∈ w.pending)
    (hqueue : ∀ p f, (p, f) ∈ w'.queue → (p, f) ∈ w.queue ∨
      ∃ (i : Nat) (d : SleepCall), w.calls[i]? = some d ∧ p ∈ d.armed ∧ d.fiber = f) : w'.Inv := by
  refine ⟨hinv, hshot, ?_, ?_, ?_, ?_, ?_⟩
  · intro j d' hd'
    rcases hview j d' hd' with ⟨d, -, -, -, -, hslept⟩
    exact hslept
  · intro p i hp
    rcases h.owner p i (howner p i hp) with ⟨d, hd, hmem⟩
    rcases hback i d hd with ⟨d', hd', -, harmed⟩
    exact ⟨d', hd', by rw [harmed]; exact hmem⟩
  · intro p f hp
    have hold : ∃ (i : Nat) (d : SleepCall), w.calls[i]? = some d ∧ p ∈ d.armed ∧ d.fiber = f :=
      (hqueue p f hp).elim (h.queue p f) id
    rcases hold with ⟨i, d, hd, hmem, hf⟩
    rcases hback i d hd with ⟨d', hd', hfiber, harmed⟩
    exact ⟨i, d', hd', by rw [harmed]; exact hmem, hfiber.trans hf⟩
  · intro i j c' d' p hc' hd' hpc hpd
    rcases hview i c' hc' with ⟨c, hc, -, harmed, -⟩
    rcases hview j d' hd' with ⟨d, hd, -, harmed', -⟩
    rw [harmed] at hpc
    rw [harmed'] at hpd
    exact h.apart i j c d p hc hd hpc hpd
  · intro i j c' d' hc' hd' hca hda hf
    rcases hview i c' hc' with ⟨c, hc, hfiber, -, hactive, -⟩
    rcases hview j d' hd' with ⟨d, hd, hfiber', -, hactive', -⟩
    rw [hfiber, hfiber'] at hf
    exact h.single i j c d hc hd (hactive hca) (hactive' hda) hf

/-- The same where one call moves on, with the timers and the callbacks as they were. -/
theorem inv_moves (h : w.Inv) (i : Nat) (c c' : SleepCall) (hc : w.calls[i]? = some c)
    (hcalls : w'.calls = w.calls.set i c') (htimers : w'.timers = w.timers)
    (hpending : w'.pending = w.pending) (hqueue : ∀ x ∈ w'.queue, x ∈ w.queue)
    (hfiber : c'.fiber = c.fiber) (harmed : c'.armed = c.armed)
    (hactive : c'.active = true → c.active = true) (hself : w'.Slept c')
    (hothers : ∀ (j : Nat) (d : SleepCall), j ≠ i → w.calls[j]? = some d → w'.Slept d) :
    w'.Inv := by
  refine inv_views h (by rw [htimers]; exact h.timers) (by rw [htimers]; exact h.oneShot) ?_ ?_
    (fun p j hp => by rw [← htimers, ← hpending]; exact hp) (fun p f hp => Or.inl (hqueue _ hp))
  · intro j d' hd'
    rw [hcalls] at hd'
    rcases update_cases w.calls i c c' hc j d' hd' with ⟨rfl, rfl⟩ | ⟨hj, hold⟩
    · exact ⟨c, hc, hfiber, harmed, hactive, hself⟩
    · exact ⟨d', hold, rfl, rfl, id, hothers j d' hj hold⟩
  · intro j d hd
    rw [hcalls]
    rcases cases_update w.calls i c c' hc j d hd with ⟨rfl, hnew⟩ | ⟨-, hstill⟩
    · exact ⟨c', hnew, hfiber, harmed⟩
    · exact ⟨d, hstill, rfl, rfl⟩

/-- The same with all calls where they were. -/
theorem inv_stays (h : w.Inv) (hinv : w'.timers.Inv) (hshot : w'.timers.OneShot)
    (hcalls : w'.calls = w.calls) (hwake : ∀ p, w'.wakeups p = w.wakeups p)
    (hheap : ∀ p t, w.timers.heap p = some t →
      ∃ t', w'.timers.heap p = some t' ∧ t'.recurring = t.recurring ∧ t'.ms = t.ms)
    (howner : ∀ (p i : Nat), w'.timers.cbOf p = some i ∨ (p, i) ∈ w'.pending →
      w.timers.cbOf p = some i ∨ (p, i) ∈ w.pending)
    (hqueue : ∀ p f, (p, f) ∈ w'.queue → (p, f) ∈ w.queue ∨
      ∃ (i : Nat) (d : SleepCall), w.calls[i]? = some d ∧ p ∈ d.armed ∧ d.fiber = f) : w'.Inv := by
  refine inv_views h hinv hshot ?_ ?_ howner hqueue
  · intro j d hd
    rw [hcalls] at hd
    exact ⟨d, hd, rfl, rfl, id,
      slept_frame w w' d (h.slept j d hd) (fun p _ => hwake p) (fun p _ => hheap p)⟩
  · intro j d hd
    exact ⟨d, by rw [hcalls]; exact hd, rfl, rfl⟩

/-- A new call. -/
theorem inv_call (h : w.Inv) (fn : SleepFun) (fiber : Nat) (iom : Bool)
    (hfree : ¬w.busy fiber = true) :
    Inv { w with calls := w.calls ++ [⟨fn, fiber, iom, [], [], .called⟩] } := by
  have hcase := fun (j : Nat) (d : SleepCall) => getElem?_concat_eq_some w.calls
    (⟨fn, fiber, iom, [], [], .called⟩ : SleepCall) d j
  have hold := fun (j : Nat) (d : SleepCall) => getElem?_concat_of_some w.calls
    (⟨fn, fiber, iom, [], [], .called⟩ : SleepCall) d j
  refine ⟨h.timers, h.oneShot, ?_, ?_, ?_, ?_, ?_⟩
  · intro j d hd
    rcases hcase j d hd with hj | ⟨-, rfl⟩
    · exact slept_frame w _ d (h.slept j d hj) (fun _ _ => rfl)
        (fun p _ t ht => ⟨t, ht, rfl, rfl⟩)
    · exact Or.inl ⟨rfl, rfl, rfl⟩
  · intro p i hp
    rcases h.owner p i hp with ⟨c, hc, hmem⟩
    exact ⟨c, hold i c hc, hmem⟩
  · intro p f hp
    rcases h.queue p f hp with ⟨i, c, hc, hmem, hf⟩
    exact ⟨i, c, hold i c hc, hmem, hf⟩
  · intro i j c d p hc hd hpc hpd
    -- The new call has no timer.
    rcases hcase i c hc with hi | ⟨-, rfl⟩
    · rcases hcase j d hd with hj | ⟨-, rfl⟩
      · exact h.apart i j c d p hi hj hpc hpd
      · cases hpd
    · cases hpc
  · intro i j c d hc hd hca hda hf
    rcases hcase i c hc with hi | ⟨hi, rfl⟩
    · rcases hcase j d hd with hj | ⟨hj, rfl⟩
      · exact h.single i j c d hi hj hca hda hf
      · exact absurd hf (not_busy hfree i c hi hca)
    · rcases hcase j d hd with hj | ⟨hj, rfl⟩
      · exact absurd hf.symm (not_busy hfree j d hj hda)
      · rw [hi, hj]

/-- A timer is armed. What is expected of the call then is what makes it right. -/
theorem arm_step {i p : Nat} {now : UInt64} (hstep : act (.arm i p now) w = some w') :
    ∃ c ms, w.callAt i .called = some c ∧ w.calls[i]? = some c ∧ c.pos = .called ∧
      c.fn.delay = some ms ∧
      (c.iom = false ∧ w' = { w with crashed := true } ∨
        c.iom = true ∧ ∃ a s, TimerManager.addTimer p ms i false now w.timers = .ok a s ∧
          w' = setCall { w with timers := s } i
            { c with armed := c.armed ++ [p], pos := behindTimer c.fn }) := by
  rcases Option.bind_eq_some_iff.1 hstep with ⟨c, hc, hrest⟩
  rcases Option.bind_eq_some_iff.1 hrest with ⟨ms, hms, hrest'⟩
  refine ⟨c, ms, hc, (callAt_eq_some hc).1, (callAt_eq_some hc).2, hms, ?_⟩
  change (if (!c.iom) = true then _ else _) = some w' at hrest'
  cases hiom : c.iom with
  | false =>
      rw [hiom] at hrest'
      cases hrest'
      exact Or.inl ⟨rfl, rfl⟩
  | true =>
      rw [hiom] at hrest'
      rcases Option.bind_eq_some_iff.1 hrest' with ⟨⟨a, w₁⟩, hadd, hend⟩
      rcases onTimers_eq_some hadd with ⟨s, hs, rfl⟩
      cases hend
      exact Or.inr ⟨rfl, a, s, hs, rfl⟩

/-- Where a call waits for its timer, and the delay is right, it has asked for a time that the
    code gets right; and the other way round. -/
theorem exact_iff (fn : SleepFun) (ms : UInt64) (hms : fn.delay = some ms) :
    fn.Exact ↔ behindTimer fn = .armed ∧ fn.AsLong ms := by
  cases fn with
  | sleep seconds =>
      rw [SleepFun.delay, Option.some.injEq] at hms
      rw [← hms, SleepFun.asLong_sleep]
      exact (and_iff_right rfl).symm
  | usleep usec =>
      rw [SleepFun.delay, Option.some.injEq] at hms
      rw [← hms, SleepFun.asLong_usleep]
      exact (and_iff_right rfl).symm
  | nanosleep sec nsec => exact iff_of_false id (fun h => by cases h.1)

/-- A new timer is one more wake-up for itself, and none for the others. -/
theorem wakeups_arm (h : w.Inv) (p i : Nat) (s : TimerManager) (calls : List SleepCall)
    (hfree : w.timers.heap p = none)
    (hcb : ∀ q, s.cbOf q = if q = p then some i else w.timers.cbOf q) (q : Nat) :
    wakeups { w with timers := s, calls := calls } q = w.wakeups q + if q = p then 1 else 0 := by
  have hold := h.free p hfree
  unfold wakeups at hold ⊢
  rw [show ({ w with timers := s, calls := calls } : SleepWorld).timers.cbOf q = _ from hcb q]
  by_cases hqp : q = p
  · rw [if_pos hqp, if_pos hqp, hqp, Option.isSome_some, if_pos rfl]
    change 1 + (w.pending.map Prod.fst).count p + (w.queue.map Prod.fst).count p = _
    omega
  · rw [if_neg hqp, if_neg hqp]
    rfl

theorem inv_arm (h : w.Inv) (i p : Nat) (now : UInt64)
    (hwell : AsksWell w (.arm i p now)) (hstep : act (.arm i p now) w = some w') : w'.Inv := by
  rcases arm_step hstep with ⟨c, ms, hat, hc, hpos, hms, ⟨hnull, -⟩ | ⟨-, a, s, hadd, rfl⟩⟩
  · rw [(hwell c hat).1] at hnull
    cases hnull
  rcases (exact_iff c.fn ms hms).1 (hwell c hat).2 with ⟨hwaits, hlong⟩
  rcases TimerManager.addTimer_heap _ _ h.timers p ms i false now a hadd with ⟨hfree, hheap⟩
  rcases TimerManager.addTimer_cbOf _ _ h.timers h.oneShot p ms i now a hadd with
    ⟨hinv, hshot, -, -, hcb⟩
  -- The call has no timer yet, and the new one is nobody's.
  have hnone : c.armed = [] ∧ c.woken = [] := (h.slept i c hc).fresh hpos
  have hnobody := h.unowned p hfree
  set c' : SleepCall := { c with armed := c.armed ++ [p], pos := behindTimer c.fn } with hc'
  set w' : SleepWorld := setCall { w with timers := s } i c' with hw'
  have harmed : c'.armed = [p] := by rw [hc', hnone.1]; rfl
  have hwake : ∀ q, w'.wakeups q = w.wakeups q + if q = p then 1 else 0 :=
    wakeups_arm h p i s (w.calls.set i c') hfree hcb
  have hself : w'.Slept c' := by
    refine Or.inr ⟨p, ⟨false, ms, now + ms, some i⟩, harmed, (hheap p).trans (if_pos rfl), rfl,
      hlong, Or.inl ⟨Or.inl hwaits, hnone.2, ?_⟩⟩
    rw [hwake, h.free p hfree, if_pos rfl]
  have hview : ∀ (j : Nat) (d : SleepCall), w'.calls[j]? = some d →
      j = i ∧ d = c' ∨ j ≠ i ∧ w.calls[j]? = some d := update_cases w.calls i c c' hc
  have hback : ∀ (j : Nat) (d : SleepCall), w.calls[j]? = some d → ∃ d' : SleepCall,
      w'.calls[j]? = some d' ∧ d'.fiber = d.fiber ∧ ∀ q ∈ d.armed, q ∈ d'.armed := by
    intro j d hd
    rcases cases_update w.calls i c c' hc j d hd with ⟨rfl, hnew⟩ | ⟨-, hstill⟩
    · exact ⟨c', hnew, rfl, fun q hq => List.mem_append_left _ hq⟩
    · exact ⟨d, hstill, rfl, fun _ hq => hq⟩
  refine ⟨hinv, hshot, ?_, ?_, ?_, ?_, ?_⟩
  · intro j d hd
    rcases hview j d hd with ⟨-, rfl⟩ | ⟨-, hd⟩
    · exact hself
    · have hother : ∀ q ∈ d.armed, q ≠ p := fun q hq heq => hnobody j d hd (heq ▸ hq)
      refine slept_frame w w' d (h.slept j d hd) (fun q hq => ?_) (fun q hq t ht => ?_)
      · rw [hwake, if_neg (hother q hq), Nat.add_zero]
      · exact ⟨t, (hheap q).trans ((if_neg (hother q hq)).trans ht), rfl, rfl⟩
  · intro q j hq
    by_cases hqp : q = p ∧ w'.timers.cbOf q = some j
    · have hji : some i = some j := ((hcb q).trans (if_pos hqp.1)).symm.trans hqp.2
      rw [Option.some.injEq] at hji
      rw [← hji]
      exact ⟨c', (getElem?_update w.calls i c c' hc i).trans (if_pos rfl), by
        rw [harmed, hqp.1]; exact List.mem_singleton_self p⟩
    · have hold : w.timers.cbOf q = some j ∨ (q, j) ∈ w.pending := by
        refine hq.imp_left (fun hcbq => ?_)
        have hne : q ≠ p := fun heq => hqp ⟨heq, hcbq⟩
        exact ((hcb q).trans (if_neg hne)).symm.trans hcbq
      rcases h.owner q j hold with ⟨d, hd, hmem⟩
      rcases hback j d hd with ⟨d', hd', -, hsub⟩
      exact ⟨d', hd', hsub q hmem⟩
  · intro q f hq
    rcases h.queue q f hq with ⟨j, d, hd, hmem, hf⟩
    rcases hback j d hd with ⟨d', hd', hfiber, hsub⟩
    exact ⟨j, d', hd', hsub q hmem, hfiber.trans hf⟩
  · intro j k d e q hd he hqd hqe
    rcases hview j d hd with ⟨hj, rfl⟩ | ⟨hj, hd⟩
    · rcases hview k e he with ⟨hk, -⟩ | ⟨hk, he⟩
      · rw [hj, hk]
      · rw [harmed, List.mem_singleton] at hqd
        exact absurd (hqd ▸ hqe) (hnobody k e he)
    · rcases hview k e he with ⟨hk, rfl⟩ | ⟨hk, he⟩
      · rw [harmed, List.mem_singleton] at hqe
        exact absurd (hqe ▸ hqd) (hnobody j d hd)
      · exact h.apart j k d e q hd he hqd hqe
  · have hactive : c.active = true := by rw [SleepCall.active, hpos]
    intro j k d e hd he hda hea hf
    rcases hview j d hd with ⟨hj, rfl⟩ | ⟨hj, hd⟩
    · rcases hview k e he with ⟨hk, -⟩ | ⟨hk, he⟩
      · rw [hj, hk]
      · rw [hj]
        exact h.single i k c e hc he hactive hea hf
    · rcases hview k e he with ⟨hk, rfl⟩ | ⟨hk, he⟩
      · rw [hk]
        exact h.single j i d c hd hc hda hactive hf
      · exact h.single j k d e hd he hda hea hf

theorem inv_yieldToHold (h : w.Inv) (i : Nat) (hstep : act (.yieldToHold i) w = some w') :
    w'.Inv := by
  rcases Option.bind_eq_some_iff.1 hstep with ⟨c, hat, hend⟩
  cases hend
  rcases callAt_eq_some hat with ⟨hc, hpos⟩
  refine inv_moves h i c { c with pos := .parked } hc rfl rfl rfl (fun _ hx => hx) rfl rfl
    (fun _ => active_of_waits c (Or.inl hpos)) ?_
    (fun j d _ hd => slept_frame w _ d (h.slept j d hd) (fun _ _ => rfl)
      (fun p _ t ht => ⟨t, ht, rfl, rfl⟩))
  rcases h.slept i c hc with ⟨hcalled, -⟩ | ⟨p, t, harmed, hp, hrec, hms, hwaits | ⟨hret, -⟩⟩
  · rw [hpos] at hcalled
    cases hcalled
  · exact Or.inr ⟨p, t, harmed, hp, hrec, hms, Or.inl ⟨Or.inr rfl, hwaits.2⟩⟩
  · rw [hpos] at hret
    cases hret

/-- What is left of the wake-ups when an entry of the queue is taken out. -/
theorem wakeups_dequeue (k p f : Nat) (hk : w.queue[k]? = some (p, f))
    (htimers : w'.timers = w.timers) (hpending : w'.pending = w.pending)
    (hqueue : w'.queue = w.queue.eraseIdx k) (q : Nat) :
    w.wakeups q = w'.wakeups q + if p = q then 1 else 0 := by
  unfold wakeups
  rw [htimers, hpending, hqueue, count_eraseIdx Prod.fst w.queue k (p, f) hk q]
  exact (Nat.add_assoc _ _ _).symm

/-- A fiber is woken in `YieldToHold`. -/
theorem resume_step {i k : Nat} (hstep : act (.resume i k) w = some w') :
    ∃ c p, w.calls[i]? = some c ∧ c.pos = .parked ∧ w.queue[k]? = some (p, c.fiber) ∧
      w' = { setCall w i { c with woken := c.woken ++ [p], pos := .returned 0 } with
        queue := w.queue.eraseIdx k } := by
  rcases Option.bind_eq_some_iff.1 hstep with ⟨c, hat, hrest⟩
  rcases Option.bind_eq_some_iff.1 hrest with ⟨⟨p, f⟩, hk, hif⟩
  change (if f = c.fiber then _ else none) = some w' at hif
  by_cases hf : f = c.fiber
  · rw [if_pos hf] at hif
    cases hif
    exact ⟨c, p, (callAt_eq_some hat).1, (callAt_eq_some hat).2, by rw [hk, hf], rfl⟩
  · rw [if_neg hf] at hif
    cases hif

theorem inv_resume (h : w.Inv) (i k : Nat) (hstep : act (.resume i k) w = some w') :
    w'.Inv := by
  rcases resume_step hstep with ⟨c, p, hc, hpos, hk, rfl⟩
  have hactive : c.active = true := active_of_waits c (Or.inr hpos)
  -- The entry is due to the call's own timer, since the fiber is in no other call.
  rcases h.queued p c.fiber (List.mem_of_getElem? hk) with ⟨j, d, hd, harmed, hda, hfiber⟩
  have hji : j = i := h.single j i d c hd hc hda hactive hfiber
  rw [hji, hc, Option.some.injEq] at hd
  rw [← hd] at harmed
  set c' : SleepCall := { c with woken := c.woken ++ [p], pos := .returned 0 } with hc'
  set w' : SleepWorld := { setCall w i c' with queue := w.queue.eraseIdx k } with hw'
  have hwake : ∀ q, w.wakeups q = w'.wakeups q + if p = q then 1 else 0 :=
    wakeups_dequeue k p c.fiber hk rfl rfl rfl
  refine inv_moves h i c c' hc rfl rfl rfl (fun x hx => List.mem_of_mem_eraseIdx hx) rfl rfl
    (fun _ => hactive) ?_ (fun j d hj hd => ?_)
  · rcases h.slept i c hc with ⟨hcalled, -⟩ | ⟨q, t, hq, hheap, hrec, hms, hwaits | ⟨hret, -⟩⟩
    · rw [hpos] at hcalled
      cases hcalled
    · have hqp : p = q := List.singleton_inj.1 (harmed.symm.trans hq)
      have hone := hwaits.2.2
      rw [hwake q, if_pos hqp] at hone
      refine Or.inr ⟨q, t, hq, hheap, hrec, hms, Or.inr ⟨rfl, ?_, by omega⟩⟩
      rw [hc', hwaits.2.1, hqp]
      rfl
    · rw [hpos] at hret
      cases hret
  · refine slept_frame w _ d (h.slept j d hd) (fun q hq => ?_) (fun q _ t ht => ⟨t, ht, rfl, rfl⟩)
    have hne : p ≠ q := by
      intro hpq
      have hmem : p ∈ c.armed := by rw [harmed]; exact List.mem_singleton_self p
      exact hj (h.apart j i d c p hd hc (hpq ▸ hq) hmem)
    rw [hwake q, if_neg hne, Nat.add_zero]

theorem inv_resumeElsewhere (h : w.Inv) (k : Nat)
    (hstep : act (.resumeElsewhere k) w = some w') : w'.Inv := by
  rcases Option.bind_eq_some_iff.1 hstep with ⟨⟨p, f⟩, hk, hif⟩
  -- The fiber of every entry is in the call whose timer has put it there.
  rcases h.queued p f (List.mem_of_getElem? hk) with ⟨i, c, hc, -, hactive, hf⟩
  have hbusy : w.busy f = true := by
    by_contra hno
    exact not_busy hno i c hc hactive hf
  change (if w.busy f = true then none else _) = some w' at hif
  rw [if_pos hbusy] at hif
  cases hif

/-- Callbacks that are handed out still stand for their wake-ups. -/
theorem wakeups_pending (cbs : List (Nat × Option Nat)) (hnodup : (cbs.map Prod.fst).Nodup)
    (hcbs : ∀ x ∈ cbs, x.2 = w.timers.cbOf x.1 ∧ x.2.isSome = true) (p : Nat) :
    (((cbs.filterMap (fun x => x.2.map (fun i => (x.1, i)))).map Prod.fst).count p) =
      if p ∈ cbs.map Prod.fst then 1 else 0 := by
  have hkept : (cbs.filterMap (fun x => x.2.map (fun i => (x.1, i)))).map Prod.fst =
      cbs.map Prod.fst := by
    rw [List.map_filterMap, ← List.filterMap_eq_map]
    refine List.filterMap_congr (fun x hx => ?_)
    rcases Option.isSome_iff_exists.1 (hcbs x hx).2 with ⟨i, hi⟩
    rw [hi]
    rfl
  rw [hkept, hnodup.count]

theorem inv_listExpiredCb (h : w.Inv) (now : UInt64) (nowTimer : Nat)
    (hstep : act (.listExpiredCb now nowTimer) w = some w') : w'.Inv := by
  rcases Option.bind_eq_some_iff.1 hstep with ⟨⟨cbs, w₁⟩, hlist, hend⟩
  rcases onTimers_eq_some hlist with ⟨s, hs, rfl⟩
  cases hend
  rcases TimerManager.listExpiredCb_cbOf _ _ h.timers h.oneShot now nowTimer cbs hs with
    ⟨hinv, hshot, -, hnodup, hcbs, hcb⟩
  have hheap := TimerManager.listExpiredCb_heap _ _ h.timers now nowTimer cbs hs
  refine inv_stays h hinv hshot rfl (fun p => ?_) (fun p t ht => ?_) ?_
    (fun p f hp => Or.inl hp)
  · -- A timer loses its callback to `pending`.
    change (if (s.cbOf p).isSome then 1 else 0) + ((w.pending ++ _).map Prod.fst).count p +
      (w.queue.map Prod.fst).count p = _
    rw [List.map_append, List.count_append, wakeups_pending cbs hnodup hcbs, hcb, wakeups]
    by_cases hp : p ∈ cbs.map Prod.fst
    · rcases List.mem_map.1 hp with ⟨x, hx, rfl⟩
      rw [if_pos hp, if_pos hp, ← (hcbs x hx).1, if_pos (hcbs x hx).2, if_neg (by simp)]
      omega
    · rw [if_neg hp, if_neg hp, Nat.add_zero]
  · refine ⟨if p ∈ cbs.map Prod.fst then t.expire now else t, ?_, ?_⟩
    · rw [hheap, ht, Option.map_some]
      exact (apply_ite some _ _ _).symm
    · by_cases hp : p ∈ cbs.map Prod.fst
      · rw [if_pos hp, Timer.expire]
        by_cases hrec : t.recurring = true
        · rw [if_pos hrec]
          exact ⟨rfl, rfl⟩
        · rw [if_neg hrec]
          exact ⟨rfl, rfl⟩
      · rw [if_neg hp]
        exact ⟨rfl, rfl⟩
  · rintro p i (hp | hp)
    · rw [hcb] at hp
      by_cases hmem : p ∈ cbs.map Prod.fst
      · rw [if_pos hmem] at hp
        cases hp
      · rw [if_neg hmem] at hp
        exact Or.inl hp
    · rcases List.mem_append.1 hp with hold | hnew
      · exact Or.inr hold
      · rcases List.mem_filterMap.1 hnew with ⟨⟨q, o⟩, hx, hmap⟩
        rcases Option.map_eq_some_iff.1 hmap with ⟨j, hj, hpair⟩
        cases hpair
        exact Or.inl ((hcbs _ hx).1.symm.trans hj)

theorem inv_runCallback (h : w.Inv) (k : Nat) (hstep : act (.runCallback k) w = some w') :
    w'.Inv := by
  rcases Option.bind_eq_some_iff.1 hstep with ⟨⟨p, i⟩, hk, hrest⟩
  rcases Option.bind_eq_some_iff.1 hrest with ⟨c, hc, hend⟩
  cases hend
  have hmem := List.mem_of_getElem? hk
  refine inv_stays h h.timers h.oneShot rfl (fun q => ?_) (fun q t ht => ⟨t, ht, rfl, rfl⟩)
    (fun q j hq => hq.imp_right (fun hp => List.mem_of_mem_eraseIdx hp)) (fun q f hq => ?_)
  · unfold wakeups
    rw [count_eraseIdx Prod.fst w.pending k (p, i) hk q, List.map_append, List.count_append,
      List.map_singleton, List.count_singleton]
    simp only [beq_iff_eq]
    omega
  · rcases List.mem_append.1 hq with hold | hnew
    · exact Or.inl hold
    · rw [List.mem_singleton, Prod.mk.injEq] at hnew
      rcases h.owner p i (Or.inr hmem) with ⟨d, hd, hp⟩
      rw [hc, Option.some.injEq] at hd
      exact Or.inr ⟨i, c, hc, by rw [hnew.1, hd]; exact hp, hnew.2.symm⟩

/-- Every action, if a call that arms its timer can do so and has asked for a time that comes
    out right. -/
theorem inv_act (h : w.Inv) (a : Action) (hwell : AsksWell w a) (hstep : act a w = some w') :
    w'.Inv := by
  cases a with
  | call fn fiber hookEnable iom =>
      by_cases hbusy : w.busy fiber = true
      · rw [act, if_pos hbusy] at hstep
        cases hstep
      · rw [act, if_neg hbusy] at hstep
        cases hookEnable with
        | false =>
            cases hstep
            exact h
        | true =>
            cases hstep
            exact inv_call h fn fiber iom hbusy
  | arm i p now => exact inv_arm h i p now hwell hstep
  | yieldToHold i => exact inv_yieldToHold h i hstep
  | resume i k => exact inv_resume h i k hstep
  | resumeElsewhere k => exact inv_resumeElsewhere h k hstep
  | listExpiredCb now nowTimer => exact inv_listExpiredCb h now nowTimer hstep
  | runCallback k => exact inv_runCallback h k hstep

/-- Only the null pointer crashes the process. -/
theorem crashed_act (a : Action) (hwell : AsksWell w a) (hstep : act a w = some w') :
    w'.crashed = w.crashed := by
  cases a with
  | call fn fiber hookEnable iom =>
      by_cases hbusy : w.busy fiber = true
      · rw [act, if_pos hbusy] at hstep
        cases hstep
      · rw [act, if_neg hbusy] at hstep
        cases hookEnable <;> cases hstep <;> rfl
  | arm i p now =>
      rcases arm_step hstep with ⟨c, ms, hat, -, -, -, ⟨hnull, -⟩ | ⟨-, a, s, -, rfl⟩⟩
      · rw [(hwell c hat).1] at hnull
        cases hnull
      · rfl
  | yieldToHold i =>
      rcases Option.bind_eq_some_iff.1 hstep with ⟨c, -, hend⟩
      cases hend
      rfl
  | resume i k =>
      rcases resume_step hstep with ⟨c, p, -, -, -, rfl⟩
      rfl
  | resumeElsewhere k =>
      rcases Option.bind_eq_some_iff.1 hstep with ⟨⟨p, f⟩, -, hif⟩
      change (if w.busy f = true then none else _) = some w' at hif
      split at hif
      · cases hif
      · cases hif
        rfl
  | listExpiredCb now nowTimer =>
      rcases Option.bind_eq_some_iff.1 hstep with ⟨⟨cbs, w₁⟩, hlist, hend⟩
      rcases onTimers_eq_some hlist with ⟨s, -, rfl⟩
      cases hend
      rfl
  | runCallback k =>
      rcases Option.bind_eq_some_iff.1 hstep with ⟨⟨p, i⟩, -, hrest⟩
      rcases Option.bind_eq_some_iff.1 hrest with ⟨c, -, hend⟩
      cases hend
      rfl

/-- A step is an action of a process that is alive. -/
theorem step_act {a : Action} (hstep : step a w = some w') :
    w.crashed = false ∧ act a w = some w' := by
  rw [step] at hstep
  cases halive : w.crashed with
  | true =>
      rw [halive] at hstep
      cases hstep
  | false =>
      rw [halive] at hstep
      exact ⟨rfl, hstep⟩

/-- The process is alive, and all is as it should be. -/
def Good (w : SleepWorld) : Prop := w.Inv ∧ w.crashed = false

theorem good_step (w : SleepWorld) (a : Action) (w' : SleepWorld) (h : w.Good)
    (hwell : AsksWell w a) (hstep : step a w = some w') : w'.Good := by
  rcases step_act hstep with ⟨halive, hact⟩
  exact ⟨inv_act h.1 a hwell hact, (crashed_act a hwell hact).trans halive⟩

/-- All calls are as expected, and the process is alive. -/
def AllSlept (w : SleepWorld) : Prop := w.crashed = false ∧ ∀ c ∈ w.calls, w.Slept c

theorem Good.allSlept (h : w.Good) : w.AllSlept := by
  refine ⟨h.2, ?_⟩
  intro c hc
  rcases List.getElem?_of_mem hc with ⟨i, hi⟩
  exact h.1.slept i c hi

/-- A call that is as expected behind its `addTimer` could arm a timer and has asked for a time
    that comes out right. -/
theorem asksWell_of_allSlept (h : w.Inv) (a : Action) (hstep : act a w = some w')
    (hall : w'.AllSlept) : AsksWell w a := by
  cases a with
  | arm i p now =>
      intro c hat
      rcases arm_step hstep with
        ⟨c₀, ms, hat₀, hc, hpos, hms, ⟨-, rfl⟩ | ⟨hiom, b, s, hadd, rfl⟩⟩
      · -- The process has crashed.
        cases hall.1
      · rw [hat₀, Option.some.injEq] at hat
        rw [← hat]
        rcases TimerManager.addTimer_heap _ _ h.timers p ms i false now b hadd with ⟨-, hheap⟩
        rcases (h.slept i c₀ hc).fresh hpos with ⟨harmed, hwoken⟩
        have hlen : i < w.calls.length := (List.getElem?_eq_some_iff.1 hc).1
        refine ⟨hiom, ?_⟩
        rw [exact_iff c₀.fn ms hms]
        rcases hall.2 { c₀ with armed := c₀.armed ++ [p], pos := behindTimer c₀.fn }
          (List.mem_set hlen _) with ⟨-, hno, -⟩ | ⟨q, t, hq, ht, -, hlong, hrest⟩
        · rw [harmed] at hno
          cases hno
        · rw [harmed, List.nil_append, List.singleton_inj] at hq
          have ht' := (((hheap p).trans (if_pos rfl)).symm.trans (hq ▸ ht : s.heap p = some t))
          rw [Option.some.injEq] at ht'
          rw [← ht'] at hlong
          refine ⟨?_, hlong⟩
          rcases hrest with ⟨hwaits, -⟩ | ⟨-, hno, -⟩
          · cases hfn : c₀.fn with
            | sleep _ => rfl
            | usleep _ => rfl
            | nanosleep _ _ =>
                rw [hfn] at hwaits
                rcases hwaits with hno | hno
                · cases hno
                · cases hno
          · -- It has not been woken so soon.
            rw [hwoken] at hno
            cases hno
  | call _ _ _ _ => trivial
  | yieldToHold _ => trivial
  | resume _ _ => trivial
  | resumeElsewhere _ => trivial
  | listExpiredCb _ _ => trivial
  | runCallback _ => trivial

/-- In a run the process stays alive and all calls are as expected all the time if and only if
    every call that arms its timer has an `IOManager` and has asked for a time that comes out
    right. -/
theorem sleeps_iff (start : UInt64) (acts : List Action) (w : SleepWorld)
    (hrun : run step acts (new start) = some w) :
    (∀ bs cs u, acts = bs ++ cs → run step bs (new start) = some u → u.AllSlept) ↔
      Along step AsksWell acts (new start) :=
  throughout_iff Good AllSlept (fun _ h => h.allSlept) good_step
    (fun _ a _ h hstep hall => asksWell_of_allSlept h.1 a (step_act hstep).2 hall) acts
    (new start) w ⟨inv_new start, rfl⟩ hrun

/-- A fiber sleeps for a second. -/
def aSecond : List Action :=
  [.call (.sleep 1) 5 true true, .arm 0 1 4000000, .yieldToHold 0, .listExpiredCb 4001000 9,
    .runCallback 0, .resume 0 0]

/-- The call has armed one timer with 1000 milliseconds, which has woken it. -/
theorem sleeps_a_second :
    ∃ w t, run step aSecond (new 4000000) = some w ∧
      w.calls = [⟨.sleep 1, 5, true, [1], [1], .returned 0⟩] ∧ w.timers.heap 1 = some t ∧
      t.ms = 1000 ∧ w.AllSlept := by
  refine ⟨_, _, rfl, rfl, rfl, rfl, ?_⟩
  refine (sleeps_iff 4000000 aSecond _ rfl).2 ?_ aSecond [] _ rfl rfl
  refine ⟨trivial, ?_, trivial, trivial, trivial, trivial, trivial⟩
  intro c hc
  cases hc
  exact ⟨rfl, (by decide : (1 : UInt32).toNat * 1000 < 2 ^ 32)⟩

/-- A millisecond, which takes a thousand seconds. And a second in a scheduler that is not an
    `IOManager`, which ends the process. -/
theorem oversleeps :
    (∃ w, run step [.call (.usleep 1000) 5 true true, .arm 0 1 4000000] (new 4000000) = some w ∧
      ¬w.AllSlept) ∧
    ∃ w, run step [.call (.sleep 1) 5 true false, .arm 0 1 4000000] (new 4000000) = some w ∧
      w.crashed = true ∧ ¬w.AllSlept := by
  constructor
  · refine ⟨_, rfl, fun hall => ?_⟩
    rcases hall.2 ⟨.usleep 1000, 5, true, [1], [], .armed⟩ (List.mem_singleton_self _) with
      ⟨-, hno, -⟩ | ⟨p, t, hp, ht, -, hlong, -⟩
    · cases hno
    · rw [List.singleton_inj] at hp
      rw [← hp] at ht
      cases ht
      exact absurd hlong.2 (by decide)
  · exact ⟨_, rfl, rfl, fun hall => by cases hall.1⟩

end SleepWorld

end YkServer
