import YkServer.Core.Stream

/-!
# When a Fixed Size Transfer Fails

The four loops against what their callers take the result for: the transfer
stopped at the first call that did not transfer anything and the result is not
positive, or every byte was transferred. The underlying call is a script of
results, and the calls made are recorded with the range they were given.

As long as results are positive the loops do what they should, and a zero stops
them. A negative result does not: as a word it is not zero, so the three simple
loops add it to what is left and call again, and `writeFixSize` on a buffer takes
it for more than it asked for and reports success. Hence the exact condition: no
result is negative before the transfer is complete. There is one way out, at
lengths within `2 ^ 31` of `2 ^ 64`, where the arithmetic wraps to the right
answer by accident.

## Main definitions

* `received`: The bytes the first results stand for.
* `Going`: The first results are positive and do not complete the transfer.
* `Script`: The results the underlying call may give.
* `Meets`: What a caller relies on.
* `calls`: The calls made while results are positive.
* `IsLoop`: What the loops have in common.

## Theorems

* `exists_stop`: Either the transfer is completed or some result is not positive.
* `IsLoop.going`: A loop up to the first result that is not positive.
* `IsLoop.negative`: What a negative result does.
* `IsLoop.meets_iff`: When a loop meets its contract.
* `fixSize_meets_iff`: The four functions.
* `writeFixSize_hides_error`: A failed write reported as complete.
-/

namespace YkServer

open Lib

namespace Stream

/-- The bytes the first `k` results stand for. -/
def received (results : Nat → Int) : Nat → Nat
  | 0 => 0
  | k + 1 => received results k + (results k).toNat

/-- The first `k` results are positive and leave something to transfer. -/
def Going (results : Nat → Int) (length k : Nat) : Prop :=
  (∀ j, j < k → 0 < results j) ∧ received results k < length

/-- Every result is an `int`, and while the transfer is going on it is at most
    the number of bytes still wanted. -/
structure Script (results : Nat → Int) (length : Nat) : Prop where
  range : ∀ k, -(2 ^ 31 : Int) ≤ results k ∧ results k < 2 ^ 31
  wanted : ∀ k, Going results length k → results k ≤ (length - received results k : Nat)

/-- The underlying call with a buffer: the next result, and the range is recorded. -/
def scripted (results : Nat → Int) (offset size : Nat) : Prog Exn (List (Nat × Nat)) Int :=
  fun log => .ok (results log.length) (log ++ [(offset, size)])

/-- The underlying call with a byte array, whose cursor is behind what was
    transferred. -/
def scriptedBytes (results : Nat → Int) (size : Nat) : Prog Exn (List (Nat × Nat)) Int :=
  fun log => .ok (results log.length) (log ++ [(received results log.length, size)])

/-- What a caller relies on: the function returns; it stopped at the first
    result that is not positive, if there was one, and says so; it says that
    all was transferred only if it was; every range is inside the caller's. -/
def Meets (f : Nat → Prog Exn (List (Nat × Nat)) Int) (results : Nat → Int)
    (length : Nat) : Prop :=
  ∃ fuel r log, f fuel [] = .ok r log ∧
    (∀ k, Going results length k → results k ≤ 0 → log.length = k + 1 ∧ r ≤ 0) ∧
    (r = length → (∀ j, j < log.length → 0 < results j) ∧
      received results log.length = length) ∧
    ∀ c ∈ log, c.1 + c.2 ≤ length

/-- The calls made while results are positive. -/
def calls (results : Nat → Int) (length : Nat) : Nat → List (Nat × Nat)
  | 0 => []
  | k + 1 => calls results length k ++ [(received results k, length - received results k)]

theorem length_calls (results : Nat → Int) (length k : Nat) :
    (calls results length k).length = k := by
  induction k with
  | zero => rfl
  | succ k ih => rw [calls, List.length_append, ih, List.length_singleton]

/-- While the transfer is going on the ranges are inside the caller's. -/
theorem calls_inside (results : Nat → Int) (length k : Nat)
    (h : ∀ j, j < k → received results j ≤ length) :
    ∀ c ∈ calls results length k, c.1 + c.2 ≤ length := by
  induction k with
  | zero => exact fun c hc => absurd hc List.not_mem_nil
  | succ k ih =>
      intro c hc
      rw [calls, List.mem_append, List.mem_singleton] at hc
      rcases hc with hold | rfl
      · exact ih (fun j hj => h j (by omega)) c hold
      · have hk := h k (by omega)
        simp only []
        omega

/-- Going on now means going on before. -/
theorem Going.earlier {results : Nat → Int} {length k : Nat} (h : Going results length k)
    (j : Nat) (hj : j ≤ k) : Going results length j := by
  induction k with
  | zero =>
      have hzero : j = 0 := by omega
      rw [hzero]
      exact h
  | succ k ih =>
      by_cases heq : j = k + 1
      · rw [heq]
        exact h
      · have hless : received results k < length := by
          have hlt := h.2
          rw [received] at hlt
          omega
        exact ih ⟨fun i hi => h.1 i (by omega), hless⟩ (by omega)

/-- Results decide where a transfer stops being on: there is a first one that is
    not positive, or the bytes add up. -/
theorem exists_stop (results : Nat → Int) (length : Nat) (hs : Script results length) :
    ∃ k, (∀ j, j < k → Going results length j ∧ 0 < results j) ∧
      (received results k = length ∨ (Going results length k ∧ results k ≤ 0)) := by
  -- Induction on what is left; every positive result makes it smaller.
  have hall : ∀ left k, length - received results k = left → received results k ≤ length →
      (∀ j, j < k → Going results length j ∧ 0 < results j) →
      ∃ k, (∀ j, j < k → Going results length j ∧ 0 < results j) ∧
        (received results k = length ∨ (Going results length k ∧ results k ≤ 0)) := by
    intro left
    induction left using Nat.strong_induction_on with
    | _ left ih =>
        intro k hleft hle hbefore
        by_cases hdone : received results k = length
        · exact ⟨k, hbefore, Or.inl hdone⟩
        · have hgo : Going results length k := ⟨fun j hj => (hbefore j hj).2, by omega⟩
          by_cases hpos : 0 < results k
          · have hw := hs.wanted k hgo
            have hnext : received results (k + 1) = received results k + (results k).toNat := rfl
            refine ih (length - received results (k + 1)) (by omega) (k + 1) rfl (by omega) ?_
            intro j hj
            by_cases heq : j = k
            · rw [heq]
              exact ⟨hgo, hpos⟩
            · exact hbefore j (by omega)
          · exact ⟨k, hbefore, Or.inr ⟨hgo, by omega⟩⟩
  exact hall _ 0 rfl (Nat.zero_le _) (fun j hj => absurd hj (by omega))

/-! ## One loop for four

The loops differ in what they take for left after a call, and agree where the
call transferred no more than it was asked to. -/

/-- A call that plays the script, and is recorded where it should have been made
    as long as the offset is right. -/
def Plays (results : Nat → Int) (call : Nat → Nat → Prog Exn (List (Nat × Nat)) Int) : Prop :=
  ∀ offset size log, ∃ at_, call offset size log = .ok (results log.length) (log ++ [(at_, size)]) ∧
    (offset = received results log.length → at_ = offset)

/-- A loop over a call: `next` is what it takes for left. -/
structure IsLoop (call : Nat → Nat → Prog Exn (List (Nat × Nat)) Int) (length : Nat)
    (next : Nat → Nat → Nat)
    (loop : Nat → Nat → Nat → Prog Exn (List (Nat × Nat)) Int) : Prop where
  bound : ∀ offset left log, loop 0 offset left log = .hang
  done : ∀ fuel offset log, loop (fuel + 1) offset 0 log = .ok (intOfWord length) log
  zero : ∀ fuel offset left log r log', left ≠ 0 → call offset left log = .ok r log' →
    wordOfInt r = 0 → loop (fuel + 1) offset left log = .ok 0 log'
  again : ∀ fuel offset left log r log', left ≠ 0 → call offset left log = .ok r log' →
    wordOfInt r ≠ 0 → loop (fuel + 1) offset left log =
      loop fuel (addWord offset (wordOfInt r)) (next left (wordOfInt r)) log'
  exact : ∀ left len, len ≤ left → next left len = left - len

theorem isLoop_fixLoop (call : Nat → Nat → Prog Exn (List (Nat × Nat)) Int) (length : Nat) :
    IsLoop call length subWord (fixLoop call length) := by
  refine ⟨fun _ _ _ => rfl, fun _ _ _ => rfl, ?_, ?_, ?_⟩
  · intro fuel offset left log r log' hleft hcall hzero
    rw [fixLoop, if_neg hleft, bind_ok _ _ _ _ _ hcall]
    simp only [hzero, if_true, intOfWord_zero]
    rfl
  · intro fuel offset left log r log' hleft hcall hnz
    rw [fixLoop, if_neg hleft, bind_ok _ _ _ _ _ hcall]
    simp only [hnz, if_false]
  · intro left len hle
    rw [subWord, if_pos hle]

/-- What `writeFixSize` on a buffer takes for left. -/
def writeNext (left len : Nat) : Nat := if left ≤ len then 0 else subWord left len

theorem isLoop_writeLoop (call : Nat → Nat → Prog Exn (List (Nat × Nat)) Int) (length : Nat) :
    IsLoop call length writeNext (writeLoop call length) := by
  refine ⟨fun _ _ _ => rfl, fun _ _ _ => rfl, ?_, ?_, ?_⟩
  · intro fuel offset left log r log' hleft hcall hzero
    rw [writeLoop, if_neg hleft, bind_ok _ _ _ _ _ hcall]
    simp only [hzero, if_true, intOfWord_zero]
    rfl
  · intro fuel offset left log r log' hleft hcall hnz
    rw [writeLoop, if_neg hleft, bind_ok _ _ _ _ _ hcall]
    simp only [hnz, if_false, writeNext]
    split <;> rfl
  · intro left len hle
    unfold writeNext
    split
    · omega
    · rw [subWord, if_pos hle]

/-- The next call of a transfer that is going on. -/
theorem Plays.next {results : Nat → Int}
    {call : Nat → Nat → Prog Exn (List (Nat × Nat)) Int} (hp : Plays results call)
    (length k : Nat) :
    call (received results k) (length - received results k) (calls results length k) =
      .ok (results k) (calls results length (k + 1)) := by
  rcases hp (received results k) (length - received results k) (calls results length k) with
    ⟨at_, hcall, hat⟩
  rw [length_calls] at hcall hat
  rw [hcall, hat rfl, calls]

section Loop

variable {results : Nat → Int} {length : Nat} {next : Nat → Nat → Nat}
  {call : Nat → Nat → Prog Exn (List (Nat × Nat)) Int}
  {loop : Nat → Nat → Nat → Prog Exn (List (Nat × Nat)) Int}

/-- The loop up to the first result that is not positive. The offset and what is
    left stay exact, so the words do not wrap. -/
theorem IsLoop.going (hl : IsLoop call length next loop) (hp : Plays results call)
    (hs : Script results length) (hlen : length < 2 ^ 64) (k fuel : Nat)
    (hk : ∀ j, j < k → Going results length j ∧ 0 < results j) :
    loop (fuel + k) 0 length [] =
      loop fuel (received results k) (length - received results k) (calls results length k) := by
  induction k generalizing fuel with
  | zero => rfl
  | succ k ih =>
      rcases hk k (by omega) with ⟨hgo, hpos⟩
      have hw := hs.wanted k hgo
      have hlt := hgo.2
      have hword := wordOfInt_nonneg (results k) (by omega)
      -- No result is more than what is left, so neither word wraps.
      have hadd : addWord (received results k) (results k).toNat = received results (k + 1) := by
        rw [addWord, received, if_pos (by omega)]
      have hnext : next (length - received results k) (results k).toNat =
          length - received results (k + 1) := by
        rw [hl.exact _ _ (by omega), received]
        omega
      rw [show fuel + (k + 1) = fuel + 1 + k by omega,
        ih (fuel + 1) (fun j hj => hk j (by omega)),
        hl.again fuel _ _ _ _ _ (by omega) (hp.next length k) (by omega), hword, hadd, hnext]

/-- A loop that returns has made its calls after those it started with, and at
    least one if something was left. -/
theorem IsLoop.longer (hl : IsLoop call length next loop) (hp : Plays results call)
    (fuel offset left : Nat) (log log' : List (Nat × Nat)) (r : Int)
    (h : loop fuel offset left log = .ok r log') :
    log.length ≤ log'.length ∧ (left ≠ 0 → log.length < log'.length) := by
  induction fuel generalizing offset left log with
  | zero =>
      rw [hl.bound] at h
      cases h
  | succ fuel ih =>
      by_cases hleft : left = 0
      · rw [hleft, hl.done] at h
        cases h
        exact ⟨Nat.le_refl _, fun hne => absurd hleft hne⟩
      · rcases hp offset left log with ⟨at_, hcall, _⟩
        by_cases hzero : wordOfInt (results log.length) = 0
        · rw [hl.zero fuel offset left log _ _ hleft hcall hzero] at h
          cases h
          rw [List.length_append, List.length_singleton]
          omega
        · rw [hl.again fuel offset left log _ _ hleft hcall hzero] at h
          have hmore := (ih _ _ _ h).1
          rw [List.length_append, List.length_singleton] at hmore
          omega

/-- A larger bound changes nothing. -/
theorem IsLoop.more (hl : IsLoop call length next loop) (hp : Plays results call)
    (fuel extra offset left : Nat) (log log' : List (Nat × Nat)) (r : Int)
    (h : loop fuel offset left log = .ok r log') :
    loop (fuel + extra) offset left log = .ok r log' := by
  induction fuel generalizing offset left log with
  | zero =>
      rw [hl.bound] at h
      cases h
  | succ fuel ih =>
      rw [show fuel + 1 + extra = fuel + extra + 1 by omega]
      by_cases hleft : left = 0
      · rw [hleft, hl.done] at h
        rw [hleft, hl.done]
        exact h
      · rcases hp offset left log with ⟨at_, hcall, _⟩
        by_cases hzero : wordOfInt (results log.length) = 0
        · rw [hl.zero fuel offset left log _ _ hleft hcall hzero] at h
          rw [hl.zero _ offset left log _ _ hleft hcall hzero]
          exact h
        · rw [hl.again fuel offset left log _ _ hleft hcall hzero] at h
          rw [hl.again _ offset left log _ _ hleft hcall hzero]
          exact ih _ _ _ h

/-- One round at a negative result. -/
theorem IsLoop.negative (hl : IsLoop call length next loop) (hp : Plays results call)
    (hs : Script results length) (k fuel : Nat) (hgo : Going results length k)
    (hneg : results k < 0) :
    ∃ offset, loop (fuel + 1) (received results k) (length - received results k)
        (calls results length k) =
      loop fuel offset (next (length - received results k) (2 ^ 64 - (-results k).toNat))
        (calls results length (k + 1)) := by
  have hlt := hgo.2
  rcases wordOfInt_neg (results k) hneg (hs.range k).1 with ⟨hword, hnz⟩
  refine ⟨addWord (received results k) (wordOfInt (results k)), ?_⟩
  rw [hl.again fuel _ _ _ _ _ (by omega) (hp.next length k) hnz, hword]

/-- A loop meets its contract exactly when a negative result, if one comes while
    the transfer is going on, leaves nothing to do and the truncated length is
    not positive. -/
theorem IsLoop.meets_iff (hl : IsLoop call length next loop) (hp : Plays results call)
    (hs : Script results length) (hlen : length < 2 ^ 64) :
    Meets (fun fuel => loop fuel 0 length) results length ↔
      ∀ k, Going results length k → results k < 0 →
        next (length - received results k) (2 ^ 64 - (-results k).toNat) = 0 ∧
          intOfWord length ≤ 0 := by
  constructor
  · rintro ⟨fuel, r, log, hrun, hstop, -, -⟩ k hgo hneg
    have hbefore : ∀ j, j < k → Going results length j ∧ 0 < results j :=
      fun j hj => ⟨hgo.earlier j (by omega), hgo.1 j hj⟩
    rcases hstop k hgo (by omega) with ⟨hcount, hr⟩
    -- The run goes through the calls before the negative result, and through one more.
    have hmore := hl.more hp fuel (k + 2) 0 length [] log r hrun
    rcases hl.negative hp hs k (fuel + 1) hgo hneg with ⟨offset, hneg'⟩
    rw [show fuel + (k + 2) = fuel + 2 + k by omega, hl.going hp hs hlen k (fuel + 2) hbefore,
      hneg'] at hmore
    -- With something left there would be a call after the negative result.
    have hzero : next (length - received results k) (2 ^ 64 - (-results k).toNat) = 0 := by
      by_contra hnz
      have hlonger := (hl.longer hp _ _ _ _ _ _ hmore).2 hnz
      rw [length_calls] at hlonger
      omega
    rw [hzero, hl.done] at hmore
    cases hmore
    exact ⟨hzero, hr⟩
  · intro hcond
    rcases exists_stop results length hs with ⟨k, hbefore, hdone | ⟨hgo, hle⟩⟩
    · -- Everything was transferred.
      refine ⟨1 + k, intOfWord length, calls results length k, ?_, ?_, ?_, ?_⟩
      · simp only [hl.going hp hs hlen k 1 hbefore, hdone, Nat.sub_self]
        exact hl.done 0 _ _
      · intro k' hgo' hle'
        by_cases hlt : k' < k
        · exact absurd (hbefore k' hlt).2 (by omega)
        · have hk := (hgo'.earlier k (by omega)).2
          omega
      · intro _
        rw [length_calls]
        exact ⟨fun j hj => (hbefore j hj).2, hdone⟩
      · exact calls_inside results length k (fun j hj => Nat.le_of_lt (hbefore j hj).1.2)
    · have hlt := hgo.2
      -- There is only one first result that is not positive.
      have hself : ∀ k', Going results length k' → results k' ≤ 0 → k' = k := by
        intro k' hgo' hle'
        rcases Nat.lt_trichotomy k' k with hlt' | heq | hgt
        · exact absurd (hbefore k' hlt').2 (by omega)
        · exact heq
        · exact absurd (hgo'.1 k hgt) (by omega)
      have hinside := calls_inside results length (k + 1)
        (fun j hj => Nat.le_of_lt (hgo.earlier j (by omega)).2)
      -- What is returned, zero or the truncated length, is not positive.
      have hret : ∃ fuel r, loop fuel 0 length [] = .ok r (calls results length (k + 1)) ∧
          r ≤ 0 := by
        by_cases hneg : results k < 0
        · rcases hcond k hgo hneg with ⟨hzero, hr⟩
          rcases hl.negative hp hs k 1 hgo hneg with ⟨offset, hneg'⟩
          refine ⟨2 + k, intOfWord length, ?_, hr⟩
          rw [hl.going hp hs hlen k 2 hbefore, hneg', hzero]
          exact hl.done 0 _ _
        · have hzero : results k = 0 := by omega
          refine ⟨1 + k, 0, ?_, Int.le_refl _⟩
          rw [hl.going hp hs hlen k 1 hbefore]
          exact hl.zero 0 _ _ _ _ _ (by omega) (hp.next length k) (by rw [hzero]; rfl)
      rcases hret with ⟨fuel, r, hrun, hr⟩
      refine ⟨fuel, r, calls results length (k + 1), hrun, ?_, ?_, hinside⟩
      · intro k' hgo' hle'
        rw [length_calls, hself k' hgo' hle']
        exact ⟨rfl, hr⟩
      · intro hlength
        omega

end Loop

/-! ## The four functions -/

theorem plays_scripted (results : Nat → Int) : Plays results (scripted results) :=
  fun offset _ _ => ⟨offset, rfl, fun _ => rfl⟩

theorem plays_scriptedBytes (results : Nat → Int) :
    Plays results (fun _ size => scriptedBytes results size) :=
  fun _ _ log => ⟨received results log.length, rfl, fun h => h.symm⟩

/-- No result is negative while the transfer is going on, unless what is left
    and the size of the negative number are as said. -/
def NoErrorUnless (accident : Nat → Nat → Prop) (results : Nat → Int) (length : Nat) : Prop :=
  ∀ k, Going results length k → results k < 0 →
    accident (length - received results k) (-results k).toNat

/-- The accident of the three simple loops: the sum is zero as a word. -/
theorem fixLoop_accident (results : Nat → Int) (length : Nat) (hlen : length < 2 ^ 64)
    (hs : Script results length) :
    (∀ k, Going results length k → results k < 0 →
      subWord (length - received results k) (2 ^ 64 - (-results k).toNat) = 0 ∧
        intOfWord length ≤ 0) ↔
    NoErrorUnless (fun left n => left + n = 2 ^ 64) results length := by
  constructor
  · intro h k hgo hneg
    have hsub := (h k hgo hneg).1
    have hlow := (hs.range k).1
    rw [subWord] at hsub
    split at hsub <;> omega
  · intro h k hgo hneg
    have hsum := h k hgo hneg
    have hlow := (hs.range k).1
    simp only [] at hsum
    refine ⟨?_, ?_⟩
    · rw [subWord, if_pos (by omega)]
      omega
    · -- A length this close to `2 ^ 64` is negative as an `int`.
      have hmod : length % 2 ^ 32 = length - (2 ^ 64 - 2 ^ 32) := by omega
      rw [intOfWord, hmod, if_neg (by omega)]
      omega

/-- The accident of `writeFixSize` on a buffer: the negative number is taken for
    all that is left, and the length it claims is not positive. -/
theorem writeLoop_accident (results : Nat → Int) (length : Nat)
    (hs : Script results length) :
    (∀ k, Going results length k → results k < 0 →
      writeNext (length - received results k) (2 ^ 64 - (-results k).toNat) = 0 ∧
        intOfWord length ≤ 0) ↔
    NoErrorUnless (fun left n => left + n ≤ 2 ^ 64 ∧ intOfWord length ≤ 0) results length := by
  constructor
  · intro h k hgo hneg
    rcases h k hgo hneg with ⟨hnext, hint⟩
    have hlow := (hs.range k).1
    refine ⟨?_, hint⟩
    -- Without the comparison the difference would have to be zero.
    rw [writeNext] at hnext
    split at hnext
    · omega
    · rw [subWord] at hnext
      split at hnext <;> omega
  · intro h k hgo hneg
    rcases h k hgo hneg with ⟨hsum, hint⟩
    refine ⟨?_, hint⟩
    rw [writeNext, if_pos (by omega)]

/-- Each of the four functions meets its contract exactly when no result is
    negative before the transfer is complete, accidents near `2 ^ 64` apart. -/
theorem fixSize_meets_iff (results : Nat → Int) (length : Nat) (hlen : length < 2 ^ 64)
    (hs : Script results length) :
    (Meets (fun fuel => readFixSize (scripted results) fuel length) results length ↔
      NoErrorUnless (fun left n => left + n = 2 ^ 64) results length) ∧
    (Meets (fun fuel => readFixSizeBytes (scriptedBytes results) fuel length) results length ↔
      NoErrorUnless (fun left n => left + n = 2 ^ 64) results length) ∧
    (Meets (fun fuel => writeFixSizeBytes (scriptedBytes results) fuel length) results length ↔
      NoErrorUnless (fun left n => left + n = 2 ^ 64) results length) ∧
    (Meets (fun fuel => writeFixSize (scripted results) fuel length) results length ↔
      NoErrorUnless (fun left n => left + n ≤ 2 ^ 64 ∧ intOfWord length ≤ 0) results length) := by
  have hfix := fixLoop_accident results length hlen hs
  have hbytes := (isLoop_fixLoop (fun _ size => scriptedBytes results size) length).meets_iff
    (plays_scriptedBytes results) hs hlen
  refine ⟨?_, hbytes.trans hfix, hbytes.trans hfix, ?_⟩
  · exact ((isLoop_fixLoop (scripted results) length).meets_iff (plays_scripted results) hs
      hlen).trans hfix
  · exact ((isLoop_writeLoop (scripted results) length).meets_iff (plays_scripted results) hs
      hlen).trans (writeLoop_accident results length hs)

/-- Three bytes of four and then the end of the stream. -/
theorem fixSize_meets_short :
    Meets (fun fuel => readFixSize (scripted (fun k => if k = 0 then 3 else 0)) fuel 4)
      (fun k => if k = 0 then 3 else 0) 4 := by
  have hgoing : ∀ k, Going (fun k => if k = 0 then 3 else 0) 4 k → k ≤ 1 := by
    intro k hgo
    by_contra hk
    exact absurd (hgo.1 1 (by omega)) (by decide)
  refine (fixSize_meets_iff _ 4 (by decide) ⟨?_, ?_⟩).1.2 ?_
  · intro k
    by_cases hk : k = 0
    · rw [hk]
      decide
    · rw [if_neg hk]
      decide
  · intro k hgo
    have hk := hgoing k hgo
    rcases Nat.le_one_iff_eq_zero_or_eq_one.1 hk with rfl | rfl <;> decide
  · intro k _ hneg
    have hnonneg : (0 : Int) ≤ if k = 0 then 3 else 0 := by split <;> decide
    exact absurd hneg (Int.not_lt.2 hnonneg)

/-- Writing four bytes to a closed connection: the call returns `-1`, and
    `writeFixSize` returns four. -/
theorem writeFixSize_hides_error :
    writeFixSize (scripted (fun _ => -1)) 2 4 [] = .ok 4 [(0, 4)] ∧
    Script (fun _ => -1) 4 ∧
    ¬Meets (fun fuel => writeFixSize (scripted (fun _ => -1)) fuel 4) (fun _ => -1) 4 := by
  have hs : Script (fun _ => -1) 4 :=
    ⟨fun _ => by decide, fun _ _ => Int.le_trans (by decide) (Int.natCast_nonneg _)⟩
  refine ⟨by decide, hs, ?_⟩
  intro hmeets
  have hcond := ((isLoop_writeLoop (scripted (fun _ => -1)) 4).meets_iff
    (plays_scripted (fun _ => -1)) hs (by decide)).1 hmeets 0 ⟨fun j hj => absurd hj (by omega),
    by decide⟩ (by decide)
  exact absurd hcond.2 (by decide)

end Stream

end YkServer
