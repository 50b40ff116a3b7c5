import YkServer.Core.HttpConnection
import YkServer.Core.ServiceDiscovery

/-!
# Printed Numbers

What a number looks like when it is printed: it is not empty and has digits only, and
digit by digit it is the number in front of its last digit and that digit. The number of the
digits, read from the front of a text, is the one that was printed.

## Main definitions

* `digitByte`: A digit.

## Theorems

* `printed_eq`: A number is printed digit by digit.
* `printed_digits`: The characters of a printed number.
* `printed_inj`: A text is printed for one number.
* `decimal_printed`: A printed number reads back.
* `leading_digits`: The digits in front of something else.
-/

namespace YkServer

open HttpParser

/-- A digit. -/
def digitByte (d : Nat) : UInt8 := UInt8.ofNat (48 + d)

theorem digitByte_spec : ∀ d < 10, digit (digitByte d) = true ∧ (digitByte d).toNat - 48 = d := by
  decide

/-- A number is printed digit by digit. -/
theorem printed_eq (n : Nat) :
    printed n = if n < 10 then [digitByte n] else printed (n / 10) ++ [digitByte (n % 10)] := by
  have hlist : ∀ k, printed k = (Nat.toDigits 10 k).map (fun c => UInt8.ofNat c.toNat) := by
    intro k
    rw [printed, ascii]
    exact congrArg (List.map _) Nat.toList_repr
  rw [hlist, Nat.toDigits_eq_if (by decide)]
  split
  · next h => rw [List.map_singleton, Nat.toNat_digitChar_of_lt_ten h]; rfl
  · rw [List.map_append, ← hlist, List.map_singleton,
      Nat.toNat_digitChar_of_lt_ten (Nat.mod_lt n (by decide))]
    rfl

theorem printed_digits (n : Nat) : printed n ≠ [] ∧ ∀ c ∈ printed n, digit c = true := by
  induction n using Nat.strong_induction_on with
  | _ n ih =>
      rw [printed_eq]
      split
      · next h =>
          refine ⟨List.cons_ne_nil _ _, ?_⟩
          intro c hc
          rw [List.mem_singleton] at hc
          rw [hc]
          exact (digitByte_spec n h).1
      · next h =>
          refine ⟨List.append_ne_nil_of_right_ne_nil _ (List.cons_ne_nil _ _), ?_⟩
          intro c hc
          rw [List.mem_append, List.mem_singleton] at hc
          rcases hc with hc | rfl
          · exact (ih (n / 10) (by omega)).2 c hc
          · exact (digitByte_spec _ (Nat.mod_lt n (by decide))).1

theorem digitByte_inj (d e : Nat) (hd : d < 10) (he : e < 10) (h : digitByte d = digitByte e) :
    d = e := by
  rw [← (digitByte_spec d hd).2, ← (digitByte_spec e he).2, h]

/-- A text is printed for one number. -/
theorem printed_inj (n m : Nat) (h : printed n = printed m) : n = m := by
  induction n using Nat.strong_induction_on generalizing m with
  | _ n ih =>
      rw [printed_eq n, printed_eq m] at h
      split at h
      · next hn =>
          split at h
          · next hm => exact digitByte_inj n m hn hm (List.singleton_inj.1 h)
          · exact absurd (List.append_eq_singleton_iff.1 h.symm) (by simp [printed_digits])
      · next hn =>
          split at h
          · exact absurd (List.append_eq_singleton_iff.1 h) (by simp [printed_digits])
          · next hm =>
              rcases List.append_inj' h rfl with ⟨hfront, hlast⟩
              have hdiv := ih (n / 10) (by omega) (m / 10) hfront
              have hmod := digitByte_inj (n % 10) (m % 10) (Nat.mod_lt n (by omega))
                (Nat.mod_lt m (by omega)) (List.singleton_inj.1 hlast)
              omega

/-! ## Reading -/

theorem decimal_concat (digits : List UInt8) (c : UInt8) :
    decimal (digits ++ [c]) = decimal digits * 10 + (c.toNat - 48) := by
  rw [decimal, List.foldl_append]
  rfl

/-- A printed number reads back. -/
theorem decimal_printed (n : Nat) : decimal (printed n) = n := by
  induction n using Nat.strong_induction_on with
  | _ n ih =>
      rw [printed_eq]
      split
      · next h =>
          have hone := decimal_concat [] (digitByte n)
          rw [(digitByte_spec n h).2] at hone
          exact hone.trans (Nat.zero_add n)
      · next h =>
          rw [decimal_concat, ih (n / 10) (by omega),
            (digitByte_spec (n % 10) (Nat.mod_lt n (by decide))).2]
          omega

theorem digit_eq (c : UInt8) : digit c = isDigit c := by
  rw [digit, HttpParser.inRange, isDigit]
  simp only [UInt8.le_iff_toNat_le]
  rfl

theorem isDigit_iff (c : UInt8) : isDigit c = true ↔ 48 ≤ c.toNat ∧ c.toNat ≤ 57 := by
  simp only [isDigit, Bool.and_eq_true, decide_eq_true_eq, UInt8.le_iff_toNat_le,
    UInt8.reduceToNat]

theorem not_isSpace_of_isDigit (c : UInt8) (h : isDigit c = true) : isSpace c = false := by
  rw [isDigit_iff] at h
  simp only [isSpace, Bool.or_eq_false_iff, beq_eq_false_iff_ne, ne_eq, Bool.and_eq_false_iff,
    decide_eq_false_iff_not, UInt8.le_iff_toNat_le, ← UInt8.toNat_inj, UInt8.reduceToNat]
  omega

/-- The digits in front of something else. -/
theorem leading_digits (d post : List UInt8) (hne : d ≠ []) (hd : ∀ c ∈ d, isDigit c = true)
    (hpost : ∀ c ∈ post.head?, isDigit c = false) : leading (d ++ post) = some (decimal d) := by
  have htake : (d ++ post).takeWhile isDigit = d := by
    rw [List.takeWhile_append_of_pos hd]
    cases post with
    | nil => rw [List.takeWhile_nil, List.append_nil]
    | cons c post =>
        rw [List.takeWhile_cons_of_neg (Bool.eq_false_iff.1 (hpost c rfl)), List.append_nil]
  rw [leading, htake, if_neg hne]

end YkServer
