import Mathlib.Data.Nat.Basic
import Mathlib.Tactic.NormNum

/-!
# Counters that Wrap

`n` values of a counter in a row, each reduced modulo `n`, are all the residues there are. A
counter that wraps at `D` on the way is one for which this may fail: behind the wrap it
starts at the residue 0 whatever the last one was. What is missed is then one interval.

## Main definitions

* `Missed`: The residues a counter misses.

## Theorems

* `reached_iff`: The residues it reaches are the others.
* `missed_exists_iff`: When it misses any.
-/

namespace Lib

/-- The residues missed by `n` values of a counter that starts at `i` and wraps at `D`. -/
def Missed (D n i q : Nat) : Prop :=
  D < i + n ∧ n + i ≤ q + D ∧ D % n ≤ q ∧ q < n ∧ q + D < n + i + D % n

instance (D n i q : Nat) : Decidable (Missed D n i q) := by unfold Missed; infer_instance

/-- Without a wrap. -/
theorem reached_of_le (D n i q : Nat) (hq : q < n) (hfits : i + n ≤ D) :
    ∃ j < n, (i + j) % D % n = q := by
  have hsplit := Nat.div_add_mod i n
  have he := Nat.mod_lt i (Nat.zero_lt_of_lt hq)
  generalize hu : i / n = u at hsplit
  generalize i % n = e at hsplit he
  by_cases hle : e ≤ q
  · refine ⟨q - e, by omega, ?_⟩
    have hat : i + (q - e) = n * u + q := by omega
    rw [Nat.mod_eq_of_lt (show i + (q - e) < D by omega), hat, Nat.mul_add_mod,
      Nat.mod_eq_of_lt hq]
  · refine ⟨q + n - e, by omega, ?_⟩
    have hat : i + (q + n - e) = n * (u + 1) + q := by rw [Nat.mul_add_one]; omega
    rw [Nat.mod_eq_of_lt (show i + (q + n - e) < D by omega), hat, Nat.mul_add_mod,
      Nat.mod_eq_of_lt hq]

/-- The residue of a value of the counter. -/
theorem residue_cases (D n i j : Nat) (hi : i < D) (hj : j < n) (hn : n ≤ D)
    (hwraps : D < i + n) :
    D ≤ i + j ∧ (i + j) % D % n = i + j - D ∨
      i + j < D ∧ D ≤ D % n + i + j ∧ (i + j) % D % n = D % n + i + j - D ∨
      D % n + i + j < D ∧ (i + j) % D % n = n + D % n + i + j - D := by
  have hsplit := Nat.div_add_mod D n
  have hr := Nat.mod_lt D (Nat.zero_lt_of_lt hj)
  have hpos : 0 < D / n := Nat.div_pos hn (by omega)
  rcases Nat.exists_eq_succ_of_ne_zero hpos.ne' with ⟨Q, hQ⟩
  rw [hQ, Nat.succ_eq_add_one, Nat.mul_add_one] at hsplit
  generalize D % n = r at hsplit hr ⊢
  by_cases hbehind : D ≤ i + j
  · have hsub : (i + j) % D = i + j - D := by
      rw [Nat.mod_eq_sub_mod hbehind, Nat.mod_eq_of_lt (by omega)]
    exact Or.inl ⟨hbehind, by rw [hsub, Nat.mod_eq_of_lt (by omega)]⟩
  · rw [Nat.mod_eq_of_lt (show i + j < D by omega)]
    by_cases hlast : D ≤ r + i + j
    · have hat : i + j = n * Q + n + (r + i + j - D) := by omega
      refine Or.inr (Or.inl ⟨by omega, hlast, ?_⟩)
      rw [hat, ← Nat.mul_add_one, Nat.mul_add_mod, Nat.mod_eq_of_lt (by omega)]
    · have hat : i + j = n * Q + (n + r + i + j - D) := by omega
      refine Or.inr (Or.inr ⟨by omega, ?_⟩)
      rw [hat, Nat.mul_add_mod, Nat.mod_eq_of_lt (by omega)]

theorem reached_iff (D n i q : Nat) (hi : i < D) (hn : n ≤ D) (hq : q < n) :
    (∃ j < n, (i + j) % D % n = q) ↔ ¬Missed D n i q := by
  by_cases hwraps : D < i + n
  · have hcases := fun j hj => residue_cases D n i j hi hj hn hwraps
    have hr := Nat.mod_lt D (Nat.zero_lt_of_lt hq)
    constructor
    · rintro ⟨j, hj, hat⟩ ⟨-, hbehind, hlow, -, hhigh⟩
      rcases hcases j hj with ⟨hle, hval⟩ | ⟨hlt, hle, hval⟩ | ⟨hlt, hval⟩
      · omega
      · omega
      · omega
    · intro hreached
      -- Behind the wrap, just before it, or one round earlier.
      by_cases hbehind : q + D < n + i
      · refine ⟨q + D - i, by omega, ?_⟩
        rcases hcases (q + D - i) (by omega) with ⟨hle, hval⟩ | ⟨hlt, -, -⟩ | ⟨hlt, -⟩
        · omega
        · omega
        · omega
      · by_cases hlow : q < D % n
        · refine ⟨q + D - i - D % n, by omega, ?_⟩
          rcases hcases (q + D - i - D % n) (by omega) with
            ⟨hle, -⟩ | ⟨-, hle, hval⟩ | ⟨hlt, -⟩
          · omega
          · omega
          · omega
        · have hhigh : n + i + D % n ≤ q + D := by
            by_contra hno
            exact hreached ⟨hwraps, by omega, by omega, hq, by omega⟩
          refine ⟨q + D - i - n - D % n, by omega, ?_⟩
          rcases hcases (q + D - i - n - D % n) (by omega) with
            ⟨hle, -⟩ | ⟨-, hle, -⟩ | ⟨hlt, hval⟩
          · omega
          · omega
          · omega
  · exact iff_of_true (reached_of_le D n i q hq (by omega)) (fun hmissed => hwraps hmissed.1)

/-- A counter misses something if it wraps on the way and the residues do not come out even. -/
theorem missed_exists_iff (D n i : Nat) (hi : i < D) (hn : 0 < n) :
    (∃ q, Missed D n i q) ↔ D < i + n ∧ ¬n ∣ D := by
  have hr := Nat.mod_lt D hn
  rw [Nat.dvd_iff_mod_eq_zero]
  constructor
  · rintro ⟨q, hwraps, hbehind, hlow, hq, hhigh⟩
    exact ⟨hwraps, by omega⟩
  · rintro ⟨hwraps, hodd⟩
    refine ⟨max (n + i - D) (D % n), hwraps, ?_, ?_, ?_, ?_⟩
    · omega
    · omega
    · omega
    · omega

end Lib
