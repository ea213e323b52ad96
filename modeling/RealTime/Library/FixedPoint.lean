import Mathlib.Data.Nat.Digits.Defs
import Mathlib.Data.Rat.Floor
import Mathlib.Tactic.Linarith

/-! # Fixed-point text

A rational is printed with a given number of decimals, rounded to the nearest and on a tie
to the even last digit. The length of the text is fixed by a bound on the magnitude. -/

namespace RealTime.FixedPoint

/-- The natural number nearest to a magnitude. -/
def roundHalfEven (x : ℚ) : ℕ :=
  let n := ⌊x⌋₊
  if x - n < 1 / 2 ∨ x - n = 1 / 2 ∧ n % 2 = 0 then n else n + 1

/-- The last `count` decimal digits of `n`. -/
def lastDigits : ℕ → ℕ → List Char
  | 0, _ => []
  | count + 1, n => lastDigits count (n / 10) ++ [Nat.digitChar (n % 10)]

/-- `x` in decimal, with `places` digits behind the point. -/
def fixedText (places : ℕ) (x : ℚ) : List Char :=
  let n := roundHalfEven (|x| * 10 ^ places)
  (if x < 0 then ['-'] else []) ++
    (Nat.toDigits 10 (n / 10 ^ places) ++ '.' :: lastDigits places n)

example : fixedText 2 (-49 / 8) = ['-', '6', '.', '1', '2'] := by decide +kernel

variable {x : ℚ}

/-- Rounding stays below an even number exactly up to half a unit below it. -/
theorem roundHalfEven_lt_iff (hx : 0 ≤ x) {n : ℕ} (heven : n % 2 = 0) :
    roundHalfEven x < n ↔ x < n - 1 / 2 := by
  have hlow := Nat.floor_le hx
  have hhigh := Nat.lt_floor_add_one x
  unfold roundHalfEven
  simp only
  rcases Nat.lt_trichotomy (⌊x⌋₊ + 1) n with hlt | heq | hgt
  · -- below the last unit
    have hcast : (⌊x⌋₊ : ℚ) + 1 + 1 ≤ n := by exact_mod_cast hlt
    refine iff_of_true ?_ (by linarith)
    split <;> omega
  · -- in the last unit the tie goes up, since its lower end is odd
    have hcast : (⌊x⌋₊ : ℚ) + 1 = n := by exact_mod_cast heq
    by_cases hhalf : x - ⌊x⌋₊ < 1 / 2
    · rw [if_pos (.inl hhalf)]
      exact iff_of_true (by omega) (by linarith)
    · have hodd : ¬ (x - ⌊x⌋₊ < 1 / 2 ∨ x - ⌊x⌋₊ = 1 / 2 ∧ ⌊x⌋₊ % 2 = 0) := by
        intro hcase
        cases hcase with
        | inl h => exact hhalf h
        | inr h => omega
      rw [if_neg hodd]
      exact iff_of_false (by omega) (by linarith)
  · have hcast : (n : ℚ) ≤ ⌊x⌋₊ := by exact_mod_cast Nat.le_of_lt_succ hgt
    refine iff_of_false ?_ (by linarith)
    split <;> omega

theorem length_lastDigits (count n : ℕ) : (lastDigits count n).length = count := by
  induction count generalizing n with
  | zero => rfl
  | succ count ih => rw [lastDigits, List.length_append, ih, List.length_singleton]

/-- The text has at most `k` digits before the point exactly when the magnitude rounds to
less than `10 ^ k`. -/
theorem length_fixedText_le_iff (places : ℕ) (x : ℚ) {k : ℕ} (hk : 0 < k) :
    (fixedText places x).length ≤ (if x < 0 then 1 else 0) + k + 1 + places ↔
      |x| * 10 ^ places < 10 ^ (k + places) - 1 / 2 := by
  have hmag : 0 ≤ |x| * 10 ^ places := by positivity
  have heven : 10 ^ (k + places) % 2 = 0 := by
    rw [Nat.pow_mod, show 10 % 2 = 0 from rfl, Nat.zero_pow (by omega)]
  have hround := roundHalfEven_lt_iff hmag heven
  push_cast at hround
  have hsign : (if x < 0 then ['-'] else []).length = if x < 0 then 1 else 0 := by
    split <;> rfl
  rw [← hround, Nat.pow_add, ← Nat.div_lt_iff_lt_mul (Nat.pow_pos (by decide)),
    ← Nat.length_toDigits_le_iff (by decide) hk]
  simp only [fixedText, List.length_append, List.length_cons, length_lastDigits, hsign]
  omega

end RealTime.FixedPoint
