import Mathlib.Algebra.Group.Nat.Defs
import Mathlib.Order.Basic

/-! # Counts that wrap

A time is a natural number, and a counter of `w` bits shows it modulo `2 ^ w`. What a comparison
of counters says depends on the turns of the counter in which the times are. -/

namespace RealTime.Wraparound

variable {w m n : ℕ}

/-- How often the counter has wrapped. -/
def turn (w n : ℕ) : ℕ := n / 2 ^ w

/-- What the counter shows. -/
abbrev shown (w n : ℕ) : BitVec w := BitVec.ofNat w n

theorem split (w n : ℕ) : n = 2 ^ w * turn w n + (shown w n).toNat := by
  rw [BitVec.toNat_ofNat]
  exact (Nat.div_add_mod n (2 ^ w)).symm

theorem turn_le_turn (h : m ≤ n) : turn w m ≤ turn w n := Nat.div_le_div_right h

theorem lt_of_turn_lt (h : turn w m < turn w n) : m < n :=
  Nat.lt_of_not_le fun hle => Nat.not_le.mpr h (turn_le_turn hle)

theorem shown_le_shown (h : turn w m = turn w n) : shown w m ≤ shown w n ↔ m ≤ n := by
  have hm := split w m
  have hn := split w n
  rw [h] at hm
  rw [BitVec.le_def]
  omega

theorem shown_lt_shown (h : turn w m = turn w n) : shown w m < shown w n ↔ m < n := by
  have hm := split w m
  have hn := split w n
  rw [h] at hm
  rw [BitVec.lt_def]
  omega

/-- Less than a turn later, the counter is in the same turn or in the next one. -/
theorem turn_cases (hmn : m ≤ n) (hn : n < m + 2 ^ w) :
    turn w n = turn w m ∨ turn w n = turn w m + 1 := by
  have hle := turn_le_turn (w := w) hmn
  have hlt : turn w n ≤ turn w m + 1 := by
    rw [turn, turn, ← Nat.add_div_right m (Nat.two_pow_pos w)]
    exact Nat.div_le_div_right (Nat.le_of_lt hn)
  omega

/-- In the next turn the counter shows less than it did less than a turn ago. -/
theorem shown_lt_of_turn (h : turn w n = turn w m + 1) (hn : n < m + 2 ^ w) :
    shown w n < shown w m := by
  have hm' := split w m
  have hn' := split w n
  rw [h, Nat.mul_add] at hn'
  rw [BitVec.lt_def]
  omega

/-- Less than a turn later, the counter shows less exactly when it has wrapped. -/
theorem shown_lt_iff (hmn : m ≤ n) (hn : n < m + 2 ^ w) :
    shown w n < shown w m ↔ turn w n = turn w m + 1 := by
  constructor
  · intro hlt
    refine (turn_cases hmn hn).resolve_left fun hsame => ?_
    exact absurd hmn (Nat.not_le.mpr ((shown_lt_shown hsame).mp hlt))
  · exact fun h => shown_lt_of_turn h hn

/-- The counter starts a new turn when it shows 0. -/
theorem turn_succ (w n : ℕ) :
    turn w (n + 1) = if shown w (n + 1) = 0 then turn w n + 1 else turn w n := by
  have hzero : shown w (n + 1) = 0 ↔ 2 ^ w ∣ n + 1 := by
    rw [← BitVec.toNat_inj, BitVec.toNat_ofNat, Nat.dvd_iff_mod_eq_zero]
    simp
  rw [turn, turn, Nat.succ_div]
  split <;> simp_all

/-- Whether a time `m + d` is still to come is told from the counters at `m`, at the present
time `n` and at `m + d`, if less than a turn has passed since `m`. -/
theorem still_to_come {d : ℕ} (hmn : m ≤ n) (hn : n < m + 2 ^ w) (hd : d < 2 ^ w) :
    (if shown w n < shown w m then
      shown w (m + d) < shown w m ∧ shown w (m + d) > shown w n
    else shown w (m + d) < shown w m ∨ shown w (m + d) > shown w n) ↔ n < m + d := by
  have hm' := split w m
  have hn' := split w n
  have hd' := split w (m + d)
  have hturn : 2 ^ w * (turn w m + 1) = 2 ^ w * turn w m + 2 ^ w := Nat.mul_succ _ _
  have hbound (k) := (shown w k).isLt
  have hm := hbound m
  simp only [BitVec.lt_def, gt_iff_lt]
  rcases turn_cases hmn hn with hlate | hlate <;>
    rcases turn_cases (Nat.le_add_right m d) (Nat.add_lt_add_left hd m) with hwake | hwake <;>
    rw [hlate] at hn' <;> rw [hwake] at hd' <;> split <;> omega

end RealTime.Wraparound
