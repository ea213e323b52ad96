import Mathlib.Data.Nat.ModEq

/-! # Cyclic positions

Positions `0, 1, …, n - 1` arranged in a ring, and the positions reached from one of them
by steps to the next. -/

namespace RealTime.Cyclic

variable {n : ℕ}

/-- The position `k` steps after `h`. -/
def pos (h : Fin n) (k : ℕ) : Fin n := ⟨(h.val + k) % n, Nat.mod_lt _ h.pos⟩

/-- The position after `h`; the last one is followed by 0. -/
def next (h : Fin n) : Fin n := pos h 1

@[simp] theorem pos_zero (h : Fin n) : pos h 0 = h := by
  apply Fin.ext
  simp [pos, Nat.mod_eq_of_lt h.isLt]

theorem pos_pos (h : Fin n) (j k : ℕ) : pos (pos h j) k = pos h (j + k) := by
  apply Fin.ext
  simp [pos, Nat.add_assoc]

@[simp] theorem pos_next (h : Fin n) (k : ℕ) : pos (next h) k = pos h (k + 1) := by
  rw [next, pos_pos, Nat.add_comm]

theorem next_pos (h : Fin n) (k : ℕ) : next (pos h k) = pos h (k + 1) := by
  rw [next, pos_pos]

@[simp] theorem pos_self (h : Fin n) : pos h n = h := by
  apply Fin.ext
  simp [pos, Nat.mod_eq_of_lt h.isLt]

theorem pos_inj {h : Fin n} {j k : ℕ} (hj : j < n) (hk : k < n) (he : pos h j = pos h k) :
    j = k := by
  have hmod : h.val + j ≡ h.val + k [MOD n] := congrArg Fin.val he
  exact (Nat.ModEq.add_left_cancel' h.val hmod).eq_of_lt_of_lt hj hk

theorem exists_pos (h i : Fin n) : ∃ k < n, pos h k = i := by
  have hh := h.isLt
  have hi := i.isLt
  by_cases hle : h.val ≤ i.val
  · refine ⟨i.val - h.val, by omega, Fin.ext ?_⟩
    simp only [pos]
    rw [Nat.add_sub_cancel' hle, Nat.mod_eq_of_lt hi]
  · refine ⟨n - h.val + i.val, by omega, Fin.ext ?_⟩
    simp only [pos]
    rw [show h.val + (n - h.val + i.val) = i.val + n by omega, Nat.add_mod_right,
      Nat.mod_eq_of_lt hi]

/-- The successor written with a comparison against the last position. -/
theorem next_val (h : Fin n) : (next h).val = if h.val + 1 = n then 0 else h.val + 1 := by
  have hh := h.isLt
  simp only [next, pos]
  split
  · rename_i heq
    rw [heq, Nat.mod_self]
  · rw [Nat.mod_eq_of_lt (by omega)]

theorem next_ne (h : Fin n) (hn : 2 ≤ n) : next h ≠ h := by
  intro he
  have hv := next_val h
  rw [he] at hv
  split at hv <;> omega

/-- What holds somewhere and is passed on to the next position holds all around. -/
theorem all_of_next {P : Fin n → Prop} {h : Fin n} (hh : P h)
    (hnext : ∀ i, P i → P (next i)) (i : Fin n) : P i := by
  have hpos : ∀ k, P (pos h k) := by
    intro k
    induction k with
    | zero => simpa using hh
    | succ k ih => exact next_pos h k ▸ hnext _ ih
  obtain ⟨k, -, rfl⟩ := exists_pos h i
  exact hpos k

end RealTime.Cyclic
