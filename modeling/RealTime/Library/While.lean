import Mathlib.Data.Nat.Notation

/-! # While loops whose rounds depend on their number

`after body s k` is the state after `k` rounds. `whileLoop` runs a loop for as long as
its fuel lasts and returns the number of rounds with the state at the exit. -/

namespace RealTime.While

variable {σ : Type*} {cond : σ → Bool} {body : ℕ → σ → σ}

def after (body : ℕ → σ → σ) (s : σ) : ℕ → σ
  | 0 => s
  | k + 1 => body k (after body s k)

/-- The loop from round `k` on. -/
def whileLoop (cond : σ → Bool) (body : ℕ → σ → σ) : ℕ → ℕ → σ → Option (ℕ × σ)
  | 0, _, _ => none
  | fuel + 1, k, s =>
    if cond s then whileLoop cond body fuel (k + 1) (body k s) else some (k, s)

theorem whileLoop_after {s : σ} {n : ℕ} (hrun : ∀ k < n, cond (after body s k) = true)
    (hexit : cond (after body s n) = false) (j k : ℕ) (hk : k + j = n) (fuel : ℕ) :
    whileLoop cond body fuel k (after body s k) =
      if j < fuel then some (n, after body s n) else none := by
  induction fuel generalizing j k with
  | zero => simp [whileLoop]
  | succ fuel ih =>
      cases j with
      | zero =>
          obtain rfl : k = n := hk
          simp [whileLoop, hexit]
      | succ j =>
          have hcond := hrun k (by omega)
          have hrest := ih j (k + 1) (by omega)
          rw [whileLoop, if_pos hcond, show body k (after body s k) = after body s (k + 1) from rfl,
            hrest]
          simp

/-- A loop whose condition holds for `n` rounds and then fails ends after `n` rounds, as
soon as there is fuel for these and the last test. -/
theorem whileLoop_eq {s : σ} {n : ℕ} (hrun : ∀ k < n, cond (after body s k) = true)
    (hexit : cond (after body s n) = false) (fuel : ℕ) :
    whileLoop cond body fuel 0 s = if n < fuel then some (n, after body s n) else none :=
  whileLoop_after hrun hexit n 0 (Nat.zero_add n) fuel

end RealTime.While
