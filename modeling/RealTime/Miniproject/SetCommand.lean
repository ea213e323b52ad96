import Mathlib.Algebra.BigOperators.Group.Finset.Basic
import RealTime.Library.FixedPoint
import RealTime.Miniproject.Feedback
import RealTime.Miniproject.PiController

/-! # The text of a `SET` command

`PIController` prints its output into a buffer of 255 bytes. Nothing limits the output, and
so its digits, on the way from the feedback to the buffer. -/

namespace RealTime.Miniproject

open FixedPoint While

/-- What `sprintf(dataBuffer,"SET:%f",u)` writes before the NUL. -/
def setCommand (u : ℚ) : List UInt8 := ascii (['S', 'E', 'T', ':'] ++ fixedText 6 u)

def sprintfSet (dataBuffer : Buffer UDP_RECV_BUF_LEN) (u : ℚ) :
    Option (Buffer UDP_RECV_BUF_LEN) :=
  dataBuffer.copy (setCommand u ++ [0])

/-- `dataBuffer` after `k` rounds of the loop, if no text has left it. -/
def dataBufferAfter (rounds : ℕ → Round) (s : Controller) : ℕ → Option (Buffer UDP_RECV_BUF_LEN)
  | 0 => some (Buffer.zero UDP_RECV_BUF_LEN)
  | k + 1 => do
    let dataBuffer ← dataBufferAfter rounds s k
    sprintfSet dataBuffer (piAfter rounds s (k + 1)).u

/-- The text and its NUL fit. -/
def CommandFits (u : ℚ) : Prop := (setCommand u ++ [0]).length ≤ UDP_RECV_BUF_LEN

/-- The outputs that can be printed: 243 digits before the point, or 242 and the sign. -/
def Printable (u : ℚ) : Prop := -10 ^ 242 + 1 / (2 * 10 ^ 6) < u ∧ u < 10 ^ 243 - 1 / (2 * 10 ^ 6)

/-- The output in round `k`, from the feedback of this and the earlier rounds. -/
def output (feedback : ℕ → ℚ) (k : ℕ) : ℚ :=
  10 * (1 - feedback k) + 8 / 5 * ∑ i ∈ Finset.range (k + 1), (1 - feedback i)

/-! ## One command -/

theorem commandFits_iff_length (u : ℚ) : CommandFits u ↔ (fixedText 6 u).length ≤ 250 := by
  simp only [CommandFits, setCommand, ascii, UDP_RECV_BUF_LEN, List.length_append,
    List.length_map, List.length_cons, List.length_nil]
  omega

/-- A command fits exactly when its output is printable. -/
theorem commandFits_iff (u : ℚ) : CommandFits u ↔ Printable u := by
  rw [commandFits_iff_length, Printable]
  by_cases hneg : u < 0
  · have hiff := length_fixedText_le_iff 6 u (show 0 < 242 by decide)
    rw [if_pos hneg, abs_of_neg hneg] at hiff
    refine hiff.trans ?_
    constructor
    · intro hlt
      constructor <;> linarith
    · intro hbounds
      linarith [hbounds.1]
  · have hiff := length_fixedText_le_iff 6 u (show 0 < 243 by decide)
    rw [if_neg hneg, abs_of_nonneg (not_lt.mp hneg)] at hiff
    refine hiff.trans ?_
    constructor
    · intro hlt
      constructor <;> linarith
    · intro hbounds
      linarith [hbounds.2]

theorem sprintfSet_isSome (dataBuffer : Buffer UDP_RECV_BUF_LEN) (u : ℚ) :
    (sprintfSet dataBuffer u).isSome ↔ CommandFits u := by
  unfold sprintfSet Buffer.copy
  split
  · rename_i hfits
    exact iff_of_true rfl hfits
  · rename_i hlong
    exact iff_of_false Bool.false_ne_true hlong

/-! ## All rounds -/

section
variable {t0 t1 : ClockReading} {rounds : ℕ → Round}

/-- The integral is that of all feedback so far; nothing takes it back. -/
theorem integral_piAfter (k : ℕ) :
    (piAfter rounds (piInit t0 t1) k).integral =
      (∑ i ∈ Finset.range k, (1 - (rounds i).feedback)) * PERIOD_S := by
  induction k with
  | zero => simp [piAfter, after, piInit]
  | succ k ih =>
      have hbody : (piAfter rounds (piInit t0 t1) (k + 1)).integral =
          (piAfter rounds (piInit t0 t1) k).integral +
            (REFERENCE - (rounds k).feedback) * PERIOD_S := rfl
      rw [hbody, ih, Finset.sum_range_succ, add_mul, REFERENCE]

theorem u_piAfter_succ (k : ℕ) :
    (piAfter rounds (piInit t0 t1) (k + 1)).u = output (fun i => (rounds i).feedback) k := by
  have hbody : (piAfter rounds (piInit t0 t1) (k + 1)).u =
      K_P * (REFERENCE - (rounds k).feedback) +
        K_I * (piAfter rounds (piInit t0 t1) (k + 1)).integral := rfl
  rw [hbody, integral_piAfter, output, K_P, K_I, REFERENCE, PERIOD_S]
  ring

/-- The loop runs without writing behind `dataBuffer` as long as all commands fit. -/
theorem dataBufferAfter_isSome (s : Controller) (n : ℕ) :
    (dataBufferAfter rounds s n).isSome ↔ ∀ k < n, CommandFits (piAfter rounds s (k + 1)).u := by
  induction n with
  | zero => simp [dataBufferAfter]
  | succ n ih =>
      rw [Nat.forall_lt_succ_right, ← ih, dataBufferAfter]
      cases hbuffer : dataBufferAfter rounds s n with
      | none => simp
      | some dataBuffer => simpa using sprintfSet_isSome dataBuffer _

end

/-- In every round of the loop, for every start and every sequence of feedback, the command
with its NUL fits the buffer exactly when all outputs lie between the bounds. -/
theorem commands_fit_iff (t0 t1 : ClockReading) (rounds : ℕ → Round) :
    (∀ k < roundsUntil t0 t1, CommandFits (piAfter rounds (piInit t0 t1) (k + 1)).u) ↔
      ∀ k < roundsUntil t0 t1, Printable (output (fun i => (rounds i).feedback) k) := by
  refine forall₂_congr fun k _ => ?_
  rw [commandFits_iff, u_piAfter_succ]

/-- Both clock readings before the loop. -/
def clockZero : ClockReading := ⟨⟨0, 0⟩, by decide, by decide⟩

def hugeFeedback (_ : ℕ) : Round := ⟨10 ^ 300, clockZero⟩

/-- A feedback of `10^300` needs more digits in the first round than there is room. -/
theorem first_command_overflows :
    (∀ k, |(hugeFeedback k).feedback| ≤ 10 ^ 308) ∧ 0 < roundsUntil clockZero clockZero ∧
      ¬ CommandFits (piAfter hugeFeedback (piInit clockZero clockZero) (0 + 1)).u ∧
      dataBufferAfter hugeFeedback (piInit clockZero clockZero)
        (roundsUntil clockZero clockZero) = none := by
  have hpos : 0 < roundsUntil clockZero clockZero := lt_roundsUntil.mpr (by decide)
  have hover : ¬ CommandFits (piAfter hugeFeedback (piInit clockZero clockZero) (0 + 1)).u := by
    rw [commandFits_iff, u_piAfter_succ, output, Finset.sum_range_one]
    intro hbounds
    have hlow : -10 ^ 242 + 1 / (2 * 10 ^ 6) <
        (10 : ℚ) * (1 - 10 ^ 300) + 8 / 5 * (1 - 10 ^ 300) := hbounds.1
    have hhuge : (10 : ℚ) ^ 243 ≤ 10 ^ 300 := pow_le_pow_right₀ (by norm_num) (by decide)
    -- as a numeral the feedback would be too large to compute with
    generalize (10 : ℚ) ^ 300 = g at hlow hhuge
    linarith
  refine ⟨fun k => ?_, hpos, hover, ?_⟩
  · have habs : |(hugeFeedback k).feedback| = 10 ^ 300 :=
      abs_of_nonneg (pow_nonneg (by norm_num) 300)
    rw [habs]
    exact pow_le_pow_right₀ (by norm_num) (by decide)
  · rw [← Option.not_isSome_iff_eq_none, dataBufferAfter_isSome]
    exact fun hall => hover (hall 0 hpos)

end RealTime.Miniproject
