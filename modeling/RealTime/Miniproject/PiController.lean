import Mathlib.Algebra.Order.Floor.Semiring
import Mathlib.Data.Rat.Floor
import RealTime.Library.While
import RealTime.Miniproject.Timespec

/-! # The control loop of `PIController`

What a round of the loop gets from outside are the measurement it waits for and the
clock when it goes to sleep. The arithmetic on doubles is taken to be exact. -/

namespace RealTime.Miniproject

open While

def K_P : ℚ := 10

def K_I : ℚ := 800

def PERIOD_US : ℤ := 2000

def PERIOD_S : ℚ := 1 / 500

def SIMULATION_TIME : ℤ := 500000

def REFERENCE : ℚ := 1

structure Round where
  feedback : ℚ
  clock : ClockReading

/-- The locals of `PIController`, the values `u` it has sent in `SET` commands and the
timespecs it has handed to `nanosleep`. -/
structure Controller where
  error : ℚ
  integral : ℚ
  u : ℚ
  now : Timespec
  endSimulation : Timespec
  sent : List ℚ
  sleeps : List Timespec

/-- The controller before its loop, for the two clock readings it takes. -/
def piInit (t0 t1 : ClockReading) : Controller where
  error := 0
  integral := 0
  u := 0
  now := t0.toTimespec
  endSimulation := timespecAddUs t1.toTimespec SIMULATION_TIME
  sent := []
  sleeps := []

def piCond (s : Controller) : Bool := timercmpGt s.endSimulation s.now

def piBody (round : Round) (s : Controller) : Controller :=
  let error := REFERENCE - round.feedback
  let integral := s.integral + error * PERIOD_S
  let u := K_P * error + K_I * integral
  let now := timespecAddUs s.now PERIOD_US
  { s with
    error := error
    integral := integral
    u := u
    sent := s.sent ++ [u]
    now := now
    sleeps := s.sleeps ++ [clockNanosleep now round.clock.toTimespec] }

/-- The loop, with the number of its rounds. -/
def piLoop (rounds : ℕ → Round) (fuel : ℕ) (s : Controller) : Option (ℕ × Controller) :=
  whileLoop piCond (fun k => piBody (rounds k)) fuel 0 s

def piAfter (rounds : ℕ → Round) (s : Controller) (k : ℕ) : Controller :=
  after (fun k => piBody (rounds k)) s k

/-! ## Time in the loop -/

variable {t0 t1 : ClockReading} {rounds : ℕ → Round} {k : ℕ}

/-- The number of rounds from the first of two clock readings to the end of the simulation. -/
def roundsUntil (t0 t1 : ClockReading) : ℕ :=
  ⌈((t1.toNs + SIMULATION_TIME * 1000 - t0.toNs : ℤ) : ℚ) / (PERIOD_US * 1000 : ℤ)⌉₊

theorem lt_roundsUntil : k < roundsUntil t0 t1 ↔
    t0.toNs + k * 2000000 < t1.toNs + 500000000 := by
  have hperiod : (0 : ℚ) < (PERIOD_US * 1000 : ℤ) := by norm_num [PERIOD_US]
  rw [roundsUntil, Nat.lt_ceil, lt_div_iff₀ hperiod]
  norm_cast
  rw [PERIOD_US, SIMULATION_TIME]
  omega

theorem endSimulation_piAfter :
    (piAfter rounds (piInit t0 t1) k).endSimulation =
      timespecAddUs t1.toTimespec SIMULATION_TIME := by
  induction k with
  | zero => rfl
  | succ k ih => exact ih

theorem now_piAfter_succ (s : Controller) :
    (piAfter rounds s (k + 1)).now = timespecAddUs (piAfter rounds s k).now PERIOD_US := rfl

theorem now_piAfter_nsec :
    0 ≤ (piAfter rounds (piInit t0 t1) k).now.tvNsec ∧
      (piAfter rounds (piInit t0 t1) k).now.tvNsec ≤ 1000000000 := by
  induction k with
  | zero => exact ⟨t0.nsec_nonneg, t0.nsec_lt.le⟩
  | succ k ih =>
      rw [now_piAfter_succ]
      obtain ⟨hpos, hle⟩ := timespecAddUs_nsec ih.1 ih.2 (by decide : 0 < PERIOD_US) (by decide)
      exact ⟨hpos.le, hle⟩

theorem toNs_now_piAfter :
    (piAfter rounds (piInit t0 t1) k).now.toNs = t0.toNs + k * 2000000 := by
  induction k with
  | zero => simp [piAfter, after, piInit]
  | succ k ih =>
      rw [now_piAfter_succ, toNs_timespecAddUs, ih, PERIOD_US]
      push_cast
      ring

theorem sleeps_piAfter (s : Controller) :
    (piAfter rounds s k).sleeps = s.sleeps ++ (List.range k).map fun i =>
      clockNanosleep (piAfter rounds s (i + 1)).now (rounds i).clock.toTimespec := by
  induction k with
  | zero => simp [piAfter, after]
  | succ k ih =>
      rw [List.range_succ, List.map_append, ← List.append_assoc, ← ih]
      rfl

theorem toNs_endSimulation_piAfter :
    (piAfter rounds (piInit t0 t1) k).endSimulation.toNs = t1.toNs + 500000000 := by
  rw [endSimulation_piAfter, toNs_timespecAddUs]
  rfl

/-- The test of the loop compares instants. -/
theorem piCond_piAfter :
    piCond (piAfter rounds (piInit t0 t1) k) = true ↔
      (piAfter rounds (piInit t0 t1) k).now.toNs <
        (piAfter rounds (piInit t0 t1) k).endSimulation.toNs := by
  have hend := timespecAddUs_nsec t1.nsec_nonneg t1.nsec_lt.le
    (by decide : 0 < SIMULATION_TIME) (by decide)
  have hsame : (piAfter rounds (piInit t0 t1) k).endSimulation =
      timespecAddUs t1.toTimespec SIMULATION_TIME := endSimulation_piAfter
  rw [← hsame] at hend
  exact timercmpGt_iff hend.1 hend.2 now_piAfter_nsec.1 now_piAfter_nsec.2

theorem piCond_piAfter_iff_lt :
    piCond (piAfter rounds (piInit t0 t1) k) = true ↔ k < roundsUntil t0 t1 := by
  rw [piCond_piAfter, toNs_now_piAfter, toNs_endSimulation_piAfter, lt_roundsUntil]

theorem piLoop_eq (rounds : ℕ → Round) (t0 t1 : ClockReading) (fuel : ℕ) :
    piLoop rounds fuel (piInit t0 t1) =
      if roundsUntil t0 t1 < fuel then
        some (roundsUntil t0 t1, piAfter rounds (piInit t0 t1) (roundsUntil t0 t1))
      else none := by
  refine whileLoop_eq (fun k hk => piCond_piAfter_iff_lt.mpr hk) ?_ fuel
  rw [← Bool.not_eq_true]
  exact fun hcond => absurd (piCond_piAfter_iff_lt.mp hcond) (Nat.lt_irrefl _)

/-- The time that is left of a period is slept in full, and no time is slept after it. -/
theorem sleep_piAfter (c : ClockReading)
    (hc : (piAfter rounds (piInit t0 t1) k).now.toNs ≤ c.toNs) :
    (c.toNs < (piAfter rounds (piInit t0 t1) (k + 1)).now.toNs →
      (clockNanosleep (piAfter rounds (piInit t0 t1) (k + 1)).now c.toTimespec).Valid) ∧
    (clockNanosleep (piAfter rounds (piInit t0 t1) (k + 1)).now c.toTimespec).toNs =
      (piAfter rounds (piInit t0 t1) (k + 1)).now.toNs - c.toNs := by
  refine ⟨fun hlt => ?_, toNs_clockNanosleep _ _⟩
  refine valid_clockNanosleep now_piAfter_nsec.1 now_piAfter_nsec.2 c hlt ?_
  rw [toNs_now_piAfter] at hc ⊢
  push_cast
  omega

/-- The pacing of the controller is exact from every start. The loop ends after the
rounds that fit before the end of the simulation, its times are those of the periods, its
test compares instants, and each round sleeps exactly for what is left of its period. -/
theorem piController_paced (t0 t1 : ClockReading) (rounds : ℕ → Round) :
    (∀ fuel, piLoop rounds fuel (piInit t0 t1) =
      if roundsUntil t0 t1 < fuel then
        some (roundsUntil t0 t1, piAfter rounds (piInit t0 t1) (roundsUntil t0 t1))
      else none) ∧
    (∀ k, (piAfter rounds (piInit t0 t1) k).now.toNs = t0.toNs + k * 2000000) ∧
    (∀ k, (piAfter rounds (piInit t0 t1) k).endSimulation.toNs = t1.toNs + 500000000) ∧
    (∀ k, timercmpGt (piAfter rounds (piInit t0 t1) k).endSimulation
        (piAfter rounds (piInit t0 t1) k).now = true ↔
      (piAfter rounds (piInit t0 t1) k).now.toNs <
        (piAfter rounds (piInit t0 t1) k).endSimulation.toNs) ∧
    (∀ k, (piAfter rounds (piInit t0 t1) k).sleeps = (List.range k).map fun i =>
      clockNanosleep (piAfter rounds (piInit t0 t1) (i + 1)).now
        (rounds i).clock.toTimespec) ∧
    (∀ k (c : ClockReading), (piAfter rounds (piInit t0 t1) k).now.toNs ≤ c.toNs →
      (c.toNs < (piAfter rounds (piInit t0 t1) (k + 1)).now.toNs →
        (clockNanosleep (piAfter rounds (piInit t0 t1) (k + 1)).now c.toTimespec).Valid ∧
        (clockNanosleep (piAfter rounds (piInit t0 t1) (k + 1)).now c.toTimespec).toNs =
          (piAfter rounds (piInit t0 t1) (k + 1)).now.toNs - c.toNs) ∧
      ((piAfter rounds (piInit t0 t1) (k + 1)).now.toNs ≤ c.toNs →
        (clockNanosleep (piAfter rounds (piInit t0 t1) (k + 1)).now c.toTimespec).toNs ≤ 0)) := by
  refine ⟨piLoop_eq rounds t0 t1, fun k => toNs_now_piAfter,
    fun k => toNs_endSimulation_piAfter, fun k => piCond_piAfter, fun k => ?_, ?_⟩
  · simpa [piInit] using sleeps_piAfter (piInit t0 t1)
  · intro k c hc
    obtain ⟨hvalid, hexact⟩ := sleep_piAfter c hc
    refine ⟨fun hlt => ⟨hvalid hlt, hexact⟩, fun hle => ?_⟩
    rw [hexact]
    omega

end RealTime.Miniproject
