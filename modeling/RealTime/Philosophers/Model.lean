import Mathlib.Data.Int.Notation
import Mathlib.Logic.Function.Basic
import RealTime.Library.Transition

/-! # The dining philosophers of `philo.c`

`N` is `PHILOS`. A schedule is the list of the philosophers that take a step. `sleep`,
`usleep` and `printf` only let time pass, so they are not steps of their own. -/

namespace RealTime.Philosophers

open Transition

inductive Mutex (N : ℕ) where
  | foodLock
  | chopstick (c : Fin N)
deriving DecidableEq

/-- Where a philosopher stands. Its portion is the local variable `f`. -/
inductive Pc where
  | lockFood
  | takeFood
  | unlockFood (f : ℤ)
  | grabRight (f : ℤ)
  | grabLeft (f : ℤ)
  | eating (f : ℤ)
  | downFirst (f : ℤ)
  | downSecond (f : ℤ)
  | done
deriving DecidableEq, Repr

/-- `eaten` logs who reached the eating step with which portion. -/
structure State (N : ℕ) where
  pc : Fin N → Pc
  owner : Mutex N → Option (Fin N)
  food : ℤ
  eaten : List (Fin N × ℤ)

variable {N : ℕ}

/-- All threads have been created and all mutexes initialised. -/
def init (FOOD : ℤ) : State N where
  pc _ := .lockFood
  owner _ := none
  food := FOOD
  eaten := []

def rightChopstick (id : Fin N) : Fin N := id

/-- `id + 1`, wrapped around at `PHILOS`. -/
def leftChopstick (id : Fin N) : Fin N :=
  if h : id.val + 1 = N then ⟨0, by omega⟩ else ⟨id.val + 1, by omega⟩

/-! ## Steps -/

def State.goto (s : State N) (id : Fin N) (pc : Pc) : State N :=
  { s with pc := Function.update s.pc id pc }

def State.acquire (s : State N) (id : Fin N) (m : Mutex N) : State N :=
  { s with owner := Function.update s.owner m (some id) }

/-- `pthread_mutex_lock`: not enabled while somebody owns the mutex. -/
def State.lock (s : State N) (id : Fin N) (m : Mutex N) : Option (State N) :=
  if s.owner m = none then some (s.acquire id m) else none

/-- `pthread_mutex_unlock`. -/
def State.unlock (s : State N) (m : Mutex N) : State N :=
  { s with owner := Function.update s.owner m none }

/-- The counter after `food_on_table`, which is also the value it returns. -/
def foodOnTable (food : ℤ) : ℤ := if food > 0 then food - 1 else food

def State.take (s : State N) : State N := { s with food := foodOnTable s.food }

def State.eat (s : State N) (id : Fin N) (f : ℤ) : State N :=
  { s with eaten := s.eaten ++ [(id, f)] }

/-- Where `food_on_table` returns to: the loop runs while the portion is not 0. -/
def afterFood (f : ℤ) : Pc := if f ≠ 0 then .grabRight f else .done

/-- The next step of philosopher `id`, if it is enabled. -/
def step (s : State N) (id : Fin N) : Option (State N) :=
  match s.pc id with
  | .lockFood => (s.lock id .foodLock).map (·.goto id .takeFood)
  | .takeFood => some (s.take.goto id (.unlockFood (foodOnTable s.food)))
  | .unlockFood f => some ((s.unlock .foodLock).goto id (afterFood f))
  | .grabRight f =>
    (s.lock id (.chopstick (rightChopstick id))).map (·.goto id (.grabLeft f))
  | .grabLeft f =>
    (s.lock id (.chopstick (leftChopstick id))).map fun t => (t.eat id f).goto id (.eating f)
  | .eating f => some (s.goto id (.downFirst f))
  | .downFirst f =>
    some ((s.unlock (.chopstick (leftChopstick id))).goto id (.downSecond f))
  | .downSecond _ =>
    some ((s.unlock (.chopstick (rightChopstick id))).goto id .lockFood)
  | .done => none

def Step (s : State N) (id : Fin N) (t : State N) : Prop := step s id = some t

/-- `s` is reached by some interleaving of the philosophers' steps. -/
def Reachable (FOOD : ℤ) (s : State N) : Prop :=
  ∃ schedule, Runs Step (init FOOD) schedule s

def Finished (s : State N) : Prop := ∀ id, s.pc id = .done

def Enabled (s : State N) (id : Fin N) : Prop := (step s id).isSome

instance (s : State N) (id : Fin N) : Decidable (Enabled s id) :=
  inferInstanceAs (Decidable ((step s id).isSome = true))

/-! ## Steps as rules -/

/-- One rule for each statement of the loop. -/
inductive Move (s : State N) (id : Fin N) : State N → Prop where
  | lockFood (hpc : s.pc id = .lockFood) (hfree : s.owner .foodLock = none) :
      Move s id ((s.acquire id .foodLock).goto id .takeFood)
  | takeFood (hpc : s.pc id = .takeFood) :
      Move s id (s.take.goto id (.unlockFood (foodOnTable s.food)))
  | unlockFood {f} (hpc : s.pc id = .unlockFood f) :
      Move s id ((s.unlock .foodLock).goto id (afterFood f))
  | grabRight {f} (hpc : s.pc id = .grabRight f)
      (hfree : s.owner (.chopstick (rightChopstick id)) = none) :
      Move s id ((s.acquire id (.chopstick (rightChopstick id))).goto id (.grabLeft f))
  | grabLeft {f} (hpc : s.pc id = .grabLeft f)
      (hfree : s.owner (.chopstick (leftChopstick id)) = none) :
      Move s id (((s.acquire id (.chopstick (leftChopstick id))).eat id f).goto id (.eating f))
  | eating {f} (hpc : s.pc id = .eating f) : Move s id (s.goto id (.downFirst f))
  | downFirst {f} (hpc : s.pc id = .downFirst f) :
      Move s id ((s.unlock (.chopstick (leftChopstick id))).goto id (.downSecond f))
  | downSecond {f} (hpc : s.pc id = .downSecond f) :
      Move s id ((s.unlock (.chopstick (rightChopstick id))).goto id .lockFood)

theorem Move.step {s t : State N} {id : Fin N} (h : Move s id t) : Step s id t := by
  cases h with
  | lockFood hpc hfree => simp [Step, Philosophers.step, hpc, State.lock, hfree]
  | takeFood hpc => simp [Step, Philosophers.step, hpc]
  | unlockFood hpc => simp [Step, Philosophers.step, hpc]
  | grabRight hpc hfree => simp [Step, Philosophers.step, hpc, State.lock, hfree]
  | grabLeft hpc hfree => simp [Step, Philosophers.step, hpc, State.lock, hfree]
  | eating hpc => simp [Step, Philosophers.step, hpc]
  | downFirst hpc => simp [Step, Philosophers.step, hpc]
  | downSecond hpc => simp [Step, Philosophers.step, hpc]

theorem Step.move {s t : State N} {id : Fin N} (h : Step s id t) : Move s id t := by
  have hlock : ∀ {m : Mutex N} {g : State N → State N},
      (s.lock id m).map g = some t → s.owner m = none ∧ t = g (s.acquire id m) := by
    intro m g hg
    by_cases hfree : s.owner m = none
    · exact ⟨hfree, by simpa [State.lock, hfree, eq_comm] using hg⟩
    · simp [State.lock, hfree] at hg
  cases hpc : s.pc id with
  | lockFood =>
      obtain ⟨hfree, rfl⟩ := hlock (by simpa [Step, step, hpc] using h)
      exact .lockFood hpc hfree
  | takeFood =>
      obtain rfl : _ = t := by simpa [Step, step, hpc] using h
      exact .takeFood hpc
  | unlockFood f =>
      obtain rfl : _ = t := by simpa [Step, step, hpc] using h
      exact .unlockFood hpc
  | grabRight f =>
      obtain ⟨hfree, rfl⟩ := hlock (by simpa [Step, step, hpc] using h)
      exact .grabRight hpc hfree
  | grabLeft f =>
      obtain ⟨hfree, rfl⟩ := hlock (by simpa [Step, step, hpc] using h)
      exact .grabLeft hpc hfree
  | eating f =>
      obtain rfl : _ = t := by simpa [Step, step, hpc] using h
      exact .eating hpc
  | downFirst f =>
      obtain rfl : _ = t := by simpa [Step, step, hpc] using h
      exact .downFirst hpc
  | downSecond f =>
      obtain rfl : _ = t := by simpa [Step, step, hpc] using h
      exact .downSecond hpc
  | done => simp [Step, step, hpc] at h

end RealTime.Philosophers
