import RealTime.Philosophers.Ownership

/-! # Schedules that let one philosopher run

What a philosopher reaches when it alone is scheduled for a while. -/

namespace RealTime.Philosophers

open Transition

variable {N : ℕ} {s : State N} {id : Fin N}

/-- The state after an undisturbed call of `food_on_table`. -/
def State.serve (s : State N) (id : Fin N) : State N :=
  s.take.goto id (afterFood (foodOnTable s.food))

theorem relock_owner {m : Mutex N} (hfree : s.owner m = none) :
    Function.update s.owner m none = s.owner := by
  rw [← hfree, Function.update_eq_self]

theorem runs_serve (hpc : s.pc id = .lockFood) (hfree : s.owner .foodLock = none) :
    Runs Step s [id, id, id] (s.serve id) := by
  apply Runs.of_foldlM
  simp [step, hpc, hfree, State.lock, State.acquire, State.goto, State.take, State.unlock,
    relock_owner, State.serve]

theorem runs_meal (hN : 2 ≤ N) {f : ℤ} (hpc : s.pc id = .grabRight f)
    (hright : s.owner (.chopstick (rightChopstick id)) = none)
    (hleft : s.owner (.chopstick (leftChopstick id)) = none) :
    Runs Step s [id, id, id, id, id] ((s.eat id f).goto id .lockFood) := by
  have hne := leftChopstick_ne_right hN id
  have howner : Function.update (Function.update
      (Function.update s.owner (.chopstick (rightChopstick id)) (some id))
      (.chopstick (leftChopstick id)) none) (.chopstick (rightChopstick id)) none = s.owner := by
    rw [Function.update_comm (by simpa using hne), Function.update_idem,
      relock_owner hright, relock_owner hleft]
  apply Runs.of_foldlM
  simp [step, hpc, hright, hleft, hne, State.lock, State.acquire, State.goto, State.eat,
    State.unlock, howner]

/-- A philosopher alone at the table eats until the food is gone. -/
theorem exists_run_done (hN : 2 ≤ N) (id : Fin N) (n : ℕ) {s : State N} (hfood : s.food = n)
    (hpc : s.pc id = .lockFood) (hfree : ∀ m, s.owner m = none) :
    ∃ schedule t, Runs Step s schedule t ∧ t.pc = Function.update s.pc id .done ∧
      t.owner = s.owner ∧ t.food = 0 := by
  have hserve := runs_serve hpc (hfree _)
  induction n generalizing s with
  | zero =>
      refine ⟨_, _, hserve, ?_, rfl, ?_⟩ <;>
        simp [State.serve, State.goto, State.take, foodOnTable, hfood, afterFood]
  | succ n ih =>
      have hn : foodOnTable s.food = n := by
        unfold foodOnTable
        split <;> omega
      by_cases hlast : n = 0
      · refine ⟨_, _, hserve, ?_, rfl, ?_⟩ <;>
          simp [State.serve, State.goto, State.take, hn, hlast, afterFood]
      · have hserved : (s.serve id).pc id = .grabRight n := by
          simp [State.serve, State.goto, hn, hlast, afterFood]
        have hmeal := runs_meal hN hserved (hfree _) (hfree _)
        have hback : (((s.serve id).eat id n).goto id .lockFood).pc = s.pc := by
          simp [State.serve, State.goto, State.eat, State.take, ← hpc]
        obtain ⟨schedule, t, hrun, htpc, howner, htfood⟩ :=
          ih (s := ((s.serve id).eat id n).goto id .lockFood)
            hn (by simp [hback, hpc]) hfree (runs_serve (by simp [hback, hpc]) (hfree _))
        exact ⟨_, t, (hserve.append hmeal).append hrun, by rw [htpc, hback], howner, htfood⟩

/-- The philosophers before seat `k` have left their loops, the others wait to start. -/
structure DoneUpTo (k : ℕ) (s : State N) : Prop where
  pc : ∀ id : Fin N, s.pc id = if id.val < k then .done else .lockFood
  free : ∀ m, s.owner m = none
  food : 0 ≤ s.food

/-- The philosophers can eat one after the other until all have left their loops. -/
theorem exists_finished (hN : 2 ≤ N) {FOOD : ℤ} (hFOOD : 0 ≤ FOOD) :
    ∃ s : State N, Reachable FOOD s ∧ Finished s := by
  have hinit : DoneUpTo 0 (init FOOD : State N) := ⟨by simp [init], by simp [init], hFOOD⟩
  have hstage : ∀ k < N, ∀ s : State N, DoneUpTo k s →
      ∃ more t, Runs Step s more t ∧ DoneUpTo (k + 1) t := by
    intro k hk s hs
    obtain ⟨n, hn⟩ := Int.eq_ofNat_of_zero_le hs.food
    obtain ⟨more, t, hmore, htpc, howner, htfood⟩ :=
      exists_run_done hN ⟨k, hk⟩ n hn (by simp [hs.pc]) hs.free
    refine ⟨more, t, hmore, ?_, by simpa [howner] using hs.free, by omega⟩
    intro id
    rw [htpc, Function.update_apply, hs.pc]
    simp only [Fin.ext_iff]
    split_ifs <;> first | rfl | omega
  obtain ⟨schedule, s, hrun, hs⟩ := Runs.exists_of_stages hinit hstage
  exact ⟨s, ⟨schedule, hrun⟩, fun id => by simp [hs.pc, id.isLt]⟩

end RealTime.Philosophers
