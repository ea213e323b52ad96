import Mathlib.Data.Int.Interval
import RealTime.Library.Tokens
import RealTime.Philosophers.Schedules

/-! # Portions handed out and eaten

`food_on_table` hands out the counter it has just decremented. The portions are therefore
`FOOD - 1` down to `1`, and the last item of food, portion `0`, ends a philosopher's loop
instead of being eaten. -/

namespace RealTime.Philosophers

open Transition Tokens

variable {N : ℕ} {s t : State N} {id : Fin N} {FOOD : ℤ}

/-- The portion a philosopher has been handed and has not eaten yet. -/
def Carries (pc : Pc) (k : ℤ) : Prop :=
  match pc with
  | .unlockFood f => f = k ∧ k ≠ 0
  | .grabRight f | .grabLeft f => f = k
  | _ => False

/-- The portions handed out when the counter has gone from `FOOD` down to `food`. -/
def Issued (FOOD food k : ℤ) : Prop := 0 < k ∧ food ≤ k ∧ k < FOOD

structure Portions (FOOD : ℤ) (s : State N) : Prop where
  food_nonneg : 0 ≤ s.food
  food_le : s.food ≤ FOOD
  custody : Custody (Issued FOOD s.food) (fun id k => Carries (s.pc id) k)
    (s.eaten.map Prod.snd)
  empty : ∀ id, s.pc id = .done ∨ s.pc id = .unlockFood 0 → s.food = 0

theorem portions_init (hFOOD : 0 ≤ FOOD) : Portions FOOD (init FOOD : State N) where
  food_nonneg := hFOOD
  food_le := Int.le_refl _
  custody :=
    { accounted := fun k => by
        simp [Issued, init, Carries]
      alone := by simp [init, Carries]
      unused := by simp [init]
      once := by simp [init] }
  empty := by simp [init]

@[simp] theorem carries_afterFood {f k : ℤ} :
    Carries (afterFood f) k ↔ Carries (.unlockFood f) k := by
  by_cases hf : f = 0
  · subst hf
    simp [afterFood, Carries, eq_comm]
  · simp only [afterFood, hf, Carries, ne_eq, not_false_eq_true, if_true]
    exact ⟨fun h => ⟨h, h ▸ hf⟩, fun h => h.1⟩

/-- A step that neither hands out nor eats a portion. -/
theorem Portions.goto {pc : Pc} (h : Portions FOOD s)
    (hc : ∀ k, Carries pc k ↔ Carries (s.pc id) k)
    (he : pc = .done ∨ pc = .unlockFood 0 → s.food = 0) : Portions FOOD (s.goto id pc) where
  food_nonneg := h.food_nonneg
  food_le := h.food_le
  custody := by
    refine h.custody.congr (fun _ => Iff.rfl) ?_
    intro u k
    by_cases hu : u = id
    · subst hu
      simpa [State.goto] using hc k
    · simp [State.goto, hu]
  empty u := by
    by_cases hu : u = id
    · subst hu
      simpa [State.goto] using he
    · simpa [State.goto, hu] using h.empty u

theorem Portions.congr (h : Portions FOOD s) (hpc : t.pc = s.pc) (hfood : t.food = s.food)
    (heaten : t.eaten = s.eaten) : Portions FOOD t where
  food_nonneg := hfood ▸ h.food_nonneg
  food_le := hfood ▸ h.food_le
  custody := by
    rw [hpc, hfood, heaten]
    exact h.custody
  empty := by
    rw [hpc, hfood]
    exact h.empty

theorem take_pc (s : State N) (id u : Fin N) (f : ℤ) :
    (s.take.goto id (.unlockFood f)).pc u = if u = id then .unlockFood f else s.pc u := by
  simp [State.goto, State.take, Function.update_apply]

/-- With one item or none left, `food_on_table` hands out nothing. -/
theorem Portions.take_last (h : Portions FOOD s) (hpc : s.pc id = .takeFood)
    (hlast : s.food ≤ 1) :
    Portions FOOD (s.take.goto id (.unlockFood (foodOnTable s.food))) := by
  have hnonneg := h.food_nonneg
  have hfood : foodOnTable s.food = 0 := by
    unfold foodOnTable
    split <;> omega
  refine ⟨by simp [State.goto, State.take, hfood], ?_, ?_, ?_⟩
  · simpa [State.goto, State.take, hfood] using hnonneg.trans h.food_le
  · refine h.custody.congr ?_ ?_
    · intro k
      simp only [State.goto, State.take, Issued, hfood]
      omega
    · intro u k
      rw [take_pc, hfood]
      by_cases hu : u = id
      · simpa [hu, hpc, Carries] using Eq.symm
      · simp [hu]
  · simp [State.goto, State.take, hfood]

/-- Otherwise it hands out the decremented counter. -/
theorem Portions.take_portion (h : Portions FOOD s) (hpc : s.pc id = .takeFood)
    (hmore : 1 < s.food) :
    Portions FOOD (s.take.goto id (.unlockFood (foodOnTable s.food))) := by
  have hle := h.food_le
  have hfood : foodOnTable s.food = s.food - 1 := by
    unfold foodOnTable
    rw [if_pos (by omega)]
  refine ⟨?_, ?_, ?_, ?_⟩
  · simp only [State.goto, State.take, hfood]
    omega
  · simp only [State.goto, State.take, hfood]
    omega
  · have hnew : ¬ Issued FOOD s.food (s.food - 1) := by simp [Issued]
    have hissued : ∀ k, Issued FOOD (foodOnTable s.food) k ↔
        Issued FOOD s.food k ∨ k = s.food - 1 := by
      intro k
      simp only [Issued, hfood]
      omega
    have hcarries : ∀ u k,
        Carries ((s.take.goto id (.unlockFood (foodOnTable s.food))).pc u) k ↔
          Carries (s.pc u) k ∨ u = id ∧ k = s.food - 1 := by
      intro u k
      rw [take_pc, hfood]
      by_cases hu : u = id
      · simp only [hu, hpc, Carries, if_true, false_or, true_and]
        omega
      · simp [hu]
    exact h.custody.issue hnew hissued hcarries
  · intro u hu
    rw [take_pc, hfood] at hu
    by_cases hid : u = id
    · have hmust : s.food - 1 = 0 := by simpa [hid] using hu
      omega
    · have hempty := h.empty u (by simpa [hid] using hu)
      omega

/-- Reaching the eating step uses up the portion. -/
theorem Portions.eat {f : ℤ} (h : Portions FOOD s) (hpc : s.pc id = .grabLeft f) :
    Portions FOOD ((s.eat id f).goto id (.eating f)) where
  food_nonneg := h.food_nonneg
  food_le := h.food_le
  custody := by
    have hcarries : Carries (s.pc id) f := by simp [hpc, Carries]
    have hspent : ∀ u k, Carries (((s.eat id f).goto id (.eating f)).pc u) k ↔
        Carries (s.pc u) k ∧ ¬ (u = id ∧ k = f) := by
      intro u k
      by_cases hu : u = id
      · subst hu
        simpa [State.eat, State.goto, hpc, Carries] using Eq.symm
      · simp [State.eat, State.goto, hu]
    simpa [State.eat, State.goto] using h.custody.use hcarries hspent
  empty u hu := by
    by_cases hid : u = id
    · simp [State.eat, State.goto, hid] at hu
    · exact h.empty u (by simpa [State.eat, State.goto, hid] using hu)

theorem Portions.step (h : Portions FOOD s) (hst : Step s id t) : Portions FOOD t := by
  cases hst.move with
  | lockFood hpc hfree =>
      have hs : Portions FOOD (s.acquire id .foodLock) := h.congr rfl rfl rfl
      exact hs.goto (fun k => by simp [State.acquire, hpc, Carries]) (by simp)
  | takeFood hpc =>
      by_cases hlast : s.food ≤ 1
      · exact h.take_last hpc hlast
      · exact h.take_portion hpc (by omega)
  | @unlockFood f hpc =>
      have hs : Portions FOOD (s.unlock .foodLock) := h.congr rfl rfl rfl
      refine hs.goto (fun k => by simp [State.unlock, hpc]) ?_
      intro hdone
      have hf : f = 0 := by
        by_contra hf
        simp [afterFood, hf] at hdone
      exact h.empty id (.inr (hf ▸ hpc))
  | grabRight hpc hfree =>
      have hs : Portions FOOD (s.acquire id (.chopstick (rightChopstick id))) :=
        h.congr rfl rfl rfl
      exact hs.goto (fun k => by simp [State.acquire, hpc, Carries]) (by simp)
  | grabLeft hpc hfree =>
      have hs : Portions FOOD (s.acquire id (.chopstick (leftChopstick id))) :=
        h.congr rfl rfl rfl
      exact hs.eat hpc
  | eating hpc => exact h.goto (fun k => by simp [hpc, Carries]) (by simp)
  | downFirst hpc =>
      have hs : Portions FOOD (s.unlock (.chopstick (leftChopstick id))) := h.congr rfl rfl rfl
      exact hs.goto (fun k => by simp [State.unlock, hpc, Carries]) (by simp)
  | downSecond hpc =>
      have hs : Portions FOOD (s.unlock (.chopstick (rightChopstick id))) := h.congr rfl rfl rfl
      exact hs.goto (fun k => by simp [State.unlock, hpc, Carries]) (by simp)

theorem Reachable.portions (hFOOD : 0 ≤ FOOD) (hs : Reachable FOOD s) : Portions FOOD s := by
  obtain ⟨schedule, hrun⟩ := hs
  exact hrun.invariant (fun _ _ _ h hst => h.step hst) (portions_init hFOOD)

/-! ## Complete runs -/

/-- The portions eaten in a complete run are `1, …, FOOD - 1`. -/
theorem Portions.mem_eaten_of_finished (h : Portions FOOD s) (hN : 0 < N) (hf : Finished s)
    (k : ℤ) : k ∈ s.eaten.map Prod.snd ↔ 0 < k ∧ k < FOOD := by
  have hnone : ∀ id, ¬ Carries (s.pc id) k := fun id => by simp [hf id, Carries]
  have hzero : s.food = 0 := h.empty ⟨0, hN⟩ (.inl (hf _))
  rw [h.custody.mem_used hnone, Issued, hzero]
  omega

theorem Portions.length_eaten_of_finished (h : Portions FOOD s) (hN : 0 < N)
    (hf : Finished s) : s.eaten.length = (FOOD - 1).toNat := by
  have hset : (s.eaten.map Prod.snd).toFinset = Finset.Ioo 0 FOOD :=
    Finset.ext fun k => by rw [List.mem_toFinset, h.mem_eaten_of_finished hN hf, Finset.mem_Ioo]
  have hcard := List.toFinset_card_of_nodup h.custody.once
  rw [hset, Int.card_Ioo, List.length_map] at hcard
  omega

/-- Complete runs exist, and every one of them has one meal less than there was food. -/
theorem complete_runs_miss_one_meal (hN : 2 ≤ N) (hFOOD : 1 ≤ FOOD) :
    (∃ s : State N, Reachable FOOD s ∧ Finished s) ∧
    ∀ s : State N, Reachable FOOD s → Finished s →
      ¬ ((s.eaten.length : ℤ) = FOOD ∧ (s.eaten.map Prod.snd).Nodup) ∧
      (s.eaten.length : ℤ) = FOOD - 1 ∧ (s.eaten.map Prod.snd).Nodup := by
  refine ⟨exists_finished hN (by omega), ?_⟩
  intro s hs hf
  have h := hs.portions (by omega)
  have hlength := h.length_eaten_of_finished (by omega) hf
  refine ⟨?_, by omega, h.custody.once⟩
  rintro ⟨hall, -⟩
  omega

theorem complete_runs_miss_one_meal_of_two :
    (∃ s : State 2, Reachable 2 s ∧ Finished s) ∧
    ∀ s : State 2, Reachable 2 s → Finished s →
      ¬ ((s.eaten.length : ℤ) = 2 ∧ (s.eaten.map Prod.snd).Nodup) ∧
      (s.eaten.length : ℤ) = 2 - 1 ∧ (s.eaten.map Prod.snd).Nodup :=
  complete_runs_miss_one_meal (by decide) (by decide)

/-- Two items of food, of which the first philosopher eats one and nobody the other. -/
theorem second_portion_not_eaten :
    ∃ s : State 2, Reachable 2 s ∧ Finished s ∧ s.eaten = [(0, 1)] ∧
      ¬ ((s.eaten.length : ℤ) = 2 ∧ (s.eaten.map Prod.snd).Nodup) := by
  obtain ⟨s, hruns, hzero, hone, heaten⟩ : ∃ s, Runs Step (init 2 : State 2)
      [0, 0, 0, 0, 0, 0, 0, 0, 0, 0, 0, 1, 1, 1] s ∧
      s.pc 0 = .done ∧ s.pc 1 = .done ∧ s.eaten = [(0, 1)] := Runs.exists_of_foldlM (by decide)
  have hf : Finished s := fun id => by
    match id with
    | 0 => exact hzero
    | 1 => exact hone
  exact ⟨s, ⟨_, hruns⟩, hf, heaten, by simp [heaten]⟩

end RealTime.Philosophers
