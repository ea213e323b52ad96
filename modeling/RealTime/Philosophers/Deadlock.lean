import RealTime.Philosophers.Portions

/-! # Deadlock

The philosophers get stuck only when all of them hold their right chopstick and wait for
the left one. Each of them then carries a portion of its own, so this takes more portions
than there are seats. -/

namespace RealTime.Philosophers

open Transition Cyclic

variable {N : ℕ} {s : State N} {id : Fin N} {FOOD : ℤ}

def Stuck (s : State N) : Prop := ∀ id, ¬ Enabled s id

theorem Move.enabled {t : State N} (h : Move s id t) : Enabled s id :=
  Option.isSome_iff_exists.mpr ⟨t, h.step⟩

theorem Stuck.not_move {t : State N} (h : Stuck s) : ¬ Move s id t :=
  fun hm => h id hm.enabled

/-! ## The only way to get stuck -/

/-- In a stuck state everybody has left or waits for a chopstick. -/
theorem Stuck.waits (h : Stuck s) (hown : Owned s) (id : Fin N) :
    s.pc id = .done ∨ ∃ f, s.pc id = .grabRight f ∨ s.pc id = .grabLeft f := by
  cases hpc : s.pc id with
  | lockFood =>
      obtain ⟨q, hq⟩ : ∃ q, s.owner .foodLock = some q :=
        Option.ne_none_iff_exists'.mp fun hfree => h.not_move (.lockFood hpc hfree)
      have hholds := hown.owner_iff.mp hq
      cases hqc : s.pc q with
      | takeFood => exact absurd (.takeFood hqc) h.not_move
      | unlockFood f => exact absurd (.unlockFood hqc) h.not_move
      | _ => simp [hqc, Holds] at hholds
  | takeFood => exact absurd (.takeFood hpc) h.not_move
  | unlockFood f => exact absurd (.unlockFood hpc) h.not_move
  | grabRight f => exact .inr ⟨f, .inl rfl⟩
  | grabLeft f => exact .inr ⟨f, .inr rfl⟩
  | eating f => exact absurd (.eating hpc) h.not_move
  | downFirst f => exact absurd (.downFirst hpc) h.not_move
  | downSecond f => exact absurd (.downSecond hpc) h.not_move
  | done => exact .inl rfl

/-- A chopstick that is taken in a stuck state is held by the philosopher to its left,
which waits for the other one. -/
theorem Stuck.holder (h : Stuck s) (hown : Owned s) {c : Fin N}
    (hc : s.owner (.chopstick c) ≠ none) : ∃ f, s.pc c = .grabLeft f := by
  obtain ⟨q, hq⟩ := Option.ne_none_iff_exists'.mp hc
  have hholds := hown.owner_iff.mp hq
  rcases h.waits hown q with hpc | ⟨f, hpc | hpc⟩
  · simp [hpc, Holds] at hholds
  · simp [hpc, Holds] at hholds
  · obtain rfl : c = q := by simpa [hpc, Holds, rightChopstick] using hholds
    exact ⟨f, hpc⟩

theorem Stuck.all_wait (h : Stuck s) (hown : Owned s) (hf : ¬ Finished s) (id : Fin N) :
    ∃ f, s.pc id = .grabLeft f := by
  obtain ⟨p, hp⟩ : ∃ p, s.pc p ≠ .done := by simpa [Finished] using hf
  have hseat : ∃ f, s.pc p = .grabLeft f := by
    rcases h.waits hown p with hpc | ⟨f, hpc | hpc⟩
    · exact absurd hpc hp
    · exact h.holder hown (c := p) fun hfree => h.not_move (.grabRight hpc hfree)
    · exact ⟨f, hpc⟩
  refine all_of_next (P := fun id => ∃ f, s.pc id = .grabLeft f) hseat ?_ id
  rintro q ⟨f, hpc⟩
  rw [← leftChopstick_eq_next]
  exact h.holder hown fun hfree => h.not_move (.grabLeft hpc hfree)

/-- Philosophers that all wait for their left chopstick carry different portions. -/
theorem Portions.lt_of_all_wait (h : Portions FOOD s) (hN : 0 < N)
    (hwait : ∀ id, ∃ f, s.pc id = .grabLeft f) : N < FOOD := by
  choose f hf using hwait
  have hcarries : ∀ id, Carries (s.pc id) (f id) := fun id => by simp [hf id, Carries]
  have hmaps : Set.MapsTo f (Finset.univ : Finset (Fin N)) (Finset.Ioo 0 FOOD) := by
    intro id _
    obtain ⟨hpos, -, hlt⟩ := (h.custody.accounted (f id)).mpr (.inr ⟨id, hcarries id⟩)
    simpa using ⟨hpos, hlt⟩
  have hinj : Set.InjOn f (Finset.univ : Finset (Fin N)) := by
    intro p _ q _ hpq
    exact h.custody.alone p q (f p) (hcarries p) (hpq ▸ hcarries q)
  have hcard := Finset.card_le_card_of_injOn f hmaps hinj
  rw [Finset.card_univ, Fintype.card_fin, Int.card_Ioo] at hcard
  omega

theorem Reachable.not_stuck (hN : 2 ≤ N) (hFOOD : 0 ≤ FOOD) (hle : FOOD ≤ N)
    (hs : Reachable FOOD s) (hf : ¬ Finished s) : ∃ id, Enabled s id := by
  by_contra hnone
  have hstuck : Stuck s := fun id hid => hnone ⟨id, hid⟩
  have hlt := (hs.portions hFOOD).lt_of_all_wait (by omega)
    (hstuck.all_wait (hs.owned hN) hf)
  omega

/-! ## Getting stuck -/

/-- The philosophers before seat `k` hold their right chopstick, the others wait to start.
There is still a portion for each of these, unless the counter is negative. -/
structure WaitUpTo (k : ℕ) (s : State N) : Prop where
  waits : ∀ id : Fin N, id.val < k →
    (∃ f, s.pc id = .grabLeft f) ∧ s.owner (.chopstick (rightChopstick id)) = some id
  fresh : ∀ id : Fin N, k ≤ id.val →
    s.pc id = .lockFood ∧ s.owner (.chopstick (rightChopstick id)) = none
  free : s.owner .foodLock = none
  food : s.food < 0 ∨ N - k < s.food

theorem waitUpTo_init (hFOOD : FOOD < 0 ∨ N < FOOD) : WaitUpTo 0 (init FOOD : State N) where
  waits := by simp
  fresh := by simp [init]
  free := rfl
  food := by simpa [init] using hFOOD

/-- The next philosopher is served and takes its right chopstick. -/
theorem WaitUpTo.next {k : ℕ} (h : WaitUpTo k s) (hk : k < N) :
    ∃ schedule t, Runs Step s schedule t ∧ WaitUpTo (k + 1) t := by
  obtain ⟨hpc, hfree⟩ := h.fresh ⟨k, hk⟩ (Nat.le_refl k)
  have hfood := h.food
  have hportion : foodOnTable s.food ≠ 0 ∧
      (foodOnTable s.food < 0 ∨ N - (k + 1 : ℕ) < foodOnTable s.food) := by
    unfold foodOnTable
    split <;> omega
  have hserve := runs_serve hpc h.free
  have hserved : (s.serve ⟨k, hk⟩).pc ⟨k, hk⟩ = .grabRight (foodOnTable s.food) := by
    simp [State.serve, State.goto, afterFood, hportion.1]
  have hgrab := Move.grabRight hserved hfree
  refine ⟨_, _, hserve.append (.cons hgrab.step (.nil _)), ?_, ?_, ?_, hportion.2⟩
  · intro id hid
    by_cases heq : id = ⟨k, hk⟩
    · subst heq
      exact ⟨⟨foodOnTable s.food, by simp [State.goto]⟩, by simp [State.goto, State.acquire]⟩
    · have hlt : id.val < k := by
        have hval : id.val ≠ k := fun hval => heq (Fin.ext hval)
        omega
      simpa [State.goto, State.acquire, State.serve, State.take, rightChopstick, heq] using
        h.waits id hlt
  · intro id hid
    have hne : id ≠ ⟨k, hk⟩ := by
      rintro rfl
      exact absurd hid (Nat.not_succ_le_self k)
    simpa [State.goto, State.acquire, State.serve, State.take, rightChopstick, hne] using
      h.fresh id (by omega)
  · simpa [State.goto, State.acquire, State.serve, State.take] using h.free

theorem WaitUpTo.stuck (h : WaitUpTo N s) : Stuck s := by
  intro id
  obtain ⟨⟨f, hpc⟩, -⟩ := h.waits id id.isLt
  have hleft : s.owner (.chopstick (leftChopstick id)) = some (leftChopstick id) :=
    (h.waits (leftChopstick id) (leftChopstick id).isLt).2
  simp [Enabled, step, hpc, State.lock, hleft]

theorem exists_stuck (hN : 0 < N) (hFOOD : FOOD < 0 ∨ N < FOOD) :
    ∃ s : State N, Reachable FOOD s ∧ ¬ Finished s ∧ Stuck s := by
  obtain ⟨schedule, s, hrun, hs⟩ := Runs.exists_of_stages (waitUpTo_init hFOOD)
    fun k hk s hs => hs.next hk
  refine ⟨s, ⟨schedule, hrun⟩, ?_, hs.stuck⟩
  intro hf
  obtain ⟨⟨f, hpc⟩, -⟩ := hs.waits ⟨0, hN⟩ hN
  cases (hf _).symm.trans hpc

/-- The table is free of deadlocks exactly when there is no more food than seats. -/
theorem deadlock_free_iff (hN : 2 ≤ N) (FOOD : ℤ) :
    (∀ s : State N, Reachable FOOD s → ¬ Finished s → ∃ id, Enabled s id) ↔
      0 ≤ FOOD ∧ FOOD ≤ N := by
  constructor
  · intro hlive
    by_contra hout
    obtain ⟨s, hs, hf, hstuck⟩ := exists_stuck (by omega : 0 < N)
      (by omega : FOOD < 0 ∨ N < FOOD)
    obtain ⟨id, hid⟩ := hlive s hs hf
    exact hstuck id hid
  · rintro ⟨hFOOD, hle⟩ s hs hf
    exact hs.not_stuck hN hFOOD hle hf

theorem deadlock_free_iff_at_five_seats :
    (∀ s : State 5, Reachable 50 s → ¬ Finished s → ∃ id, Enabled s id) ↔
      0 ≤ (50 : ℤ) ∧ (50 : ℤ) ≤ (5 : ℕ) :=
  deadlock_free_iff (by decide) 50

/-- The five philosophers of the program with its 50 items of food: each is served and
takes its right chopstick in turn. -/
theorem five_philosophers_stuck :
    ∃ s : State 5, Reachable 50 s ∧ ¬ Finished s ∧ ∀ id, ¬ Enabled s id := by
  obtain ⟨s, hruns, hpc, hstuck⟩ : ∃ s, Runs Step (init 50 : State 5)
      [0, 0, 0, 0, 1, 1, 1, 1, 2, 2, 2, 2, 3, 3, 3, 3, 4, 4, 4, 4] s ∧
      s.pc 0 ≠ .done ∧ ∀ id, ¬ Enabled s id := Runs.exists_of_foldlM (by decide)
  exact ⟨s, ⟨_, hruns⟩, fun hf => hpc (hf 0), hstuck⟩

end RealTime.Philosophers
