import RealTime.Library.Cyclic
import RealTime.Library.Locks
import RealTime.Philosophers.Model

/-! # Chopstick ownership

The control positions determine who has locked what. Mutual exclusion and the discipline
of the unlocks follow from the agreement of these positions with the recorded owners. -/

namespace RealTime.Philosophers

open Transition Locks Cyclic

variable {N : ℕ} {s t : State N} {id : Fin N} {pc : Pc} {m : Mutex N}

theorem leftChopstick_eq_next (id : Fin N) : leftChopstick id = next id := by
  apply Fin.ext
  rw [next_val, leftChopstick]
  split <;> rfl

theorem leftChopstick_val (id : Fin N) : (leftChopstick id).val = (id.val + 1) % N := by
  rw [leftChopstick_eq_next]
  rfl

theorem leftChopstick_ne_right (hN : 2 ≤ N) (id : Fin N) :
    leftChopstick id ≠ rightChopstick id := by
  rw [leftChopstick_eq_next]
  exact next_ne id hN

/-- What `id` has locked and not unlocked since when it stands at `pc`. -/
def Holds (id : Fin N) (pc : Pc) (m : Mutex N) : Prop :=
  match pc with
  | .takeFood | .unlockFood _ => m = .foodLock
  | .grabLeft _ | .downSecond _ => m = .chopstick (rightChopstick id)
  | .eating _ | .downFirst _ =>
      m = .chopstick (rightChopstick id) ∨ m = .chopstick (leftChopstick id)
  | .lockFood | .grabRight _ | .done => False

def Owned (s : State N) : Prop := Agrees s.owner fun id m => Holds id (s.pc id) m

theorem Owned.owner_iff (h : Owned s) : s.owner m = some id ↔ Holds id (s.pc id) m := h id m

theorem owned_init (FOOD : ℤ) : Owned (init FOOD : State N) := by
  intro id m
  simp [init, Holds]

/-! ## One lemma for each way of moving on -/

theorem Owned.goto (h : Owned s) (hh : ∀ m, Holds id pc m ↔ Holds id (s.pc id) m) :
    Owned (s.goto id pc) := by
  refine Agrees.congr h ?_
  intro u m
  by_cases hu : u = id
  · subst hu
    simpa [State.goto] using hh m
  · simp [State.goto, hu]

theorem Owned.lock (h : Owned s) (hm : s.owner m = none)
    (hh : ∀ k, Holds id pc k ↔ Holds id (s.pc id) k ∨ k = m) :
    Owned ((s.acquire id m).goto id pc) := by
  refine Agrees.acquire h hm ?_
  intro u k
  by_cases hu : u = id
  · subst hu
    simpa [State.goto, State.acquire] using hh k
  · simp [State.goto, State.acquire, hu]

theorem Owned.unlock (h : Owned s) (hm : Holds id (s.pc id) m)
    (hh : ∀ k, Holds id pc k ↔ Holds id (s.pc id) k ∧ k ≠ m) :
    Owned ((s.unlock m).goto id pc) := by
  refine Agrees.release h hm ?_
  intro u k
  by_cases hu : u = id
  · subst hu
    simpa [State.goto, State.unlock] using hh k
  · simp [State.goto, State.unlock, hu]

theorem holds_afterFood (f : ℤ) : ¬ Holds id (afterFood f) m := by
  unfold afterFood
  split <;> simp [Holds]

theorem Owned.step (hN : 2 ≤ N) (h : Owned s) (hst : Step s id t) : Owned t := by
  have hne := leftChopstick_ne_right hN id
  cases hst.move with
  | lockFood hpc hfree => exact h.lock hfree fun k => by simp [hpc, Holds]
  | takeFood hpc =>
      exact Owned.goto (s := s.take) h fun k => by simp [State.take, hpc, Holds]
  | unlockFood hpc =>
      refine h.unlock (by simp [hpc, Holds]) ?_
      intro k
      constructor
      · exact fun hk => absurd hk (holds_afterFood _)
      · rintro ⟨hk, hk'⟩
        exact absurd (by simpa [hpc, Holds] using hk) hk'
  | grabRight hpc hfree => exact h.lock hfree fun k => by simp [hpc, Holds]
  | grabLeft hpc hfree => exact h.lock hfree fun k => by simp [hpc, Holds]
  | eating hpc => exact h.goto fun k => by simp [hpc, Holds]
  | downFirst hpc =>
      refine h.unlock (by simp [hpc, Holds]) ?_
      intro k
      simp only [hpc, Holds]
      constructor
      · rintro rfl
        exact ⟨.inl rfl, by simpa using hne.symm⟩
      · rintro ⟨hk | hk, hk'⟩
        · exact hk
        · exact absurd hk hk'
  | downSecond hpc =>
      refine h.unlock (by simp [hpc, Holds]) ?_
      intro k
      simp [hpc, Holds]

theorem Reachable.owned (hN : 2 ≤ N) {FOOD : ℤ} (hs : Reachable FOOD s) : Owned s := by
  obtain ⟨schedule, hrun⟩ := hs
  exact hrun.invariant (fun _ _ _ h hst => h.step hN hst) (owned_init FOOD)

/-! ## Mutual exclusion -/

theorem Owned.eating_iff (h : Owned s) {f : ℤ} (hpc : s.pc id = .eating f) (c : Fin N) :
    s.owner (.chopstick c) = some id ↔ c = id ∨ c.val = (id.val + 1) % N := by
  rw [h.owner_iff, hpc, ← leftChopstick_val, ← Fin.ext_iff]
  simp [Holds, rightChopstick]

/-- The chopstick between two neighbours is held by one of them at most. -/
theorem Owned.neighbours (hN : 2 ≤ N) (h : Owned s) {p q : Fin N}
    (hpq : q.val = (p.val + 1) % N) {f g : ℤ} (hp : s.pc p = .eating f) :
    s.pc q ≠ .eating g := by
  intro hq
  have hqp : q = leftChopstick p := Fin.ext (hpq.trans (leftChopstick_val p).symm)
  have hown := ((h.eating_iff hp q).mpr (.inr hpq)).symm.trans
    ((h.eating_iff hq q).mpr (.inl rfl))
  have heq : p = q := Option.some.inj hown
  exact leftChopstick_ne_right hN p (hqp.symm.trans heq.symm)

/-- Mutual exclusion at the table. A chopstick is held by one philosopher at most, an
eating philosopher owns exactly its two chopsticks, neighbours never eat together, and
both unlocks of `down_chopsticks` are performed by the owner. -/
theorem reachable_mutual_exclusion (hN : 2 ≤ N) {FOOD : ℤ} {s : State N}
    (hs : Reachable FOOD s) :
    (∀ c p q, Holds p (s.pc p) (.chopstick c) → Holds q (s.pc q) (.chopstick c) → p = q) ∧
    (∀ p m, s.owner m = some p ↔ Holds p (s.pc p) m) ∧
    (∀ p f, s.pc p = .eating f → ∀ c : Fin N,
      s.owner (.chopstick c) = some p ↔ c = p ∨ c.val = (p.val + 1) % N) ∧
    (∀ p q f g, q.val = (p.val + 1) % N → s.pc p = .eating f → s.pc q ≠ .eating g) ∧
    (∀ p f, s.pc p = .downFirst f → s.owner (.chopstick (leftChopstick p)) = some p) ∧
    (∀ p f, s.pc p = .downSecond f → s.owner (.chopstick (rightChopstick p)) = some p) := by
  have h := hs.owned hN
  refine ⟨fun c p q hp hq => h.exclusive hp hq, fun p m => h.owner_iff,
    fun p f hp c => h.eating_iff hp c, fun p q f g hpq hp => h.neighbours hN hpq hp,
    fun p f hp => ?_, fun p f hp => ?_⟩
  · exact h.owner_iff.mpr (by simp [hp, Holds])
  · exact h.owner_iff.mpr (by simp [hp, Holds])

/-- Two philosophers at the table, of whom the first has started to eat. -/
theorem reachable_mutual_exclusion_of_first_meal :
    ∃ s : State 2, Reachable 3 s ∧ s.pc 0 = .eating 2 ∧
      s.owner (.chopstick 1) = some 0 ∧ ∀ g, s.pc 1 ≠ .eating g := by
  obtain ⟨s, hruns, hpc⟩ : ∃ s, Runs Step (init 3 : State 2) [0, 0, 0, 0, 0] s ∧
      s.pc 0 = .eating 2 := Runs.exists_of_foldlM (by decide)
  have hs : Reachable 3 s := ⟨_, hruns⟩
  obtain ⟨-, -, howns, halone, -⟩ := reachable_mutual_exclusion (by decide) hs
  exact ⟨s, hs, hpc, (howns 0 2 hpc 1).mpr (.inr rfl), fun g => halone 0 1 2 g rfl hpc⟩

end RealTime.Philosophers
