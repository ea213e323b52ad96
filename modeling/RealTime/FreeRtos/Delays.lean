import RealTime.FreeRtos.Fairness

/-! # How long a task sleeps

To the tick, and however often the tick count overflows. -/

namespace RealTime.FreeRtos

open Transition

variable {T : Type} [DecidableEq T] {k : Kernel (Memory ListId T) T} {s₀ s s' : Schedule T}
  {t : T} {action : Action T} {w : ℕ}

/-- The task is about to sleep. -/
def Stage.beforeSleep : Stage T → Bool
  | .delay _ | .delayUntil _ => true
  | .own | .resume | .yield | .malloc _ | .create _ => false

omit [DecidableEq T] in
theorem Stage.beforeSleep_of_creation {stage : Stage T} (h : stage.creation) :
    stage.beforeSleep = false := by
  cases stage <;> first | rfl | cases h

namespace Schedule

/-- The task sleeps until `w`, or has been woken. -/
def SleepsUntil (s : Schedule T) (t : T) (w : ℕ) : Prop :=
  (t ∈ s.sleeping ∧ s.wakeAt t = w ∧ s.now < w) ∨ (t ∈ s.ready (s.priority t) ∧ w ≤ s.now)

/-- No call suspends the task. -/
def Unsuspended (t : T) (s : Schedule T) (action : Action T) : Prop :=
  ∀ handle, action = .vTaskSuspend handle → (handle <|> s.current) ≠ some t

omit [DecidableEq T] in
theorem mem_ready_enqueue {u : T} (h : t ∈ s.ready (s.priority t) ∨ t = u) :
    t ∈ (s.enqueue u).ready ((s.enqueue u).priority t) := by
  show t ∈ (s.enqueue u).ready (s.priority t)
  rw [ready_enqueue]
  rcases h with h | rfl
  · split
    · exact List.mem_append_left _ h
    · exact h
  · simp

omit [DecidableEq T] in
theorem ne_of_beforeSleep {u : T} (ht : (s.stage t).beforeSleep = false)
    (hu : (s.stage u).beforeSleep) : u ≠ t := by
  rintro rfl
  exact absurd (hu.symm.trans ht) (by simp)

namespace SleepsUntil

omit [DecidableEq T] in
theorem placed (h : s.SleepsUntil t w) : s.placed t := by
  rcases h with ⟨hmem, -⟩ | ⟨hmem, -⟩
  · exact .inr (.inl hmem)
  · exact .inl ⟨_, hmem⟩

omit [DecidableEq T] in
/-- The ticks wake a task at its time. -/
theorem advance (h : s.SleepsUntil t w) (horderly : s.Orderly) (n : ℕ) :
    (s.advance n).SleepsUntil t w := by
  rcases h with ⟨hmem, hwake, hnow⟩ | ⟨hmem, hnow⟩
  · rw [← List.takeWhile_append_dropWhile (p := due s.wakeAt (s.now + n)) (l := s.sleeping),
      List.mem_append] at hmem
    rcases hmem with hmem | hmem
    · have hdue : due s.wakeAt (s.now + n) t := List.mem_takeWhile_imp hmem
      refine .inr ⟨List.mem_append_right _ (List.mem_filter.mpr ⟨hmem, ?_⟩),
        hwake ▸ of_decide_eq_true hdue⟩
      exact decide_eq_true rfl
    · exact .inl ⟨hmem, hwake, hwake ▸ horderly.sorted.lt_of_mem_dropWhile hmem⟩
  · exact .inr ⟨List.mem_append_left _ hmem, hnow.trans (Nat.le_add_right _ _)⟩

/-- Another task leaves its place. -/
theorem without (h : s.SleepsUntil t w) {u : T} (hut : u ≠ t) : (s.without u).SleepsUntil t w := by
  have htu : decide (t ≠ u) = true := by simpa using Ne.symm hut
  rcases h with ⟨hmem, hrest⟩ | ⟨hmem, hnow⟩
  · exact .inl ⟨List.mem_filter.mpr ⟨hmem, htu⟩, hrest⟩
  · exact .inr ⟨List.mem_filter.mpr ⟨hmem, htu⟩, hnow⟩

theorem sleep (h : s.SleepsUntil t w) {u : T} (hut : u ≠ t) (n : ℕ) :
    (s.sleep u n).SleepsUntil t w := by
  rcases h with ⟨hmem, hwake, hnow⟩ | ⟨hmem, hnow⟩
  · refine .inl ⟨(List.mem_orderedInsert _).mpr (.inr hmem), ?_, hnow⟩
    exact (Function.update_of_ne (Ne.symm hut) _ _).trans hwake
  · exact .inr ⟨hmem, hnow⟩

omit [DecidableEq T] in
theorem enqueue (h : s.SleepsUntil t w) (u : T) : (s.enqueue u).SleepsUntil t w := by
  rcases h with hsleeps | ⟨hmem, hnow⟩
  · exact .inl hsleeps
  · exact .inr ⟨mem_ready_enqueue (.inl hmem), hnow⟩

theorem withPriority (h : s.SleepsUntil t w) {u : T} (hut : u ≠ t) (p : Priority) :
    SleepsUntil { s with priority := Function.update s.priority u p } t w := by
  rcases h with hsleeps | ⟨hmem, hnow⟩
  · exact .inl hsleeps
  · exact .inr ⟨by simpa [Ne.symm hut] using hmem, hnow⟩

omit [DecidableEq T] in
theorem dispatch (h : s.SleepsUntil t w) (hs : s.dispatch = some s') : s'.SleepsUntil t w := by
  obtain ⟨p, u, rest, hp, -, rfl⟩ := dispatch_eq hs
  rcases h with hsleeps | ⟨hmem, hnow⟩
  · exact .inl hsleeps
  · refine .inr ⟨?_, hnow⟩
    by_cases hq : s.priority t = p
    · rw [hq, hp] at hmem
      simpa [hq, or_comm] using hmem
    · simpa [hq] using hmem

theorem effect (h : s.SleepsUntil t w) (htidy : s.Tidy) (horderly : s.Orderly)
    (hstage : (s₀.stage t).beforeSleep = false) (hunsuspended : Unsuspended t s₀ action)
    (he : Effect s₀ action s s') : s'.SleepsUntil t w := by
  cases he with
  | look | late | note => exact h
  | @delay u n _ _ _ hu | @delayUntil u n _ _ _ hu =>
      have hut : u ≠ t := ne_of_beforeSleep hstage (by rw [hu]; rfl)
      exact (h.without hut).sleep hut _
  | @suspend u handle _ _ haction hu =>
      have hut : u ≠ t := fun hut => hunsuspended handle haction (hut ▸ hu)
      exact h.without hut
  | @resume u _ _ hu =>
      by_cases hut : u = t
      · subst hut
        rcases h with ⟨hmem, -⟩ | ⟨hmem, -⟩
        · have hone := htidy.places_eq_one (.inr (.inl hmem))
          have h₁ := List.count_pos_iff.mpr hmem
          have h₂ := List.count_pos_iff.mpr hu
          simp only [places] at hone
          omega
        · exact absurd hmem (htidy.not_ready (.inr hu))
      · exact (h.without hut).enqueue u
  | @requeue u _ _ _ _ _ hu p =>
      by_cases hut : u = t
      · subst hut
        rcases h with ⟨hmem, -⟩ | ⟨-, hnow⟩
        · exact absurd hu (htidy.not_ready (.inl hmem))
        · exact .inr ⟨mem_ready_enqueue (.inr rfl), hnow⟩
      · exact ((h.withPriority hut p).without hut).enqueue u
  | @prioritise u _ _ _ _ _ hu p =>
      by_cases hut : u = t
      · subst hut
        rcases h with hsleeps | ⟨hmem, -⟩
        · exact .inl hsleeps
        · exact absurd hmem hu
      · exact h.withPriority hut p
  | @introduce u _ hu n =>
      have hut : u ≠ t := fun hut => hu (hut ▸ h.placed)
      have h' := (h.withPriority hut (Kernel.cappedPriority n)).enqueue u
      exact h'
  | advance ticks => exact h.advance horderly ticks
  | dispatch hs => exact h.dispatch hs

end SleepsUntil

/-- Only a call of its own brings a task to the point where it goes to sleep. -/
theorem beforeSleep_effect (hcalls : ∀ stage, ¬ Calls s₀ action t stage)
    (h : (s.stage t).beforeSleep = false) (he : Effect s₀ action s s') :
    (s'.stage t).beforeSleep = false := by
  refine he.stage (Q := fun stage => stage.beforeSleep = false) (fun stage henters => ?_) h
  rcases henters with hmem | hcall | ⟨hcreation, -⟩
  · have hnone : ∀ r ∈ [(.own : Stage T), .yield, .resume], r.beforeSleep = false := by
      simp [Stage.beforeSleep]
    exact hnone _ hmem
  · exact absurd hcall (hcalls _)
  · exact Stage.beforeSleep_of_creation hcreation

theorem SleepsUntil.step (h : s.SleepsUntil t w) (htidy : s.Tidy) (hg : s.Good)
    (hstage : (s.stage t).beforeSleep = false) (hunsuspended : Unsuspended t s action)
    (hcalls : ∀ stage, ¬ Calls s action t stage) (hs : s.step action = some s') :
    s'.SleepsUntil t w ∧ (s'.stage t).beforeSleep = false := by
  have hkeep := (Effects.of_step hs).keep
    (P := fun u => u.Tidy ∧ u.Orderly ∧ u.SleepsUntil t w ∧ (u.stage t).beforeSleep = false)
    fun _ _ he h => ⟨h.1.effect he, h.2.1.effect hg.staged.delay he,
      h.2.2.1.effect h.1 h.2.1 hstage hunsuspended he, beforeSleep_effect hcalls h.2.2.2 he⟩
  exact (hkeep ⟨htidy, hg.orderly, h, hstage⟩).2.2

/-! ## The clock -/

/-- The ticks since the start, with those that are still to be made up for. -/
def clock (s : Schedule T) : ℕ := s.now + s.missed.toNat

/-- The tick is not missed as one too many for the counter of missed ticks. -/
def Counted (s : Schedule T) (action : Action T) : Prop := action = .vTick → s.missed + 1 ≠ 0

instance (s : Schedule T) (action : Action T) : Decidable (Counted s action) :=
  inferInstanceAs (Decidable (_ → _))

omit [DecidableEq T] in
theorem clock_dispatch (hs : s.dispatch = some s') : s'.clock = s.clock := by
  obtain ⟨p, u, rest, -, -, rfl⟩ := dispatch_eq hs
  rfl

theorem clock_hold {stage : Stage T} (hs : s.hold stage = some s') : s'.clock = s.clock := by
  obtain ⟨c, -, rfl⟩ := hold_eq hs
  rfl

theorem clock_atStage {stage : Stage T} (hs : s.atStage stage = some s') :
    s'.clock = s.clock := by
  obtain ⟨c, -, rfl⟩ := atStage_eq hs
  rfl

theorem clock_resumed (hg : s.Good) {next : Bool → Stage T} (hs : s.resumed next = some s') :
    s'.clock = s.clock := by
  obtain ⟨c, -, ⟨-, hs⟩ | ⟨hticked, rfl⟩⟩ := resumed_eq hs
  · exact (clock_dispatch hs).trans rfl
  · rw [clock, clock, hg.staged.missed hticked]

theorem clock_proceed (hg : s.Good) (hs : s.proceed = some s') : s'.clock = s.clock := by
  obtain ⟨c, hc, hs⟩ := Option.bind_eq_some_iff.mp hs
  cases hstage : s.stage c with
  | own => simp [hstage] at hs
  | delay n =>
      rw [hstage] at hs
      obtain ⟨d, -, -, rfl⟩ := sleepUntil_eq hs
      rfl
  | delayUntil n =>
      rw [hstage] at hs
      obtain ⟨d, -, -, ⟨-, -, rfl⟩ | ⟨-, rfl⟩⟩ := delayUntil_eq hs <;> rfl
  | resume | malloc next =>
      rw [hstage] at hs
      exact clock_resumed hg hs
  | yield =>
      rw [hstage] at hs
      obtain ⟨s₁, hs₁, hs⟩ := Option.bind_eq_some_iff.mp hs
      exact (clock_dispatch hs).trans (clock_atStage hs₁)
  | create next =>
      rw [hstage] at hs
      rcases goOn_eq hs with ⟨-, behind, hs⟩ | ⟨t, n, -, -, rfl⟩ | hs | ⟨hs, -⟩
      · exact clock_hold hs
      · rfl
      · exact clock_atStage hs
      · exact clock_atStage hs

omit [DecidableEq T] in
/-- A tick that is counted is a tick of the clock. -/
theorem clock_tick (hs : s.tick = some s') :
    s'.clock ≤ s.clock + 1 ∧ (s.missed + 1 ≠ 0 → s'.clock = s.clock + 1) := by
  rcases tick_eq hs with ⟨-, rfl⟩ | ⟨-, hs⟩
  · have hle : (s.missed + 1).toNat ≤ s.missed.toNat + 1 := by
      rw [BitVec.toNat_add]
      exact Nat.mod_le _ _
    refine ⟨Nat.add_le_add_left hle _, fun hne => ?_⟩
    have hsucc : (s.missed + 1).toNat = s.missed.toNat + 1 := by bv_omega
    exact congrArg (s.now + ·) hsucc
  · have hclock : s'.clock = s.clock + 1 := by
      rw [clock_dispatch hs]
      exact Nat.add_right_comm _ _ _
    exact ⟨hclock.le, fun _ => hclock⟩

/-- Nothing but the tick interrupt moves the clock. -/
theorem clock_step_of_ne (hg : s.Good) (haction : action ≠ .vTick)
    (hs : s.step action = some s') : s'.clock = s.clock := by
  cases action with
  | xTaskCreate t n =>
      obtain ⟨-, hs⟩ := Option.ite_none_right_eq_some.mp hs
      rcases create_eq hs with ⟨-, hs⟩ | ⟨-, hs⟩
      · exact clock_hold hs
      · obtain ⟨-, rfl⟩ := add_eq hs
        rfl
  | xTaskCreateFails tcb =>
      obtain ⟨-, hs⟩ := Option.ite_none_right_eq_some.mp hs
      rcases createWithoutMemory_eq hs with ⟨-, next, hs⟩ | ⟨-, rfl⟩
      · exact clock_hold hs
      · rfl
  | vTaskStartScheduler t =>
      obtain ⟨s₁, hs₁, hs⟩ := Option.bind_eq_some_iff.mp (Option.ite_none_right_eq_some.mp hs).2
      obtain rfl := Option.some.inj hs
      obtain ⟨-, rfl⟩ := add_eq hs₁
      rfl
  | vTick => exact absurd rfl haction
  | proceed => exact clock_proceed hg (Option.ite_none_right_eq_some.mp hs).2
  | taskYIELD => exact clock_dispatch (Option.ite_none_right_eq_some.mp hs).2
  | vTaskDelay n =>
      obtain ⟨-, hs⟩ := Option.ite_none_right_eq_some.mp hs
      split at hs
      · exact clock_hold hs
      · exact clock_atStage hs
  | vTaskDelayUntil n => exact clock_hold (Option.ite_none_right_eq_some.mp hs).2
  | xTaskGetTickCount =>
      obtain ⟨-, hs⟩ := Option.ite_none_right_eq_some.mp hs
      obtain ⟨c, -, rfl⟩ := Option.map_eq_some_iff.mp hs
      rfl
  | vTaskSuspend handle =>
      obtain ⟨-, hs⟩ := Option.ite_none_right_eq_some.mp hs
      obtain ⟨t, -, -, ⟨-, rfl⟩ | ⟨-, rfl⟩⟩ := suspend_eq hs <;> rfl
  | vTaskResume t =>
      obtain ⟨-, hs⟩ := Option.ite_none_right_eq_some.mp hs
      obtain ⟨-, c, -, ⟨-, -, -, hs⟩ | ⟨-, -, -, rfl⟩ | rfl⟩ := resume_eq hs
      · exact (clock_dispatch hs).trans rfl
      · rfl
      · rfl
  | vTaskPrioritySet handle n =>
      obtain ⟨-, hs⟩ := Option.ite_none_right_eq_some.mp hs
      obtain ⟨t, -, ⟨-, s₁, hs₁, hs⟩ | rfl⟩ := setPriority_eq hs
      · have hsame : s₁.clock = s.clock := by
          rcases prioritise_eq hs₁ with ⟨-, rfl⟩ | ⟨-, rfl⟩ <;> rfl
        rcases hs with hs | ⟨-, rfl⟩
        · exact (clock_dispatch hs).trans hsame
        · exact hsame
      · rfl

theorem clock_step_le (hg : s.Good) (hs : s.step action = some s') :
    s'.clock ≤ s.clock + if action = .vTick then 1 else 0 := by
  split
  · rename_i htick
    subst htick
    exact (clock_tick (Option.ite_none_right_eq_some.mp hs).2).1
  · exact (clock_step_of_ne hg ‹_› hs).le

theorem clock_step (hg : s.Good) (hcounted : Counted s action) (hs : s.step action = some s') :
    s'.clock = s.clock + if action = .vTick then 1 else 0 := by
  split
  · rename_i htick
    subst htick
    exact (clock_tick (Option.ite_none_right_eq_some.mp hs).2).2 (hcounted rfl)
  · exact clock_step_of_ne hg ‹_› hs

/-- Time passes with the tick interrupt, and with nothing else. -/
theorem clock_run (hg : s.Good) {actions : List (Action T)}
    (hcounted : Along (fun s action s' => s.step action = some s') Counted s actions)
    (hs : s.run actions = some s') : s'.clock = s.clock + actions.count .vTick := by
  induction actions generalizing s with
  | nil =>
      obtain rfl := Option.some.inj hs
      rfl
  | cons action actions ih =>
      obtain ⟨s₁, hs₁, hs⟩ := Option.bind_eq_some_iff.mp hs
      rw [ih (hg.step hs₁) (hcounted.2 s₁ hs₁) hs, clock_step hg hcounted.1 hs₁, List.count_cons]
      by_cases htick : action = .vTick
      · simp only [htick, if_true, beq_self_eq_true]
        omega
      · simp [htick]

/-! ## Delays -/

/-- The task is left alone, and calls no function. -/
def Undisturbed (t : T) (s : Schedule T) (action : Action T) : Prop :=
  action ≠ .vTaskSuspend (some t) ∧ (s.current = some t → action = .vTick ∨ action = .proceed)

instance (t : T) (s : Schedule T) (action : Action T) : Decidable (Undisturbed t s action) :=
  inferInstanceAs (Decidable (_ ∧ _))

namespace Undisturbed

omit [DecidableEq T] in
theorem unsuspended (h : Undisturbed t s action) : Unsuspended t s action := by
  rintro handle rfl ht
  cases handle with
  | none => exact absurd (h.2 ht) (by simp)
  | some u =>
      obtain rfl := Option.some.inj ht
      exact h.1 rfl

omit [DecidableEq T] in
theorem not_calls (h : Undisturbed t s action) (stage : Stage T) : ¬ Calls s action t stage := by
  rintro ⟨-, hcurrent, hcall⟩
  rcases h.2 hcurrent with rfl | rfl <;> simp at hcall

end Undisturbed

/-- In `vTaskDelay`, up to the time when the task is on a delayed list. -/
structure Delaying (s : Schedule T) (t : T) (n : PortTickType) (w : ℕ) : Prop where
  current : s.current = some t
  stage : s.stage t = .delay n
  held : s.held = true
  wake : s.now + n.toNat = w

/-- The task is on its way to sleep until `w`, or has been there. -/
def Delayed (s : Schedule T) (t : T) (n : PortTickType) (w : ℕ) : Prop :=
  s.Delaying t n w ∨ (s.SleepsUntil t w ∧ (s.stage t).beforeSleep = false)

theorem Delayed.step {n : PortTickType} (h : s.Delayed t n w) (htidy : s.Tidy) (hg : s.Good)
    (hundisturbed : Undisturbed t s action) (hs : s.step action = some s') :
    s'.Delayed t n w := by
  rcases h with h | ⟨hsleeps, hstage⟩
  · rcases hundisturbed.2 h.current with rfl | rfl
    · obtain ⟨-, hs⟩ := Option.ite_none_right_eq_some.mp hs
      rcases tick_eq hs with ⟨-, rfl⟩ | ⟨hfree, -⟩
      · exact .inl ⟨h.current, h.stage, h.held, h.wake⟩
      · exact absurd (h.held.symm.trans hfree) (by simp)
    · obtain ⟨-, hs⟩ := Option.ite_none_right_eq_some.mp hs
      rw [Schedule.proceed, h.current] at hs
      simp only [Option.bind_eq_bind, Option.bind_some, h.stage] at hs
      obtain ⟨c, hc, -, rfl⟩ := sleepUntil_eq hs
      obtain rfl := Option.some.inj (h.current.symm.trans hc)
      have hn : 0 < n.toNat := by
        simpa [BitVec.lt_def] using hg.staged.delay t n h.stage
      refine .inr ⟨.inl ⟨(List.mem_orderedInsert _).mpr (.inl rfl), ?_, ?_⟩, ?_⟩
      · exact (Function.update_self _ _ _).trans h.wake
      · rw [← h.wake]
        exact Nat.lt_add_of_pos_right hn
      · simp [Stage.beforeSleep]
  · exact .inr (hsleeps.step htidy hg hstage hundisturbed.unsuspended hundisturbed.not_calls hs)

theorem Delayed.run {n : PortTickType} (h : s.Delayed t n w) (htidy : s.Tidy) (hg : s.Good)
    {actions : List (Action T)}
    (hundisturbed : Along (fun s action s' => s.step action = some s') (Undisturbed t) s actions)
    (hs : s.run actions = some s') : s'.Delayed t n w := by
  have hkeep := (Runs.of_foldlM hs).invariant_of_along
    (P := fun s => s.Delayed t n w ∧ s.Tidy ∧ s.Good) (c := Undisturbed t)
    (fun _ _ _ h hc hs => ⟨h.1.step h.2.1 h.2.2 hc hs, h.2.1.step hs, h.2.2.step hs⟩) hundisturbed
    ⟨h, htidy, hg⟩
  exact hkeep.1

theorem delaying_of_step {n : PortTickType} (hcurrent : s.current = some t)
    (hn : 0 < n) (hs : s.step (.vTaskDelay n) = some s') : s'.Delaying t n (s.now + n.toNat) := by
  obtain ⟨-, hs⟩ := Option.ite_none_right_eq_some.mp hs
  rw [if_pos hn] at hs
  obtain ⟨c, hc, rfl⟩ := hold_eq hs
  obtain rfl := Option.some.inj (hcurrent.symm.trans hc)
  exact ⟨hc, by simp, rfl, rfl⟩

end Schedule

/-- From a call in a task's own code to a moment when the scheduler is not suspended. -/
theorem Reached.now_run (h : Reached k s) (hown : s.ownCode) (haction : action ≠ .vTick)
    {s₁ : Schedule T} (hs₁ : s.step action = some s₁) {actions : List (Action T)}
    (hcounted : Along (fun s action s' => s.step action = some s') Schedule.Counted s₁ actions)
    (hs' : s₁.run actions = some s') (hheld : s'.held = false) :
    s'.now = s.now + actions.count .vTick := by
  have hg₁ := h.good.step hs₁
  have hg' := hg₁.run hs'
  have hclock := Schedule.clock_run hg₁ hcounted hs'
  rw [Schedule.clock_step_of_ne h.good haction hs₁, Schedule.clock, Schedule.clock,
    (h.good.own hown).1.missed, hg'.staged.missed (hg'.staged.ticked hheld)] at hclock
  exact hclock

theorem Reached.not_held (h : Reached k s) (hfree : k.uxSchedulerSuspended = 0) :
    s.held = false := by
  by_contra hheld
  simp [h.schedulerSuspended, hheld] at hfree

/-- Up to the time when a task wakes it is on a delayed list, and then it is ready. -/
theorem Reached.container_of_sleepsUntil (h : Reached k s) (hsleeps : s.SleepsUntil t w) :
    if s.now < w then
      k.lists.pvContainer t = some k.pxDelayedTaskList ∨
        k.lists.pvContainer t = some k.pxOverflowDelayedTaskList
    else k.lists.pvContainer t = some (.pxReadyTasksLists (k.uxPriority t)) := by
  rcases hsleeps with ⟨hmem, -, hearly⟩ | ⟨hmem, hlate⟩
  · rw [if_pos hearly]
    exact h.container_sleeping hmem
  · rw [if_neg (Nat.not_lt_of_le hlate), h.uxPriority]
    exact h.container_ready hmem

/-- After `vTaskDelay` the task is on a delayed list until as many ticks have come as it has asked
for, and from then on it is ready, unless the counter of missed ticks overflows. -/
theorem vTaskDelay_exact (h : Reached k s) {n : PortTickType} (hn : 0 < n)
    (hcurrent : k.pxCurrentTCB = some t) {s₁ : Schedule T}
    (hs₁ : s.step (.vTaskDelay n) = some s₁) {actions : List (Action T)}
    (hundisturbed : Along (fun s action s' => s.step action = some s') (Schedule.Undisturbed t) s₁
      actions)
    (hcounted : Along (fun s action s' => s.step action = some s') Schedule.Counted s₁ actions)
    (hs' : s₁.run actions = some s') :
    ∃ k', k.run (.vTaskDelay n :: actions) = some k' ∧ (k'.uxSchedulerSuspended = 0 →
      if actions.count .vTick < n.toNat then
        k'.lists.pvContainer t = some k'.pxDelayedTaskList ∨
          k'.lists.pvContainer t = some k'.pxOverflowDelayedTaskList
      else k'.lists.pvContainer t = some (.pxReadyTasksLists (k'.uxPriority t))) := by
  have hrun : s.run (.vTaskDelay n :: actions) = some s' := (bind_of_eq_some hs₁ _).trans hs'
  obtain ⟨k', hk', h'⟩ := h.run _ s' hrun
  refine ⟨k', hk', fun hfree => ?_⟩
  have hheld := h'.not_held hfree
  have hdelaying := Schedule.delaying_of_step (h.currentTCB.symm.trans hcurrent) hn hs₁
  have hown : s.ownCode := (Option.ite_none_right_eq_some.mp hs₁).1
  have hdelayed := Schedule.Delayed.run (.inl hdelaying) (h.tidy.step hs₁) (h.good.step hs₁)
    hundisturbed hs'
  have hnow := h.now_run hown (by simp) hs₁ hcounted hs' hheld
  rcases hdelayed with hstill | ⟨hsleeps, -⟩
  · exact absurd (hstill.held.symm.trans hheld) (by simp)
  · simpa only [hnow, Nat.add_lt_add_iff_left] using h'.container_of_sleepsUntil hsleeps

/-- A tick is missed, and one comes later: the task is ready again. -/
theorem vTaskDelay_exact_stale : ∃ k k' : Kernel (Memory ListId (Fin 3)) (Fin 3),
    (Kernel.powerOn stale (fun _ => 7) fun _ => 3).run
      [.xTaskCreate 1 2, .vTaskStartScheduler 0, .vTick] = some k ∧
    k.run [.vTaskDelay 2, .vTick, .proceed, .proceed, .vTick] = some k' ∧
      (k'.uxSchedulerSuspended = 0 →
        k'.lists.pvContainer 1 = some (.pxReadyTasksLists (k'.uxPriority 1))) := by
  have hrun : ((Schedule.powerOn (fun _ => 7) fun t : Fin 3 => (3 : PortTickType).toNat).run
      [.xTaskCreate 1 2, .vTaskStartScheduler 0, .vTick]).any (fun s =>
        decide (s.current = some 1) && (s.step (.vTaskDelay 2)).any fun s₁ =>
          decide (Along (fun (s : Schedule (Fin 3)) action s' => s.step action = some s')
            (Schedule.Undisturbed 1) s₁ [.vTick, .proceed, .proceed, .vTick] ∧
              Along (fun (s : Schedule (Fin 3)) action s' => s.step action = some s')
                Schedule.Counted s₁ [.vTick, .proceed, .proceed, .vTick]) &&
              (s₁.run [.vTick, .proceed, .proceed, .vTick]).isSome) = true := by decide
  obtain ⟨s, hs, hdelay⟩ := (Option.any_eq_true _ _).mp hrun
  obtain ⟨hcurrent, hdelay⟩ := Bool.and_eq_true_iff.mp hdelay
  obtain ⟨s₁, hs₁, hrest⟩ := (Option.any_eq_true _ _).mp hdelay
  obtain ⟨halong, hsome⟩ := Bool.and_eq_true_iff.mp hrest
  obtain ⟨s', hs'⟩ := Option.isSome_iff_exists.mp hsome
  obtain ⟨k, hk, hreached⟩ := Reached.of_run stale hs
  obtain ⟨hundisturbed, hcounted⟩ := of_decide_eq_true halong
  obtain ⟨k', hk', hready⟩ := vTaskDelay_exact hreached (by decide)
    (hreached.currentTCB.trans (of_decide_eq_true hcurrent)) hs₁ hundisturbed hcounted hs'
  exact ⟨k, k', hk, hk', hready⟩

/-! ## Periods -/

/-- The action asks for a time to wake that is counted from the last one. -/
def Action.delaysUntil : Action T → Bool
  | .vTaskDelayUntil _ => true
  | _ => false

/-- What a task of period `n` may call. -/
def Action.keepsPeriod (n : PortTickType) : Action T → Bool
  | .vTaskSuspend none | .xTaskGetTickCount | .vTaskDelay _ => false
  | .vTaskDelayUntil m => m = n
  | _ => true

namespace Schedule

/-- The task is not suspended, and waits with `vTaskDelayUntil` and its period only. -/
def Periodic (t : T) (n : PortTickType) (s : Schedule T) (action : Action T) : Prop :=
  action ≠ .vTaskSuspend (some t) ∧ (s.current = some t → action.keepsPeriod n)

instance (t : T) (n : PortTickType) (s : Schedule T) (action : Action T) :
    Decidable (Periodic t n s action) := inferInstanceAs (Decidable (_ ∧ _))

/-- How often the task calls `vTaskDelayUntil` in a run. -/
def delayUntils (t : T) : Schedule T → List (Action T) → ℕ
  | _, [] => 0
  | s, action :: actions =>
    (if s.current = some t ∧ action.delaysUntil then 1 else 0) +
      match s.step action with
      | some s => delayUntils t s actions
      | none => 0

/-- In `vTaskDelayUntil`, up to the time when the task sleeps or has found that it is late. -/
structure BeforeWake (s : Schedule T) (t : T) (n : PortTickType) (w : ℕ) : Prop where
  current : s.current = some t
  stage : s.stage t = .delayUntil n
  held : s.held = true
  wake : s.lastWake t + n.toNat = w

/-- The last time to wake is `w`, or will be. -/
def WakesAt (s : Schedule T) (t : T) (n : PortTickType) (w : ℕ) : Prop :=
  s.BeforeWake t n w ∨
    (s.lastWake t = w ∧ s.SleepsUntil t w ∧ (s.stage t).beforeSleep = false)

omit [DecidableEq T] in
theorem Periodic.unsuspended {n : PortTickType} (h : Periodic t n s action) :
    Unsuspended t s action := by
  rintro handle rfl ht
  cases handle with
  | none => exact absurd (h.2 ht) (by simp [Action.keepsPeriod])
  | some u =>
      obtain rfl := Option.some.inj ht
      exact h.1 rfl

/-- Only the task itself moves its time to wake. -/
theorem lastWake_effect (hlook : s₀.current = some t → action ≠ .xTaskGetTickCount)
    (hstage : (s₀.stage t).beforeSleep = false) (he : Effect s₀ action s s') :
    s'.lastWake t = s.lastWake t := by
  cases he with
  | @look u _ hc haction =>
      have hut : t ≠ u := fun hut => hlook (hut ▸ hc) haction
      exact Function.update_of_ne hut _ _
  | @delayUntil u n _ _ _ hu | @late u n _ _ hu =>
      have hut : u ≠ t := ne_of_beforeSleep hstage (by rw [hu]; rfl)
      exact Function.update_of_ne hut.symm _ _
  | dispatch hs =>
      obtain ⟨p, u, rest, -, -, rfl⟩ := dispatch_eq hs
      rfl
  | _ => rfl

/-- Inside the kernel's code a task only goes on, or is interrupted. -/
theorem action_of_stage (hrunning : s.running = true) (hcurrent : s.current = some t)
    (hstage : s.stage t ≠ .own) (hs : s.step action = some s') :
    action = .vTick ∨ action = .proceed := by
  have hown : ¬ s.ownCode := by
    rintro ⟨-, hown⟩
    rw [hcurrent] at hown
    exact hstage (Option.some.inj hown)
  cases action with
  | vTick => exact .inl rfl
  | proceed => exact .inr rfl
  | xTaskCreate | xTaskCreateFails | vTaskStartScheduler => simp [step, hrunning, hown] at hs
  | _ => simp [step, hown] at hs

theorem BeforeWake.step {n : PortTickType} (h : s.BeforeWake t n w) (hg : s.Good)
    (hs : s.step action = some s') : s'.WakesAt t n w := by
  have hrunning : s.running = true := by
    by_contra hstopped
    exact absurd (h.held.symm.trans (hg.stopped (by simpa using hstopped)).2.1) (by simp)
  rcases action_of_stage hrunning h.current (by simp [h.stage]) hs with rfl | rfl
  · obtain ⟨-, hs⟩ := Option.ite_none_right_eq_some.mp hs
    rcases tick_eq hs with ⟨-, rfl⟩ | ⟨hfree, -⟩
    · exact .inl ⟨h.current, h.stage, h.held, h.wake⟩
    · exact absurd (h.held.symm.trans hfree) (by simp)
  · obtain ⟨-, hs⟩ := Option.ite_none_right_eq_some.mp hs
    rw [Schedule.proceed, h.current] at hs
    simp only [Option.bind_eq_bind, Option.bind_some, h.stage] at hs
    obtain ⟨c, hc, -, hs⟩ := delayUntil_eq hs
    obtain rfl := Option.some.inj (h.current.symm.trans hc)
    rw [h.wake] at hs
    rcases hs with ⟨hnow, -, rfl⟩ | ⟨hlate, rfl⟩
    · refine .inr ⟨by simp, .inl ⟨(List.mem_orderedInsert _).mpr (.inl rfl), ?_, hnow⟩, ?_⟩
      · exact Function.update_self _ _ _
      · simp [Stage.beforeSleep]
    · refine .inr ⟨by simp, .inr ⟨?_, hlate⟩, by simp [Stage.beforeSleep]⟩
      exact hg.ranked.here t hc (by simp [h.stage, Stage.awake])

theorem WakesAt.step {n : PortTickType} (h : s.WakesAt t n w) (htidy : s.Tidy) (hg : s.Good)
    (hperiodic : Periodic t n s action) (hs : s.step action = some s') :
    s'.WakesAt t n
      (w + (if s.current = some t ∧ action.delaysUntil then 1 else 0) * n.toNat) := by
  rcases h with h | ⟨hwake, hsleeps, hstage⟩
  · have hcall : ¬ (s.current = some t ∧ action.delaysUntil = true) := by
      rintro ⟨hcurrent, haction⟩
      obtain ⟨m, rfl⟩ : ∃ m, action = .vTaskDelayUntil m := by
        cases action <;> simp [Action.delaysUntil] at haction ⊢
      have hown := (Option.ite_none_right_eq_some.mp hs).1.2
      rw [hcurrent] at hown
      exact absurd (h.stage.symm.trans (Option.some.inj hown)) (by simp)
    rw [if_neg hcall, Nat.zero_mul]
    exact h.step hg hs
  · by_cases hcall : s.current = some t ∧ action.delaysUntil
    · obtain ⟨m, rfl⟩ : ∃ m, action = .vTaskDelayUntil m := by
        have haction := hcall.2
        cases action <;> simp [Action.delaysUntil] at haction ⊢
      obtain rfl : m = n := of_decide_eq_true (hperiodic.2 hcall.1)
      obtain ⟨c, hc, rfl⟩ := hold_eq (Option.ite_none_right_eq_some.mp hs).2
      obtain rfl := Option.some.inj (hcall.1.symm.trans hc)
      rw [if_pos hcall, Nat.one_mul]
      exact .inl ⟨hc, by simp, rfl, by simp [hwake]⟩
    · have hcalls (stage : Stage T) : ¬ Calls s action t stage := by
        rintro ⟨-, hcurrent, ⟨m, rfl, -⟩ | ⟨m, rfl, -⟩⟩
        · exact absurd (hperiodic.2 hcurrent) (by simp [Action.keepsPeriod])
        · exact hcall ⟨hcurrent, rfl⟩
      have hlook : s.current = some t → action ≠ .xTaskGetTickCount := by
        rintro hcurrent rfl
        exact absurd (hperiodic.2 hcurrent) (by simp [Action.keepsPeriod])
      have hsame : s'.lastWake t = s.lastWake t := (Effects.of_step hs).keep
        (P := fun u => u.lastWake t = s.lastWake t)
        (fun _ _ he h => (lastWake_effect hlook hstage he).trans h) rfl
      rw [if_neg hcall, Nat.zero_mul]
      exact .inr ⟨hsame.trans hwake,
        hsleeps.step htidy hg hstage hperiodic.unsuspended hcalls hs⟩

theorem WakesAt.run {n : PortTickType} (h : s.WakesAt t n w) (htidy : s.Tidy) (hg : s.Good)
    {actions : List (Action T)}
    (hperiodic : Along (fun s action s' => s.step action = some s') (Periodic t n) s actions)
    (hs : s.run actions = some s') : s'.WakesAt t n (w + delayUntils t s actions * n.toNat) := by
  induction actions generalizing s w with
  | nil =>
      obtain rfl := Option.some.inj hs
      simpa [delayUntils] using h
  | cons action actions ih =>
      obtain ⟨s₁, hs₁, hs⟩ := Option.bind_eq_some_iff.mp hs
      have h₁ := h.step htidy hg hperiodic.1 hs₁
      have h' := ih h₁ (htidy.step hs₁) (hg.step hs₁) (hperiodic.2 s₁ hs₁) hs
      rw [Nat.add_assoc, ← Nat.add_mul] at h'
      simpa only [delayUntils, hs₁] using h'

end Schedule

/-- Since it has read the tick count, a periodic task is on a delayed list until the ticks of as
many periods have come as it has called `vTaskDelayUntil`, and from then on it is ready: it does
not drift, unless the counter of missed ticks overflows. -/
theorem vTaskDelayUntil_periodic (h : Reached k s) {n : PortTickType}
    (hcurrent : k.pxCurrentTCB = some t) {s₁ : Schedule T}
    (hs₁ : s.step .xTaskGetTickCount = some s₁) {actions : List (Action T)}
    (hperiodic : Along (fun s action s' => s.step action = some s') (Schedule.Periodic t n) s₁
      actions)
    (hcounted : Along (fun s action s' => s.step action = some s') Schedule.Counted s₁ actions)
    (hs' : s₁.run actions = some s') :
    ∃ k', k.run (.xTaskGetTickCount :: actions) = some k' ∧ (k'.uxSchedulerSuspended = 0 →
      k'.xPreviousWakeTime t = k.xTickCount +
          BitVec.ofNat 32 (Schedule.delayUntils t s₁ actions * n.toNat) ∧
        if actions.count .vTick < Schedule.delayUntils t s₁ actions * n.toNat then
          k'.lists.pvContainer t = some k'.pxDelayedTaskList ∨
            k'.lists.pvContainer t = some k'.pxOverflowDelayedTaskList
        else k'.lists.pvContainer t = some (.pxReadyTasksLists (k'.uxPriority t))) := by
  have hrun : s.run (.xTaskGetTickCount :: actions) = some s' :=
    (bind_of_eq_some hs₁ _).trans hs'
  obtain ⟨k', hk', h'⟩ := h.run _ s' hrun
  refine ⟨k', hk', fun hfree => ?_⟩
  have hheld := h'.not_held hfree
  obtain ⟨hown, hlook⟩ := Option.ite_none_right_eq_some.mp hs₁
  obtain ⟨c, hc, rfl⟩ := Option.map_eq_some_iff.mp hlook
  obtain rfl := Option.some.inj (hc.symm.trans (h.currentTCB.symm.trans hcurrent))
  obtain ⟨-, d, hd, hstage⟩ := h.good.own hown
  obtain rfl := Option.some.inj (hc.symm.trans hd)
  have hnow := h.now_run hown (by simp) hs₁ hcounted hs' hheld
  have hfirst : Schedule.WakesAt { s with lastWake := Function.update s.lastWake c s.now } c n
      s.now := by
    refine .inr ⟨by simp, .inr ⟨?_, le_rfl⟩, by simp [hstage, Stage.beforeSleep]⟩
    exact h.good.ranked.here c hc (by simp [hstage, Stage.awake])
  have hwakes := hfirst.run (h.tidy.step hs₁) (h.good.step hs₁) hperiodic hs'
  rcases hwakes with hstill | ⟨hwake, hsleeps, -⟩
  · exact absurd (hstill.held.symm.trans hheld) (by simp)
  · refine ⟨?_, ?_⟩
    · rw [h'.previousWakeTime, hwake, h.tickCount]
      exact BitVec.ofNat_add _ _
    · simpa only [hnow, Nat.add_lt_add_iff_left] using h'.container_of_sleepsUntil hsleeps

/-- A task of period 2 is late once, and waits for the second time to wake. -/
theorem vTaskDelayUntil_periodic_stale : ∃ k k' : Kernel (Memory ListId (Fin 3)) (Fin 3),
    (Kernel.powerOn stale (fun _ => 7) fun _ => 3).run
      [.xTaskCreate 1 2, .vTaskStartScheduler 0, .vTick] = some k ∧
    k.run [.xTaskGetTickCount, .vTick, .vTick, .vTick, .vTaskDelayUntil 2, .proceed, .proceed,
      .proceed, .vTaskDelayUntil 2, .proceed, .proceed, .proceed] = some k' ∧
      (k'.uxSchedulerSuspended = 0 → k'.xPreviousWakeTime 1 = k.xTickCount + 4 ∧
        (k'.lists.pvContainer 1 = some k'.pxDelayedTaskList ∨
          k'.lists.pvContainer 1 = some k'.pxOverflowDelayedTaskList)) := by
  have hrun : ((Schedule.powerOn (fun _ => 7) fun t : Fin 3 => (3 : PortTickType).toNat).run
      [.xTaskCreate 1 2, .vTaskStartScheduler 0, .vTick]).any (fun s =>
        decide (s.current = some 1) && (s.step .xTaskGetTickCount).any fun s₁ =>
          decide (Along (fun (s : Schedule (Fin 3)) action s' => s.step action = some s')
            (Schedule.Periodic 1 2) s₁ [.vTick, .vTick, .vTick, .vTaskDelayUntil 2, .proceed,
              .proceed, .proceed, .vTaskDelayUntil 2, .proceed, .proceed, .proceed] ∧
            Along (fun (s : Schedule (Fin 3)) action s' => s.step action = some s')
              Schedule.Counted s₁ [.vTick, .vTick, .vTick, .vTaskDelayUntil 2, .proceed,
                .proceed, .proceed, .vTaskDelayUntil 2, .proceed, .proceed, .proceed]) &&
          decide (Schedule.delayUntils 1 s₁ [.vTick, .vTick, .vTick, .vTaskDelayUntil 2, .proceed,
              .proceed, .proceed, .vTaskDelayUntil 2, .proceed, .proceed, .proceed] = 2) &&
          (s₁.run [.vTick, .vTick, .vTick, .vTaskDelayUntil 2, .proceed, .proceed, .proceed,
            .vTaskDelayUntil 2, .proceed, .proceed, .proceed]).isSome) = true := by decide
  obtain ⟨s, hs, hdelay⟩ := (Option.any_eq_true _ _).mp hrun
  obtain ⟨hcurrent, hdelay⟩ := Bool.and_eq_true_iff.mp hdelay
  obtain ⟨s₁, hs₁, hrest⟩ := (Option.any_eq_true _ _).mp hdelay
  obtain ⟨hrest, hsome⟩ := Bool.and_eq_true_iff.mp hrest
  obtain ⟨halong, htwo⟩ := Bool.and_eq_true_iff.mp hrest
  obtain ⟨hperiodic, hcounted⟩ := of_decide_eq_true halong
  obtain ⟨s', hs'⟩ := Option.isSome_iff_exists.mp hsome
  obtain ⟨k, hk, hreached⟩ := Reached.of_run stale hs
  obtain ⟨k', hk', hgrid⟩ := vTaskDelayUntil_periodic hreached
    (hreached.currentTCB.trans (of_decide_eq_true hcurrent)) hs₁ hperiodic hcounted hs'
  rw [of_decide_eq_true htwo] at hgrid
  exact ⟨k, k', hk, hk', hgrid⟩

end RealTime.FreeRtos
