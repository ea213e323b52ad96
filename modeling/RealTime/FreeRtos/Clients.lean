import RealTime.FreeRtos.Progress

/-! # Programs that pause

What the kernel promises to a program whose tasks block with `vTaskDelay` only. -/

namespace RealTime.FreeRtos

open Transition

variable {T : Type} [DecidableEq T] {k : Kernel (Memory ListId T) T} {s s' : Schedule T}
  {t c : T} {action : Action T}

/-- The priority that a task is created with, and the ticks that it delays for. -/
structure Workload (T : Type) where
  idle : T
  uxPriority : T → Priority
  xDelay : T → PortTickType

variable {p : Workload T}

theorem Reached.step (h : Reached k s) (hs : s.step action = some s') :
    ∃ k', k.step action = some k' ∧ Reached k' s' := by
  obtain ⟨k', hk', h'⟩ := h.run [action] s' (bind_of_eq_some hs _)
  obtain ⟨k₁, hk₁, hsame⟩ := Option.bind_eq_some_iff.mp hk'
  obtain rfl := Option.some.inj hsame
  exact ⟨k₁, hk₁, h'⟩

theorem Reached.schedulerRunning (h : Reached k s) : k.xSchedulerRunning = s.running := by
  obtain ⟨k', hk', hcore⟩ := h.follows.core
  rw [hk', hcore.running]

/-- The action leaves every task awake or asleep as it is. -/
def Action.harmless : Action T → Bool
  | .vTick | .proceed | .taskYIELD | .xTaskGetTickCount => true
  | _ => false

namespace Schedule

omit [DecidableEq T] in
theorem creates_eq_none (hrunning : s.running = true) (hno : ∀ t, (s.stage t).creation = false)
    (action : Action T) : s.creates action = none := by
  refine Option.eq_none_iff_forall_ne_some.mpr fun t hcreates => ?_
  obtain ⟨-, c, n, -, hstage⟩ := creates_running hrunning hcreates
  have hcreation := hno c
  rw [hstage] at hcreation
  cases hcreation

/-- Where no task is inside `xTaskGenericCreate`, only a call brings one there. -/
theorem creation_step (hno : ∀ t, (s.stage t).creation = false)
    (hstarts : action.startsCreation = false) (hs : s.step action = some s') (t : T) :
    (s'.stage t).creation = false := by
  have henters (stage : Stage T) (h : Enters s action t stage) : stage.creation = false := by
    rcases h with hmem | ⟨-, -, ⟨n, -, rfl⟩ | ⟨n, -, rfl⟩⟩ | ⟨-, hbefore⟩
    · have hnone : ∀ r ∈ [(.own : Stage T), .yield, .resume], r.creation = false := by
        simp [Stage.creation]
      exact hnone _ hmem
    · rfl
    · rfl
    · simp [hstarts, hno t] at hbefore
  exact (Effects.of_step hs).keep (P := fun u => (u.stage t).creation = false)
    (fun _ _ he h => he.stage (Q := fun stage => stage.creation = false) henters h) (hno t)

/-- Priorities are given by a call. -/
theorem priority_step (hcreates : s.creates action = none)
    (hset : ∀ handle n, action ≠ .vTaskPrioritySet handle n) (hs : s.step action = some s') :
    s'.priority = s.priority := by
  refine (Effects.of_step hs).keep (P := fun u => u.priority = s.priority) ?_ rfl
  intro u u' he h
  cases he with
  | introduce haction => exact absurd (haction.symm.trans hcreates) (by simp)
  | requeue _ haction => exact absurd haction (hset _ _)
  | prioritise _ haction => exact absurd haction (hset _ _)
  | dispatch hs =>
      obtain ⟨p, t, rest, -, -, rfl⟩ := dispatch_eq hs
      exact h
  | _ => exact h

end Schedule

/-! ## Before the scheduler runs -/

structure Setup (p : Workload T) (k : Kernel (Memory ListId T) T) (s : Schedule T) : Prop where
  reached : Reached k s
  stopped : s.running = false
  priority : ∀ t ∈ s.created, s.priority t = p.uxPriority t
  ready : ∀ t ∈ s.created, t ∈ s.ready (s.priority t)

namespace Setup

theorem powerOn (p : Workload T) (m : Memory ListId T) (uxPriority : T → Priority)
    (xPreviousWakeTime : T → PortTickType) :
    Setup p (Kernel.powerOn m uxPriority xPreviousWakeTime)
      (Schedule.powerOn uxPriority fun t => (xPreviousWakeTime t).toNat) :=
  ⟨⟨m, uxPriority, xPreviousWakeTime, [], rfl, rfl⟩, rfl, by simp [Schedule.powerOn],
    by simp [Schedule.powerOn]⟩

theorem not_placed (h : Setup p k s) (ht : t ∉ s.created) : ¬ s.placed t := by
  rw [Schedule.placed_iff, h.reached.tidy.once, List.count_eq_zero_of_not_mem ht]
  exact Nat.lt_irrefl 0

theorem add_eq (h : Setup p k s) (ht : t ∉ s.created) (n : ℕ) :
    s.add t n = some (s.introduce t n) := if_neg (h.not_placed ht)

/-- The tasks that there are stay where they are. -/
theorem introduce (h : Setup p k s) {n : ℕ} (hn : Kernel.cappedPriority n = p.uxPriority t) :
    ∀ u ∈ t :: s.created, (s.introduce t n).priority u = p.uxPriority u ∧
      u ∈ (s.introduce t n).ready ((s.introduce t n).priority u) := by
  intro u hu
  rw [Schedule.priority_introduce]
  by_cases hut : u = t
  · subst hut
    rw [Function.update_self, Schedule.ready_introduce, if_pos rfl]
    exact ⟨hn, by simp⟩
  · have hmem : u ∈ s.created := (List.mem_cons.mp hu).resolve_left hut
    rw [Function.update_of_ne hut, Schedule.ready_introduce]
    refine ⟨h.priority u hmem, ?_⟩
    split
    · exact List.mem_append_left _ (h.ready u hmem)
    · exact h.ready u hmem

theorem create (h : Setup p k s) (ht : t ∉ s.created) {n : ℕ}
    (hn : Kernel.cappedPriority n = p.uxPriority t) :
    ∃ k' s', k.step (.xTaskCreate t n) = some k' ∧ Setup p k' s' ∧
      s'.created = t :: s.created := by
  have hs : s.step (.xTaskCreate t n) = some (s.introduce t n) := by
    refine (if_pos (.inl h.stopped)).trans ?_
    rw [Schedule.create, if_neg (by simp [h.stopped])]
    exact h.add_eq ht n
  obtain ⟨k', hk', h'⟩ := h.reached.step hs
  exact ⟨k', _, hk', ⟨h', h.stopped, fun u hu => (h.introduce hn u hu).1,
    fun u hu => (h.introduce hn u hu).2⟩, rfl⟩

end Setup

/-! ## While the scheduler runs -/

/-- `pause t` are the ticks that have come since the task has gone into `vTaskDelay`. -/
structure Clients (p : Workload T) (k : Kernel (Memory ListId T) T) (s : Schedule T)
    (pause : T → Option ℕ) : Prop where
  reached : Reached k s
  alive : s.Alive p.idle
  priority : s.priority = p.uxPriority
  creation : ∀ t, (s.stage t).creation = false
  awake : ∀ t, pause t = none → s.SleepsUntil t 0 ∧ (s.stage t).beforeSleep = false
  asleep : ∀ t ticks, pause t = some ticks →
    ∃ w, s.Delayed t (p.xDelay t) w ∧ s.clock + (p.xDelay t).toNat ≤ w + ticks

theorem Setup.start (h : Setup p k s) (hidle : p.idle ∉ s.created)
    (hpriority : p.uxPriority p.idle = 0) (hall : ∀ t, t = p.idle ∨ t ∈ s.created) :
    ∃ k' s', k.step (.vTaskStartScheduler p.idle) = some k' ∧ Clients p k' s' fun _ => none := by
  have hs : s.step (.vTaskStartScheduler p.idle) =
      some { s.introduce p.idle tskIDLE_PRIORITY with running := true } := by
    refine (if_pos h.stopped).trans ?_
    rw [Schedule.start, h.add_eq hidle]
    rfl
  obtain ⟨k', hk', h'⟩ := h.reached.step hs
  have hrest (u : T) := h.introduce (n := tskIDLE_PRIORITY) (t := p.idle)
    (by rw [hpriority]; rfl) u (List.mem_cons.mpr (hall u))
  have hstage (u : T) : (s.introduce p.idle tskIDLE_PRIORITY).stage u = .own :=
    Schedule.stage_introduce (Q := fun stage => stage = .own) rfl
      ((h.reached.good.stopped h.stopped).2.2 u) _ _
  refine ⟨k', _, hk', h', .start h.reached.good h.reached.tidy hs,
    funext fun u => (hrest u).1, fun u => congrArg Stage.creation (hstage u),
    fun u _ => ⟨.inr ⟨(hrest u).2, Nat.zero_le _⟩, ?_⟩,
    fun u ticks hticks => by cases hticks⟩
  exact (congrArg Stage.beforeSleep (hstage u)).trans rfl

namespace Clients

variable {pause : T → Option ℕ}

/-- A step that sends no task into `vTaskDelay`. -/
theorem step (h : Clients p k s pause) (hharmless : action.harmless = true)
    (hlegal : Schedule.Legal p.idle s action)
    (hcurrent : ∀ t, s.current = some t → pause t ≠ none → action = .vTick ∨ action = .proceed) :
    ∃ k' s', k.step action = some k' ∧ Clients p k' s' fun t =>
      (pause t).map (· + if action = .vTick then 1 else 0) := by
  obtain ⟨s', hs⟩ := h.alive.exists_step hlegal
  obtain ⟨k', hk', h'⟩ := h.reached.step hs
  have hsuspend (handle : Option T) : action ≠ .vTaskSuspend handle := by
    rintro rfl
    cases hharmless
  have hcalls (t : T) (stage : Stage T) : ¬ Calls s action t stage := by
    rintro ⟨-, -, ⟨n, rfl, -⟩ | ⟨n, rfl, -⟩⟩ <;> cases hharmless
  have hpriority : s'.priority = s.priority := by
    refine Schedule.priority_step (Schedule.creates_eq_none h.alive.running h.creation _) ?_ hs
    rintro handle n rfl
    cases hharmless
  have hstarts : action.startsCreation = false := by
    cases action <;> first | rfl | cases hharmless
  refine ⟨k', s', hk', h', h.alive.step hlegal hs, hpriority.trans h.priority,
    Schedule.creation_step h.creation hstarts hs, ?_, ?_⟩
  · intro t ht
    obtain ⟨hsleeps, hstage⟩ := h.awake t (Option.map_eq_none_iff.mp ht)
    exact hsleeps.step h.alive.tidy h.alive.good hstage
      (fun handle haction => absurd haction (hsuspend handle)) (hcalls t) hs
  · intro t ticks ht
    obtain ⟨d, hd, rfl⟩ := Option.map_eq_some_iff.mp ht
    obtain ⟨w, hdelayed, hw⟩ := h.asleep t d hd
    have hundisturbed : Schedule.Undisturbed t s action :=
      ⟨hsuspend _, fun hc => hcurrent t hc (by simp [hd])⟩
    refine ⟨w, hdelayed.step h.alive.tidy h.alive.good hundisturbed hs, ?_⟩
    have hclock := Schedule.clock_step_le h.alive.good hs
    omega

theorem tick (h : Clients p k s pause) : ∃ k' s', k.step .vTick = some k' ∧
    Clients p k' s' fun t => (pause t).map (· + 1) :=
  h.step rfl trivial fun _ _ _ => .inl rfl

/-- The current task goes on in the kernel's code. -/
theorem proceed (h : Clients p k s pause) (hown : ¬ k.ownCode) :
    ∃ k' s', k.step .proceed = some k' ∧ Clients p k' s' pause := by
  have hlegal : Schedule.Legal p.idle s .proceed := by
    intro c hc
    refine ⟨fun hstage => hown ?_, fun huntil => ?_, fun t ht => ?_⟩
    · refine h.reached.ownCode_iff.mpr ⟨h.alive.running, ?_⟩
      rw [Option.mem_def.mp hc, Option.map_some, hstage]
    · have hbefore : (s.stage c).beforeSleep = false ∨ ∃ n, s.stage c = .delay n := by
        cases hp : pause c with
        | none => exact .inl (h.awake c hp).2
        | some d =>
            obtain ⟨w, hdelaying | ⟨-, hstage⟩, -⟩ := h.asleep c d hp
            · exact .inr ⟨_, hdelaying.stage⟩
            · exact .inl hstage
      cases hstage : s.stage c <;>
        simp [hstage, Stage.beforeSleep, Stage.isDelayUntil] at hbefore huntil
    · have hadds : s.creates .proceed = some t := by
        rw [Schedule.creates, if_pos h.alive.running]
        exact Option.bind_eq_some_iff.mpr ⟨c, hc, ht⟩
      have hnone := Schedule.creates_eq_none h.alive.running h.creation .proceed
      exact absurd (hadds.symm.trans hnone) (by simp)
  obtain ⟨k', s', hk', h'⟩ := h.step rfl hlegal fun _ _ _ => .inr rfl
  exact ⟨k', s', hk', by simpa using h'⟩

theorem current_own (h : Clients p k s pause) (hown : k.ownCode)
    (hcurrent : k.pxCurrentTCB = some c) :
    s.ownCode ∧ s.current = some c ∧ s.stage c = .own ∧ c ∈ s.ready (s.priority c) := by
  have hown' := h.reached.ownCode_iff.mp hown
  obtain ⟨-, d, hd, hstage⟩ := h.alive.good.own hown'
  have hc : s.current = some c := h.reached.currentTCB.symm.trans hcurrent
  obtain rfl := Option.some.inj (hd.symm.trans hc)
  exact ⟨hown', hc, hstage,
    h.alive.good.ranked.here _ hc (by rw [hstage]; rfl)⟩

/-- A task calls a function that does not block. -/
theorem call (h : Clients p k s pause) (hown : k.ownCode) (hcurrent : k.pxCurrentTCB = some c)
    (hpause : pause c = none) (haction : action = .taskYIELD ∨ action = .xTaskGetTickCount) :
    ∃ k' s', k.step action = some k' ∧ Clients p k' s' pause := by
  obtain ⟨hown', hc, -, -⟩ := h.current_own hown hcurrent
  have hnever (t : T) (ht : s.current = some t) : pause t = none := by
    obtain rfl := Option.some.inj (ht.symm.trans hc)
    exact hpause
  have hlegal : Schedule.Legal p.idle s action := by
    rcases haction with rfl | rfl <;> exact hown'
  have hharmless : action.harmless = true ∧ action ≠ .vTick := by
    rcases haction with rfl | rfl <;> exact ⟨rfl, by simp⟩
  obtain ⟨k', s', hk', h'⟩ := h.step hharmless.1 hlegal fun t ht hne => absurd (hnever t ht) hne
  exact ⟨k', s', hk', by simpa [hharmless.2] using h'⟩

/-- A task goes into `vTaskDelay`. -/
theorem delay (h : Clients p k s pause) (hown : k.ownCode) (hcurrent : k.pxCurrentTCB = some c)
    (hidle : c ≠ p.idle) (hpositive : 0 < p.xDelay c) (hpause : pause c = none) (ticks : ℕ) :
    ∃ k' s', k.step (.vTaskDelay (p.xDelay c)) = some k' ∧
      Clients p k' s' (Function.update pause c (some ticks)) := by
  obtain ⟨hown', hc, -, -⟩ := h.current_own hown hcurrent
  have hlegal : Schedule.Legal p.idle s (.vTaskDelay (p.xDelay c)) :=
    ⟨hown', fun hcidle => hidle (Option.some.inj (hc.symm.trans hcidle))⟩
  obtain ⟨s', hs⟩ := h.alive.exists_step hlegal
  obtain ⟨k', hk', h'⟩ := h.reached.step hs
  have hcreates := Schedule.creates_eq_none h.alive.running h.creation (.vTaskDelay (p.xDelay c))
  have hclock := Schedule.clock_step_of_ne h.alive.good (by simp) hs
  refine ⟨k', s', hk', h', h.alive.step hlegal hs,
    (Schedule.priority_step hcreates (by simp) hs).trans h.priority,
    Schedule.creation_step h.creation rfl hs, ?_, ?_⟩
  · intro t ht
    have htc : t ≠ c := by
      rintro rfl
      simp at ht
    rw [Function.update_of_ne htc] at ht
    obtain ⟨hsleeps, hstage⟩ := h.awake t ht
    refine hsleeps.step h.alive.tidy h.alive.good hstage (by simp [Schedule.Unsuspended]) ?_ hs
    rintro stage ⟨-, hct, -⟩
    exact htc (Option.some.inj (hct.symm.trans hc))
  · intro t d ht
    by_cases htc : t = c
    · subst htc
      refine ⟨_, .inl (Schedule.delaying_of_step hc hpositive hs), ?_⟩
      rw [hclock, Schedule.clock, (h.alive.good.own hown').1.missed]
      simp
    · rw [Function.update_of_ne htc] at ht
      obtain ⟨w, hdelayed, hw⟩ := h.asleep t d ht
      have hundisturbed : Schedule.Undisturbed t s (.vTaskDelay (p.xDelay c)) :=
        ⟨by simp, fun hct => absurd (Option.some.inj (hct.symm.trans hc)) htc⟩
      refine ⟨w, hdelayed.step h.alive.tidy h.alive.good hundisturbed hs, ?_⟩
      rw [hclock]
      exact hw

/-- A task that runs its own code has been in `vTaskDelay` for the ticks it asked for. -/
theorem back (h : Clients p k s pause) (hown : k.ownCode) (hcurrent : k.pxCurrentTCB = some c) :
    (∀ ticks, pause c = some ticks → (p.xDelay c).toNat ≤ ticks) ∧
      Clients p k s (Function.update pause c none) := by
  obtain ⟨-, hc, hstage, hready⟩ := h.current_own hown hcurrent
  refine ⟨fun ticks hpause => ?_, h.reached, h.alive, h.priority, h.creation,
    fun t ht => ?_, fun t d ht => ?_⟩
  · obtain ⟨w, hdelayed, hw⟩ := h.asleep c ticks hpause
    rcases hdelayed with hdelaying | ⟨⟨hmem, -⟩ | ⟨-, hlate⟩, -⟩
    · exact absurd (hdelaying.stage.symm.trans hstage) (by simp)
    · exact absurd hready (h.alive.tidy.not_ready (.inl hmem))
    · simp only [Schedule.clock] at hw
      omega
  · by_cases htc : t = c
    · subst htc
      exact ⟨.inr ⟨hready, Nat.zero_le _⟩, by rw [hstage]; rfl⟩
    · exact h.awake t (by rwa [Function.update_of_ne htc] at ht)
  · have htc : t ≠ c := by
      rintro rfl
      simp at ht
    exact h.asleep t d (by rwa [Function.update_of_ne htc] at ht)

/-- While a task runs its own code, every task of a higher priority is in `vTaskDelay`. -/
theorem paused_of_higher (h : Clients p k s pause) (hown : k.ownCode)
    (hcurrent : k.pxCurrentTCB = some c) (hlt : p.uxPriority c < p.uxPriority t) :
    pause t ≠ none := by
  intro hpause
  obtain ⟨-, hc, hstage, -⟩ := h.current_own hown hcurrent
  rw [← h.priority] at hlt
  rcases (h.awake t hpause).1 with ⟨-, -, hnever⟩ | ⟨hready, -⟩
  · exact absurd hnever (Nat.not_lt_zero _)
  · have hnone := h.alive.good.ranked.higher hc (by simp [hstage]) (by rw [hstage]; rfl) hlt
    rw [hnone] at hready
    cases hready

end Clients

end RealTime.FreeRtos
