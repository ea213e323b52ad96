import RealTime.FreeRtos.Delays

/-! # The kernel never gets stuck

As long as the idle task does not block and the rules of the functions are kept, there is always
a task to run, and no function fails. -/

namespace RealTime.FreeRtos

open Transition

variable {T : Type} [DecidableEq T] {k : Kernel (Memory ListId T) T} {s s' : Schedule T}
  {t idle : T} {action : Action T}

def Stage.isDelayUntil : Stage T → Bool
  | .delayUntil _ => true
  | _ => false

namespace Schedule

/-- The rules for the functions of a kernel that runs. The memory for a new task is not in use. -/
def Legal (idle : T) (s : Schedule T) : Action T → Prop
  | .xTaskCreate _ _ | .xTaskCreateFails _ => s.ownCode
  | .vTaskStartScheduler _ => False
  | .vTick => True
  | .proceed => ∀ c ∈ s.current, s.stage c ≠ .own ∧
    ((s.stage c).isDelayUntil → s.punctual c) ∧ ∀ t ∈ (s.stage c).adds, ¬ s.placed t
  | .taskYIELD | .xTaskGetTickCount => s.ownCode
  | .vTaskDelay _ | .vTaskDelayUntil _ => s.ownCode ∧ s.current ≠ some idle
  | .vTaskSuspend handle => s.ownCode ∧ ∃ t ∈ (handle <|> s.current), s.placed t ∧ t ≠ idle
  | .vTaskResume t => s.ownCode ∧ s.placed t
  | .vTaskPrioritySet handle _ => s.ownCode ∧ ∃ t ∈ (handle <|> s.current), s.placed t

instance (idle : T) (s : Schedule T) : ∀ action, Decidable (Legal idle s action)
  | .xTaskCreate _ _ | .xTaskCreateFails _ => inferInstanceAs (Decidable s.ownCode)
  | .vTaskStartScheduler _ => inferInstanceAs (Decidable False)
  | .vTick => inferInstanceAs (Decidable True)
  | .proceed => inferInstanceAs (Decidable (∀ c ∈ s.current, _))
  | .taskYIELD | .xTaskGetTickCount => inferInstanceAs (Decidable s.ownCode)
  | .vTaskDelay _ | .vTaskDelayUntil _ => inferInstanceAs (Decidable (_ ∧ _))
  | .vTaskSuspend _ => inferInstanceAs (Decidable (_ ∧ ∃ t ∈ _, _))
  | .vTaskResume _ => inferInstanceAs (Decidable (_ ∧ _))
  | .vTaskPrioritySet _ _ => inferInstanceAs (Decidable (_ ∧ ∃ t ∈ _, _))

/-- The idle task is ready and does not block. -/
structure Alive (s : Schedule T) (idle : T) : Prop where
  good : s.Good
  tidy : s.Tidy
  running : s.running = true
  ready : idle ∈ s.ready (s.priority idle)
  stage : (s.stage idle).beforeSleep = false

omit [DecidableEq T] in
/-- There is a task to run as long as one is ready. -/
theorem dispatch_ne_none {p : Priority} (ht : t ∈ s.ready p) : ∃ s', s.dispatch = some s' := by
  have hnonempty (q : Priority) (hq : s.ready q ≠ []) : ∃ u, (s.ready q).head? = some u := by
    obtain ⟨u, rest, hrest⟩ := List.exists_cons_of_ne_nil hq
    exact ⟨u, by rw [hrest]; rfl⟩
  have hsome : (s.highest).isSome := by
    rw [highest, List.find?_isSome]
    exact ⟨p, by simp, by simpa using List.ne_nil_of_mem ht⟩
  obtain ⟨q, hq⟩ := Option.isSome_iff_exists.mp hsome
  have hready : s.ready q ≠ [] := by simpa using List.find?_some hq
  obtain ⟨u, hu⟩ := hnonempty q hready
  exact ⟨_, by rw [dispatch, hq]; simp only [Option.bind_eq_bind, Option.bind_some, hu]; rfl⟩

theorem exists_atStage (s : Schedule T) (hc : s.current ≠ none) (stage : Stage T) :
    ∃ s', s.atStage stage = some s' := by
  obtain ⟨c, hc⟩ := Option.ne_none_iff_exists'.mp hc
  rw [atStage, hc]
  exact ⟨_, rfl⟩

theorem leave_of_placed (h : s.placed t) : s.leave t = some (s.without t) := if_pos h

theorem exists_sleepUntil (s : Schedule T) (hc : s.current = some t) (h : s.placed t) (n : ℕ) :
    ∃ s', (s.sleepUntil n >>= fun s => s.atStage .resume) = some s' := by
  have hsleep : s.sleepUntil n = some ((s.without t).sleep t n) := by
    rw [sleepUntil, hc]
    exact bind_of_eq_some (leave_of_placed h) _
  rw [bind_of_eq_some hsleep]
  exact exists_atStage _ (by simp [sleep, without, hc]) _

namespace Alive

theorem current (h : s.Alive idle) : ∃ c, s.current = some c := by
  refine Option.ne_none_iff_exists'.mp fun hnone => ?_
  exact absurd (h.running.symm.trans (h.good.fresh hnone).2) (by simp)

theorem exists_hold (hheld : s.held = false) (hc : s.current ≠ none) (stage : Stage T) :
    ∃ s', s.hold stage = some s' := by
  rw [hold, if_neg (by simp [hheld])]
  exact exists_atStage { s with held := true } hc _

/-- The scheduler is resumed. -/
theorem exists_resumed (h : s.Alive idle) {c : T} (hc : s.current = some c)
    (next : Bool → Stage T) : ∃ s', s.resumed next = some s' := by
  have hready : idle ∈ (advance { s with held := false, missed := 0, ticked := false }
      s.missed.toNat).ready (s.priority idle) := List.mem_append_left _ h.ready
  obtain ⟨s₁, hs₁⟩ := dispatch_ne_none hready
  have hrelease : ∃ r, s.release = some r := by
    rw [release]
    split
    · exact ⟨_, by rw [hs₁]; rfl⟩
    · exact ⟨_, rfl⟩
  obtain ⟨r, hr⟩ := hrelease
  rw [resumed, hc]
  exact ⟨_, bind_of_eq_some hr _⟩

/-- The creation of a task goes on. -/
theorem exists_goOn {c : T} (hc : s.current = some c) (hheld : s.held = false)
    {next : Creation T} (hadds : ∀ t ∈ (Stage.create next).adds, ¬ s.placed t) :
    ∃ s', s.goOn next = some s' := by
  have hsome : s.current ≠ none := by simp [hc]
  cases next with
  | mallocStack | noStack | freeTCB => exact exists_hold hheld hsome _
  | addTask t n =>
      have hadd : s.add t n = some (s.introduce t n) := if_neg (hadds t rfl)
      rw [goOn, bind_of_eq_some hadd]
      exact exists_atStage _ (by simp [introduce, Schedule.enqueue]) _
  | testPriority n =>
      rw [goOn, bind_of_eq_some hc]
      exact exists_atStage _ hsome _
  | done => exact exists_atStage _ hsome _

/-- The current task goes on in the kernel's code. -/
theorem exists_proceed (h : s.Alive idle) {c : T} (hc : s.current = some c)
    (hstage : s.stage c ≠ .own) (hpunctual : (s.stage c).isDelayUntil → s.punctual c)
    (hadds : ∀ t ∈ (s.stage c).adds, ¬ s.placed t) : ∃ s', s.proceed = some s' := by
  rw [proceed, hc]
  simp only [Option.bind_eq_bind, Option.bind_some]
  have hplaced (hawake : (s.stage c).awake) : s.placed c := .inl ⟨_, h.good.ranked.here c hc hawake⟩
  cases hs : s.stage c with
  | own => exact absurd hs hstage
  | delay n => exact exists_sleepUntil s hc (hplaced (by simp [hs, Stage.awake])) _
  | delayUntil n =>
      have hplaced := hplaced (by simp [hs, Stage.awake])
      simp only [delayUntil]
      rw [bind_of_eq_some hc]
      simp only [if_pos (hpunctual (by simp [hs, Stage.isDelayUntil]))]
      split
      · exact exists_sleepUntil _ (by exact hc) (by exact hplaced) _
      · exact exists_atStage _ (by simp [hc]) _
  | resume | malloc next => exact h.exists_resumed hc _
  | yield =>
      obtain ⟨s', hs'⟩ := dispatch_ne_none (s := { s with stage := Function.update s.stage c .own })
        h.ready
      have hstage : s.atStage .own = some _ := bind_of_eq_some hc _
      exact ⟨s', (bind_of_eq_some hstage _).trans hs'⟩
  | create next =>
      have hheld := h.good.staged.held_eq_false hc (by rw [hs]; rfl)
      exact exists_goOn hc hheld (hs ▸ hadds)

theorem exists_suspend {handle : Option T} (ht : (handle <|> s.current) = some t)
    (hplaced : s.placed t) : ∃ s', s.suspend handle = some s' := by
  rw [suspend, ht]
  simp only [Option.bind_eq_bind, Option.bind_some, leave_of_placed hplaced]
  split
  · rename_i hcurrent
    exact exists_atStage _ (by simp [← hcurrent]) _
  · exact ⟨_, rfl⟩

theorem exists_resume (h : s.Alive idle) (hplaced : s.placed t) : ∃ s', s.resume t = some s' := by
  obtain ⟨c, hc⟩ := h.current
  rw [resume, hc]
  simp only [Option.bind_eq_bind, Option.bind_some, if_pos hplaced, leave_of_placed hplaced]
  split
  · split
    · exact dispatch_ne_none (mem_ready_enqueue (.inr rfl))
    · exact ⟨_, rfl⟩
  · exact ⟨_, rfl⟩

theorem exists_setPriority (h : s.Alive idle) {handle : Option T}
    (ht : (handle <|> s.current) = some t) (hplaced : s.placed t) (n : ℕ) :
    ∃ s', s.setPriority handle n = some s' := by
  have hone : ∃ s₁, s.prioritise t (Kernel.cappedPriority n) = some s₁ ∧
      ∃ u p, u ∈ s₁.ready p := by
    simp only [prioritise, if_pos hplaced]
    split
    · have hleave :
          leave { s with priority := Function.update s.priority t (Kernel.cappedPriority n) } t =
            some _ := leave_of_placed hplaced
      exact ⟨_, by rw [hleave]; rfl, t, _, mem_ready_enqueue (.inr rfl)⟩
    · exact ⟨_, rfl, idle, _, h.ready⟩
  obtain ⟨s₁, hs₁, u, p, hu⟩ := hone
  rw [setPriority, ht]
  simp only [Option.bind_eq_bind, Option.bind_some, hs₁]
  split
  · split
    · exact dispatch_ne_none hu
    · exact ⟨_, rfl⟩
  · exact ⟨_, rfl⟩

/-- A legal step is possible. -/
theorem exists_step (h : s.Alive idle) (hlegal : Legal idle s action) :
    ∃ s', s.step action = some s' := by
  obtain ⟨c, hc⟩ := h.current
  have hif {q : Prop} [Decidable q] {x : Option (Schedule T)} (hq : q) (hx : ∃ s', x = some s') :
      ∃ s', (if q then x else none) = some s' := by
    rwa [if_pos hq]
  have hhold (hown : s.ownCode) (stage : Stage T) : ∃ s', s.hold stage = some s' :=
    exists_hold (h.good.own hown).1.held (by simp [hc]) stage
  cases action with
  | xTaskCreate t n =>
      refine hif (.inr hlegal) ?_
      rw [create, if_pos h.running]
      exact hhold hlegal _
  | xTaskCreateFails tcb =>
      refine hif (.inr hlegal) ?_
      rw [createWithoutMemory, if_pos h.running]
      exact hhold hlegal _
  | vTaskStartScheduler t => exact hlegal.elim
  | vTick =>
      refine hif h.running ?_
      rw [tick]
      split
      · exact ⟨_, rfl⟩
      · exact dispatch_ne_none (List.mem_append_left _ h.ready)
  | proceed =>
      obtain ⟨hstage, hpunctual, hadds⟩ := hlegal c hc
      exact hif h.running (h.exists_proceed hc hstage hpunctual hadds)
  | taskYIELD => exact hif hlegal (dispatch_ne_none h.ready)
  | vTaskDelay n =>
      refine hif hlegal.1 ?_
      split
      · exact hhold hlegal.1 _
      · exact exists_atStage _ (by simp [hc]) _
  | vTaskDelayUntil n => exact hif hlegal.1 (hhold hlegal.1 _)
  | xTaskGetTickCount =>
      refine hif hlegal ?_
      rw [hc]
      exact ⟨_, rfl⟩
  | vTaskSuspend handle =>
      obtain ⟨hown, t, ht, hplaced, -⟩ := hlegal
      exact hif hown (exists_suspend ht hplaced)
  | vTaskResume t => exact hif hlegal.1 (h.exists_resume hlegal.2)
  | vTaskPrioritySet handle n =>
      obtain ⟨hown, t, ht, hplaced⟩ := hlegal
      exact hif hown (h.exists_setPriority ht hplaced n)

theorem sleepsUntil (h : s.Alive idle) : s.SleepsUntil idle 0 := .inr ⟨h.ready, Nat.zero_le _⟩

omit [DecidableEq T] in
theorem legal_unsuspended (hlegal : Legal idle s action) : Unsuspended idle s action := by
  rintro handle rfl ht
  obtain ⟨-, u, hu, -, hne⟩ := hlegal
  exact hne (Option.some.inj ((Option.mem_def.mp hu).symm.trans ht))

omit [DecidableEq T] in
theorem legal_not_calls (hlegal : Legal idle s action) (stage : Stage T) :
    ¬ Calls s action idle stage := by
  rintro ⟨-, hcurrent, ⟨n, rfl, -⟩ | ⟨n, rfl, -⟩⟩ <;> exact hlegal.2 hcurrent

theorem running_step (h : s.Alive idle) (hs : s.step action = some s') : s'.running = true := by
  have hkeep (u u' : Schedule T) (he : Effect s action u u') (hrunning : u.running = true) :
      u'.running = true := by
    cases he with
    | note _ _ _ _ _ hmore => exact hmore hrunning
    | dispatch hs =>
        obtain ⟨p, t, rest, -, -, rfl⟩ := dispatch_eq hs
        exact hrunning
    | _ => exact hrunning
  exact (Effects.of_step hs).keep hkeep h.running

/-- The idle task stays ready. -/
theorem step (h : s.Alive idle) (hlegal : Legal idle s action) (hs : s.step action = some s') :
    s'.Alive idle := by
  obtain ⟨hsleeps, hstage⟩ := h.sleepsUntil.step h.tidy h.good h.stage (legal_unsuspended hlegal)
    (legal_not_calls hlegal) hs
  refine ⟨h.good.step hs, h.tidy.step hs, h.running_step hs, ?_, hstage⟩
  rcases hsleeps with ⟨-, -, hnever⟩ | ⟨hready, -⟩
  · exact absurd hnever (Nat.not_lt_zero _)
  · exact hready

theorem start (hg : s.Good) (htidy : s.Tidy)
    (hs : s.step (.vTaskStartScheduler idle) = some s') : s'.Alive idle := by
  have hg' := hg.step hs
  have htidy' := htidy.step hs
  obtain ⟨-, hs⟩ := Option.ite_none_right_eq_some.mp hs
  obtain ⟨s₁, hs₁, hs⟩ := Option.bind_eq_some_iff.mp hs
  obtain rfl := Option.some.inj hs
  have hready : idle ∈ (s.introduce idle tskIDLE_PRIORITY).ready
      ((s.introduce idle tskIDLE_PRIORITY).priority idle) := mem_ready_enqueue (.inr rfl)
  obtain ⟨-, rfl⟩ := add_eq hs₁
  refine ⟨hg', htidy', rfl, hready, ?_⟩
  simp [introduce, Schedule.enqueue, Stage.beforeSleep]

/-- Legal steps lead on and on. -/
theorem run (h : s.Alive idle) {actions : List (Action T)}
    (hlegal : Along (fun s action s' => s.step action = some s') (Legal idle) s actions) :
    ∃ s', s.run actions = some s' ∧ s'.Alive idle := by
  induction actions generalizing s with
  | nil => exact ⟨s, rfl, h⟩
  | cons action actions ih =>
      obtain ⟨s₁, hs₁⟩ := h.exists_step hlegal.1
      obtain ⟨s', hs', h'⟩ := ih (h.step hlegal.1 hs₁) (hlegal.2 s₁ hs₁)
      exact ⟨s', (bind_of_eq_some hs₁ _).trans hs', h'⟩

end Alive

end Schedule

/-- Once the scheduler is started, whatever tasks that keep the rules do, and whenever a tick
comes, no function of the kernel fails, the lists are used as their rules say, and there is a task
to run. -/
theorem kernel_never_fails (h : Reached k s)
    {s₁ : Schedule T} (hs₁ : s.step (.vTaskStartScheduler idle) = some s₁)
    {actions : List (Action T)}
    (hlegal : Along (fun s action s' => s.step action = some s') (Schedule.Legal idle) s₁ actions) :
    ∃ k' s', k.run (.vTaskStartScheduler idle :: actions) = some k' ∧ Reached k' s' ∧
      (∃ a a' : Kernel (Lists ListId T) T, Implements Represents k a ∧
        a.run (.vTaskStartScheduler idle :: actions) = some a' ∧ Implements Represents k' a') ∧
      k'.pxCurrentTCB ≠ none ∧
        k'.lists.pvContainer idle = some (.pxReadyTasksLists (k'.uxPriority idle)) := by
  obtain ⟨s', hs', halive⟩ := (Schedule.Alive.start h.good h.tidy hs₁).run hlegal
  have hrun : s.run (.vTaskStartScheduler idle :: actions) = some s' :=
    (bind_of_eq_some hs₁ _).trans hs'
  obtain ⟨k', hk', h'⟩ := h.run _ s' hrun
  obtain ⟨a, himplements, hmatches⟩ := h.follows
  obtain ⟨a', ha', -⟩ := hmatches.run h.good _ s' hrun
  obtain ⟨k₁, hk₁, himplements'⟩ := himplements.run represents_refines _ a' ha'
  obtain rfl := Option.some.inj (hk'.symm.trans hk₁)
  obtain ⟨c, hc⟩ := halive.current
  refine ⟨k', s', hk', h', ⟨a, a', himplements, ha', himplements'⟩, ?_, ?_⟩
  · simp [h'.currentTCB, hc]
  · rw [h'.uxPriority]
    exact h'.container_ready halive.ready

/-- A task creates another, and two ticks are missed while it allocates memory. It suspends itself,
and is resumed by the new one, which is periodic. -/
theorem kernel_never_fails_stale : ∃ k k' : Kernel (Memory ListId (Fin 3)) (Fin 3),
    (Kernel.powerOn stale (fun _ => 7) fun _ => 3).run [.xTaskCreate 1 2] = some k ∧
    k.run [.vTaskStartScheduler 0, .vTick, .xTaskCreate 2 1, .vTick, .vTick, .proceed, .proceed,
      .proceed, .proceed, .proceed, .vTaskSuspend none, .proceed, .xTaskGetTickCount,
      .vTaskDelayUntil 1, .proceed, .proceed, .vTick, .proceed, .vTaskResume 1] = some k' ∧
      k'.pxCurrentTCB ≠ none := by
  have hrun : ((Schedule.powerOn (fun _ => 7) fun t : Fin 3 => (3 : PortTickType).toNat).run
      [.xTaskCreate 1 2]).any (fun s => (s.step (.vTaskStartScheduler 0)).any
        fun s₁ => decide (Along (fun (s : Schedule (Fin 3)) action s' => s.step action = some s')
          (Schedule.Legal 0) s₁ [.vTick, .xTaskCreate 2 1, .vTick, .vTick, .proceed, .proceed,
            .proceed, .proceed, .proceed, .vTaskSuspend none, .proceed, .xTaskGetTickCount,
            .vTaskDelayUntil 1, .proceed, .proceed, .vTick, .proceed, .vTaskResume 1])) = true := by
    decide
  obtain ⟨s, hs, hstart⟩ := (Option.any_eq_true _ _).mp hrun
  obtain ⟨s₁, hs₁, hlegal⟩ := (Option.any_eq_true _ _).mp hstart
  obtain ⟨k, hk, hreached⟩ := Reached.of_run stale hs
  obtain ⟨k', s', hk', -, -, hcurrent, -⟩ :=
    kernel_never_fails hreached hs₁ (of_decide_eq_true hlegal)
  exact ⟨k, k', hk, hk', hcurrent⟩

end RealTime.FreeRtos
