import RealTime.FreeRtos.ListRefinement
import RealTime.FreeRtos.Tasks

/-! # The scheduler over refined lists -/

namespace RealTime.FreeRtos

section
variable {S S' T : Type} {R : S → S' → Prop}

/-- The variables are the same, and the lists are related. -/
inductive Agree (R : S → S' → Prop) : Kernel S T → Kernel S' T → Prop where
  | mk (v : Variables T) {s : S} {s' : S'} (h : R s s') : Agree R ⟨v, s⟩ ⟨v, s'⟩

/-- The current task is the same. -/
theorem Agree.bindCurrent {f : T → Option (Kernel S T)} {g : T → Option (Kernel S' T)}
    {k : Kernel S T} {k' : Kernel S' T} (h : Agree R k k')
    (hfg : ∀ t, Refines (Agree R) (f t) (g t)) :
    Refines (Agree R) (k.pxCurrentTCB >>= f) (k'.pxCurrentTCB >>= g) := by
  obtain ⟨v, h⟩ := h
  refine Refines.bind (R := Eq) (fun t ht => ⟨t, ht, rfl⟩) ?_
  rintro t _ rfl
  exact hfg t

section
variable [DecidableEq T] {k : Kernel S T} {k' : Kernel S' T}

theorem Agree.enterStage (h : Agree R k k') (stage : Stage T) :
    Refines (Agree R) (k.enterStage stage) (k'.enterStage stage) := by
  refine bindCurrent h fun t => ?_
  obtain ⟨v, h⟩ := h
  exact Refines.some ⟨_, h⟩

theorem Agree.xTaskGetTickCount (h : Agree R k k') :
    Refines (Agree R) k.xTaskGetTickCount k'.xTaskGetTickCount := by
  refine bindCurrent h fun t => ?_
  obtain ⟨v, h⟩ := h
  exact Refines.some ⟨_, h⟩

theorem Agree.vTaskDelay (h : Agree R k k') (xTicksToDelay : PortTickType) :
    Refines (Agree R) (k.vTaskDelay xTicksToDelay) (k'.vTaskDelay xTicksToDelay) := by
  obtain ⟨v, h⟩ := h
  exact Refines.ite (Agree.enterStage ⟨_, h⟩ _) (Agree.enterStage ⟨_, h⟩ _)

theorem Agree.vTaskDelayUntil (h : Agree R k k') (xTimeIncrement : PortTickType) :
    Refines (Agree R) (k.vTaskDelayUntil xTimeIncrement) (k'.vTaskDelayUntil xTimeIncrement) := by
  obtain ⟨v, h⟩ := h
  exact Agree.enterStage ⟨_, h⟩ _

theorem Agree.enterMalloc (h : Agree R k k') (next : Creation T) :
    Refines (Agree R) (k.enterMalloc next) (k'.enterMalloc next) := by
  obtain ⟨v, h⟩ := h
  exact Agree.enterStage ⟨_, h⟩ _
end
end

variable {S S' T : Type} [ListStore S ListId T] [ListStore S' ListId T] {R : S → S' → Prop}

/-- Without a tick in between, allocating memory changes nothing. -/
theorem Kernel.pvPortMalloc_eq (k : Kernel S T)
    (h : k.uxCurrentNumberOfTasks = 0 ∨ k.uxMissedTicks = 0 ∧ k.xMissedYield = false) :
    k.pvPortMalloc = some k := by
  have hresume : k.vTaskSuspendAll.xTaskResumeAll = some (false, k) := by
    show (if k.uxSchedulerSuspended = 0 ∧ 0 < k.uxCurrentNumberOfTasks then
      missedTicks k.uxMissedTicks.toNat k >>= _ else some (false, k)) = _
    rcases h with hnone | ⟨hmissed, hyield⟩
    · exact if_neg (by simp [hnone])
    · split
      · simp [missedTicks, hmissed, hyield, vTaskSuspendAll]
      · rfl
  rw [pvPortMalloc, hresume]
  rfl

namespace Agree

variable {k : Kernel S T} {k' : Kernel S' T}

theorem prvAddTaskToReadyQueue (hR : StoreRefines R) (h : Agree R k k') (t : T) :
    Refines (Agree R) (k.prvAddTaskToReadyQueue t) (k'.prvAddTaskToReadyQueue t) := by
  obtain ⟨v, h⟩ := h
  exact Refines.bind (hR.insertEnd h _ t) fun _ _ hab => Refines.some ⟨_, hab⟩

theorem unblockTasks (hR : StoreRefines R) (n : ℕ) (h : Agree R k k') :
    Refines (Agree R) (k.unblockTasks n) (k'.unblockTasks n) := by
  induction n generalizing k k' with
  | zero => exact Refines.none _
  | succ n ih =>
      obtain ⟨v, h⟩ := h
      simp only [Kernel.unblockTasks, hR.isEmpty h]
      refine Refines.ite (Refines.some ⟨_, h⟩) (Refines.bind (hR.headEntry h _) ?_)
      rintro t _ rfl
      rw [hR.value h]
      refine Refines.ite (Refines.some ⟨_, h⟩) (Refines.bind (hR.remove h t) fun _ _ hab => ?_)
      exact Refines.bind (prvAddTaskToReadyQueue hR ⟨_, hab⟩ t) fun _ _ hk => ih hk

theorem prvCheckDelayedTasks (hR : StoreRefines R) (h : Agree R k k') :
    Refines (Agree R) k.prvCheckDelayedTasks k'.prvCheckDelayedTasks := by
  obtain ⟨v, h⟩ := h
  simp only [Kernel.prvCheckDelayedTasks, hR.length h]
  exact Refines.ite (unblockTasks hR _ ⟨v, h⟩) (Refines.some ⟨v, h⟩)

theorem switchDelayedLists (hR : StoreRefines R) (h : Agree R k k') :
    Refines (Agree R) k.switchDelayedLists k'.switchDelayedLists := by
  obtain ⟨v, h⟩ := h
  simp only [Kernel.switchDelayedLists, hR.isEmpty h]
  refine Refines.ite (Refines.some ⟨_, h⟩) (Refines.bind (hR.headEntry h _) ?_)
  rintro t _ rfl
  rw [hR.value h]
  exact Refines.some ⟨_, h⟩

theorem vTaskIncrementTick (hR : StoreRefines R) (h : Agree R k k') :
    Refines (Agree R) k.vTaskIncrementTick k'.vTaskIncrementTick := by
  obtain ⟨v, h⟩ := h
  refine Refines.ite (Refines.bind ?_ fun _ _ hk => prvCheckDelayedTasks hR hk)
    (Refines.some ⟨_, h⟩)
  exact Refines.ite (switchDelayedLists hR ⟨_, h⟩) (Refines.some ⟨_, h⟩)

theorem highestReady (hR : StoreRefines R) {s : S} {s' : S'} (h : R s s') (n : ℕ)
    (hn : n < configMAX_PRIORITIES) : Kernel.highestReady s n hn = Kernel.highestReady s' n hn := by
  induction n with
  | zero => simp only [Kernel.highestReady, hR.isEmpty h]
  | succ n ih => simp only [Kernel.highestReady, hR.isEmpty h, ih]

theorem vTaskSwitchContext (hR : StoreRefines R) (h : Agree R k k') :
    Refines (Agree R) k.vTaskSwitchContext k'.vTaskSwitchContext := by
  obtain ⟨v, h⟩ := h
  simp only [Kernel.vTaskSwitchContext, highestReady hR h]
  refine Refines.ite (Refines.some ⟨_, h⟩) (Refines.bind (R := Eq) (fun p hp => ⟨p, hp, rfl⟩) ?_)
  rintro p _ rfl
  refine Refines.bind (hR.nextEntry h _) ?_
  rintro ⟨t, s⟩ ⟨_, s'⟩ ⟨rfl, hs⟩
  exact Refines.some ⟨_, hs⟩

theorem missedTicks (hR : StoreRefines R) (n : ℕ) (h : Agree R k k') :
    Refines (Agree R) (k.missedTicks n) (k'.missedTicks n) := by
  induction n generalizing k k' with
  | zero => exact Refines.some h
  | succ n ih =>
      refine Refines.bind (vTaskIncrementTick hR h) ?_
      rintro _ _ ⟨v, h⟩
      exact ih ⟨_, h⟩

theorem xTaskResumeAll (hR : StoreRefines R) (h : Agree R k k') :
    Refines (fun x y => x.1 = y.1 ∧ Agree R x.2 y.2) k.xTaskResumeAll k'.xTaskResumeAll := by
  obtain ⟨v, h⟩ := h
  refine Refines.ite (Refines.bind (missedTicks hR _ ⟨_, h⟩) ?_) (Refines.some ⟨rfl, ⟨_, h⟩⟩)
  rintro _ _ ⟨v', h⟩
  refine Refines.ite (Refines.bind (vTaskSwitchContext hR ⟨_, h⟩) ?_)
    (Refines.some ⟨rfl, ⟨_, h⟩⟩)
  exact fun _ _ hk => Refines.some ⟨rfl, hk⟩

theorem pvPortMalloc (hR : StoreRefines R) (h : Agree R k k') :
    Refines (Agree R) k.pvPortMalloc k'.pvPortMalloc := by
  obtain ⟨v, h⟩ := h
  refine Refines.bind (xTaskResumeAll hR ⟨_, h⟩) ?_
  rintro ⟨_, _⟩ ⟨_, _⟩ ⟨-, hk⟩
  exact Refines.some hk

theorem prvAddCurrentTaskToDelayedList (hR : StoreRefines R) (h : Agree R k k')
    (xTimeToWake : PortTickType) :
    Refines (Agree R) (k.prvAddCurrentTaskToDelayedList xTimeToWake)
      (k'.prvAddCurrentTaskToDelayedList xTimeToWake) := by
  refine bindCurrent h fun t => ?_
  obtain ⟨v, h⟩ := h
  have hvalue := hR.setValue h t xTimeToWake
  refine Refines.ite (Refines.bind (hR.insert hvalue _ t) ?_)
    (Refines.bind (hR.insert hvalue _ t) ?_)
  · exact fun _ _ hs => Refines.some ⟨_, hs⟩
  · exact fun _ _ hs => Refines.some ⟨_, hs⟩

theorem delayCurrent (hR : StoreRefines R) (h : Agree R k k') (xTimeToWake : PortTickType) :
    Refines (Agree R) (k.delayCurrent xTimeToWake) (k'.delayCurrent xTimeToWake) := by
  refine bindCurrent h fun t => ?_
  obtain ⟨v, h⟩ := h
  exact Refines.bind (hR.remove h t) fun _ _ hs =>
    prvAddCurrentTaskToDelayedList hR ⟨_, hs⟩ xTimeToWake

theorem prvInitialiseTaskLists (hR : StoreRefines R) (v : Variables T) {s : S} {s' : S'}
    (h : ∀ i, ListStore.value s i = ListStore.value s' i) :
    Agree R (Kernel.prvInitialiseTaskLists ⟨v, s⟩) (Kernel.prvInitialiseTaskLists ⟨v, s'⟩) := by
  refine ⟨_, hR.initialise s s' h _ ?_⟩
  intro l
  cases l <;> simp [Kernel.allLists]

variable [DecidableEq T]

theorem delaySuspended (hR : StoreRefines R) (h : Agree R k k') (xTicksToDelay : PortTickType) :
    Refines (Agree R) (k.delaySuspended xTicksToDelay) (k'.delaySuspended xTicksToDelay) := by
  obtain ⟨v, h⟩ := h
  exact Refines.bind (delayCurrent hR ⟨v, h⟩ _) fun _ _ hk => enterStage hk _

theorem delayUntilSuspended (hR : StoreRefines R) (h : Agree R k k')
    (xTimeIncrement : PortTickType) :
    Refines (Agree R) (k.delayUntilSuspended xTimeIncrement)
      (k'.delayUntilSuspended xTimeIncrement) := by
  refine bindCurrent h fun t => ?_
  obtain ⟨v, h⟩ := h
  refine Refines.ite (Refines.bind (delayCurrent hR ⟨_, h⟩ _) fun _ _ hk => enterStage hk _)
    (enterStage ⟨_, h⟩ _)

theorem resumeSuspended (hR : StoreRefines R) (h : Agree R k k') (next : Bool → Stage T) :
    Refines (Agree R) (k.resumeSuspended next) (k'.resumeSuspended next) := by
  refine bindCurrent h fun t => Refines.bind (xTaskResumeAll hR h) ?_
  rintro ⟨b, _⟩ ⟨_, _⟩ ⟨rfl, ⟨v, h⟩⟩
  exact Refines.some ⟨_, h⟩

theorem portYIELD_WITHIN_API (hR : StoreRefines R) (h : Agree R k k') :
    Refines (Agree R) k.portYIELD_WITHIN_API k'.portYIELD_WITHIN_API :=
  Refines.bind (enterStage h _) fun _ _ hk => vTaskSwitchContext hR hk

theorem vTaskSuspend (hR : StoreRefines R) (h : Agree R k k') (pxTaskToSuspend : Option T) :
    Refines (Agree R) (k.vTaskSuspend pxTaskToSuspend) (k'.vTaskSuspend pxTaskToSuspend) := by
  obtain ⟨v, h⟩ := h
  refine Refines.bind (R := Eq) (fun t ht => ⟨t, ht, rfl⟩) ?_
  rintro t _ rfl
  refine Refines.bind (hR.remove h t) fun _ _ hs => Refines.bind (hR.insertEnd hs _ t) ?_
  exact fun _ _ hs => Refines.ite (enterStage ⟨_, hs⟩ _) (Refines.some ⟨_, hs⟩)

theorem vTaskResume (hR : StoreRefines R) (h : Agree R k k') (pxTaskToResume : T) :
    Refines (Agree R) (k.vTaskResume pxTaskToResume) (k'.vTaskResume pxTaskToResume) := by
  refine bindCurrent h fun t => Refines.ite ?_ (Refines.some h)
  obtain ⟨v, h⟩ := h
  refine Refines.bind (hR.contained h _ _) ?_
  rintro b _ rfl
  refine Refines.ite (Refines.bind (hR.remove h _) fun _ _ hs => ?_) (Refines.some ⟨_, h⟩)
  refine Refines.bind (prvAddTaskToReadyQueue hR ⟨_, hs⟩ _) ?_
  rintro _ _ ⟨v', h'⟩
  exact Refines.ite (vTaskSwitchContext hR ⟨_, h'⟩) (Refines.some ⟨_, h'⟩)

theorem changePriority (hR : StoreRefines R) (h : Agree R k k') (t : T) (p : Priority) :
    Refines (Agree R) (k.changePriority t p) (k'.changePriority t p) := by
  obtain ⟨v, h⟩ := h
  refine Refines.bind (hR.contained h _ _) ?_
  rintro b _ rfl
  refine Refines.ite (Refines.bind (hR.remove h _) fun _ _ hs => ?_) (Refines.some ⟨_, h⟩)
  exact prvAddTaskToReadyQueue hR ⟨_, hs⟩ _

theorem vTaskPrioritySet (hR : StoreRefines R) (h : Agree R k k') (pxTask : Option T)
    (uxNewPriority : ℕ) : Refines (Agree R) (k.vTaskPrioritySet pxTask uxNewPriority)
      (k'.vTaskPrioritySet pxTask uxNewPriority) := by
  obtain ⟨v, h⟩ := h
  refine Refines.bind (R := Eq) (fun t ht => ⟨t, ht, rfl⟩) ?_
  rintro t _ rfl
  refine Refines.ite (Refines.bind (changePriority hR ⟨v, h⟩ t _) fun _ _ hk => ?_)
    (Refines.some ⟨_, h⟩)
  exact Refines.ite (vTaskSwitchContext hR hk) (Refines.some hk)

theorem addNewTask (hR : StoreRefines R) (h : Agree R k k') (t : T) (p : ℕ) :
    Refines (Agree R) (k.addNewTask t p) (k'.addNewTask t p) := by
  obtain ⟨v, h⟩ := h
  refine Refines.bind (hR.initialiseItem h t) fun _ _ hs => ?_
  exact prvAddTaskToReadyQueue hR ⟨_, hs⟩ t

theorem addTask (hR : StoreRefines R) (h : Agree R k k') (t : T) (p : ℕ) :
    Refines (Agree R) (k.addTask t p) (k'.addTask t p) := by
  obtain ⟨v, h⟩ := h
  exact Refines.ite (addNewTask hR (prvInitialiseTaskLists hR _ (hR.value h)) t p)
    (addNewTask hR ⟨_, h⟩ t p)

theorem createSuspended (hR : StoreRefines R) (h : Agree R k k') (next : Creation T) :
    Refines (Agree R) (k.createSuspended next) (k'.createSuspended next) := by
  cases next with
  | mallocStack | noStack | freeTCB => exact enterMalloc h _
  | addTask t p => exact Refines.bind (addTask hR h t p) fun _ _ hk => enterStage hk _
  | testPriority p =>
      refine bindCurrent h fun t => ?_
      obtain ⟨v, h⟩ := h
      exact enterStage ⟨_, h⟩ _
  | done => exact enterStage h _

theorem proceed (hR : StoreRefines R) (h : Agree R k k') :
    Refines (Agree R) k.proceed k'.proceed := by
  have h' := h
  obtain ⟨v, hs⟩ := h'
  refine Refines.bind (R := Eq) (fun stage hstage => ⟨stage, hstage, rfl⟩) ?_
  rintro stage _ rfl
  cases stage with
  | own => exact Refines.none _
  | delay xTicksToDelay => exact delaySuspended hR h xTicksToDelay
  | delayUntil xTimeIncrement => exact delayUntilSuspended hR h xTimeIncrement
  | resume => exact resumeSuspended hR h _
  | yield => exact portYIELD_WITHIN_API hR h
  | malloc next => exact resumeSuspended hR h _
  | create next => exact createSuspended hR h next

end Agree

/-! ## Steps and runs -/

/-- Before the first task there are no lists to be related. -/
inductive Implements (R : S → S' → Prop) : Kernel S T → Kernel S' T → Prop where
  | off (v : Variables T) {s : S} {s' : S'} (hcurrent : v.pxCurrentTCB = none)
    (hnumber : v.uxCurrentNumberOfTasks = 0) (hrunning : v.xSchedulerRunning = false)
    (hvalue : ∀ i, ListStore.value s i = ListStore.value s' i) : Implements R ⟨v, s⟩ ⟨v, s'⟩
  | on {k : Kernel S T} {k' : Kernel S' T} (h : Agree R k k') : Implements R k k'

namespace Implements

variable {k : Kernel S T} {k' : Kernel S' T}

/-- The variables, and with them what may happen, are the same. -/
theorem toVariables_eq (h : Implements R k k') : k.toVariables = k'.toVariables := by
  cases h with
  | off => rfl
  | on h =>
      obtain ⟨v, h⟩ := h
      rfl

theorem agree (h : Implements R k k') (hrunning : k'.xSchedulerRunning = true) :
    Agree R k k' := by
  cases h with
  | off v _ _ hstopped =>
      rw [hstopped] at hrunning
      cases hrunning
  | on h => exact h

variable [DecidableEq T]

omit [DecidableEq T] in
theorem pvPortMalloc (hR : StoreRefines R) (h : Implements R k k') :
    Refines (Implements R) k.pvPortMalloc k'.pvPortMalloc := by
  cases h with
  | off v hcurrent hnumber hrunning hvalue =>
      rw [Kernel.pvPortMalloc_eq _ (.inl hnumber), Kernel.pvPortMalloc_eq _ (.inl hnumber)]
      exact Refines.some (.off v hcurrent hnumber hrunning hvalue)
  | on h => exact (h.pvPortMalloc hR).mono fun _ _ hk => .on hk

theorem addTask (hR : StoreRefines R) (h : Implements R k k') (t : T) (p : ℕ) :
    Refines (Agree R) (k.addTask t p) (k'.addTask t p) := by
  cases h with
  | off v hcurrent hnumber hrunning hvalue =>
      have hfirst : v.pxCurrentTCB = none ∧ v.uxCurrentNumberOfTasks + 1 = 1 :=
        ⟨hcurrent, by rw [hnumber]⟩
      simp only [Kernel.addTask, if_pos hfirst]
      exact Agree.addNewTask hR (Agree.prvInitialiseTaskLists hR _ hvalue) t p
  | on h => exact h.addTask hR t p

theorem xTaskGenericCreate (hR : StoreRefines R) (h : Implements R k k') (t : T) (p : ℕ) :
    Refines (Agree R) (k.xTaskGenericCreate t p) (k'.xTaskGenericCreate t p) := by
  simp only [Kernel.xTaskGenericCreate, h.toVariables_eq]
  split
  · exact (h.agree ‹_›).enterMalloc _
  · exact Refines.bind (h.pvPortMalloc hR) fun _ _ h => Refines.bind (h.pvPortMalloc hR)
      fun _ _ h => h.addTask hR t p

theorem createWithoutMemory (hR : StoreRefines R) (h : Implements R k k') (tcb : Bool) :
    Refines (Implements R) (k.createWithoutMemory tcb) (k'.createWithoutMemory tcb) := by
  simp only [Kernel.createWithoutMemory, h.toVariables_eq]
  split
  · exact ((h.agree ‹_›).enterMalloc _).mono fun _ _ hk => .on hk
  · refine Refines.ite ?_ (h.pvPortMalloc hR)
    exact Refines.bind (h.pvPortMalloc hR) fun _ _ h => Refines.bind (h.pvPortMalloc hR)
      fun _ _ h => h.pvPortMalloc hR

theorem vTaskStartScheduler (hR : StoreRefines R) (h : Implements R k k') (t : T) :
    Refines (Agree R) (k.vTaskStartScheduler t) (k'.vTaskStartScheduler t) := by
  refine Refines.bind (h.xTaskGenericCreate hR t _) ?_
  rintro _ _ ⟨v, h⟩
  exact Refines.some ⟨_, h⟩

theorem step (hR : StoreRefines R) (h : Implements R k k') (action : Action T) :
    Refines (Implements R) (k.step action) (k'.step action) := by
  have hvariables := h.toVariables_eq
  have hif {c : Prop} [Decidable c] {f : Option (Kernel S T)} {g : Option (Kernel S' T)}
      (hfg : c → Refines (Implements R) f g) :
      Refines (Implements R) (if c then f else none) (if c then g else none) := by
    split
    · exact hfg ‹c›
    · exact Refines.none _
  have hon {f : Option (Kernel S T)} {g : Option (Kernel S' T)} (hfg : Refines (Agree R) f g) :
      Refines (Implements R) f g := hfg.mono fun _ _ hk => .on hk
  cases action with
  | xTaskCreate t p =>
      simp only [Kernel.step, hvariables]
      exact hif fun _ => hon (h.xTaskGenericCreate hR t p)
  | xTaskCreateFails tcb =>
      simp only [Kernel.step, hvariables]
      exact hif fun _ => h.createWithoutMemory hR tcb
  | vTaskStartScheduler t =>
      simp only [Kernel.step, hvariables]
      exact hif fun _ => hon (h.vTaskStartScheduler hR t)
  | vTick =>
      simp only [Kernel.step, hvariables]
      refine hif fun hrunning => hon (Refines.bind ((h.agree hrunning).vTaskIncrementTick hR) ?_)
      exact fun _ _ hk => hk.vTaskSwitchContext hR
  | proceed =>
      simp only [Kernel.step, hvariables]
      exact hif fun hrunning => hon ((h.agree hrunning).proceed hR)
  | taskYIELD =>
      simp only [Kernel.step, hvariables]
      exact hif fun hown => hon ((h.agree hown.1).vTaskSwitchContext hR)
  | vTaskDelay n =>
      simp only [Kernel.step, hvariables]
      exact hif fun hown => hon ((h.agree hown.1).vTaskDelay n)
  | vTaskDelayUntil n =>
      simp only [Kernel.step, hvariables]
      exact hif fun hown => hon ((h.agree hown.1).vTaskDelayUntil n)
  | xTaskGetTickCount =>
      simp only [Kernel.step, hvariables]
      exact hif fun hown => hon (h.agree hown.1).xTaskGetTickCount
  | vTaskSuspend t =>
      simp only [Kernel.step, hvariables]
      exact hif fun hown => hon ((h.agree hown.1).vTaskSuspend hR t)
  | vTaskResume t =>
      simp only [Kernel.step, hvariables]
      exact hif fun hown => hon ((h.agree hown.1).vTaskResume hR t)
  | vTaskPrioritySet t p =>
      simp only [Kernel.step, hvariables]
      exact hif fun hown => hon ((h.agree hown.1).vTaskPrioritySet hR t p)

theorem run (hR : StoreRefines R) (actions : List (Action T)) (h : Implements R k k') :
    Refines (Implements R) (k.run actions) (k'.run actions) :=
  Refines.foldlM (fun _ _ action h => h.step hR action) actions h

end Implements

end RealTime.FreeRtos
