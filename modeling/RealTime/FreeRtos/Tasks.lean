import RealTime.FreeRtos.Lists

/-! # The scheduler of the FreeRTOS kernel

`tasks.c` over any implementation of the lists, with the configuration of `FreeRTOSConfig.h`.
A function fails where the source would follow a NULL pointer or count `uxTopReadyPriority` down
past 0, and over lists with a cursor also where it calls a list function against its rules. A task
has one item here: event lists are for queues only. -/

namespace RealTime.FreeRtos

abbrev configMAX_PRIORITIES : ℕ := 8

abbrev Priority := Fin configMAX_PRIORITIES

def tskIDLE_PRIORITY : ℕ := 0

inductive ListId where
  | pxReadyTasksLists (uxPriority : Priority)
  | xDelayedTaskList1
  | xDelayedTaskList2
  | xPendingReadyList
  | xTasksWaitingTermination
  | xSuspendedTaskList
deriving DecidableEq, Repr

/-- What `xTaskGenericCreate` has still to do while interrupts are enabled: allocate the stack, add
the task, and look whether it is of a higher priority; or find that there is no memory for the
stack, and free the TCB. -/
inductive Creation (T : Type) where
  | mallocStack (pxNewTCB : T) (uxPriority : ℕ)
  | addTask (pxNewTCB : T) (uxPriority : ℕ)
  | testPriority (uxPriority : ℕ)
  | noStack
  | freeTCB
  | done
deriving DecidableEq, Repr

/-- Where a task is in the code of the kernel when interrupts are enabled. `malloc` is between
`vTaskSuspendAll` and `xTaskResumeAll` of `pvPortMalloc` or `vPortFree`. -/
inductive Stage (T : Type) where
  | own
  | delay (xTicksToDelay : PortTickType)
  | delayUntil (xTimeIncrement : PortTickType)
  | resume
  | yield
  | malloc (next : Creation T)
  | create (next : Creation T)
deriving DecidableEq, Repr

/-- The scheduler is suspended. -/
def Stage.inside {T : Type} : Stage T → Bool
  | .own | .yield | .create _ => false
  | .delay _ | .delayUntil _ | .resume | .malloc _ => true

/-- The variables of `tasks.c`, the priority of each task, its stage and the variable whose
address it passes to `vTaskDelayUntil`. `switchedIn` is what `traceTASK_SWITCHED_IN` sees of
the current task, last one first. -/
structure Variables (T : Type) where
  uxPriority : T → Priority
  pxCurrentTCB : Option T
  pxDelayedTaskList : ListId
  pxOverflowDelayedTaskList : ListId
  uxCurrentNumberOfTasks : ℕ
  xTickCount : PortTickType
  uxTopReadyPriority : Priority
  xSchedulerRunning : Bool
  uxSchedulerSuspended : ℕ
  uxMissedTicks : BitVec 32
  xMissedYield : Bool
  xNumOfOverflows : BitVec 32
  xNextTaskUnblockTime : PortTickType
  xPreviousWakeTime : T → PortTickType
  stage : T → Stage T
  switchedIn : List (T × Priority)

structure Kernel (S T : Type) extends Variables T where
  lists : S

variable {S T : Type} [ListStore S ListId T]

namespace Kernel

/-- No list is initialised and no task is created. -/
def powerOn (lists : S) (uxPriority : T → Priority) (xPreviousWakeTime : T → PortTickType) :
    Kernel S T where
  uxPriority := uxPriority
  pxCurrentTCB := none
  pxDelayedTaskList := .xDelayedTaskList1
  pxOverflowDelayedTaskList := .xDelayedTaskList2
  uxCurrentNumberOfTasks := 0
  xTickCount := 0
  uxTopReadyPriority := 0
  xSchedulerRunning := false
  uxSchedulerSuspended := 0
  uxMissedTicks := 0
  xMissedYield := false
  xNumOfOverflows := 0
  xNextTaskUnblockTime := portMAX_DELAY
  xPreviousWakeTime := xPreviousWakeTime
  stage _ := .own
  switchedIn := []
  lists := lists

def prvAddTaskToReadyQueue (k : Kernel S T) (pxTCB : T) : Option (Kernel S T) := do
  let lists ← ListStore.insertEnd k.lists (.pxReadyTasksLists (k.uxPriority pxTCB)) pxTCB
  return { k with
    uxTopReadyPriority :=
      if k.uxPriority pxTCB > k.uxTopReadyPriority then k.uxPriority pxTCB
      else k.uxTopReadyPriority
    lists := lists }

/-- The loop of `prvCheckDelayedTasks`. -/
def unblockTasks : ℕ → Kernel S T → Option (Kernel S T)
  | 0, _ => none
  | fuel + 1, k =>
    if ListStore.isEmpty k.lists k.pxDelayedTaskList then
      some { k with xNextTaskUnblockTime := portMAX_DELAY }
    else do
      let pxTCB ← ListStore.headEntry k.lists k.pxDelayedTaskList
      let xItemValue := ListStore.value k.lists pxTCB
      if k.xTickCount < xItemValue then some { k with xNextTaskUnblockTime := xItemValue }
      else do
        let lists ← ListStore.remove k.lists pxTCB
        let k ← prvAddTaskToReadyQueue { k with lists := lists } pxTCB
        unblockTasks fuel k

/-- Each round of the loop but the last takes a task off the list. -/
def prvCheckDelayedTasks (k : Kernel S T) : Option (Kernel S T) :=
  if k.xTickCount ≥ k.xNextTaskUnblockTime then
    unblockTasks (ListStore.length k.lists k.pxDelayedTaskList + 1) k
  else some k

def switchDelayedLists (k : Kernel S T) : Option (Kernel S T) :=
  let k := { k with
    pxDelayedTaskList := k.pxOverflowDelayedTaskList
    pxOverflowDelayedTaskList := k.pxDelayedTaskList
    xNumOfOverflows := k.xNumOfOverflows + 1 }
  if ListStore.isEmpty k.lists k.pxDelayedTaskList then
    some { k with xNextTaskUnblockTime := portMAX_DELAY }
  else do
    let pxTCB ← ListStore.headEntry k.lists k.pxDelayedTaskList
    return { k with xNextTaskUnblockTime := ListStore.value k.lists pxTCB }

/-- The lists are switched when the count overflows. -/
def incrementTickCount (k : Kernel S T) : Option (Kernel S T) :=
  let k := { k with xTickCount := k.xTickCount + 1 }
  if k.xTickCount = 0 then switchDelayedLists k else some k

def vTaskIncrementTick (k : Kernel S T) : Option (Kernel S T) :=
  if k.uxSchedulerSuspended = 0 then do
    let k ← incrementTickCount k
    prvCheckDelayedTasks k
  else some { k with uxMissedTicks := k.uxMissedTicks + 1 }

/-- The highest priority from `n` down whose ready list is not empty. -/
def highestReady (lists : S) : (n : ℕ) → n < configMAX_PRIORITIES → Option Priority
  | 0, h =>
    if ListStore.isEmpty lists (.pxReadyTasksLists ⟨0, h⟩) then none else some ⟨0, h⟩
  | n + 1, h =>
    if ListStore.isEmpty lists (.pxReadyTasksLists ⟨n + 1, h⟩) then
      highestReady lists n (Nat.lt_of_succ_lt h)
    else some ⟨n + 1, h⟩

def vTaskSwitchContext (k : Kernel S T) : Option (Kernel S T) :=
  if k.uxSchedulerSuspended ≠ 0 then some { k with xMissedYield := true }
  else do
    let uxTopReadyPriority ← highestReady k.lists k.uxTopReadyPriority k.uxTopReadyPriority.isLt
    let p ← ListStore.nextEntry k.lists (.pxReadyTasksLists uxTopReadyPriority)
    return { k with
      uxTopReadyPriority := uxTopReadyPriority
      lists := p.2
      pxCurrentTCB := some p.1
      switchedIn := (p.1, k.uxPriority p.1) :: k.switchedIn }

def prvAddCurrentTaskToDelayedList (k : Kernel S T) (xTimeToWake : PortTickType) :
    Option (Kernel S T) := do
  let pxCurrentTCB ← k.pxCurrentTCB
  let k := { k with lists := ListStore.setValue k.lists pxCurrentTCB xTimeToWake }
  if xTimeToWake < k.xTickCount then
    let lists ← ListStore.insert k.lists k.pxOverflowDelayedTaskList pxCurrentTCB
    return { k with lists := lists }
  else
    let lists ← ListStore.insert k.lists k.pxDelayedTaskList pxCurrentTCB
    return { k with
      lists := lists
      xNextTaskUnblockTime :=
        if xTimeToWake < k.xNextTaskUnblockTime then xTimeToWake else k.xNextTaskUnblockTime }

def vTaskSuspendAll (k : Kernel S T) : Kernel S T :=
  { k with uxSchedulerSuspended := k.uxSchedulerSuspended + 1 }

/-- The loop of `xTaskResumeAll`, which has a round for each missed tick. -/
def missedTicks : ℕ → Kernel S T → Option (Kernel S T)
  | 0, k => some k
  | n + 1, k => do
    let k ← vTaskIncrementTick k
    missedTicks n { k with uxMissedTicks := k.uxMissedTicks - 1 }

/-- `xPendingReadyList` is empty here: it is for tasks that wait on a queue. -/
def xTaskResumeAll (k : Kernel S T) : Option (Bool × Kernel S T) := do
  let k := { k with uxSchedulerSuspended := k.uxSchedulerSuspended - 1 }
  if k.uxSchedulerSuspended = 0 ∧ 0 < k.uxCurrentNumberOfTasks then
    let xYieldRequired := decide (0 < k.uxMissedTicks)
    let k ← missedTicks k.uxMissedTicks.toNat k
    if xYieldRequired || k.xMissedYield then
      let k ← vTaskSwitchContext { k with xMissedYield := false }
      return (true, k)
    else return (false, k)
  else return (false, k)

/-- The critical section of a task that waits. -/
def delayCurrent (k : Kernel S T) (xTimeToWake : PortTickType) : Option (Kernel S T) := do
  let pxCurrentTCB ← k.pxCurrentTCB
  let lists ← ListStore.remove k.lists pxCurrentTCB
  prvAddCurrentTaskToDelayedList { k with lists := lists } xTimeToWake

variable [DecidableEq T]

/-- The current task is from now on at `stage` of the kernel's code. -/
def enterStage (k : Kernel S T) (stage : Stage T) : Option (Kernel S T) := do
  let pxCurrentTCB ← k.pxCurrentTCB
  return { k with stage := Function.update k.stage pxCurrentTCB stage }

/-! ## The functions that a task calls -/

def taskYIELD (k : Kernel S T) : Option (Kernel S T) := vTaskSwitchContext k

def vTaskDelay (k : Kernel S T) (xTicksToDelay : PortTickType) : Option (Kernel S T) :=
  if xTicksToDelay > 0 then (vTaskSuspendAll k).enterStage (.delay xTicksToDelay)
  else k.enterStage .yield

def vTaskDelayUntil (k : Kernel S T) (xTimeIncrement : PortTickType) : Option (Kernel S T) :=
  (vTaskSuspendAll k).enterStage (.delayUntil xTimeIncrement)

/-- Between `vTaskSuspendAll` and `xTaskResumeAll` of `vTaskDelay`. -/
def delaySuspended (k : Kernel S T) (xTicksToDelay : PortTickType) : Option (Kernel S T) := do
  let k ← delayCurrent k (k.xTickCount + xTicksToDelay)
  k.enterStage .resume

/-- Whether a task waits in `vTaskDelayUntil`. -/
def xShouldDelay (xTickCount previous xTimeToWake : PortTickType) : Bool :=
  if xTickCount < previous then
    -- The tick count has overflowed: the wake time must have overflowed as well.
    decide (xTimeToWake < previous) && decide (xTimeToWake > xTickCount)
  else decide (xTimeToWake < previous) || decide (xTimeToWake > xTickCount)

/-- Between `vTaskSuspendAll` and `xTaskResumeAll` of `vTaskDelayUntil`. -/
def delayUntilSuspended (k : Kernel S T) (xTimeIncrement : PortTickType) :
    Option (Kernel S T) := do
  let pxCurrentTCB ← k.pxCurrentTCB
  let previous := k.xPreviousWakeTime pxCurrentTCB
  let xTimeToWake := previous + xTimeIncrement
  let k := { k with
    xPreviousWakeTime := Function.update k.xPreviousWakeTime pxCurrentTCB xTimeToWake }
  if xShouldDelay k.xTickCount previous xTimeToWake then
    let k ← delayCurrent k xTimeToWake
    k.enterStage .resume
  else k.enterStage .resume

/-- `xTaskResumeAll`. Where the task goes on may depend on whether it has yielded already. -/
def resumeSuspended (k : Kernel S T) (next : Bool → Stage T) : Option (Kernel S T) := do
  let pxCurrentTCB ← k.pxCurrentTCB
  let (xAlreadyYielded, k) ← xTaskResumeAll k
  return { k with stage := Function.update k.stage pxCurrentTCB (next xAlreadyYielded) }

/-- The `portYIELD_WITHIN_API` at the end of a function. -/
def portYIELD_WITHIN_API (k : Kernel S T) : Option (Kernel S T) := do
  let k ← k.enterStage .own
  vTaskSwitchContext k

/-- The task's variable is set to what `xTaskGetTickCount` returns. -/
def xTaskGetTickCount (k : Kernel S T) : Option (Kernel S T) := do
  let pxCurrentTCB ← k.pxCurrentTCB
  return { k with
    xPreviousWakeTime := Function.update k.xPreviousWakeTime pxCurrentTCB k.xTickCount }

/-- The task of a handle, NULL for the current one. -/
def prvGetTCBFromHandle (k : Kernel S T) (pxHandle : Option T) : Option T :=
  pxHandle <|> k.pxCurrentTCB

/-- Once the scheduler is running. -/
def vTaskSuspend (k : Kernel S T) (pxTaskToSuspend : Option T) : Option (Kernel S T) := do
  let pxTCB ← prvGetTCBFromHandle k pxTaskToSuspend
  let lists ← ListStore.remove k.lists pxTCB
  let lists ← ListStore.insertEnd lists .xSuspendedTaskList pxTCB
  if some pxTCB = k.pxCurrentTCB then enterStage { k with lists := lists } .yield
  else return { k with lists := lists }

def vTaskResume (k : Kernel S T) (pxTaskToResume : T) : Option (Kernel S T) := do
  let pxCurrentTCB ← k.pxCurrentTCB
  if pxTaskToResume ≠ pxCurrentTCB then
    let xTaskIsTaskSuspended ← ListStore.contained k.lists .xSuspendedTaskList pxTaskToResume
    if xTaskIsTaskSuspended then
      let lists ← ListStore.remove k.lists pxTaskToResume
      let k ← prvAddTaskToReadyQueue { k with lists := lists } pxTaskToResume
      if k.uxPriority pxTaskToResume ≥ k.uxPriority pxCurrentTCB then vTaskSwitchContext k
      else return k
    else return k
  else return k

/-- A number that the array of ready lists can be indexed by. -/
def cappedPriority (uxPriority : ℕ) : Priority :=
  if h : uxPriority ≥ configMAX_PRIORITIES then ⟨configMAX_PRIORITIES - 1, by decide⟩
  else ⟨uxPriority, Nat.lt_of_not_ge h⟩

/-- A task that is ready goes to the list of its new priority. -/
def changePriority (k : Kernel S T) (pxTCB : T) (uxNewPriority : Priority) :
    Option (Kernel S T) := do
  let uxCurrentPriority := k.uxPriority pxTCB
  let k := { k with uxPriority := Function.update k.uxPriority pxTCB uxNewPriority }
  let ready ← ListStore.contained k.lists (.pxReadyTasksLists uxCurrentPriority) pxTCB
  if ready then
    let lists ← ListStore.remove k.lists pxTCB
    prvAddTaskToReadyQueue { k with lists := lists } pxTCB
  else return k

def vTaskPrioritySet (k : Kernel S T) (pxTask : Option T) (uxNewPriority : ℕ) :
    Option (Kernel S T) := do
  let uxNewPriority := cappedPriority uxNewPriority
  let pxTCB ← prvGetTCBFromHandle k pxTask
  let pxTask := if some pxTCB = k.pxCurrentTCB then none else pxTask
  let uxCurrentPriority := k.uxPriority pxTCB
  if uxCurrentPriority ≠ uxNewPriority then
    let xYieldRequired :=
      if uxNewPriority > uxCurrentPriority then pxTask.isSome else pxTask.isNone
    let k ← changePriority k pxTCB uxNewPriority
    if xYieldRequired then vTaskSwitchContext k else return k
  else return k

/-- `pxReadyTasksLists` of every priority, and the other lists. -/
def allLists : List ListId :=
  (List.finRange configMAX_PRIORITIES).map .pxReadyTasksLists ++
    [.xDelayedTaskList1, .xDelayedTaskList2, .xPendingReadyList, .xTasksWaitingTermination,
      .xSuspendedTaskList]

def prvInitialiseTaskLists (k : Kernel S T) : Kernel S T :=
  { k with
    lists := ListStore.initialise k.lists allLists
    pxDelayedTaskList := .xDelayedTaskList1
    pxOverflowDelayedTaskList := .xDelayedTaskList2 }

/-- The current task once `pxNewTCB` is there. -/
def currentWith (k : Kernel S T) (pxNewTCB : T) (uxPriority : ℕ) : T :=
  match k.pxCurrentTCB with
  | none => pxNewTCB
  | some pxCurrentTCB =>
    if k.xSchedulerRunning = false ∧ k.uxPriority pxCurrentTCB ≤ uxPriority then pxNewTCB
    else pxCurrentTCB

/-- The new task becomes ready. -/
def addNewTask (k : Kernel S T) (pxNewTCB : T) (uxPriority : ℕ) : Option (Kernel S T) := do
  let pxCurrentTCB := currentWith k pxNewTCB uxPriority
  let lists ← ListStore.initialiseItem k.lists pxNewTCB
  prvAddTaskToReadyQueue { k with
    lists := lists
    uxPriority := Function.update k.uxPriority pxNewTCB (cappedPriority uxPriority)
    stage := Function.update k.stage pxNewTCB .own
    pxCurrentTCB := some pxCurrentTCB } pxNewTCB

/-- The critical section of `xTaskGenericCreate`. The first task of all initialises the lists. -/
def addTask (k : Kernel S T) (pxNewTCB : T) (uxPriority : ℕ) : Option (Kernel S T) :=
  let k := { k with uxCurrentNumberOfTasks := k.uxCurrentNumberOfTasks + 1 }
  if k.pxCurrentTCB = none ∧ k.uxCurrentNumberOfTasks = 1 then
    addNewTask (prvInitialiseTaskLists k) pxNewTCB uxPriority
  else addNewTask k pxNewTCB uxPriority

/-- `pvPortMalloc` or `vPortFree` where nothing interrupts it. -/
def pvPortMalloc (k : Kernel S T) : Option (Kernel S T) := do
  let (_, k) ← xTaskResumeAll (vTaskSuspendAll k)
  return k

/-- `pvPortMalloc` or `vPortFree` up to `xTaskResumeAll`. -/
def enterMalloc (k : Kernel S T) (next : Creation T) : Option (Kernel S T) :=
  (vTaskSuspendAll k).enterStage (.malloc next)

/-- The memory for the TCB is allocated first. Ticks come only once the scheduler is running. -/
def xTaskGenericCreate (k : Kernel S T) (pxNewTCB : T) (uxPriority : ℕ) : Option (Kernel S T) :=
  if k.xSchedulerRunning then enterMalloc k (.mallocStack pxNewTCB uxPriority)
  else do
    let k ← pvPortMalloc k
    let k ← pvPortMalloc k
    addTask k pxNewTCB uxPriority

/-- `xTaskGenericCreate` where there is no memory for the TCB, or only for the TCB. -/
def createWithoutMemory (k : Kernel S T) (tcb : Bool) : Option (Kernel S T) :=
  if k.xSchedulerRunning then enterMalloc k (if tcb then .noStack else .done)
  else if tcb then do
    let k ← pvPortMalloc k
    let k ← pvPortMalloc k
    pvPortMalloc k
  else pvPortMalloc k

/-- A task goes on in `xTaskGenericCreate` behind the point where interrupts were enabled. -/
def createSuspended (k : Kernel S T) : Creation T → Option (Kernel S T)
  | .mallocStack pxNewTCB uxPriority => enterMalloc k (.addTask pxNewTCB uxPriority)
  | .addTask pxNewTCB uxPriority => do
    let k ← addTask k pxNewTCB uxPriority
    k.enterStage (.create (.testPriority uxPriority))
  | .testPriority uxPriority => do
    let pxCurrentTCB ← k.pxCurrentTCB
    k.enterStage (if k.uxPriority pxCurrentTCB < uxPriority then .yield else .own)
  | .noStack => enterMalloc k .freeTCB
  | .freeTCB => enterMalloc k .done
  | .done => k.enterStage .own

/-- `prvIdle` is the task of `prvIdleTask`. -/
def vTaskStartScheduler (k : Kernel S T) (prvIdle : T) : Option (Kernel S T) := do
  let k ← xTaskGenericCreate k prvIdle tskIDLE_PRIORITY
  return { k with xSchedulerRunning := true, xTickCount := 0 }

/-- The tick interrupt. Restoring the context switches it. -/
def vTick (k : Kernel S T) : Option (Kernel S T) := do
  let k ← vTaskIncrementTick k
  vTaskSwitchContext k

end Kernel

/-! ## Runs -/

/-- What happens next: a call from `main` or from the current task, a tick, or the current task
goes on in the code of the kernel. A call of `xTaskCreate` finds memory for the task or does not. -/
inductive Action (T : Type) where
  | xTaskCreate (pxNewTCB : T) (uxPriority : ℕ)
  | xTaskCreateFails (tcb : Bool)
  | vTaskStartScheduler (prvIdle : T)
  | vTick
  | proceed
  | taskYIELD
  | vTaskDelay (xTicksToDelay : PortTickType)
  | vTaskDelayUntil (xTimeIncrement : PortTickType)
  | xTaskGetTickCount
  | vTaskSuspend (pxTaskToSuspend : Option T)
  | vTaskResume (pxTaskToResume : T)
  | vTaskPrioritySet (pxTask : Option T) (uxNewPriority : ℕ)
deriving DecidableEq, Repr

namespace Variables

/-- The stage of the current task. -/
def currentStage (v : Variables T) : Option (Stage T) := v.pxCurrentTCB.map v.stage

/-- A task runs its own code, and may call a function. -/
def ownCode (v : Variables T) : Prop := v.xSchedulerRunning = true ∧ v.currentStage = some .own

instance [DecidableEq T] (v : Variables T) : Decidable v.ownCode :=
  inferInstanceAs (Decidable (_ ∧ _))

end Variables

namespace Kernel

variable [DecidableEq T]

/-- The current task goes on behind the point where interrupts were enabled last. -/
def proceed (k : Kernel S T) : Option (Kernel S T) := do
  let stage ← k.currentStage
  match stage with
  | .own => none
  | .delay xTicksToDelay => delaySuspended k xTicksToDelay
  | .delayUntil xTimeIncrement => delayUntilSuspended k xTimeIncrement
  | .resume => resumeSuspended k fun xAlreadyYielded => if xAlreadyYielded then .own else .yield
  | .yield => portYIELD_WITHIN_API k
  | .malloc next => resumeSuspended k fun _ => .create next
  | .create next => createSuspended k next

def step (k : Kernel S T) : Action T → Option (Kernel S T)
  | .xTaskCreate pxNewTCB uxPriority =>
    if k.xSchedulerRunning = false ∨ k.ownCode then xTaskGenericCreate k pxNewTCB uxPriority
    else none
  | .xTaskCreateFails tcb =>
    if k.xSchedulerRunning = false ∨ k.ownCode then createWithoutMemory k tcb else none
  | .vTaskStartScheduler prvIdle =>
    if k.xSchedulerRunning = false then vTaskStartScheduler k prvIdle else none
  | .vTick => if k.xSchedulerRunning = true then vTick k else none
  | .proceed => if k.xSchedulerRunning = true then proceed k else none
  | .taskYIELD => if k.ownCode then taskYIELD k else none
  | .vTaskDelay xTicksToDelay => if k.ownCode then vTaskDelay k xTicksToDelay else none
  | .vTaskDelayUntil xTimeIncrement =>
    if k.ownCode then vTaskDelayUntil k xTimeIncrement else none
  | .xTaskGetTickCount => if k.ownCode then xTaskGetTickCount k else none
  | .vTaskSuspend pxTaskToSuspend => if k.ownCode then vTaskSuspend k pxTaskToSuspend else none
  | .vTaskResume pxTaskToResume => if k.ownCode then vTaskResume k pxTaskToResume else none
  | .vTaskPrioritySet pxTask uxNewPriority =>
    if k.ownCode then vTaskPrioritySet k pxTask uxNewPriority else none

def run (k : Kernel S T) (actions : List (Action T)) : Option (Kernel S T) :=
  actions.foldlM step k

end Kernel

end RealTime.FreeRtos
