import RealTime.FreeRtos.Tasks

/-! # The tasks of the AVR32 program under FreeRTOS

Three tasks answer a low level of their test pin with a pulse, and two toggle a LED. A tick may
come and a test pin may change between any two statements. -/

namespace RealTime.Butterfly

open FreeRtos

/-- The pairs of a test pin and a response pin. -/
inductive PinPair where
  | A
  | B
  | C
deriving DecidableEq, Repr

inductive Led where
  | LED0
  | LED1
deriving DecidableEq, Repr

/-- The tasks that `main` creates, and the one of the kernel. -/
inductive Task where
  | prvIdleTask
  | toggleLed (led : Led)
  | reactToButterfly (config : PinPair)
deriving DecidableEq, Repr

def portTICK_RATE_MS : ℕ := 1

/-- The ticks that a task passes to `vTaskDelay`. -/
def Task.xDelay : Task → PortTickType
  | .prvIdleTask => 0
  | .toggleLed .LED0 => BitVec.ofNat 32 (200 / portTICK_RATE_MS)
  | .toggleLed .LED1 => BitVec.ofNat 32 (500 / portTICK_RATE_MS)
  | .reactToButterfly _ => 1

/-- The calls of `main`, which does not come back from the last one. -/
def mainCalls : List (Action Task) :=
  [.xTaskCreate (.toggleLed .LED0) (tskIDLE_PRIORITY + 1),
    .xTaskCreate (.toggleLed .LED1) (tskIDLE_PRIORITY + 1),
    .xTaskCreate (.reactToButterfly .A) (tskIDLE_PRIORITY + 3),
    .xTaskCreate (.reactToButterfly .B) (tskIDLE_PRIORITY + 3),
    .xTaskCreate (.reactToButterfly .C) (tskIDLE_PRIORITY + 3),
    .vTaskStartScheduler .prvIdleTask]

inductive IdleStatement where
  | checkReady
  | yield
deriving DecidableEq, Repr

inductive LedStatement where
  | toggle
  | delay
deriving DecidableEq, Repr

inductive ReactStatement where
  | getTickCount
  | test
  | setPinLow
  | delay
  | setPinHigh
deriving DecidableEq, Repr

/-- A LED is toggled, a response pin is set, or a tick has come. -/
inductive Output where
  | toggle (led : Led)
  | setPinLow (config : PinPair)
  | setPinHigh (config : PinPair)
  | tick
deriving DecidableEq, Repr

/-- `main` are the calls that `main` has still to make, the statements those that the tasks come
to when they run their own code, and `outputs` what has been put out, last one first. -/
structure Board (S : Type) where
  kernel : Kernel S Task
  main : List (Action Task)
  idle : IdleStatement
  led : Led → LedStatement
  react : PinPair → ReactStatement
  input : PinPair → Bool
  outputs : List Output

variable {S : Type}

namespace Board

/-- After `init` and `initPins`, which sets the response pins high. -/
def boot (kernel : Kernel S Task) (input : PinPair → Bool) : Board S where
  kernel := kernel
  main := mainCalls
  idle := .checkReady
  led _ := .toggle
  react _ := .getTickCount
  input := input
  outputs := []

def setIdle (b : Board S) (statement : IdleStatement) : Board S := { b with idle := statement }

def setLed (b : Board S) (led : Led) (statement : LedStatement) : Board S :=
  { b with led := Function.update b.led led statement }

def setReact (b : Board S) (config : PinPair) (statement : ReactStatement) : Board S :=
  { b with react := Function.update b.react config statement }

def output (b : Board S) (o : Output) : Board S := { b with outputs := o :: b.outputs }

variable [ListStore S ListId Task]

def call (b : Board S) (action : Action Task) : Option (Board S) := do
  let kernel ← b.kernel.step action
  return { b with kernel := kernel }

/-- No task is ever deleted. -/
def prvIdleTask (b : Board S) : Option (Board S) :=
  match b.idle with
  | .checkReady =>
    let idleList := ListId.pxReadyTasksLists (Kernel.cappedPriority tskIDLE_PRIORITY)
    if ListStore.length b.kernel.lists idleList > 1 then some (b.setIdle .yield) else some b
  | .yield => do
    let b ← b.call .taskYIELD
    return b.setIdle .checkReady

def toggleLed (b : Board S) (led : Led) : Option (Board S) :=
  match b.led led with
  | .toggle => some ((b.output (.toggle led)).setLed led .delay)
  | .delay => do
    let b ← b.call (.vTaskDelay (Task.toggleLed led).xDelay)
    return b.setLed led .toggle

def reactToButterfly (b : Board S) (config : PinPair) : Option (Board S) :=
  match b.react config with
  | .getTickCount => do
    let b ← b.call .xTaskGetTickCount
    return b.setReact config .test
  | .test => some (b.setReact config (if b.input config then .test else .setPinLow))
  | .setPinLow => some ((b.output (.setPinLow config)).setReact config .delay)
  | .delay => do
    let b ← b.call (.vTaskDelay (Task.reactToButterfly config).xDelay)
    return b.setReact config .setPinHigh
  | .setPinHigh => some ((b.output (.setPinHigh config)).setReact config .test)

/-- A task goes on with its own code. -/
def execute (b : Board S) : Task → Option (Board S)
  | .prvIdleTask => b.prvIdleTask
  | .toggleLed led => b.toggleLed led
  | .reactToButterfly config => b.reactToButterfly config

/-- `main` or the current task goes on, the task in its own code or in that of the kernel. -/
def turn (b : Board S) : Option (Board S) :=
  match b.main with
  | action :: main => do
    let b ← b.call action
    return { b with main := main }
  | [] =>
    if b.kernel.ownCode then do
      let pxCurrentTCB ← b.kernel.pxCurrentTCB
      b.execute pxCurrentTCB
    else b.call .proceed

end Board

inductive Event where
  | turn
  | tick
  | edge (config : PinPair) (level : Bool)
deriving DecidableEq, Repr

namespace Board

variable [ListStore S ListId Task]

/-- The timer runs once the scheduler is started. -/
def step (b : Board S) : Event → Option (Board S)
  | .turn => b.turn
  | .tick =>
    if b.kernel.xSchedulerRunning then do
      let b ← b.call .vTick
      return b.output .tick
    else some b
  | .edge config level => some { b with input := Function.update b.input config level }

def run (b : Board S) (events : List Event) : Option (Board S) := events.foldlM step b

end Board

/-- The level of a response pin is that of the last output to it. -/
def isLow (config : PinPair) (outputs : List Output) : Prop :=
  outputs.find? (fun o => o = .setPinLow config || o = .setPinHigh config) =
    some (.setPinLow config)

instance (config : PinPair) (outputs : List Output) : Decidable (isLow config outputs) :=
  inferInstanceAs (Decidable (_ = _))

/-- The ticks since an output. -/
def ticksSince (o : Output) (outputs : List Output) : ℕ :=
  (outputs.takeWhile (· ≠ o)).count .tick

end RealTime.Butterfly
