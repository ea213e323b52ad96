import RealTime.FreeRtos.Tasks
import Mathlib.Algebra.Group.Nat.Defs
import Mathlib.Data.List.FinRange
import Mathlib.Data.List.Sort

/-! # What the scheduler is for

Time is a number that does not overflow, the ready tasks of a priority stand in a queue, and the
tasks that sleep are sorted by the time at which they wake. -/

namespace RealTime.FreeRtos

/-- The current task is ready at this stage. -/
def Stage.awake {T : Type} : Stage T → Bool
  | .own | .delay _ | .delayUntil _ | .malloc _ | .create _ => true
  | .resume | .yield => false

/-- While the scheduler is held, `missed` counts the ticks in as many bits as the kernel does, and
`ticked` tells that there was one. -/
@[ext] structure Schedule (T : Type) where
  now : ℕ
  priority : T → Priority
  current : Option T
  running : Bool
  ready : Priority → List T
  sleeping : List T
  wakeAt : T → ℕ
  suspended : List T
  held : Bool
  missed : BitVec 32
  ticked : Bool
  lastWake : T → ℕ
  stage : T → Stage T
  switchedIn : List (T × Priority)
  created : List T

variable {T : Type}

namespace Schedule

def powerOn (priority : T → Priority) (lastWake : T → ℕ) : Schedule T where
  now := 0
  priority := priority
  current := none
  running := false
  ready _ := []
  sleeping := []
  wakeAt _ := 0
  suspended := []
  held := false
  missed := 0
  ticked := false
  lastWake := lastWake
  stage _ := .own
  switchedIn := []
  created := []

/-- A task of an earlier time goes in front. -/
def sooner (wakeAt : T → ℕ) (t u : T) : Prop := wakeAt t < wakeAt u

instance (wakeAt : T → ℕ) : DecidableRel (sooner wakeAt) := fun t u =>
  inferInstanceAs (Decidable (wakeAt t < wakeAt u))

def due (wakeAt : T → ℕ) (now : ℕ) (t : T) : Bool := wakeAt t ≤ now

/-- A task goes to the end of the queue of its priority. -/
def enqueue (s : Schedule T) (t : T) : Schedule T :=
  { s with ready := Function.update s.ready (s.priority t) (s.ready (s.priority t) ++ [t]) }

/-- The tasks whose time has come are ready, in the order of their times. -/
def wake (s : Schedule T) : Schedule T :=
  { s with
    ready := fun p => s.ready p ++
      (s.sleeping.takeWhile (due s.wakeAt s.now)).filter fun t => s.priority t = p
    sleeping := s.sleeping.dropWhile (due s.wakeAt s.now) }

def advance (s : Schedule T) (ticks : ℕ) : Schedule T := wake { s with now := s.now + ticks }

def highest (s : Schedule T) : Option Priority :=
  (List.finRange configMAX_PRIORITIES).reverse.find? fun p => !(s.ready p).isEmpty

/-- The first ready task of the highest priority gets the processor, and goes to the end of its
queue. -/
def dispatch (s : Schedule T) : Option (Schedule T) := do
  let p ← s.highest
  let t ← (s.ready p).head?
  return { s with
    current := some t
    ready := Function.update s.ready p ((s.ready p).tail ++ [t])
    switchedIn := (t, s.priority t) :: s.switchedIn }

def tick (s : Schedule T) : Option (Schedule T) :=
  if s.held then some { s with missed := s.missed + 1, ticked := true }
  else (s.advance 1).dispatch

/-- The ticks that were missed are made up for, and the processor goes to a task that they have
made ready. -/
def release (s : Schedule T) : Option (Bool × Schedule T) :=
  let s' := { s with held := false, missed := 0, ticked := false }
  if s.ticked then (s'.advance s.missed.toNat).dispatch.map (true, ·) else some (false, s')

variable [DecidableEq T]

/-- A task has been created. -/
def placed (s : Schedule T) (t : T) : Prop :=
  (∃ p, t ∈ s.ready p) ∨ t ∈ s.sleeping ∨ t ∈ s.suspended

instance (s : Schedule T) (t : T) : Decidable (s.placed t) :=
  inferInstanceAs (Decidable (_ ∨ _ ∨ _))

/-- A task is taken out of its place. -/
def without (s : Schedule T) (t : T) : Schedule T :=
  { s with
    ready := fun p => (s.ready p).filter (· ≠ t)
    sleeping := s.sleeping.filter (· ≠ t)
    suspended := s.suspended.filter (· ≠ t) }

def leave (s : Schedule T) (t : T) : Option (Schedule T) :=
  if s.placed t then some (s.without t) else none

def sleep (s : Schedule T) (t : T) (wakeAt : ℕ) : Schedule T :=
  { s with
    wakeAt := Function.update s.wakeAt t wakeAt
    sleeping := s.sleeping.orderedInsert (sooner (Function.update s.wakeAt t wakeAt)) t }

def atStage (s : Schedule T) (stage : Stage T) : Option (Schedule T) := do
  let t ← s.current
  return { s with stage := Function.update s.stage t stage }

/-- The current task sleeps from now on. -/
def sleepUntil (s : Schedule T) (wakeAt : ℕ) : Option (Schedule T) := do
  let t ← s.current
  let s ← s.leave t
  return s.sleep t wakeAt

def hold (s : Schedule T) (stage : Stage T) : Option (Schedule T) :=
  if s.held then none else atStage { s with held := true } stage

/-- The time since the last time to wake is less than a turn of the tick count. -/
def punctual (s : Schedule T) (t : T) : Prop :=
  s.lastWake t ≤ s.now ∧ s.now < s.lastWake t + 2 ^ 32

instance (s : Schedule T) (t : T) : Decidable (s.punctual t) :=
  inferInstanceAs (Decidable (_ ∧ _))

def delayUntil (s : Schedule T) (increment : ℕ) : Option (Schedule T) := do
  let t ← s.current
  let wakeAt := s.lastWake t + increment
  if s.punctual t then
    let s' := { s with lastWake := Function.update s.lastWake t wakeAt }
    if s.now < wakeAt then do
      let s' ← s'.sleepUntil wakeAt
      s'.atStage .resume
    else s'.atStage .resume
  else none

def resumed (s : Schedule T) (next : Bool → Stage T) : Option (Schedule T) := do
  let t ← s.current
  let (yielded, s) ← s.release
  return { s with stage := Function.update s.stage t (next yielded) }

def suspend (s : Schedule T) (t : Option T) : Option (Schedule T) := do
  let t ← t <|> s.current
  let s ← s.leave t
  let s := { s with suspended := s.suspended ++ [t] }
  if some t = s.current then s.atStage .yield else return s

def resume (s : Schedule T) (t : T) : Option (Schedule T) := do
  let current ← s.current
  if s.placed t then
    if t ≠ current ∧ t ∈ s.suspended then do
      let s ← s.leave t
      if s.priority t ≥ s.priority current then dispatch (s.enqueue t) else return s.enqueue t
    else return s
  else none

/-- A task that is ready goes to the end of the queue of its new priority. -/
def prioritise (s : Schedule T) (t : T) (p : Priority) : Option (Schedule T) :=
  let s' := { s with priority := Function.update s.priority t p }
  if t ∈ s.ready (s.priority t) then s'.leave t |>.map fun s => s.enqueue t
  else if s.placed t then some s' else none

def setPriority (s : Schedule T) (t : Option T) (p : ℕ) : Option (Schedule T) := do
  let p := Kernel.cappedPriority p
  let u ← t <|> s.current
  let own := decide (some u = s.current)
  if s.priority u ≠ p then
    let s' ← s.prioritise u p
    if own != decide (s.priority u < p) then s'.dispatch else return s'
  else return s

/-- Before the scheduler runs, a task of the highest priority is current. -/
def currentWith (s : Schedule T) (t : T) (p : ℕ) : T :=
  match s.current with
  | none => t
  | some c => if s.running = false ∧ s.priority c ≤ p then t else c

def introduce (s : Schedule T) (t : T) (p : ℕ) : Schedule T :=
  enqueue { s with
    current := some (s.currentWith t p)
    priority := Function.update s.priority t (Kernel.cappedPriority p)
    stage := Function.update s.stage t .own
    created := t :: s.created } t

def add (s : Schedule T) (t : T) (p : ℕ) : Option (Schedule T) :=
  if s.placed t then none else some (s.introduce t p)

/-- Before the scheduler runs nothing comes in between. -/
def create (s : Schedule T) (t : T) (p : ℕ) : Option (Schedule T) :=
  if s.running then s.hold (.malloc (.mallocStack t p)) else s.add t p

def createWithoutMemory (s : Schedule T) (tcb : Bool) : Option (Schedule T) :=
  if s.running then s.hold (.malloc (if tcb then .noStack else .done)) else some s

/-- The current task goes on with the creation of a task. -/
def goOn (s : Schedule T) : Creation T → Option (Schedule T)
  | .mallocStack t p => s.hold (.malloc (.addTask t p))
  | .addTask t p => do
    let s ← s.add t p
    s.atStage (.create (.testPriority p))
  | .testPriority p => do
    let c ← s.current
    s.atStage (if s.priority c < p then .yield else .own)
  | .noStack => s.hold (.malloc .freeTCB)
  | .freeTCB => s.hold (.malloc .done)
  | .done => s.atStage .own

def start (s : Schedule T) (idle : T) : Option (Schedule T) := do
  let s ← s.add idle tskIDLE_PRIORITY
  return { s with running := true }

def proceed (s : Schedule T) : Option (Schedule T) := do
  let t ← s.current
  match s.stage t with
  | .own => none
  | .delay n => do
    let s ← s.sleepUntil (s.now + n.toNat)
    s.atStage .resume
  | .delayUntil n => s.delayUntil n.toNat
  | .resume => s.resumed fun yielded => if yielded then .own else .yield
  | .yield => do
    let s ← s.atStage .own
    s.dispatch
  | .malloc next => s.resumed fun _ => .create next
  | .create next => s.goOn next

/-- The current task runs its own code. -/
def ownCode (s : Schedule T) : Prop := s.running = true ∧ s.current.map s.stage = some .own

instance (s : Schedule T) : Decidable s.ownCode := inferInstanceAs (Decidable (_ ∧ _))

def step (s : Schedule T) : Action T → Option (Schedule T)
  | .xTaskCreate t p => if s.running = false ∨ s.ownCode then s.create t p else none
  | .xTaskCreateFails tcb =>
    if s.running = false ∨ s.ownCode then s.createWithoutMemory tcb else none
  | .vTaskStartScheduler idle => if s.running = false then s.start idle else none
  | .vTick => if s.running then s.tick else none
  | .proceed => if s.running then s.proceed else none
  | .taskYIELD => if s.ownCode then s.dispatch else none
  | .vTaskDelay n =>
    if s.ownCode then if n > 0 then s.hold (.delay n) else s.atStage .yield else none
  | .vTaskDelayUntil n => if s.ownCode then s.hold (.delayUntil n) else none
  | .xTaskGetTickCount =>
    if s.ownCode then s.current.map fun t =>
      { s with lastWake := Function.update s.lastWake t s.now }
    else none
  | .vTaskSuspend t => if s.ownCode then s.suspend t else none
  | .vTaskResume t => if s.ownCode then s.resume t else none
  | .vTaskPrioritySet t p => if s.ownCode then s.setPriority t p else none

def run (s : Schedule T) (actions : List (Action T)) : Option (Schedule T) :=
  actions.foldlM step s

end Schedule

end RealTime.FreeRtos
