import Mathlib.Logic.Function.Basic
import RealTime.Library.Transition

/-! # The two tasks of `xenomaiICPP.c`

Task `l` takes `A` and then `B`, task `h` takes `B` and then `A`, on one CPU. After its
first acquire `l` raises its own priority to the ceiling of `A`. The model starts when the
barrier has been broadcast; each call is a step. -/

namespace RealTime.PriorityCeiling

open Transition

def A_PRIO : ℕ := 3

inductive Task where
  | l
  | h
deriving DecidableEq, Repr

def Task.other : Task → Task
  | .l => .h
  | .h => .l

inductive Mutex where
  | A
  | B
deriving DecidableEq, Repr

/-- A call in the body of a task. -/
inductive Call where
  | acquire (m : Mutex)
  | release (m : Mutex)
  | setPriority (prio : ℕ)
  | busyWait
  | sleep
  | printf
deriving DecidableEq, Repr

/-- The calls behind `rt_sem_p(&barrier,TM_INFINITE)`. -/
def body : Task → List Call
  | .l => [.acquire .A, .printf, .setPriority A_PRIO, .busyWait, .printf,
      .acquire .B, .printf, .busyWait, .printf, .release .B, .printf,
      .release .A, .printf, .setPriority 1, .busyWait, .printf]
  | .h => [.sleep, .printf, .acquire .B, .printf, .busyWait, .printf,
      .acquire .A, .printf, .busyWait, .printf, .release .A, .printf,
      .release .B, .printf, .busyWait, .printf]

inductive Status where
  | ready
  | sleeping
  | waiting (m : Mutex)
deriving DecidableEq, Repr

/-- `pc` is the place of a task in its body and `base` its own priority. -/
structure State where
  pc : Task → ℕ
  base : Task → ℕ
  status : Task → Status
  owner : Mutex → Option Task

/-- The priorities are those given to `rt_task_create`. -/
def init : State where
  pc _ := 0
  base
    | .l => 1
    | .h => 2
  status _ := .ready
  owner _ := none

/-! ## Scheduling -/

/-- The priority that a task inherits from the other one, if this waits for a mutex of it. -/
def State.inherited (s : State) (t : Task) : ℕ :=
  match s.status t.other with
  | .waiting m => if s.owner m = some t then s.base t.other else 0
  | _ => 0

def State.priority (s : State) (t : Task) : ℕ := max (s.base t) (s.inherited t)

/-- A task that has not ended and waits for nothing. -/
def State.Ready (s : State) (t : Task) : Prop :=
  s.status t = .ready ∧ s.pc t < (body t).length

/-- No ready task has a higher priority. -/
def State.Running (s : State) (t : Task) : Prop :=
  s.Ready t ∧ (s.Ready t.other → s.priority t.other ≤ s.priority t)

instance (s : State) (t : Task) : Decidable (s.Ready t) := inferInstanceAs (Decidable (_ ∧ _))

instance (s : State) (t : Task) : Decidable (s.Running t) :=
  inferInstanceAs (Decidable (s.Ready t ∧ (_ → _)))

/-! ## Steps -/

def State.advance (s : State) (t : Task) : State :=
  { s with pc := Function.update s.pc t (s.pc t + 1) }

def State.setBase (s : State) (t : Task) (prio : ℕ) : State :=
  { s with base := Function.update s.base t prio }

def State.setStatus (s : State) (t : Task) (status : Status) : State :=
  { s with status := Function.update s.status t status }

def State.setOwner (s : State) (m : Mutex) (owner : Option Task) : State :=
  { s with owner := Function.update s.owner m owner }

/-- A call made by task `t`. A mutex that is released goes to the other task if this waits
for it, whose `rt_mutex_acquire` then returns. -/
def State.exec (s : State) (t : Task) : Call → State
  | .acquire m =>
    if s.owner m = none then (s.setOwner m (some t)).advance t else s.setStatus t (.waiting m)
  | .release m =>
    if s.status t.other = .waiting m then
      (((s.setOwner m (some t.other)).setStatus t.other .ready).advance t.other).advance t
    else (s.setOwner m none).advance t
  | .setPriority prio => (s.setBase t prio).advance t
  | .busyWait => s.advance t
  | .sleep => (s.setStatus t .sleeping).advance t
  | .printf => s.advance t

/-- `call` makes the next call of a task, or ends the busy wait it is in; `spin` is a part of
a busy wait that does not end it; `wake` ends a sleep. -/
inductive Event where
  | call (t : Task)
  | spin (t : Task)
  | wake (t : Task)
deriving DecidableEq, Repr

def step (s : State) (e : Event) : Option State :=
  match e with
  | .call t => do
    let c ← (body t)[s.pc t]?
    if s.Running t then some (s.exec t c) else none
  | .spin t => if (body t)[s.pc t]? = some .busyWait ∧ s.Running t then some s else none
  | .wake t => if s.status t = .sleeping then some (s.setStatus t .ready) else none

def Step (s : State) (e : Event) (t : State) : Prop := step s e = some t

/-- `l` holds `A` and waits for `B`, `h` holds `B` and waits for `A`. -/
def Deadlock (s : State) : Prop :=
  s.owner .A = some .l ∧ s.status .l = .waiting .B ∧
    s.owner .B = some .h ∧ s.status .h = .waiting .A

instance (s : State) : Decidable (Deadlock s) := inferInstanceAs (Decidable (_ ∧ _ ∧ _ ∧ _))

/-- A sleep does not end while `l` holds `A` and has not raised its priority yet. -/
def OutsideWindow (s : State) : Event → Prop
  | .wake _ => s.owner .A = some .l → s.base .l = A_PRIO
  | _ => True

instance (s : State) : (e : Event) → Decidable (OutsideWindow s e)
  | .wake _ => inferInstanceAs (Decidable (_ → _))
  | .call _ => inferInstanceAs (Decidable True)
  | .spin _ => inferInstanceAs (Decidable True)

end RealTime.PriorityCeiling
