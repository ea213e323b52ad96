import RealTime.Library.Transition
import RealTime.Library.Heap
import RealTime.Library.Chain
import RealTime.Library.Cyclic
import RealTime.Library.Locks
import RealTime.Library.Tokens
import RealTime.Library.Exec
import RealTime.Library.Buffer
import RealTime.Library.RingQueue
import RealTime.Library.While
import RealTime.Library.History
import RealTime.Library.FixedPoint
import RealTime.Library.Refines
import RealTime.Library.Circle
import RealTime.Library.Cursor
import RealTime.Library.SortedByKey
import RealTime.Library.Wraparound
import RealTime.LinkedList.WellFormed
import RealTime.LinkedList.Extract
import RealTime.LinkedList.Delete
import RealTime.LinkedList.Sum
import RealTime.LinkedList.OutOfRange
import RealTime.Philosophers.Ownership
import RealTime.Philosophers.Portions
import RealTime.Philosophers.Deadlock
import RealTime.Philosophers.Schedules
import RealTime.Interrupts.Model
import RealTime.Interrupts.Edges
import RealTime.ResourceManager.Rings
import RealTime.ResourceManager.BoundedQueues
import RealTime.ResourceManager.Handlers
import RealTime.ResourceManager.Service
import RealTime.ResourceManager.Calls
import RealTime.ResourceManager.Sections
import RealTime.ResourceManager.PlainModes
import RealTime.ResourceManager.Frame
import RealTime.ResourceManager.Refinement
import RealTime.ResourceManager.Ledger
import RealTime.ResourceManager.Delivery
import RealTime.ResourceManager.Parked
import RealTime.ResourceManager.Rows
import RealTime.ResourceManager.Traffic
import RealTime.ResourceManager.LockBalance
import RealTime.ResourceManager.SharedBuffer
import RealTime.ResourceManager.ReadSizes
import RealTime.ResourceManager.Concurrent
import RealTime.ResourceManager.EndOfFile
import RealTime.Miniproject.Timespec
import RealTime.Miniproject.PiController
import RealTime.Miniproject.Feedback
import RealTime.Miniproject.Measurements
import RealTime.Miniproject.Datagrams
import RealTime.Miniproject.RepeatedAddition
import RealTime.Miniproject.SetCommand
import RealTime.Messages.Framing
import RealTime.PriorityCeiling.Model
import RealTime.PriorityCeiling.Deadlock
import RealTime.FreeRtos.List
import RealTime.FreeRtos.Lists
import RealTime.FreeRtos.ListRefinement
import RealTime.FreeRtos.Tasks
import RealTime.FreeRtos.TasksRefinement
import RealTime.FreeRtos.Schedule
import RealTime.FreeRtos.ScheduleInvariants
import RealTime.FreeRtos.ScheduleRefinement
import RealTime.FreeRtos.ScheduleSteps
import RealTime.FreeRtos.ScheduleEffects
import RealTime.FreeRtos.Conservation
import RealTime.FreeRtos.Fairness
import RealTime.FreeRtos.Delays
import RealTime.FreeRtos.Progress
import RealTime.FreeRtos.Clients
import RealTime.Butterfly.Model
import RealTime.Butterfly.Pulses
import RealTime.Butterfly.Starvation
