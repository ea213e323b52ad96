import RealTime.Library.RingQueue
import RealTime.ResourceManager.Fifo

/-! # The two rings as queues

Each call on the queue, seen as an operation on the list of the strings and on the list
of the recorded ids, oldest first. -/

namespace RealTime.ResourceManager

open Cyclic RingQueue

variable {L : ℕ} {q : Fifo L} {rows : List (Buffer WIDTH)} {ids : List ℤ}

def Fifo.strings (q : Fifo L) (i : Fin L) : Option (Buffer WIDTH) :=
  if q.status i = 0 then none else some (q.fifo i)

def Fifo.blocked (q : Fifo L) (i : Fin L) : Option ℤ :=
  if q.blockedId i = 0 then none else some (q.blockedId i)

structure Queued (q : Fifo L) (rows : List (Buffer WIDTH)) (ids : List ℤ) : Prop where
  strings : Ring q.strings q.fifoHead q.fifoTail rows
  ids : Ring q.blocked q.blockedHead q.blockedTail ids

variable [NeZero L]

theorem advance_eq_next (i : Fin L) : advance i = next i := by
  apply Fin.ext
  rw [next_val, advance]
  have hi := i.isLt
  split <;> split <;> simp_all <;> omega

theorem queued_initFifo (q : Fifo L) : Queued (initFifo q) [] [] where
  strings := Ring.nil (fun i => by simp [Fifo.strings, initFifo]) _
  ids := Ring.nil (fun i => by simp [Fifo.blocked, initFifo]) _

/-! ## Strings -/

theorem Queued.addString (h : Queued q rows ids) (hlt : rows.length < L)
    (array : Buffer WIDTH) :
    ∃ q', fifoAddString q array = (true, q') ∧ Queued q' (rows ++ [array]) ids ∧
      q'.resourceMutex = q.resourceMutex := by
  have hfree : q.status q.fifoTail = 0 := by
    simpa [Fifo.strings] using h.strings.tail_slot.mpr hlt
  have hslots : Fifo.strings { q with
      fifo := Function.update q.fifo q.fifoTail array
      status := Function.update q.status q.fifoTail 1
      fifoTail := advance q.fifoTail } = Function.update q.strings q.fifoTail (some array) := by
    funext i
    by_cases hi : i = q.fifoTail <;> simp [Fifo.strings, hi]
  refine ⟨_, if_pos hfree, ⟨?_, h.ids⟩, rfl⟩
  rw [hslots]
  exact advance_eq_next q.fifoTail ▸ h.strings.push hlt array

theorem Queued.addString_full (h : Queued q rows ids) (hfull : ¬ rows.length < L)
    (array : Buffer WIDTH) : fifoAddString q array = (false, q) := by
  have hused : q.status q.fifoTail ≠ 0 := by
    simpa [Fifo.strings, hfull] using h.strings.tail_slot
  rw [fifoAddString, if_neg hused]

theorem Queued.remString {row : Buffer WIDTH} (h : Queued q (row :: rows) ids)
    (array : Buffer WIDTH) :
    ∃ q', fifoRemString q array = (row, q') ∧ Queued q' rows ids ∧
      q'.resourceMutex = q.resourceMutex := by
  have hhead : q.strings q.fifoHead = some row := h.strings.head_slot
  have hused : q.status q.fifoHead ≠ 0 := by
    intro hfree
    simp [Fifo.strings, hfree] at hhead
  obtain rfl : q.fifo q.fifoHead = row := by simpa [Fifo.strings, hused] using hhead
  have hslots : Fifo.strings { q with
      fifo := Function.update q.fifo q.fifoHead empty
      status := Function.update q.status q.fifoHead 0
      fifoHead := advance q.fifoHead } = Function.update q.strings q.fifoHead none := by
    funext i
    by_cases hi : i = q.fifoHead <;> simp [Fifo.strings, hi]
  refine ⟨_, if_pos hused, ⟨?_, h.ids⟩, rfl⟩
  rw [hslots]
  exact advance_eq_next q.fifoHead ▸ h.strings.pop

omit [NeZero L] in
theorem Queued.status (h : Queued q rows ids) : fifoStatus q = 0 ↔ rows = [] := by
  have hslot := h.strings.head_slot
  cases rows <;> simp_all [fifoStatus, Fifo.strings]

/-! ## Blocked clients -/

theorem Queued.addBlockedId (h : Queued q rows ids) (hlt : ids.length < L) {id : ℤ}
    (hid : 0 < id) :
    ∃ q', fifoAddBlockedId q id = (true, q') ∧ Queued q' rows (ids ++ [id]) ∧
      q'.resourceMutex = q.resourceMutex := by
  have hfree : q.blockedId q.blockedTail = 0 := by
    simpa [Fifo.blocked] using h.ids.tail_slot.mpr hlt
  have hslots : Fifo.blocked { q with
      blockedId := Function.update q.blockedId q.blockedTail id
      blockedTail := advance q.blockedTail } =
      Function.update q.blocked q.blockedTail (some id) := by
    funext i
    by_cases hi : i = q.blockedTail
    · simp [Fifo.blocked, hi, hid.ne']
    · simp [Fifo.blocked, hi]
  refine ⟨_, if_pos hfree, ⟨h.strings, ?_⟩, rfl⟩
  rw [hslots]
  exact advance_eq_next q.blockedTail ▸ h.ids.push hlt id

theorem Queued.addBlockedId_full (h : Queued q rows ids) (hfull : ¬ ids.length < L) (id : ℤ) :
    fifoAddBlockedId q id = (false, q) := by
  have hused : q.blockedId q.blockedTail ≠ 0 := by
    simpa [Fifo.blocked, hfull] using h.ids.tail_slot
  rw [fifoAddBlockedId, if_neg hused]

theorem Queued.remBlockedId {id : ℤ} (h : Queued q rows (id :: ids)) :
    ∃ q', fifoRemBlockedId q = (id, q') ∧ Queued q' rows ids ∧
      q'.resourceMutex = q.resourceMutex := by
  have hhead : q.blocked q.blockedHead = some id := h.ids.head_slot
  have hused : q.blockedId q.blockedHead ≠ 0 := by
    intro hfree
    simp [Fifo.blocked, hfree] at hhead
  obtain rfl : q.blockedId q.blockedHead = id := by
    simpa [Fifo.blocked, hused] using hhead
  have hslots : Fifo.blocked { q with
      blockedId := Function.update q.blockedId q.blockedHead 0
      blockedHead := advance q.blockedHead } = Function.update q.blocked q.blockedHead none := by
    funext i
    by_cases hi : i = q.blockedHead <;> simp [Fifo.blocked, hi]
  refine ⟨_, if_pos hused, ⟨h.strings, ?_⟩, rfl⟩
  rw [hslots]
  exact advance_eq_next q.blockedHead ▸ h.ids.pop

theorem Queued.remBlockedId_none (h : Queued q rows []) : fifoRemBlockedId q = (-1, q) := by
  have hfree : q.blockedId q.blockedHead = 0 := by
    simpa [Fifo.blocked] using h.ids.head_slot
  rw [fifoRemBlockedId, if_neg (by simpa using hfree)]

end RealTime.ResourceManager
