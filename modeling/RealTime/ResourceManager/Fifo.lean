import Mathlib.Algebra.GroupWithZero.Nat
import Mathlib.Data.Int.Notation
import Mathlib.Logic.Function.Basic
import RealTime.Library.Buffer

/-! # The queue of `fifo.c`

Two rings side by side: strings, with a status flag for each row, and the ids of blocked
clients, with 0 for a free place. `L` is `LENGTH`. -/

namespace RealTime.ResourceManager

def LENGTH : ℕ := 4

instance : NeZero LENGTH := ⟨by decide⟩

def WIDTH : ℕ := 255

/-- `struct fifo_t`. `resourceMutex` says whether the mutex is locked. -/
structure Fifo (L : ℕ) where
  resourceMutex : Bool
  fifo : Fin L → Buffer WIDTH
  blockedId : Fin L → ℤ
  blockedTail : Fin L
  blockedHead : Fin L
  fifoTail : Fin L
  fifoHead : Fin L
  status : Fin L → ℤ

/-- `char Empty[WIDTH]`. -/
def empty : Buffer WIDTH := .zero WIDTH

variable {L : ℕ} [NeZero L]

/-- A global `fifo_t` before `init_fifo`. -/
def Fifo.zero : Fifo L := ⟨false, fun _ => empty, fun _ => 0, 0, 0, 0, 0, fun _ => 0⟩

/-- `strcpy` of an empty string writes its terminator only. -/
def clearRow (row : Buffer WIDTH) : Buffer WIDTH := ⟨row.bytes.set 0 0, by simp [row.size]⟩

def initFifo (q : Fifo L) : Fifo L where
  resourceMutex := false
  fifo i := clearRow (q.fifo i)
  blockedId _ := 0
  blockedTail := 0
  blockedHead := 0
  fifoTail := 0
  fifoHead := 0
  status _ := 0

/-- The increment of a head or tail. -/
def advance (i : Fin L) : Fin L :=
  if h : i.val ≥ L - 1 then 0 else ⟨i.val + 1, by omega⟩

def fifoAddString (q : Fifo L) (array : Buffer WIDTH) : Bool × Fifo L :=
  if q.status q.fifoTail = 0 then
    (true, { q with
      fifo := Function.update q.fifo q.fifoTail array
      status := Function.update q.status q.fifoTail 1
      fifoTail := advance q.fifoTail })
  else
    (false, q)

/-- The first component is the caller's array after the call. -/
def fifoRemString (q : Fifo L) (array : Buffer WIDTH) : Buffer WIDTH × Fifo L :=
  if q.status q.fifoHead ≠ 0 then
    (q.fifo q.fifoHead, { q with
      fifo := Function.update q.fifo q.fifoHead empty
      status := Function.update q.status q.fifoHead 0
      fifoHead := advance q.fifoHead })
  else
    (array, q)

def fifoAddBlockedId (q : Fifo L) (id : ℤ) : Bool × Fifo L :=
  if q.blockedId q.blockedTail = 0 then
    (true, { q with
      blockedId := Function.update q.blockedId q.blockedTail id
      blockedTail := advance q.blockedTail })
  else
    (false, q)

def fifoRemBlockedId (q : Fifo L) : ℤ × Fifo L :=
  if q.blockedId q.blockedHead ≠ 0 then
    (q.blockedId q.blockedHead, { q with
      blockedId := Function.update q.blockedId q.blockedHead 0
      blockedHead := advance q.blockedHead })
  else
    (-1, q)

def fifoStatus (q : Fifo L) : ℤ := if q.status q.fifoHead = 0 then 0 else 1

end RealTime.ResourceManager
