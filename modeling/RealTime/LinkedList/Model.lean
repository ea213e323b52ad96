import RealTime.Library.Heap
import Mathlib.Data.Int.Notation

/-! # The list operations of `linked_list.c`

Pointers are addresses of heap cells, `none` is NULL. The list header lives beside the
heap of nodes; `int` fields are integers. -/

namespace RealTime.LinkedList

/-- `struct node`. -/
structure Node where
  next : Option ℕ
  prev : Option ℕ
  data : ℤ
deriving DecidableEq, Repr

/-- `struct list`, with a length that does not overflow (the source has an `int`). -/
structure ListT where
  head : Option ℕ
  tail : Option ℕ
  length : ℤ
deriving DecidableEq, Repr

structure Store where
  heap : Heap Node
  list : ListT

/-- What a call can err on: NULL, a node that is not allocated, or a traversal longer
than the number of nodes ever allocated. -/
inductive Fault where
  | null
  | dangling
  | diverged
deriving DecidableEq, Repr

abbrev ListM := StateT Store (Except Fault)

/-! ## Memory accesses -/

/-- Read the node behind a pointer. -/
def load (p : Option ℕ) : ListM Node := do
  match p with
  | none => throw .null
  | some a =>
    match (← get).heap.cells a with
    | none => throw .dangling
    | some n => return n

/-- Write fields of the node behind a pointer. -/
def store (p : Option ℕ) (f : Node → Node) : ListM Unit := do
  match p with
  | none => throw .null
  | some a =>
    match (← get).heap.cells a with
    | none => throw .dangling
    | some _ => modify fun s => { s with heap := s.heap.modify a f }

/-- `malloc(sizeof(struct node))`. Its callers write every field before reading it. -/
def malloc : ListM (Option ℕ) := do
  let s ← get
  set { s with heap := s.heap.alloc ⟨none, none, 0⟩ }
  return some s.heap.brk

/-- `free` of a node; freeing a node that is not allocated is an error. -/
def free (p : Option ℕ) : ListM Unit := do
  match p with
  | none => return ()
  | some a =>
    match (← get).heap.cells a with
    | none => throw .dangling
    | some _ => modify fun s => { s with heap := s.heap.free a }

def setList (f : ListT → ListT) : ListM Unit :=
  modify fun s => { s with list := f s.list }

/-- `current_node = current_node->next`, `k` times. -/
def advance : ℕ → Option ℕ → ListM (Option ℕ)
  | 0, p => return p
  | k + 1, p => do advance k (← load p).next

/-! ## The operations -/

/-- `list_create`, in a program whose heap already is `h`. The header is kept apart from the heap,
so that the size of its block, which is that of a pointer in the source, plays no part. -/
def listCreate (h : Heap Node) : Store := ⟨h, ⟨none, none, 0⟩⟩

def listAppend (data : ℤ) : ListM Unit := do
  let newNode ← malloc
  store newNode fun n => { n with data := data }
  if (← get).list.head = none then
    setList fun l => { l with head := newNode }
  let tail := (← get).list.tail
  store newNode fun n => { n with prev := tail }
  store newNode fun n => { n with next := none }
  if tail ≠ none then
    store tail fun n => { n with next := newNode }
  setList fun l => { l with tail := newNode }
  setList fun l => { l with length := l.length + 1 }

def listInsert (index data : ℤ) : ListM Unit := do
  let list := (← get).list
  if index ≥ list.length then
    listAppend data
  else
    -- the loop counts from 1, so index 0 and index 1 both stop at the head
    let currentNode ← advance (index - 1).toNat list.head
    let newNode ← malloc
    store newNode fun n => { n with data := data }
    let next := (← load currentNode).next
    store newNode fun n => { n with next := next }
    store newNode fun n => { n with prev := currentNode }
    store currentNode fun n => { n with next := newNode }
    setList fun l => { l with length := l.length + 1 }

def listGet (index : ℤ) : ListM ℤ := do
  let list := (← get).list
  if index ≥ list.length then
    return -1
  else
    let currentNode ← advance index.toNat list.head
    return (← load currentNode).data

def listExtract (index : ℤ) : ListM ℤ := do
  let list := (← get).list
  if index ≥ list.length then
    return -1
  else
    let currentNode ← advance index.toNat list.head
    let node ← load currentNode
    if node.prev ≠ none then
      store node.prev fun n => { n with next := node.next }
    else
      setList fun l => { l with head := node.next }
    let node ← load currentNode
    if node.next ≠ none then
      store node.next fun n => { n with prev := node.prev }
    else
      setList fun l => { l with tail := node.prev }
    setList fun l => { l with length := l.length - 1 }
    let retval := (← load currentNode).data
    free currentNode
    return retval

/-- The values printed from `currentNode` on: those with a successor in the loop, the
last one after it. -/
def listPrintLoop : ℕ → Option ℕ → ListM (List ℤ)
  | 0, _ => throw .diverged
  | fuel + 1, currentNode => do
    let node ← load currentNode
    if node.next = none then
      return [node.data]
    else
      return node.data :: (← listPrintLoop fuel node.next)

/-- The data sequence that `list_print` walks. -/
def listPrint : ListM (List ℤ) := do
  let s ← get
  if s.list.head = none then
    return []
  else
    listPrintLoop s.heap.brk s.list.head

/-! ## Calls -/

inductive Op where
  | append (data : ℤ)
  | insert (index data : ℤ)
  | get (index : ℤ)
  | extract (index : ℤ)
deriving DecidableEq, Repr

/-- Make one call; the result is the value it returns, if any. -/
def Op.exec : Op → ListM (Option ℤ)
  | .append data => do listAppend data; return none
  | .insert index data => do listInsert index data; return none
  | .get index => do return some (← listGet index)
  | .extract index => do return some (← listExtract index)

/-- The index ranges for which the calls are specified, on a list of `n` elements. -/
def Op.InRange (n : ℤ) : Op → Prop
  | .append _ => True
  | .insert index _ => 0 ≤ index ∧ index ≤ n
  | .get index => 0 ≤ index ∧ index < n
  | .extract index => 0 ≤ index ∧ index < n

instance (n : ℤ) : (op : Op) → Decidable (op.InRange n)
  | .append _ => inferInstanceAs (Decidable True)
  | .insert index _ => inferInstanceAs (Decidable (0 ≤ index ∧ index ≤ n))
  | .get index => inferInstanceAs (Decidable (0 ≤ index ∧ index < n))
  | .extract index => inferInstanceAs (Decidable (0 ≤ index ∧ index < n))

/-- The length after a call on a list of `n` elements. -/
def Op.newLength (n : ℤ) : Op → ℤ
  | .append _ => n + 1
  | .insert _ _ => n + 1
  | .get _ => n
  | .extract _ => n - 1

/-- All calls are in range, made one after the other from length `n`. -/
def InRangeFrom : ℤ → List Op → Prop
  | _, [] => True
  | n, op :: ops => op.InRange n ∧ InRangeFrom (op.newLength n) ops

instance decidableInRangeFrom : (n : ℤ) → (ops : List Op) → Decidable (InRangeFrom n ops)
  | _, [] => inferInstanceAs (Decidable True)
  | n, op :: ops =>
    have := decidableInRangeFrom (op.newLength n) ops
    inferInstanceAs (Decidable (op.InRange n ∧ InRangeFrom (op.newLength n) ops))

end RealTime.LinkedList
