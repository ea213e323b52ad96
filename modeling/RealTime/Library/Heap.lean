import Mathlib.Data.Nat.Notation
import Mathlib.Logic.Function.Basic

/-! # Heaps with fresh allocation

An address is live when it holds a cell. Addresses from `brk` on have never been
allocated, and a freed address is not handed out again. -/

namespace RealTime

@[ext] structure Heap (α : Type*) where
  cells : ℕ → Option α
  brk : ℕ
  fresh : ∀ a, brk ≤ a → cells a = none

namespace Heap

variable {α : Type*} (h : Heap α)

def empty : Heap α := ⟨fun _ => none, 0, fun _ _ => rfl⟩

theorem lt_brk {a : ℕ} {v : α} (hv : h.cells a = some v) : a < h.brk := by
  by_contra hn
  simp [h.fresh a (Nat.le_of_not_lt hn)] at hv

/-- Allocate the next address with contents `v`. -/
def alloc (v : α) : Heap α where
  cells := Function.update h.cells h.brk (some v)
  brk := h.brk + 1
  fresh a ha := by
    rw [Function.update_of_ne (by omega)]
    exact h.fresh a (by omega)

/-- Apply `f` to the contents of `a`, if it is live. -/
def modify (a : ℕ) (f : α → α) : Heap α where
  cells := Function.update h.cells a ((h.cells a).map f)
  brk := h.brk
  fresh b hb := by
    by_cases hab : b = a
    · subst hab
      simp [h.fresh b hb]
    · rw [Function.update_of_ne hab]
      exact h.fresh b hb

/-- `modify` through a nullable pointer. -/
def modify? : Option ℕ → (α → α) → Heap α
  | none, _ => h
  | some a, f => h.modify a f

def free (a : ℕ) : Heap α where
  cells := Function.update h.cells a none
  brk := h.brk
  fresh b hb := by
    by_cases hab : b = a
    · simp [hab]
    · rw [Function.update_of_ne hab]
      exact h.fresh b hb

/-! ## What each operation does to the cells -/

@[simp] theorem alloc_brk (v : α) : (h.alloc v).brk = h.brk + 1 := rfl

@[simp] theorem modify_brk (a : ℕ) (f : α → α) : (h.modify a f).brk = h.brk := rfl

@[simp] theorem modify?_brk (p : Option ℕ) (f : α → α) : (h.modify? p f).brk = h.brk := by
  cases p <;> rfl

@[simp] theorem free_brk (a : ℕ) : (h.free a).brk = h.brk := rfl

theorem alloc_cells (v : α) (b : ℕ) :
    (h.alloc v).cells b = if b = h.brk then some v else h.cells b := by
  simp [alloc, Function.update_apply]

theorem modify_cells (a : ℕ) (f : α → α) (b : ℕ) :
    (h.modify a f).cells b = if b = a then (h.cells a).map f else h.cells b := by
  simp [modify, Function.update_apply]

theorem modify?_cells (p : Option ℕ) (f : α → α) (b : ℕ) :
    (h.modify? p f).cells b = if p = some b then (h.cells b).map f else h.cells b := by
  cases p with
  | none => simp [modify?]
  | some a =>
      rw [modify?, modify_cells]
      by_cases hab : b = a
      · simp [hab]
      · simp [hab, Ne.symm hab]

theorem free_cells (a b : ℕ) :
    (h.free a).cells b = if b = a then none else h.cells b := by
  simp [free, Function.update_apply]

@[simp] theorem alloc_cells_self (v : α) : (h.alloc v).cells h.brk = some v := by
  simp [alloc_cells]

theorem alloc_cells_of_live (v : α) {b : ℕ} {w : α} (hb : h.cells b = some w) :
    (h.alloc v).cells b = some w := by
  rw [alloc_cells, if_neg (Nat.ne_of_lt (h.lt_brk hb)), hb]

/-- Writing the cell just allocated is allocating it with other contents. -/
@[simp] theorem modify_alloc_self (v : α) (f : α → α) :
    (h.alloc v).modify h.brk f = h.alloc (f v) := by
  ext b : 2
  · rw [modify_cells, alloc_cells, alloc_cells, alloc_cells]
    split <;> simp
  · rfl

end Heap

end RealTime
