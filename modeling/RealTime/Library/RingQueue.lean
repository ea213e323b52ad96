import Mathlib.Data.List.Basic
import Mathlib.Logic.Function.Basic
import RealTime.Library.Cyclic

/-! # Queues in a ring of slots

A bounded queue kept in a ring of slots that are empty or hold an item. `head` is the
slot of the oldest item, `tail` the slot for the next one. When all slots are occupied
the two are equal, as they are when all are empty. -/

namespace RealTime.RingQueue

open Cyclic

variable {n : ℕ} {α : Type*} {slot : Fin n → Option α} {head tail : Fin n}
  {x : α} {xs : List α}

/-- The items in the slots, starting from `head`. -/
def contents (slot : Fin n → Option α) (head : Fin n) : List α :=
  (List.range n).filterMap fun k => slot (pos head k)

/-- The slots from `head` on hold `xs` and nothing else, and `tail` comes after them. -/
structure Ring (slot : Fin n → Option α) (head tail : Fin n) (xs : List α) : Prop where
  length_le : xs.length ≤ n
  tail : tail = pos head xs.length
  slots : ∀ k < n, slot (pos head k) = xs[k]?

namespace Ring

theorem nil (hempty : ∀ i, slot i = none) (head : Fin n) : Ring slot head head [] where
  length_le := Nat.zero_le n
  tail := by simp
  slots k _ := by simp [hempty]

theorem contents_eq (h : Ring slot head tail xs) : contents slot head = xs := by
  have hprefix : ∀ k ≤ n, (List.range k).filterMap (fun j => slot (pos head j)) = xs.take k := by
    intro k hk
    induction k with
    | zero => rfl
    | succ k ih =>
        rw [List.range_succ, List.filterMap_append, ih (by omega), List.take_add_one]
        cases hx : xs[k]? <;> simp [h.slots k hk, hx]
  rw [contents, hprefix n (Nat.le_refl n), List.take_of_length_le h.length_le]

theorem head_slot (h : Ring slot head tail xs) : slot head = xs.head? := by
  have hslot := h.slots 0 head.pos
  rwa [pos_zero, ← List.head?_eq_getElem?] at hslot

/-- The slot for the next item is free exactly when not all are occupied. -/
theorem tail_slot (h : Ring slot head tail xs) : slot tail = none ↔ xs.length < n := by
  constructor
  · intro hfree
    by_contra hfull
    have hlength : xs.length = n := Nat.le_antisymm h.length_le (Nat.le_of_not_lt hfull)
    rw [h.tail, hlength, pos_self, h.head_slot, List.head?_eq_none_iff] at hfree
    have hpos := head.pos
    simp [hfree] at hlength
    omega
  · intro hlt
    rw [h.tail, h.slots _ hlt]
    simp

theorem empty_iff (h : Ring slot head tail xs) : (∀ i, slot i = none) ↔ xs = [] := by
  constructor
  · intro hempty
    rw [← List.head?_eq_none_iff, ← h.head_slot, hempty]
  · rintro rfl i
    obtain ⟨k, hk, rfl⟩ := exists_pos head i
    simpa using h.slots k hk

theorem mem_iff (h : Ring slot head tail xs) : x ∈ xs ↔ ∃ i, slot i = some x := by
  constructor
  · intro hx
    obtain ⟨k, hk, rfl⟩ := List.mem_iff_getElem.mp hx
    exact ⟨pos head k, by rw [h.slots k (hk.trans_le h.length_le), List.getElem?_eq_getElem hk]⟩
  · rintro ⟨i, hi⟩
    obtain ⟨k, hk, rfl⟩ := exists_pos head i
    rw [h.slots k hk] at hi
    exact List.mem_of_getElem? hi

theorem exists_free (h : Ring slot head tail xs) : (∃ i, slot i = none) ↔ xs.length < n := by
  constructor
  · rintro ⟨i, hi⟩
    obtain ⟨k, hk, rfl⟩ := exists_pos head i
    rw [h.slots k hk, List.getElem?_eq_none_iff] at hi
    omega
  · exact fun hlt => ⟨tail, h.tail_slot.mpr hlt⟩

theorem push (h : Ring slot head tail xs) (hlt : xs.length < n) (x : α) :
    Ring (Function.update slot tail (some x)) head (next tail) (xs ++ [x]) where
  length_le := by simpa using Nat.succ_le_of_lt hlt
  tail := by simp [h.tail, next_pos]
  slots k hk := by
    rw [h.tail, Function.update_apply]
    by_cases heq : k = xs.length
    · simp [heq]
    · have hne : pos head k ≠ pos head xs.length := fun hpos => heq (pos_inj hk hlt hpos)
      rw [if_neg hne, h.slots k hk]
      rcases Nat.lt_or_gt_of_ne heq with hlow | hhigh
      · rw [List.getElem?_append_left hlow]
      · rw [List.getElem?_eq_none (by omega), List.getElem?_eq_none (by simp; omega)]

theorem pop (h : Ring slot head tail (x :: xs)) :
    Ring (Function.update slot head none) (next head) tail xs where
  length_le := Nat.le_of_succ_le h.length_le
  tail := by simp [h.tail]
  slots k hk := by
    have hlength : xs.length + 1 ≤ n := h.length_le
    rw [pos_next, Function.update_apply]
    by_cases hlast : k + 1 = n
    · rw [hlast, pos_self, if_pos rfl, List.getElem?_eq_none (by omega)]
    · have hne : pos head (k + 1) ≠ head := by
        intro hpos
        have := pos_inj (h := head) (by omega : k + 1 < n) head.pos (by rw [hpos, pos_zero])
        omega
      rw [if_neg hne, h.slots (k + 1) (by omega), List.getElem?_cons_succ]

end Ring

end RealTime.RingQueue
