import RealTime.LinkedList.Model
import RealTime.Library.Chain
import RealTime.Library.Exec

/-! # What one call does to the store

Each operation is run symbolically once: these lemmas give the store it ends in, and the
cases in which it errs. Later modules do not unfold the operations again. -/

namespace RealTime.LinkedList

open Exec

/-! ## Traversal -/

theorem load_run {s : Store} {a : ℕ} {n : Node} (h : s.heap.cells a = some n) :
    (load (some a)).run s = .ok (n, s) := by
  simp [load, h]
  rfl

variable {s : Store} {nodes : List ℕ} {xs : List ℤ}

theorem advance_run (h : Chain Node.next Node.data s.heap.cells nodes xs) (k j : ℕ)
    (hk : j + k ≤ nodes.length) :
    (advance k nodes[j]?).run s = .ok (nodes[j + k]?, s) := by
  induction k generalizing j with
  | zero => rfl
  | succ k ih =>
      have hj : nodes[j]? = some nodes[j] := List.getElem?_eq_getElem (by omega)
      obtain ⟨n, hn, hnext, _⟩ := h.cell j _ hj
      rw [advance, hj, run_bind (load_run hn), hnext, ih (j + 1) (by omega)]
      rw [show j + 1 + k = j + (k + 1) by omega]

theorem listPrintLoop_run (h : Chain Node.next Node.data s.heap.cells nodes xs)
    (fuel j : ℕ) (hj : j < nodes.length) (hfuel : nodes.length ≤ j + fuel) :
    (listPrintLoop fuel nodes[j]?).run s = .ok (xs.drop j, s) := by
  induction fuel generalizing j with
  | zero => omega
  | succ fuel ih =>
      have hget : nodes[j]? = some nodes[j] := List.getElem?_eq_getElem hj
      obtain ⟨n, hn, hnext, hx⟩ := h.cell j _ hget
      obtain ⟨hjx, hxj⟩ := List.getElem?_eq_some_iff.mp hx
      have hdrop : xs.drop j = n.data :: xs.drop (j + 1) := by
        rw [← hxj, List.drop_eq_getElem_cons hjx]
      have hlink := h.link_eq_none_iff hget hn
      rw [listPrintLoop, hget, run_bind (load_run hn)]
      by_cases hlast : nodes.length ≤ j + 1
      · have hend : xs.drop (j + 1) = [] := List.drop_eq_nil_of_le (h.length_eq ▸ hlast)
        rw [if_pos (hlink.mpr hlast), hdrop, hend]
        rfl
      · rw [if_neg (mt hlink.mp hlast), hnext, run_bind (ih (j + 1) (by omega) (by omega)), hdrop]
        rfl

/-! ## Appending -/

/-- The store after an append that finds a usable tail. -/
def appended (s : Store) (data : ℤ) : Store where
  heap := (s.heap.alloc ⟨none, s.list.tail, data⟩).modify? s.list.tail
    fun n => { n with next := some s.heap.brk }
  list :=
    { head := if s.list.head = none then some s.heap.brk else s.list.head
      tail := some s.heap.brk
      length := s.list.length + 1 }

theorem listAppend_run (s : Store) (data : ℤ)
    (ht : ∀ t, s.list.tail = some t → ∃ n, s.heap.cells t = some n) :
    (listAppend data).run s = .ok ((), appended s data) := by
  cases htail : s.list.tail with
  | none =>
      by_cases hhead : s.list.head = none <;>
        simp [listAppend, malloc, setList, store, appended, Heap.modify?, htail, hhead] <;> rfl
  | some t =>
      obtain ⟨n, hn⟩ := ht t htail
      have hn' := s.heap.alloc_cells_of_live ⟨none, some t, data⟩ hn
      by_cases hhead : s.list.head = none <;>
        simp [listAppend, malloc, setList, store, appended, Heap.modify?, htail, hhead, hn'] <;>
        rfl

/-- Appending through a tail that has been freed is an error. -/
theorem listAppend_dangling (s : Store) (data : ℤ) {t : ℕ} (ht : s.list.tail = some t)
    (hold : t < s.heap.brk) (hdead : s.heap.cells t = none) :
    (listAppend data).run s = .error .dangling := by
  have hdead' (v : Node) : (s.heap.alloc v).cells t = none := by
    rw [Heap.alloc_cells, if_neg (Nat.ne_of_lt hold), hdead]
  by_cases hhead : s.list.head = none <;>
    simp [listAppend, malloc, setList, store, ht, hhead, hdead'] <;> rfl

/-! ## Inserting -/

/-- The store after a node is inserted behind the node at `cur`. -/
def insertedAfter (s : Store) (cur : ℕ) (c : Node) (data : ℤ) : Store where
  heap := (s.heap.alloc ⟨c.next, some cur, data⟩).modify cur
    fun n => { n with next := some s.heap.brk }
  list := { s.list with length := s.list.length + 1 }

theorem listInsert_run_append (s : Store) {index : ℤ} (data : ℤ)
    (hi : s.list.length ≤ index) :
    (listInsert index data).run s = (listAppend data).run s := by
  simp [listInsert, hi]

theorem listInsert_run (s : Store) {index : ℤ} (data : ℤ) {cur : ℕ} {c : Node}
    (hi : index < s.list.length)
    (hadv : (advance (index - 1).toNat s.list.head).run s = .ok (some cur, s))
    (hc : s.heap.cells cur = some c) :
    (listInsert index data).run s = .ok ((), insertedAfter s cur c data) := by
  have hc' (v : Node) := s.heap.alloc_cells_of_live v hc
  have hlt : ¬ index ≥ s.list.length := by omega
  rw [listInsert, run_bind (get_run s), if_neg hlt, run_bind hadv]
  simp [malloc, setList, store, load, insertedAfter, hc']
  rfl

/-! ## Extracting -/

/-- The store after the node at `cur` is taken out by its own links. -/
def extracted (s : Store) (cur : ℕ) (c : Node) : Store where
  heap := ((s.heap.modify? c.prev fun n => { n with next := c.next }).modify? c.next
    fun n => { n with prev := c.prev }).free cur
  list :=
    { head := if c.prev = none then c.next else s.list.head
      tail := if c.next = none then c.prev else s.list.tail
      length := s.list.length - 1 }

theorem listExtract_run (s : Store) {index : ℤ} {cur : ℕ} {c : Node}
    (hi : index < s.list.length)
    (hadv : (advance index.toNat s.list.head).run s = .ok (some cur, s))
    (hc : s.heap.cells cur = some c)
    (hprev : ∀ p, c.prev = some p → p ≠ cur ∧ ∃ n, s.heap.cells p = some n)
    (hnext : ∀ q, c.next = some q → q ≠ cur ∧ c.prev ≠ some q ∧ ∃ n, s.heap.cells q = some n) :
    (listExtract index).run s = .ok (c.data, extracted s cur c) := by
  have hlt : ¬ index ≥ s.list.length := by omega
  rw [listExtract, run_bind (get_run s), if_neg hlt, run_bind hadv, run_bind (load_run hc)]
  cases hp : c.prev with
  | none =>
      cases hq : c.next with
      | none =>
          simp [setList, load, free, extracted, Heap.modify?, hp, hq, hc]
          rfl
      | some q =>
          obtain ⟨hqc, -, n, hn⟩ := hnext q hq
          simp [setList, load, store, free, extracted, Heap.modify?, Heap.modify_cells, hp, hq,
            hc, hn, Ne.symm hqc]
          rfl
  | some p =>
      obtain ⟨hpc, m, hm⟩ := hprev p hp
      cases hq : c.next with
      | none =>
          simp [setList, load, store, free, extracted, Heap.modify?, Heap.modify_cells, hp, hq,
            hc, hm, Ne.symm hpc]
          rfl
      | some q =>
          obtain ⟨hqc, hpq, n, hn⟩ := hnext q hq
          have hqp : q ≠ p := by
            rintro rfl
            exact hpq hp
          simp [setList, load, store, free, extracted, Heap.modify?, Heap.modify_cells, hp, hq,
            hc, hm, hn, Ne.symm hpc, Ne.symm hqc, hqp]
          rfl

/-- Extracting a node whose predecessor has been freed is an error. -/
theorem listExtract_dangling (s : Store) {index : ℤ} {cur p : ℕ} {c : Node}
    (hi : index < s.list.length)
    (hadv : (advance index.toNat s.list.head).run s = .ok (some cur, s))
    (hc : s.heap.cells cur = some c) (hp : c.prev = some p) (hdead : s.heap.cells p = none) :
    (listExtract index).run s = .error .dangling := by
  have hlt : ¬ index ≥ s.list.length := by omega
  rw [listExtract, run_bind (get_run s), if_neg hlt, run_bind hadv, run_bind (load_run hc)]
  simp [store, hp, hdead]
  rfl

end RealTime.LinkedList
