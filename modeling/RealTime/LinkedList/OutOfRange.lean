import RealTime.LinkedList.Extract

/-! # Indices outside the list

The three operations compare the index with the length only. An index past the end is
turned away or, in `list_insert`, appended; a negative one passes the test and is served at
the head. -/

namespace RealTime.LinkedList

open Exec

/-- The call returns -1 and leaves the list as it is whatever the heap holds, so it
depends on no node. -/
def Rejected (x : ListM ℤ) (s : Store) : Prop :=
  ∀ heap, x.run ⟨heap, s.list⟩ = .ok (-1, ⟨heap, s.list⟩)

/-- The call errs nowhere and leaves a well formed list with the elements of `nodes`, in
their order. -/
def KeepsOrder (x : ListM Unit) (s : Store) (nodes : List ℕ) : Prop :=
  ∃ s' nodes', x.run s = .ok ((), s') ∧ WellFormed s' nodes' ∧ nodes.Sublist nodes' ∧
    ∀ a ∈ nodes, (s'.heap.cells a).map Node.data = (s.heap.cells a).map Node.data

variable {s : Store} {nodes : List ℕ} {xs : List ℤ} {index : ℤ}

/-! ## Past the end -/

theorem listGet_rejected (h : s.list.length ≤ index) : Rejected (listGet index) s := by
  intro heap
  rw [listGet, run_bind (get_run _), if_pos h]
  rfl

theorem listExtract_rejected (h : s.list.length ≤ index) : Rejected (listExtract index) s := by
  intro heap
  rw [listExtract, run_bind (get_run _), if_pos h]
  rfl

theorem appended_data (h : Forward s nodes xs) (ht : s.list.tail ≠ some s.heap.brk)
    (data : ℤ) {a : ℕ} (ha : a ∈ nodes) :
    ((appended s data).heap.cells a).map Node.data = (s.heap.cells a).map Node.data := by
  rw [appended_cells s data ht, if_neg (Nat.ne_of_lt (h.lt_brk ha))]
  split
  · simp [Function.comp_def]
  · rfl

theorem listInsert_keepsOrder (h : Linked s nodes xs) (hle : s.list.length ≤ index)
    (data : ℤ) : KeepsOrder (listInsert index data) s nodes := by
  have htail : s.list.tail ≠ some s.heap.brk := h.tail ▸ h.prevAt_ne_brk _
  have hrun := (listInsert_run_append s data hle).trans (h.listAppend_run h.tail data)
  exact ⟨_, _, hrun, (linked_appended h data).wellFormed, List.sublist_append_left _ _,
    fun a ha => appended_data h.toForward htail data ha⟩

/-! ## Before the start -/

/-- No pointer can be followed into an empty heap. -/
theorem load_empty (p : Option ℕ) (list : ListT) :
    ∃ e, (load p).run ⟨Heap.empty, list⟩ = .error e := by
  cases p with
  | none => exact ⟨.null, rfl⟩
  | some a => exact ⟨.dangling, rfl⟩

/-- The traversal to a negative index stops at the head at once. -/
theorem advance_of_neg (h : index < 0) (p : Option ℕ) :
    (advance index.toNat p).run s = .ok (p, s) := by
  rw [Int.toNat_of_nonpos (by omega)]
  rfl

/-- A call that first reads the node at the head is not independent of the nodes. -/
theorem not_rejected_of_load {x : ListM ℤ} {f : Node → ListM ℤ}
    (hx : x.run ⟨Heap.empty, s.list⟩ = (load s.list.head >>= f).run ⟨Heap.empty, s.list⟩) :
    ¬ Rejected x s := by
  intro hrej
  obtain ⟨e, he⟩ := load_empty s.list.head s.list
  have hrun := hrej Heap.empty
  rw [hx, run_bind_error he] at hrun
  cases hrun

theorem listGet_not_rejected (h : index < 0) (hlen : 0 ≤ s.list.length) :
    ¬ Rejected (listGet index) s := by
  apply not_rejected_of_load
  have hin : ¬ index ≥ s.list.length := by omega
  rw [listGet, run_bind (get_run _), if_neg hin, run_bind (advance_of_neg h _)]

theorem listExtract_not_rejected (h : index < 0) (hlen : 0 ≤ s.list.length) :
    ¬ Rejected (listExtract index) s := by
  apply not_rejected_of_load
  have hin : ¬ index ≥ s.list.length := by omega
  rw [listExtract, run_bind (get_run _), if_neg hin, run_bind (advance_of_neg h _)]

/-- Inserting before the start of an empty list goes through NULL. -/
theorem listInsert_null (h : index < 0) (hlen : s.list.length = 0) (hhead : s.list.head = none)
    (data : ℤ) : (listInsert index data).run s = .error .null := by
  have hin : ¬ index ≥ s.list.length := by omega
  have hadv := advance_of_neg (s := s) (show index - 1 < 0 by omega) s.list.head
  rw [listInsert, run_bind (get_run s), if_neg hin, run_bind hadv, hhead]
  simp [malloc, store, load]
  rfl

theorem listInsert_not_keepsOrder (h : Linked s nodes xs) (hneg : index < 0) (data : ℤ) :
    ¬ KeepsOrder (listInsert index data) s nodes := by
  intro hkeeps
  obtain ⟨s', nodes', hrun, hw, -, -⟩ := hkeeps
  cases nodes with
  | nil =>
      have hnull := listInsert_null hneg h.length h.head data
      cases hrun.symm.trans hnull
  | cons a rest =>
      obtain ⟨cur, c, hcur, hc, hins⟩ :=
        h.listInsert_run (Nat.succ_pos _) (show index < _ by omega) data
      obtain rfl : insertedAfter s cur c data = s' :=
        congrArg Prod.snd (Except.ok.inj (hins.symm.trans hrun))
      exact not_wellFormed_insertedAfter h hcur hc nodes' hw

/-! ## Every index outside the range -/

/-- On every well formed list, empty or not, an index outside the range of a call is
turned away without effect exactly when it is not negative. -/
theorem outOfRange_iff (h : WellFormed s nodes) (index data : ℤ) :
    (¬ (0 ≤ index ∧ index < s.list.length) →
      (Rejected (listGet index) s ↔ 0 ≤ index) ∧
        (Rejected (listExtract index) s ↔ 0 ≤ index)) ∧
      (¬ (0 ≤ index ∧ index ≤ s.list.length) →
        (KeepsOrder (listInsert index data) s nodes ↔ 0 ≤ index)) := by
  obtain ⟨xs, hl⟩ := h.linked
  have hlen : 0 ≤ s.list.length := by
    rw [h.length]
    exact Int.natCast_nonneg _
  by_cases hneg : index < 0
  · have hnot : ¬ 0 ≤ index := by omega
    refine ⟨fun _ => ⟨?_, ?_⟩, fun _ => ?_⟩
    · exact iff_of_false (listGet_not_rejected hneg hlen) hnot
    · exact iff_of_false (listExtract_not_rejected hneg hlen) hnot
    · exact iff_of_false (listInsert_not_keepsOrder hl hneg data) hnot
  · have hnot : 0 ≤ index := by omega
    refine ⟨fun hout => ⟨?_, ?_⟩, fun hout => ?_⟩
    · exact iff_of_true (listGet_rejected (by omega)) hnot
    · exact iff_of_true (listExtract_rejected (by omega)) hnot
    · exact iff_of_true (listInsert_keepsOrder hl (by omega) data) hnot

/-- Past the end of a list of one. -/
theorem outOfRange_iff_of_one :
    (¬ ((0 : ℤ) ≤ 7 ∧ 7 < (appended (listCreate Heap.empty) 5).list.length) →
      (Rejected (listGet 7) (appended (listCreate Heap.empty) 5) ↔ (0 : ℤ) ≤ 7) ∧
        (Rejected (listExtract 7) (appended (listCreate Heap.empty) 5) ↔ (0 : ℤ) ≤ 7)) ∧
      (¬ ((0 : ℤ) ≤ 7 ∧ 7 ≤ (appended (listCreate Heap.empty) 5).list.length) →
        (KeepsOrder (listInsert 7 9) (appended (listCreate Heap.empty) 5) [0] ↔ (0 : ℤ) ≤ 7)) :=
  outOfRange_iff (linked_appended (linked_create Heap.empty) 5).wellFormed 7 9

/-- On a list of one, index -1 reads the head and takes it out; on the empty list an
insertion at -1 goes through NULL. -/
theorem negative_index_not_rejected :
    WellFormed (appended (listCreate Heap.empty) 5) [0] ∧
      (listGet (-1)).run (appended (listCreate Heap.empty) 5) =
        .ok (5, appended (listCreate Heap.empty) 5) ∧
      ((listExtract (-1)).run (appended (listCreate Heap.empty) 5)).map
        (fun p => (p.1, p.2.list)) = .ok (5, ⟨none, none, 0⟩) ∧
      ¬ Rejected (listGet (-1)) (appended (listCreate Heap.empty) 5) ∧
      ¬ Rejected (listExtract (-1)) (appended (listCreate Heap.empty) 5) ∧
      WellFormed (listCreate Heap.empty) [] ∧
      (listInsert (-1) 9).run (listCreate Heap.empty) = .error .null ∧
      ¬ KeepsOrder (listInsert (-1) 9) (listCreate Heap.empty) [] :=
  ⟨(linked_appended (linked_create Heap.empty) 5).wellFormed, rfl, rfl,
    listGet_not_rejected (by decide) (by decide),
    listExtract_not_rejected (by decide) (by decide),
    (linked_create Heap.empty).wellFormed, listInsert_null (by decide) rfl rfl 9,
    listInsert_not_keepsOrder (linked_create Heap.empty) (by decide) 9⟩

end RealTime.LinkedList
