import RealTime.LinkedList.WellFormed

/-! # Extracting from a well formed list

What `list_extract` leaves of the list and of the memory around it, stated for any heap and
any list whose links are in place. -/

namespace RealTime.LinkedList

variable {s : Store} {nodes : List ℕ} {cur : ℕ} {c : Node}

/-- The memory and the list after the node at `cur`, at position `k`, has been taken out. -/
structure TakenOut (s : Store) (nodes : List ℕ) (k cur : ℕ) (s' : Store) : Prop where
  wellFormed : WellFormed s' (nodes.eraseIdx k)
  length : s'.list.length = s.list.length - 1
  data : ∀ a ≠ cur, (s'.heap.cells a).map Node.data = (s.heap.cells a).map Node.data
  freed : ∀ a, s'.heap.cells a = none ↔ s.heap.cells a = none ∨ a = cur
  outside : ∀ a ∉ nodes, s'.heap.cells a = s.heap.cells a
  brk : s'.heap.brk = s.heap.brk

/-- A well formed list has its back links and its tail by position. -/
theorem WellFormed.linked (h : WellFormed s nodes) : ∃ xs, Linked s nodes xs := by
  obtain ⟨xs, hchain⟩ := h.chain
  refine ⟨xs, ⟨hchain, h.head, h.length⟩, ?_, ?_⟩
  · intro k a n hk hn
    cases k with
    | zero => exact h.headPrev a n (h.head.trans hk) hn
    | succ k =>
        have hlt := (List.getElem?_eq_some_iff.mp hk).1
        have hprev : nodes[k]? = some nodes[k] := List.getElem?_eq_getElem (by omega)
        rw [prevAt_succ, hprev]
        exact h.back k _ a n hprev hk hn
  · rw [h.tail, prevAt_length]

theorem extracted_data (s : Store) (c : Node) {a : ℕ} (ha : a ≠ cur) :
    ((extracted s cur c).heap.cells a).map Node.data = (s.heap.cells a).map Node.data := by
  rw [extracted_cells, if_neg ha, Heap.modify?_cells]
  split <;> split <;> simp [Function.comp_def]

theorem extracted_eq_none (s : Store) (c : Node) (a : ℕ) :
    (extracted s cur c).heap.cells a = none ↔ s.heap.cells a = none ∨ a = cur := by
  by_cases ha : a = cur
  · simp [extracted_cells, ha]
  · have hdata := extracted_data s c ha
    rw [← Option.map_eq_none_iff (f := Node.data), hdata, Option.map_eq_none_iff]
    simp [ha]

/-- Only the neighbours of the node are written. -/
theorem extracted_outside (s : Store) (c : Node) {a : ℕ} (ha : a ≠ cur)
    (hp : c.prev ≠ some a) (hn : c.next ≠ some a) :
    (extracted s cur c).heap.cells a = s.heap.cells a := by
  rw [extracted_cells, if_neg ha, if_neg hn, Heap.modify?_cells, if_neg hp]

theorem extracted_brk (s : Store) (c : Node) : (extracted s cur c).heap.brk = s.heap.brk := by
  simp [extracted]

theorem prevAt_mem {k a : ℕ} (h : prevAt nodes k = some a) : a ∈ nodes := by
  cases k with
  | zero => cases h
  | succ k => exact List.mem_of_getElem? h

/-- `list_extract` returns the data at its index, takes out exactly the node there, frees
it, and touches neither NULL nor a freed node. -/
theorem listExtract_exact (h : WellFormed s nodes) {index : ℤ} (h0 : 0 ≤ index)
    (hlt : index < nodes.length) :
    ∃ cur c s', nodes[index.toNat]? = some cur ∧ s.heap.cells cur = some c ∧
      (listExtract index).run s = .ok (c.data, s') ∧
      TakenOut s nodes index.toNat cur s' := by
  obtain ⟨xs, hl⟩ := h.linked
  obtain ⟨cur, c, hcur, hc, hnext, -⟩ := hl.locate (show index.toNat < nodes.length by omega)
  have hprev := hl.back _ cur c hcur hc
  obtain ⟨-, hrun⟩ := hl.listExtract_run h0 hlt hcur hc (Nat.le_refl _) hprev
  refine ⟨cur, c, _, hcur, hc, hrun, (linked_extracted hl hcur hc).wellFormed, rfl,
    fun a ha => extracted_data s c ha, extracted_eq_none s c, ?_, extracted_brk s c⟩
  intro a ha
  have hne : a ≠ cur := by
    intro heq
    exact ha (heq ▸ List.mem_of_getElem? hcur)
  have hp : c.prev ≠ some a := fun heq => ha (prevAt_mem (hprev.symm.trans heq))
  have hn : c.next ≠ some a := fun heq => ha (List.mem_of_getElem? (hnext.symm.trans heq))
  exact extracted_outside s c hne hp hn

/-- The head of a list of two. -/
theorem listExtract_exact_of_two :
    ∃ cur c s', [0, 1][(0 : ℤ).toNat]? = some cur ∧
      (appended (appended (listCreate Heap.empty) 7) 8).heap.cells cur = some c ∧
      (listExtract 0).run (appended (appended (listCreate Heap.empty) 7) 8) =
        .ok (c.data, s') ∧
      TakenOut (appended (appended (listCreate Heap.empty) 7) 8) [0, 1] (0 : ℤ).toNat cur s' :=
  listExtract_exact
    (linked_appended (linked_appended (linked_create Heap.empty) 7) 8).wellFormed
    (by decide) (by decide)

end RealTime.LinkedList
