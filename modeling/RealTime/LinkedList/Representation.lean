import Mathlib.Data.List.InsertIdx
import Mathlib.Data.List.Perm.Subperm
import RealTime.LinkedList.Effects

/-! # What the operations do to the forward chain

The chain lemmas cover stale links too: an operation that goes through a pointer to the
node before position `i` cuts the chain there, wherever it was meant to work. -/

namespace RealTime.LinkedList

open Exec

/-- The node a back link of position `k` should point to. -/
def prevAt (nodes : List ℕ) : ℕ → Option ℕ
  | 0 => none
  | k + 1 => nodes[k]?

@[simp] theorem prevAt_zero (nodes : List ℕ) : prevAt nodes 0 = none := rfl

@[simp] theorem prevAt_succ (nodes : List ℕ) (k : ℕ) : prevAt nodes (k + 1) = nodes[k]? := rfl

theorem prevAt_eraseIdx (nodes : List ℕ) (k : ℕ) :
    prevAt (nodes.eraseIdx k) k = prevAt nodes k := by
  cases k with
  | zero => rfl
  | succ k => rw [prevAt_succ, prevAt_succ, List.getElem?_eraseIdx_of_lt (Nat.lt_succ_self k)]

/-- The nodes reached from `head` by `next` are `nodes`, store `xs`, and are counted by
`length`. -/
structure Forward (s : Store) (nodes : List ℕ) (xs : List ℤ) : Prop where
  chain : Chain Node.next Node.data s.heap.cells nodes xs
  head : s.list.head = nodes[0]?
  length : s.list.length = nodes.length

variable {s : Store} {nodes : List ℕ} {xs : List ℤ} {i k cur : ℕ} {c : Node} {data : ℤ}

theorem Forward.length_eq (h : Forward s nodes xs) : s.list.length = xs.length := by
  rw [h.length, h.chain.length_eq]

theorem Forward.lt_brk (h : Forward s nodes xs) {a : ℕ} (ha : a ∈ nodes) :
    a < s.heap.brk := by
  obtain ⟨n, hn⟩ := h.chain.live ha
  exact s.heap.lt_brk hn

theorem Forward.prevAt_ne_brk (h : Forward s nodes xs) (i : ℕ) :
    prevAt nodes i ≠ some s.heap.brk := by
  intro hb
  cases i with
  | zero => simp at hb
  | succ i => exact absurd (h.lt_brk (List.mem_of_getElem? hb)) (Nat.lt_irrefl _)

theorem Forward.advance_run (h : Forward s nodes xs) (hk : k ≤ nodes.length) :
    (advance k s.list.head).run s = .ok (nodes[k]?, s) := by
  have ha := LinkedList.advance_run h.chain k 0 (by omega)
  rwa [← h.head, Nat.zero_add] at ha

/-- The traversal reaches the node at every position of the chain. -/
theorem Forward.locate (h : Forward s nodes xs) (hk : k < nodes.length) :
    ∃ cur c, nodes[k]? = some cur ∧ s.heap.cells cur = some c ∧ c.next = nodes[k + 1]? ∧
      xs[k]? = some c.data ∧ (advance k s.list.head).run s = .ok (some cur, s) := by
  have hget : nodes[k]? = some nodes[k] := List.getElem?_eq_getElem hk
  obtain ⟨c, hc, hnext, hx⟩ := h.chain.cell k _ hget
  have hadv := h.advance_run (Nat.le_of_lt hk)
  rw [hget] at hadv
  exact ⟨_, c, hget, hc, hnext, hx, hadv⟩

/-- A chain has no more nodes than have been allocated. -/
theorem length_le_brk (hc : Chain Node.next Node.data s.heap.cells nodes xs) :
    nodes.length ≤ s.heap.brk := by
  have hsub : nodes ⊆ List.range s.heap.brk := by
    intro a ha
    obtain ⟨n, hn⟩ := hc.live ha
    exact List.mem_range.mpr (s.heap.lt_brk hn)
  simpa using (List.Nodup.subperm hc.nodup hsub).length_le

/-- `list_print` walks exactly the chain, and its step bound is large enough. -/
theorem listPrint_run (hc : Chain Node.next Node.data s.heap.cells nodes xs)
    (hh : s.list.head = nodes[0]?) : listPrint.run s = .ok (xs, s) := by
  have hfuel := length_le_brk hc
  rw [listPrint, run_bind (get_run s)]
  cases nodes with
  | nil =>
      have hx : xs = [] := List.length_eq_zero_iff.mp hc.length_eq
      have hnone : s.list.head = none := by simpa using hh
      rw [if_pos hnone, hx]
      rfl
  | cons a rest =>
      have hsome : s.list.head ≠ none := by simp [hh]
      rw [if_neg hsome, hh]
      simpa using listPrintLoop_run hc s.heap.brk 0 (by simp) (by omega)

/-! ## Cells after each operation -/

theorem appended_cells (s : Store) (data : ℤ) (hb : s.list.tail ≠ some s.heap.brk) (b : ℕ) :
    (appended s data).heap.cells b =
      if b = s.heap.brk then some ⟨none, s.list.tail, data⟩
      else if s.list.tail = some b then
        (s.heap.cells b).map fun n => { n with next := some s.heap.brk }
      else s.heap.cells b := by
  simp only [appended, Heap.modify?_cells, Heap.alloc_cells]
  by_cases hbb : b = s.heap.brk
  · subst hbb
    simp [hb]
  · simp [hbb]

theorem insertedAfter_cells (hc : s.heap.cells cur = some c) (data : ℤ) (b : ℕ) :
    (insertedAfter s cur c data).heap.cells b =
      if b = s.heap.brk then some ⟨c.next, some cur, data⟩
      else if b = cur then some { c with next := some s.heap.brk }
      else s.heap.cells b := by
  have hne : cur ≠ s.heap.brk := Nat.ne_of_lt (s.heap.lt_brk hc)
  simp only [insertedAfter, Heap.modify_cells, Heap.alloc_cells]
  by_cases hbb : b = s.heap.brk
  · subst hbb
    simp [hne.symm]
  · by_cases hbc : b = cur
    · subst hbc
      simp [hbb, hc]
    · simp [hbb, hbc]

theorem extracted_cells (s : Store) (cur : ℕ) (c : Node) (b : ℕ) :
    (extracted s cur c).heap.cells b =
      if b = cur then none
      else if c.next = some b then
        ((s.heap.modify? c.prev fun n => { n with next := c.next }).cells b).map
          fun n => { n with prev := c.prev }
      else (s.heap.modify? c.prev fun n => { n with next := c.next }).cells b := by
  simp only [extracted, Heap.free_cells, Heap.modify?_cells]

/-! ## The chain after each operation -/

/-- Appending behind position `i` cuts off what followed it. -/
theorem chain_appended (h : Forward s nodes xs) (hi : i ≤ nodes.length)
    (ht : s.list.tail = prevAt nodes i) (data : ℤ) :
    Chain Node.next Node.data (appended s data).heap.cells
      (nodes.take i ++ [s.heap.brk]) (xs.take i ++ [data]) := by
  have htail : s.list.tail ≠ some s.heap.brk := ht ▸ h.prevAt_ne_brk i
  have hcell := appended_cells s data htail
  have hrest : Chain Node.next Node.data (appended s data).heap.cells [s.heap.brk] [data] := by
    have hnew : (appended s data).heap.cells s.heap.brk = some ⟨none, s.list.tail, data⟩ := by
      simp [hcell]
    exact Chain.nil.cons (by simp) hnew (by simp)
  refine h.chain.graft hi hrest ?_ ?_ ?_
  · intro a ha hb
    have hlt := h.lt_brk (List.mem_of_mem_take ha)
    have : a = s.heap.brk := by simpa using hb
    omega
  · intro j a n hj ha hn
    have hne : a ≠ s.heap.brk := Nat.ne_of_lt (s.heap.lt_brk hn)
    have hta : s.list.tail ≠ some a := by
      intro hta
      obtain ⟨i', rfl⟩ : ∃ i', i = i' + 1 := ⟨i - 1, by omega⟩
      rw [ht, prevAt_succ] at hta
      have := h.chain.index_inj ha hta
      omega
    exact ⟨n, by simp [hcell, hne, hta, hn], rfl, rfl⟩
  · intro j a n hj ha hn
    have hne : a ≠ s.heap.brk := Nat.ne_of_lt (s.heap.lt_brk hn)
    have hta : s.list.tail = some a := by
      rw [ht, ← hj, prevAt_succ, ha]
    exact ⟨{ n with next := some s.heap.brk }, by simp [hcell, hne, hta, hn], by simp, rfl⟩

/-- Inserting behind the node at position `i`. -/
theorem chain_insertedAfter (h : Forward s nodes xs) (hcur : nodes[i]? = some cur)
    (hc : s.heap.cells cur = some c) (data : ℤ) :
    Chain Node.next Node.data (insertedAfter s cur c data).heap.cells
      (nodes.take (i + 1) ++ s.heap.brk :: nodes.drop (i + 1))
      (xs.take (i + 1) ++ data :: xs.drop (i + 1)) := by
  have hcell := insertedAfter_cells hc data
  obtain ⟨hi, -⟩ := List.getElem?_eq_some_iff.mp hcur
  have hnext : c.next = nodes[i + 1]? := h.chain.link_eq hcur hc
  have hnotin : s.heap.brk ∉ nodes := by
    intro hm
    exact absurd (h.lt_brk hm) (by omega)
  have hdrop : Chain Node.next Node.data (insertedAfter s cur c data).heap.cells
      (nodes.drop (i + 1)) (xs.drop (i + 1)) := by
    refine (h.chain.drop (i + 1)).frame ?_
    intro a ha n hn
    have hne : a ≠ s.heap.brk := Nat.ne_of_lt (s.heap.lt_brk hn)
    have hac : a ≠ cur := by
      rintro rfl
      obtain ⟨j, hj⟩ := List.mem_iff_getElem?.mp ha
      rw [List.getElem?_drop] at hj
      have := h.chain.index_inj hj hcur
      omega
    exact ⟨n, by simp [hcell, hne, hac, hn], rfl, rfl⟩
  have hnew : (insertedAfter s cur c data).heap.cells s.heap.brk =
      some ⟨c.next, some cur, data⟩ := by
    simp [hcell]
  have hrest := hdrop.cons (fun hm => hnotin (List.mem_of_mem_drop hm)) hnew
    (by simp [hnext, List.getElem?_drop])
  refine h.chain.graft (by omega) hrest ?_ ?_ ?_
  · intro a ha hm
    rcases List.mem_cons.mp hm with rfl | hm
    · exact hnotin (List.mem_of_mem_take ha)
    · have hnd := h.chain.nodup
      rw [← List.take_append_drop (i + 1) nodes] at hnd
      exact (List.nodup_append'.mp hnd).2.2 ha hm
  · intro j a n hj ha hn
    have hne : a ≠ s.heap.brk := Nat.ne_of_lt (s.heap.lt_brk hn)
    have hac : a ≠ cur := by
      rintro rfl
      have := h.chain.index_inj ha hcur
      omega
    exact ⟨n, by simp [hcell, hne, hac, hn], rfl, rfl⟩
  · intro j a n hj ha hn
    obtain rfl : j = i := by omega
    obtain rfl : a = cur := Option.some.inj (ha.symm.trans hcur)
    obtain rfl : c = n := Option.some.inj (hc.symm.trans hn)
    have hne : a ≠ s.heap.brk := Nat.ne_of_lt (s.heap.lt_brk hn)
    exact ⟨{ c with next := some s.heap.brk }, by simp [hcell, hne], by simp, rfl⟩

/-- Extracting the node at position `k`, whose back link points to the node before
position `i`: the nodes from `i` to `k` leave the chain. -/
theorem chain_extracted (h : Forward s nodes xs) (hik : i ≤ k) (hcur : nodes[k]? = some cur)
    (hc : s.heap.cells cur = some c) (hp : c.prev = prevAt nodes i) :
    Chain Node.next Node.data (extracted s cur c).heap.cells
      (nodes.take i ++ nodes.drop (k + 1)) (xs.take i ++ xs.drop (k + 1)) := by
  have hcell := extracted_cells s cur c
  obtain ⟨hk, -⟩ := List.getElem?_eq_some_iff.mp hcur
  have hnext : c.next = nodes[k + 1]? := h.chain.link_eq hcur hc
  -- a node whose `next` is not redirected keeps its link and value
  have hkeep : ∀ j a n, nodes[j]? = some a → j ≠ k → j + 1 ≠ i → s.heap.cells a = some n →
      ∃ n', (extracted s cur c).heap.cells a = some n' ∧ n'.next = n.next ∧
        n'.data = n.data := by
    intro j a n ha hjk hji hn
    have hac : a ≠ cur := by
      rintro rfl
      exact hjk (h.chain.index_inj ha hcur)
    have hpa : c.prev ≠ some a := by
      rw [hp]
      intro hpa
      cases i with
      | zero => simp at hpa
      | succ i => exact hji (by rw [h.chain.index_inj ha hpa])
    have hn' : (s.heap.modify? c.prev fun n => { n with next := c.next }).cells a = some n := by
      rw [Heap.modify?_cells, if_neg hpa, hn]
    by_cases hna : c.next = some a
    · refine ⟨{ n with prev := c.prev }, ?_, rfl, rfl⟩
      rw [hcell, if_neg hac, if_pos hna, hn']
      rfl
    · refine ⟨n, ?_, rfl, rfl⟩
      rw [hcell, if_neg hac, if_neg hna, hn']
  have hrest : Chain Node.next Node.data (extracted s cur c).heap.cells
      (nodes.drop (k + 1)) (xs.drop (k + 1)) := by
    refine (h.chain.drop (k + 1)).frame ?_
    intro a ha n hn
    obtain ⟨j, hj⟩ := List.mem_iff_getElem?.mp ha
    rw [List.getElem?_drop] at hj
    exact hkeep _ a n hj (by omega) (by omega) hn
  refine h.chain.graft (by omega) hrest ?_ ?_ ?_
  · intro a ha hm
    obtain ⟨j, hj⟩ := List.mem_iff_getElem?.mp hm
    obtain ⟨j', hj'⟩ := List.mem_iff_getElem?.mp ha
    rw [List.getElem?_drop] at hj
    have hlt : j' < i := by
      have := (List.getElem?_eq_some_iff.mp hj').1
      simp at this
      omega
    rw [List.getElem?_take_of_lt hlt] at hj'
    have := h.chain.index_inj hj hj'
    omega
  · intro j a n hj ha hn
    exact hkeep j a n ha (by omega) (by omega) hn
  · intro j a n hj ha hn
    have hac : a ≠ cur := by
      rintro rfl
      have := h.chain.index_inj ha hcur
      omega
    have hpa : c.prev = some a := by rw [hp, ← hj, prevAt_succ, ha]
    have hna : c.next ≠ some a := by
      rw [hnext]
      intro hna
      have := h.chain.index_inj ha hna
      omega
    refine ⟨{ n with next := c.next }, ?_, ?_, rfl⟩
    · simp [hcell, hac, hna, Heap.modify?_cells, hpa, hn]
    · simp [hnext, List.getElem?_drop]

/-! ## Back links and tail after each operation -/

theorem appended_prev (h : Forward s nodes xs) (ht : s.list.tail ≠ some s.heap.brk)
    {a : ℕ} {n : Node} (hk : (nodes ++ [s.heap.brk])[k]? = some a)
    (hn : (appended s data).heap.cells a = some n) :
    (nodes[k]? = some a ∧ ∃ n₀, s.heap.cells a = some n₀ ∧ n.prev = n₀.prev) ∨
      (k = nodes.length ∧ n.prev = s.list.tail) := by
  rw [appended_cells s data ht] at hn
  by_cases hlast : k < nodes.length
  · rw [List.getElem?_append_left hlast] at hk
    have hne : a ≠ s.heap.brk := Nat.ne_of_lt (h.lt_brk (List.mem_of_getElem? hk))
    obtain ⟨n₀, hn₀⟩ := h.chain.live (List.mem_of_getElem? hk)
    refine .inl ⟨hk, n₀, hn₀, ?_⟩
    rw [if_neg hne, hn₀] at hn
    split at hn <;> simp at hn <;> simp [← hn]
  · obtain rfl : k = nodes.length := by
      have := (List.getElem?_eq_some_iff.mp hk).1
      simp at this
      omega
    obtain rfl : s.heap.brk = a := by simpa using hk
    rw [if_pos rfl] at hn
    exact .inr ⟨rfl, by rw [← Option.some.inj hn]⟩

/-- Every node but the new one keeps its back link. -/
theorem insertedAfter_prev (hc : s.heap.cells cur = some c) {a : ℕ} {n : Node}
    (hne : a ≠ s.heap.brk) (hn : (insertedAfter s cur c data).heap.cells a = some n) :
    ∃ n₀, s.heap.cells a = some n₀ ∧ n.prev = n₀.prev := by
  rw [insertedAfter_cells hc, if_neg hne] at hn
  split at hn
  · rename_i hac
    exact ⟨c, hac ▸ hc, by rw [← Option.some.inj hn]⟩
  · exact ⟨n, hn, rfl⟩

/-- The node that takes position `k` gets the back link of the extracted one. Position
`j` of the new list was position `m` of the old one. -/
theorem extracted_prev (h : Forward s nodes xs) (hcur : nodes[k]? = some cur)
    (hc : s.heap.cells cur = some c) {j a : ℕ} {n : Node}
    (hj : (nodes.eraseIdx k)[j]? = some a) (hn : (extracted s cur c).heap.cells a = some n) :
    (j = k ∧ n.prev = c.prev) ∨
      ∃ m n₀, (m < k ∧ j = m ∨ k + 1 < m ∧ j + 1 = m) ∧ nodes[m]? = some a ∧
        s.heap.cells a = some n₀ ∧ n.prev = n₀.prev := by
  have hnext : c.next = nodes[k + 1]? := h.chain.link_eq hcur hc
  have hac : a ≠ cur := by
    rintro rfl
    simp [extracted_cells] at hn
  have hold : nodes[if j < k then j else j + 1]? = some a := by
    rw [List.getElem?_eraseIdx] at hj
    split <;> simp_all
  obtain ⟨n₀, hn₀⟩ := h.chain.live (List.mem_of_getElem? hold)
  rw [extracted_cells, if_neg hac] at hn
  by_cases hjk : j = k
  · subst hjk
    have hna : c.next = some a := by
      rw [hnext]
      simpa using hold
    rw [if_pos hna] at hn
    obtain ⟨n₁, -, rfl⟩ := Option.map_eq_some_iff.mp hn
    exact .inl ⟨rfl, rfl⟩
  · have hna : c.next ≠ some a := by
      rw [hnext]
      intro hna
      have := h.chain.index_inj hna hold
      split at this <;> omega
    rw [if_neg hna, Heap.modify?_cells, hn₀] at hn
    refine .inr ⟨_, n₀, ?_, hold, hn₀, ?_⟩
    · split <;> omega
    · split at hn <;> simp at hn <;> simp [← hn]

theorem extracted_tail (h : Forward s nodes xs) (hcur : nodes[k]? = some cur)
    (hc : s.heap.cells cur = some c) :
    (k + 1 = nodes.length ∧ (extracted s cur c).list.tail = c.prev) ∨
      (k + 1 < nodes.length ∧ (extracted s cur c).list.tail = s.list.tail) := by
  have hlink := h.chain.link_eq_none_iff hcur hc
  obtain ⟨hk, -⟩ := List.getElem?_eq_some_iff.mp hcur
  by_cases hlast : k + 1 = nodes.length
  · have hnone : c.next = none := hlink.mpr (by omega)
    exact .inl ⟨hlast, by simp [extracted, hnone]⟩
  · have hsome : c.next ≠ none := mt hlink.mp (by omega)
    exact .inr ⟨by omega, by simp [extracted, hsome]⟩

/-! ## The header and the chain together -/

theorem forward_create (h : Heap Node) : Forward (listCreate h) [] [] :=
  ⟨Chain.nil, rfl, rfl⟩

theorem forward_appended (h : Forward s nodes xs)
    (ht : s.list.tail = prevAt nodes nodes.length) (data : ℤ) :
    Forward (appended s data) (nodes ++ [s.heap.brk]) (xs ++ [data]) := by
  have hchain := chain_appended h (Nat.le_refl _) ht data
  refine ⟨?_, ?_, ?_⟩
  · rwa [List.take_of_length_le (Nat.le_refl _),
      List.take_of_length_le (Nat.le_of_eq h.chain.length_eq)] at hchain
  · cases nodes with
    | nil => simp [appended, h.head]
    | cons a rest => simp [appended, h.head]
  · simp [appended, h.length]

theorem take_append_cons_drop {α : Type*} (l : List α) (x : α) {i : ℕ} (hi : i ≤ l.length) :
    l.take i ++ x :: l.drop i = l.insertIdx i x := by
  apply List.ext_getElem?
  intro j
  rw [Chain.getElem?_take_append hi, List.getElem?_insertIdx]
  split
  · rfl
  · split
    · rename_i hj
      simp [hj, hi]
    · rw [show j - i = j - 1 - i + 1 by omega, List.getElem?_cons_succ, List.getElem?_drop]
      rw [show i + (j - 1 - i) = j - 1 by omega]

theorem forward_insertedAfter (h : Forward s nodes xs) (hcur : nodes[i]? = some cur)
    (hc : s.heap.cells cur = some c) (data : ℤ) :
    Forward (insertedAfter s cur c data) (nodes.insertIdx (i + 1) s.heap.brk)
      (xs.insertIdx (i + 1) data) := by
  have hchain := chain_insertedAfter h hcur hc data
  obtain ⟨hi, -⟩ := List.getElem?_eq_some_iff.mp hcur
  rw [take_append_cons_drop nodes _ hi,
    take_append_cons_drop xs _ (by rw [h.chain.length_eq]; exact hi)] at hchain
  refine ⟨hchain, ?_, ?_⟩
  · rw [List.getElem?_insertIdx, if_pos (by omega), ← h.head]
    rfl
  · simp only [insertedAfter, h.length]
    rw [List.length_insertIdx, if_pos (by omega)]
    omega

theorem forward_extracted (h : Forward s nodes xs) (hcur : nodes[k]? = some cur)
    (hc : s.heap.cells cur = some c) (hp : c.prev = prevAt nodes k) :
    Forward (extracted s cur c) (nodes.eraseIdx k) (xs.eraseIdx k) := by
  have hchain := chain_extracted h (Nat.le_refl k) hcur hc hp
  rw [← List.eraseIdx_eq_take_drop_succ, ← List.eraseIdx_eq_take_drop_succ] at hchain
  have hnext : c.next = nodes[k + 1]? := h.chain.link_eq hcur hc
  obtain ⟨hk, -⟩ := List.getElem?_eq_some_iff.mp hcur
  refine ⟨hchain, ?_, ?_⟩
  · cases k with
    | zero => simp [extracted, hp, hnext]
    | succ k =>
        have hsome : c.prev ≠ none := by
          rw [hp, prevAt_succ, List.getElem?_eq_getElem (by omega)]
          exact Option.some_ne_none _
        rw [List.getElem?_eraseIdx_of_lt (by omega), ← h.head]
        simp [extracted, hsome]
  · simp only [extracted, h.length, List.length_eraseIdx, if_pos hk]
    omega

/-! ## Calls on a forward chain -/

theorem Forward.listAppend_run (h : Forward s nodes xs) (ht : s.list.tail = prevAt nodes i)
    (data : ℤ) : (listAppend data).run s = .ok ((), appended s data) := by
  apply LinkedList.listAppend_run
  intro t hst
  rw [ht] at hst
  cases i with
  | zero => simp at hst
  | succ i => exact h.chain.live (List.mem_of_getElem? hst)

theorem Forward.listGet_run (h : Forward s nodes xs) {index : ℤ} (h0 : 0 ≤ index)
    (hlt : index < nodes.length) :
    ∃ v, xs[index.toNat]? = some v ∧ (listGet index).run s = .ok (v, s) := by
  obtain ⟨cur, c, -, hc, -, hx, hadv⟩ := h.locate (show index.toNat < nodes.length by omega)
  have hin : ¬ index ≥ s.list.length := by
    rw [h.length]
    omega
  refine ⟨c.data, hx, ?_⟩
  rw [listGet, run_bind (get_run s), if_neg hin, run_bind hadv, run_bind (load_run hc)]
  rfl

/-- A negative index too inserts behind the head. -/
theorem Forward.listInsert_run (h : Forward s nodes xs) {index : ℤ} (hpos : 0 < nodes.length)
    (hlt : index < nodes.length) (data : ℤ) :
    ∃ cur c, nodes[(index - 1).toNat]? = some cur ∧ s.heap.cells cur = some c ∧
      (listInsert index data).run s = .ok ((), insertedAfter s cur c data) := by
  obtain ⟨cur, c, hcur, hc, -, -, hadv⟩ :=
    h.locate (show (index - 1).toNat < nodes.length by omega)
  have hin : index < s.list.length := by
    rw [h.length]
    exact hlt
  exact ⟨cur, c, hcur, hc, LinkedList.listInsert_run s data hin hadv hc⟩

theorem Forward.listExtract_run (h : Forward s nodes xs) {index : ℤ} (h0 : 0 ≤ index)
    (hlt : index < nodes.length) (hcur : nodes[index.toNat]? = some cur)
    (hc : s.heap.cells cur = some c) (hi : i ≤ index.toNat) (hp : c.prev = prevAt nodes i) :
    xs[index.toNat]? = some c.data ∧
      (listExtract index).run s = .ok (c.data, extracted s cur c) := by
  obtain ⟨cur', c', hcur', hc', hnext, hx, hadv⟩ :=
    h.locate (show index.toNat < nodes.length by omega)
  obtain rfl : cur = cur' := Option.some.inj (hcur.symm.trans hcur')
  obtain rfl : c = c' := Option.some.inj (hc.symm.trans hc')
  have hin : index < s.list.length := by
    rw [h.length]
    exact hlt
  refine ⟨hx, LinkedList.listExtract_run s hin hadv hc ?_ ?_⟩
  · intro p hcp
    rw [hp] at hcp
    cases i with
    | zero => simp at hcp
    | succ i =>
        refine ⟨?_, h.chain.live (List.mem_of_getElem? hcp)⟩
        rintro rfl
        have := h.chain.index_inj hcp hcur
        omega
  · intro q hcq
    rw [hnext] at hcq
    refine ⟨?_, ?_, h.chain.live (List.mem_of_getElem? hcq)⟩
    · rintro rfl
      have := h.chain.index_inj hcq hcur
      omega
    · rw [hp]
      intro hcp
      cases i with
      | zero => simp at hcp
      | succ i =>
          have := h.chain.index_inj hcp hcq
          omega

end RealTime.LinkedList
