import RealTime.LinkedList.Refinement

/-! # The doubly linked representation

`Linked` is the compact form of the invariant, by positions; `WellFormed` spells it out
link by link. Appending and extracting restore it, inserting before the end does not. -/

namespace RealTime.LinkedList

open Exec Transition

/-- All links of the list, stated on its chain of nodes. -/
structure WellFormed (s : Store) (nodes : List ℕ) : Prop where
  head : s.list.head = nodes[0]?
  next : ∀ k a, nodes[k]? = some a → ∃ n, s.heap.cells a = some n ∧ n.next = nodes[k + 1]?
  distinct : nodes.Nodup
  length : s.list.length = nodes.length
  headPrev : ∀ a n, s.list.head = some a → s.heap.cells a = some n → n.prev = none
  back : ∀ k a b m, nodes[k]? = some a → nodes[k + 1]? = some b → s.heap.cells b = some m →
    m.prev = some a
  tail : s.list.tail = nodes.getLast?
  tailNext : ∀ a n, s.list.tail = some a → s.heap.cells a = some n → n.next = none
  empty : s.list.head = none ∧ s.list.tail = none ↔ s.list.length = 0

/-- The forward chain with every back link and the tail in place. -/
structure Linked (s : Store) (nodes : List ℕ) (xs : List ℤ) : Prop
    extends Forward s nodes xs where
  back : ∀ k a n, nodes[k]? = some a → s.heap.cells a = some n → n.prev = prevAt nodes k
  tail : s.list.tail = prevAt nodes nodes.length

variable {s : Store} {nodes : List ℕ} {xs : List ℤ} {k cur : ℕ} {c : Node}

theorem prevAt_length (nodes : List ℕ) : prevAt nodes nodes.length = nodes.getLast? := by
  rw [List.getLast?_eq_getElem?]
  cases nodes <;> simp

theorem Linked.wellFormed (h : Linked s nodes xs) : WellFormed s nodes where
  head := h.head
  next k a hk := by
    obtain ⟨n, hn, hnext, -⟩ := h.chain.cell k a hk
    exact ⟨n, hn, hnext⟩
  distinct := h.chain.nodup
  length := h.length
  headPrev a n ha hn := by
    rw [h.head] at ha
    exact h.back 0 a n ha hn
  back k a b m ha hb hm := by
    rw [h.back (k + 1) b m hb hm, prevAt_succ, ha]
  tail := by rw [h.tail, prevAt_length]
  tailNext a n ha hn := by
    rw [h.tail] at ha
    cases hlen : nodes.length with
    | zero => simp [hlen] at ha
    | succ m =>
        rw [hlen, prevAt_succ] at ha
        rw [h.chain.link_eq ha hn, List.getElem?_eq_none (by omega)]
  empty := by
    rw [h.head, h.tail, h.length]
    cases nodes with
    | nil => simp
    | cons a rest =>
        simp
        omega

theorem linked_create (h : Heap Node) : Linked (listCreate h) [] [] where
  toForward := forward_create h
  back := by simp
  tail := rfl

theorem prevAt_append (nodes rest : List ℕ) (hk : k ≤ nodes.length) :
    prevAt (nodes ++ rest) k = prevAt nodes k := by
  cases k with
  | zero => rfl
  | succ k => rw [prevAt_succ, prevAt_succ, List.getElem?_append_left (by omega)]

theorem linked_appended (h : Linked s nodes xs) (data : ℤ) :
    Linked (appended s data) (nodes ++ [s.heap.brk]) (xs ++ [data]) := by
  have htail : s.list.tail ≠ some s.heap.brk := h.tail ▸ h.prevAt_ne_brk _
  refine ⟨forward_appended h.toForward h.tail data, ?_, ?_⟩
  · intro k a n hk hn
    rcases appended_prev h.toForward htail hk hn with ⟨hk', n₀, hn₀, hprev⟩ | ⟨rfl, hprev⟩
    · have hlt := (List.getElem?_eq_some_iff.mp hk').1
      rw [hprev, h.back k a n₀ hk' hn₀, prevAt_append _ _ (Nat.le_of_lt hlt)]
    · rw [hprev, h.tail, prevAt_append _ _ (Nat.le_refl _)]
  · simp [appended]

theorem linked_extracted (h : Linked s nodes xs) (hcur : nodes[k]? = some cur)
    (hc : s.heap.cells cur = some c) :
    Linked (extracted s cur c) (nodes.eraseIdx k) (xs.eraseIdx k) := by
  have hp := h.back k cur c hcur hc
  obtain ⟨hk, -⟩ := List.getElem?_eq_some_iff.mp hcur
  have hlater : ∀ {m}, k + 1 < m → prevAt (nodes.eraseIdx k) (m - 1) = prevAt nodes m := by
    intro m hm
    obtain ⟨m, rfl⟩ : ∃ m', m = m' + 2 := ⟨m - 2, by omega⟩
    rw [show m + 2 - 1 = m + 1 by omega, prevAt_succ, prevAt_succ,
      List.getElem?_eraseIdx_of_ge (by omega)]
  refine ⟨forward_extracted h.toForward hcur hc hp, ?_, ?_⟩
  · intro j a n hj hn
    rcases extracted_prev h.toForward hcur hc hj hn with
      ⟨rfl, hnp⟩ | ⟨m, n₀, hm, hold, hn₀, hnp⟩
    · rw [hnp, hp, prevAt_eraseIdx]
    · rw [hnp, h.back m a n₀ hold hn₀]
      rcases hm with ⟨hmk, rfl⟩ | ⟨hmk, hjm⟩
      · cases j with
        | zero => rfl
        | succ j =>
            rw [prevAt_succ, prevAt_succ, List.getElem?_eraseIdx_of_lt (by omega)]
      · rw [show j = m - 1 by omega, hlater hmk]
  · rw [List.length_eraseIdx, if_pos hk]
    rcases extracted_tail h.toForward hcur hc with ⟨hlast, ht⟩ | ⟨hlast, ht⟩
    · rw [ht, hp, ← hlast, Nat.add_sub_cancel, prevAt_eraseIdx]
    · rw [ht, h.tail, hlater hlast]

/-! ## Runs -/

/-- An insert is made at the end. -/
def AtEnd (p : Store × List ℤ) : Op → Prop
  | .append _ => True
  | .insert index _ => p.1.list.length ≤ index
  | .get _ => True
  | .extract _ => True

theorem exec_of_atEnd (h : Linked s nodes xs) {op : Op} (hr : op.InRange xs.length)
    (hs : AtEnd (s, xs) op) :
    ∃ s' nodes', Step (s, xs) op (s', op.apply xs) ∧ Linked s' nodes' (op.apply xs) := by
  have hslen := h.length
  rw [h.chain.length_eq] at hr
  cases op with
  | append data =>
      refine ⟨_, _, ⟨⟨none, ?_⟩, rfl⟩, linked_appended h data⟩
      rw [Op.exec, run_bind (h.listAppend_run h.tail data)]
      rfl
  | insert index data =>
      have hend : Op.apply (.insert index data) xs = xs ++ [data] := by
        have hindex : index.toNat = xs.length := by
          have hle : s.list.length ≤ index := hs
          have := hr.2
          rw [h.chain.length_eq]
          omega
        simp [Op.apply, hindex]
      rw [hend]
      refine ⟨_, _, ⟨⟨none, ?_⟩, hend.symm⟩, linked_appended h data⟩
      rw [Op.exec, run_bind ((listInsert_run_append s data hs).trans
        (h.listAppend_run h.tail data))]
      rfl
  | get index =>
      obtain ⟨v, hv, hrun⟩ := h.listGet_run hr.1 hr.2
      refine ⟨s, nodes, ⟨⟨some v, ?_⟩, rfl⟩, h⟩
      rw [Op.exec, run_bind hrun]
      rfl
  | extract index =>
      obtain ⟨cur, c, hcur, hc, -⟩ := h.locate (show index.toNat < nodes.length by
        have := hr.1
        have := hr.2
        omega)
      obtain ⟨hx, hrun⟩ := h.listExtract_run hr.1 hr.2 hcur hc (Nat.le_refl _)
        (h.back _ cur c hcur hc)
      refine ⟨_, _, ⟨⟨some c.data, ?_⟩, rfl⟩, linked_extracted h hcur hc⟩
      rw [Op.exec, run_bind hrun]
      rfl

theorem WellFormed.chain (h : WellFormed s nodes) :
    ∃ xs, Chain Node.next Node.data s.heap.cells nodes xs := by
  refine ⟨nodes.map fun a => ((s.heap.cells a).map Node.data).getD 0, h.distinct,
    by simp, ?_⟩
  intro k a hk
  obtain ⟨n, hn, hnext⟩ := h.next k a hk
  exact ⟨n, hn, hnext, by simp [hk, hn]⟩

/-- A node put behind an existing one is not linked back: its successor still points to
the old predecessor, and `tail` is not moved. -/
theorem not_wellFormed_insertedAfter {i : ℕ} {data : ℤ} (h : Linked s nodes xs)
    (hcur : nodes[i]? = some cur) (hc : s.heap.cells cur = some c) (nodes' : List ℕ) :
    ¬ WellFormed (insertedAfter s cur c data) nodes' := by
  intro hw
  have hf := forward_insertedAfter h.toForward hcur hc data
  obtain ⟨hi, -⟩ := List.getElem?_eq_some_iff.mp hcur
  have hlt := h.lt_brk (List.mem_of_getElem? hcur)
  obtain ⟨ys, hys⟩ := hw.chain
  obtain ⟨rfl, -⟩ := hys.unique hf.chain (hw.head.symm.trans hf.head)
  have hnew : (nodes.insertIdx (i + 1) s.heap.brk)[i + 1]? = some s.heap.brk := by
    rw [List.getElem?_insertIdx_self, if_pos (by omega)]
  by_cases hlast : i + 1 < nodes.length
  · have hb : nodes[i + 1]? = some nodes[i + 1] := List.getElem?_eq_getElem hlast
    have hb' : (nodes.insertIdx (i + 1) s.heap.brk)[i + 1 + 1]? = some nodes[i + 1] := by
      rw [List.getElem?_insertIdx_of_gt (by omega), Nat.add_sub_cancel, hb]
    obtain ⟨m, hm, -⟩ := hw.next _ _ hb'
    obtain ⟨m₀, hm₀, hprev⟩ := insertedAfter_prev hc
      (Nat.ne_of_lt (h.lt_brk (List.mem_of_getElem? hb))) hm
    have hback := hw.back (i + 1) _ _ m hnew hb' hm
    rw [hprev, h.back (i + 1) _ m₀ hb hm₀, prevAt_succ, hcur] at hback
    exact absurd (Option.some.inj hback) (Nat.ne_of_lt hlt)
  · have htail := hw.tail
    rw [← prevAt_length, List.length_insertIdx, if_pos (by omega), prevAt_succ,
      show nodes.length = i + 1 by omega, hnew] at htail
    have hold : s.list.tail = some cur := by
      rw [h.tail, show nodes.length = i + 1 by omega, prevAt_succ, hcur]
    have : some cur = some s.heap.brk := hold.symm.trans htail
    exact absurd (Option.some.inj this) (Nat.ne_of_lt hlt)

theorem not_wellFormed_of_insert (h : Linked s nodes xs) {op : Op} {q : Store × List ℤ}
    (hr : op.InRange xs.length) (hs : ¬ AtEnd (s, xs) op) (hstep : Step (s, xs) op q) :
    ¬ ∃ nodes', WellFormed q.1 nodes' := by
  rintro ⟨nodes', hw⟩
  cases op with
  | append data => exact hs trivial
  | get index => exact hs trivial
  | extract index => exact hs trivial
  | insert index data =>
      have hin : index < nodes.length := by
        have hlt : ¬ s.list.length ≤ index := hs
        rw [h.length] at hlt
        omega
      obtain ⟨cur, c, hcur, hc, hrun⟩ := h.listInsert_run (by have := hr.1; omega) hin data
      obtain ⟨⟨r, hexec⟩, -⟩ := hstep
      rw [Op.exec, run_bind hrun] at hexec
      have hq : insertedAfter s cur c data = q.1 := congrArg Prod.snd (Except.ok.inj hexec)
      exact not_wellFormed_insertedAfter h hcur hc nodes' (hq ▸ hw)

/-- `list_create` gives a well formed list. In a run of calls in range, all later states
are well formed, and no call errs, exactly when every insert is made at the end. -/
theorem wellFormed_throughout_iff (h : Heap Node) (ops : List Op) (hr : InRangeFrom 0 ops) :
    (∃ nodes, WellFormed (listCreate h) nodes) ∧
      (Throughout Step (fun _ _ q => ∃ nodes, WellFormed q.1 nodes) (listCreate h, []) ops ↔
        Along Step AtEnd (listCreate h, []) ops) := by
  let P : Store × List ℤ → Prop := fun p => ∃ nodes, Linked p.1 nodes p.2
  have hgood : ∀ p op, P p → op.InRange p.2.length → AtEnd p op →
      ∃ q, Step p op q ∧ P q ∧ ∃ nodes, WellFormed q.1 nodes := by
    rintro ⟨s, xs⟩ op ⟨nodes, h⟩ hr hs
    obtain ⟨s', nodes', hstep, h'⟩ := exec_of_atEnd h hr hs
    exact ⟨_, hstep, ⟨nodes', h'⟩, nodes', h'.wellFormed⟩
  have hbad : ∀ p op q, P p → op.InRange p.2.length → ¬ AtEnd p op → Step p op q →
      ¬ ∃ nodes, WellFormed q.1 nodes := by
    rintro ⟨s, xs⟩ op q ⟨nodes, h⟩ hr hs hstep
    exact not_wellFormed_of_insert h hr hs hstep
  refine ⟨⟨[], (linked_create h).wellFormed⟩, ?_⟩
  exact throughout_iff_along step_deterministic hgood hbad ⟨[], linked_create h⟩
    (along_inRange (show InRangeFrom ([] : List ℤ).length ops from hr) _)

theorem wellFormed_throughout_iff_of_three_calls :
    (∃ nodes, WellFormed (listCreate Heap.empty) nodes) ∧
      (Throughout Step (fun _ _ q => ∃ nodes, WellFormed q.1 nodes) (listCreate Heap.empty, [])
          [.append 1, .append 2, .extract 0] ↔
        Along Step AtEnd (listCreate Heap.empty, []) [.append 1, .append 2, .extract 0]) :=
  wellFormed_throughout_iff Heap.empty _ (by decide)

theorem linked_step {p q : Store × List ℤ} {op : Op} (hstep : Step p op q)
    (h : Linked p.1 nodes p.2) (hr : op.InRange p.2.length) (hs : AtEnd p op) :
    ∃ nodes', Linked q.1 nodes' q.2 := by
  obtain ⟨s', nodes', hstep', h'⟩ := exec_of_atEnd h hr hs
  obtain rfl := step_deterministic p op _ _ hstep hstep'
  exact ⟨nodes', h'⟩

/-- Inserting between the two nodes of a list leaves the second one linked to the first. -/
theorem insert_one_not_wellFormed :
    InRangeFrom 0 [.append 1, .append 2, .insert 1 9] ∧
      ¬ Throughout Step (fun _ _ q => ∃ nodes, WellFormed q.1 nodes)
        (listCreate Heap.empty, []) [.append 1, .append 2, .insert 1 9] := by
  refine ⟨by decide, ?_⟩
  rintro ⟨u, hu, -, v, hv, -, w, hw, hwf, -⟩
  obtain ⟨nodes, hnodes⟩ := linked_step hu (linked_create _) trivial trivial
  obtain ⟨nodes', hnodes'⟩ := linked_step hv hnodes trivial trivial
  have hxs : v.2 = [1, 2] := by rw [hv.2, hu.2]; rfl
  have hlen : v.1.list.length = 2 := by simp [hnodes'.length_eq, hxs]
  refine not_wellFormed_of_insert hnodes' ?_ ?_ hw hwf
  · rw [hxs]
    decide
  · simp [AtEnd, hlen]

end RealTime.LinkedList
