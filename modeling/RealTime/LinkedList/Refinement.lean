import RealTime.Library.Transition
import RealTime.LinkedList.Representation

/-! # The list against a plain sequence

The list and a reference sequence are run in lockstep. A back link or the tail may be
stale, that is, point to an earlier node or to one that has been freed; `Represents`
allows that, and `Safe` names the calls that do not go through such a pointer. -/

namespace RealTime.LinkedList

open Exec Transition

/-! ## The reference sequence -/

/-- What a call does to a plain sequence. -/
def Op.apply : Op → List ℤ → List ℤ
  | .append data, xs => xs ++ [data]
  | .insert index data, xs => xs.insertIdx index.toNat data
  | .get _, xs => xs
  | .extract index, xs => xs.eraseIdx index.toNat

/-- What a call returns on a plain sequence. -/
def Op.result : Op → List ℤ → Option ℤ
  | .append _, _ => none
  | .insert _ _, _ => none
  | .get index, xs => xs[index.toNat]?
  | .extract index, xs => xs[index.toNat]?

theorem length_apply {op : Op} {xs : List ℤ} (hr : op.InRange xs.length) :
    ((op.apply xs).length : ℤ) = op.newLength xs.length := by
  cases op with
  | append data => simp [Op.apply, Op.newLength]
  | insert index data =>
      have hle : index.toNat ≤ xs.length := by
        have := hr.2
        omega
      simp [Op.apply, Op.newLength, List.length_insertIdx, hle]
  | get index => rfl
  | extract index =>
      have hlt : index.toNat < xs.length := by
        have := hr.1
        have := hr.2
        omega
      simp only [Op.apply, Op.newLength, List.length_eraseIdx, if_pos hlt]
      omega

/-- One call made on the list and on the reference sequence. -/
def Step (p : Store × List ℤ) (op : Op) (q : Store × List ℤ) : Prop :=
  (∃ r, op.exec.run p.1 = .ok (r, q.1)) ∧ q.2 = op.apply p.2

/-- The call returns what it returns on the reference sequence; after it `list_print`
walks the reference sequence and `length` is its length. -/
structure Observed (p : Store × List ℤ) (op : Op) (q : Store × List ℤ) : Prop where
  returned : op.exec.run p.1 = .ok (op.result p.2, q.1)
  printed : listPrint.run q.1 = .ok (q.2, q.1)
  length : q.1.list.length = q.2.length

theorem step_deterministic (p : Store × List ℤ) (op : Op) (q r : Store × List ℤ)
    (hq : Step p op q) (hr : Step p op r) : q = r := by
  obtain ⟨⟨v, hv⟩, hq2⟩ := hq
  obtain ⟨⟨w, hw⟩, hr2⟩ := hr
  have heq := Except.ok.inj (hv.symm.trans hw)
  exact Prod.ext (congrArg Prod.snd heq) (hq2.trans hr2.symm)

theorem along_inRange {ops : List Op} {xs : List ℤ} (hr : InRangeFrom xs.length ops)
    (s : Store) : Along Step (fun p op => op.InRange p.2.length) (s, xs) ops := by
  induction ops generalizing s xs with
  | nil => trivial
  | cons op ops ih =>
      refine ⟨hr.1, ?_⟩
      rintro ⟨s', xs'⟩ ⟨-, rfl⟩
      exact ih (by rw [length_apply hr.1]; exact hr.2) s'

/-! ## Calls that go through no stale pointer -/

/-- The node reached from `head` by following `next` `k` times. -/
def nodeAt (s : Store) : ℕ → Option ℕ
  | 0 => s.list.head
  | k + 1 => (nodeAt s k).bind fun a => (s.heap.cells a).bind Node.next

/-- The node before position `k`, as `next` orders them. -/
def nodeBefore (s : Store) : ℕ → Option ℕ
  | 0 => none
  | k + 1 => nodeAt s k

/-- `tail` is the last node. -/
def TailOk (s : Store) : Prop :=
  s.list.tail = nodeBefore s s.list.length.toNat

/-- The back link of the node at position `k` is the node before it. -/
def BackLinkOk (s : Store) (k : ℕ) : Prop :=
  ((nodeAt s k).bind s.heap.cells).map Node.prev = some (nodeBefore s k)

/-- `data` equals the value stored at the head. -/
def HeadHolds (s : Store) (data : ℤ) : Prop :=
  (s.list.head.bind s.heap.cells).map Node.data = some data

/-- An append finds the tail at the end; an insert into the middle is not at index 0,
where the code inserts at position 1 (unless the two values there are equal); the node
to be extracted has a back link that is not stale. -/
def Safe (p : Store × List ℤ) : Op → Prop
  | .append _ => TailOk p.1
  | .insert index data =>
    if p.1.list.length ≤ index then TailOk p.1 else 1 ≤ index ∨ HeadHolds p.1 data
  | .get _ => True
  | .extract index => BackLinkOk p.1 index.toNat

variable {s : Store} {nodes : List ℕ} {xs : List ℤ} {k : ℕ}

theorem nodeAt_eq (h : Forward s nodes xs) (k : ℕ) : nodeAt s k = nodes[k]? := by
  induction k with
  | zero => exact h.head
  | succ k ih =>
      rw [nodeAt, ih]
      cases hk : nodes[k]? with
      | none =>
          have hlen := List.getElem?_eq_none_iff.mp hk
          simp only [Option.bind_none]
          exact (List.getElem?_eq_none (by omega)).symm
      | some a =>
          obtain ⟨n, hn, hnext, _⟩ := h.chain.cell k a hk
          simp [hn, hnext]

theorem nodeBefore_eq (h : Forward s nodes xs) (k : ℕ) : nodeBefore s k = prevAt nodes k := by
  cases k with
  | zero => rfl
  | succ k => exact nodeAt_eq h k

theorem tailOk_iff (h : Forward s nodes xs) :
    TailOk s ↔ s.list.tail = prevAt nodes nodes.length := by
  rw [TailOk, nodeBefore_eq h, h.length, Int.toNat_natCast]

theorem backLinkOk_iff (h : Forward s nodes xs) {a : ℕ} {n : Node} (ha : nodes[k]? = some a)
    (hn : s.heap.cells a = some n) : BackLinkOk s k ↔ n.prev = prevAt nodes k := by
  simp [BackLinkOk, nodeAt_eq h, nodeBefore_eq h, ha, hn]

theorem headHolds_iff (h : Forward s nodes xs) (data : ℤ) :
    HeadHolds s data ↔ xs[0]? = some data := by
  rw [HeadHolds, h.head]
  cases hd : nodes[0]? with
  | none =>
      have hlen := List.getElem?_eq_none_iff.mp hd
      simp [List.getElem?_eq_none (show xs.length ≤ 0 by rw [h.chain.length_eq]; exact hlen)]
  | some a =>
      obtain ⟨n, hn, -, hx⟩ := h.chain.cell 0 a hd
      simp [hn, hx]

/-! ## Stale pointers -/

/-- A pointer kept at position `k` of the list: NULL at position 0, otherwise an earlier
node or one that has been freed. -/
def Behind (h : Heap Node) (nodes : List ℕ) : ℕ → Option ℕ → Prop
  | 0, p => p = none
  | k + 1, p => ∃ a, p = some a ∧
      ((∃ i ≤ k, nodes[i]? = some a) ∨ a < h.brk ∧ h.cells a = none)

/-- The forward chain is right; back links and tail may be stale. -/
structure Represents (s : Store) (nodes : List ℕ) (xs : List ℤ) : Prop
    extends Forward s nodes xs where
  back : ∀ k a n, nodes[k]? = some a → s.heap.cells a = some n →
    Behind s.heap nodes k n.prev
  tail : Behind s.heap nodes nodes.length s.list.tail

theorem behind_prevAt (h : Heap Node) (nodes : List ℕ) (hk : k ≤ nodes.length) :
    Behind h nodes k (prevAt nodes k) := by
  cases k with
  | zero => rfl
  | succ k =>
      have hget : nodes[k]? = some nodes[k] := List.getElem?_eq_getElem (by omega)
      exact ⟨nodes[k], hget, .inl ⟨k, Nat.le_refl k, hget⟩⟩

/-- Moving a pointer along to a new list: nodes it may point to are still before it, or
have been freed. -/
theorem Behind.map {h h' : Heap Node} {nodes' : List ℕ} {m : ℕ} {p : Option ℕ}
    (hp : Behind h nodes k p) (hzero : k = 0 → m = 0) (hpos : 0 < k → 0 < m)
    (hnodes : ∀ i a, i < k → nodes[i]? = some a →
      (∃ j < m, nodes'[j]? = some a) ∨ a < h'.brk ∧ h'.cells a = none)
    (hdead : ∀ a, a < h.brk → h.cells a = none → a < h'.brk ∧ h'.cells a = none) :
    Behind h' nodes' m p := by
  cases k with
  | zero =>
      obtain rfl := hzero rfl
      exact hp
  | succ k =>
      obtain ⟨m, rfl⟩ : ∃ m', m = m' + 1 := ⟨m - 1, by have := hpos (by omega); omega⟩
      obtain ⟨a, rfl, ⟨i, hi, hia⟩ | ha⟩ := hp
      · refine ⟨a, rfl, ?_⟩
        rcases hnodes i a (by omega) hia with ⟨j, hj, hja⟩ | hd
        · exact .inl ⟨j, by omega, hja⟩
        · exact .inr hd
      · exact ⟨a, rfl, .inr (hdead a ha.1 ha.2)⟩

theorem represents_create (h : Heap Node) : Represents (listCreate h) [] [] where
  toForward := forward_create h
  back := by simp
  tail := rfl

/-! ## Each operation keeps the representation -/

section
variable {cur : ℕ} {c : Node} {i : ℕ}

/-- Cells freed before a call stay freed. -/
theorem dead_appended {a : ℕ} (ht : s.list.tail ≠ some s.heap.brk) (data : ℤ)
    (ha : a < s.heap.brk ∧ s.heap.cells a = none) :
    a < (appended s data).heap.brk ∧ (appended s data).heap.cells a = none := by
  have hne : a ≠ s.heap.brk := Nat.ne_of_lt ha.1
  refine ⟨by simp only [appended, Heap.modify?_brk, Heap.alloc_brk]; omega, ?_⟩
  simp [appended_cells s data ht, hne, ha.2]

theorem dead_insertedAfter {a : ℕ} (hc : s.heap.cells cur = some c) (data : ℤ)
    (ha : a < s.heap.brk ∧ s.heap.cells a = none) :
    a < (insertedAfter s cur c data).heap.brk ∧
      (insertedAfter s cur c data).heap.cells a = none := by
  have hne : a ≠ s.heap.brk := Nat.ne_of_lt ha.1
  have hac : a ≠ cur := by
    rintro rfl
    simp [ha.2] at hc
  refine ⟨by simp only [insertedAfter, Heap.modify_brk, Heap.alloc_brk]; omega, ?_⟩
  simp [insertedAfter_cells hc data, hne, hac, ha.2]

theorem dead_extracted {a : ℕ} (ha : a < s.heap.brk ∧ (s.heap.cells a = none ∨ a = cur)) :
    a < (extracted s cur c).heap.brk ∧ (extracted s cur c).heap.cells a = none := by
  refine ⟨by simpa [extracted] using ha.1, ?_⟩
  rcases ha.2 with hn | rfl
  · simp [extracted_cells, Heap.modify?_cells, hn]
  · simp [extracted_cells]

theorem represents_appended (h : Represents s nodes xs)
    (ht : s.list.tail = prevAt nodes nodes.length) (data : ℤ) :
    Represents (appended s data) (nodes ++ [s.heap.brk]) (xs ++ [data]) := by
  have htail : s.list.tail ≠ some s.heap.brk := ht ▸ h.prevAt_ne_brk _
  have hmap : ∀ {k p}, k ≤ nodes.length → Behind s.heap nodes k p →
      Behind (appended s data).heap (nodes ++ [s.heap.brk]) k p := by
    intro k p hk hb
    refine hb.map id id ?_ (fun b hb hd => dead_appended htail data ⟨hb, hd⟩)
    intro i a hi ha
    exact .inl ⟨i, hi, by rw [List.getElem?_append_left (by omega), ha]⟩
  refine ⟨forward_appended h.toForward ht data, ?_, ?_⟩
  · intro k a n hk hn
    rcases appended_prev h.toForward htail hk hn with ⟨hk', n₀, hn₀, hprev⟩ | ⟨rfl, hprev⟩
    · have hlt := (List.getElem?_eq_some_iff.mp hk').1
      rw [hprev]
      exact hmap (Nat.le_of_lt hlt) (h.back k a n₀ hk' hn₀)
    · rw [hprev]
      exact hmap (Nat.le_refl _) h.tail
  · have hb := behind_prevAt (appended s data).heap (nodes ++ [s.heap.brk]) (Nat.le_refl _)
    simpa [appended] using hb

theorem represents_insertedAfter (h : Represents s nodes xs) (hcur : nodes[i]? = some cur)
    (hc : s.heap.cells cur = some c) (data : ℤ) :
    Represents (insertedAfter s cur c data) (nodes.insertIdx (i + 1) s.heap.brk)
      (xs.insertIdx (i + 1) data) := by
  obtain ⟨hi, -⟩ := List.getElem?_eq_some_iff.mp hcur
  -- positions up to `i` stay, later ones move down by one
  have hmove : ∀ j a, nodes[j]? = some a →
      (nodes.insertIdx (i + 1) s.heap.brk)[if j < i + 1 then j else j + 1]? = some a := by
    intro j a ha
    rw [List.getElem?_insertIdx]
    by_cases hj : j < i + 1
    · simp [hj, ha]
    · simp [hj, ha, show ¬ j + 1 < i + 1 by omega, show j ≠ i by omega]
  have hmap : ∀ {k m p}, Behind s.heap nodes k p → (k = 0 → m = 0) →
      (∀ j, j < k → (if j < i + 1 then j else j + 1) < m) →
      Behind (insertedAfter s cur c data).heap (nodes.insertIdx (i + 1) s.heap.brk) m p := by
    intro k m p hp hzero hlt
    refine hp.map hzero (fun hk => by have := hlt 0 hk; split at this <;> omega) ?_
      (fun b hb hd => dead_insertedAfter hc data ⟨hb, hd⟩)
    exact fun j b hj hb => .inl ⟨_, hlt j hj, hmove j b hb⟩
  refine ⟨forward_insertedAfter h.toForward hcur hc data, ?_, ?_⟩
  · intro k a n hk hn
    rw [List.getElem?_insertIdx] at hk
    by_cases hki : k < i + 1
    · rw [if_pos hki] at hk
      obtain ⟨n₀, hn₀, hprev⟩ := insertedAfter_prev hc
        (Nat.ne_of_lt (h.lt_brk (List.mem_of_getElem? hk))) hn
      rw [hprev]
      exact hmap (h.back k a n₀ hk hn₀) id (fun j hj => by split <;> omega)
    · by_cases hkeq : k = i + 1
      · subst hkeq
        obtain rfl : s.heap.brk = a := by
          rw [if_neg hki, if_pos rfl, if_pos (by omega)] at hk
          exact Option.some.inj hk
        rw [insertedAfter_cells hc, if_pos rfl] at hn
        rw [← Option.some.inj hn]
        exact ⟨cur, rfl, .inl ⟨i, Nat.le_refl i, by simpa using hmove i cur hcur⟩⟩
      · rw [if_neg hki, if_neg hkeq] at hk
        obtain ⟨n₀, hn₀, hprev⟩ := insertedAfter_prev hc
          (Nat.ne_of_lt (h.lt_brk (List.mem_of_getElem? hk))) hn
        rw [hprev]
        exact hmap (h.back (k - 1) a n₀ hk hn₀) (by omega) (fun j hj => by split <;> omega)
  · rw [List.length_insertIdx, if_pos (by omega)]
    exact hmap h.tail (by omega) (fun j hj => by split <;> omega)

theorem represents_extracted (h : Represents s nodes xs) (hcur : nodes[k]? = some cur)
    (hc : s.heap.cells cur = some c) (hp : c.prev = prevAt nodes k) :
    Represents (extracted s cur c) (nodes.eraseIdx k) (xs.eraseIdx k) := by
  obtain ⟨hk, -⟩ := List.getElem?_eq_some_iff.mp hcur
  have hlen : (nodes.eraseIdx k).length = nodes.length - 1 := by
    rw [List.length_eraseIdx, if_pos hk]
  have hprev : Behind (extracted s cur c).heap (nodes.eraseIdx k) k c.prev := by
    rw [hp, ← prevAt_eraseIdx]
    exact behind_prevAt _ _ (by omega)
  -- positions before `k` stay, the node at `k` is freed, later ones move up by one
  have hmap : ∀ {m j p}, Behind s.heap nodes m p → (m ≤ k ∧ j = m ∨ k + 1 < m ∧ j + 1 = m) →
      Behind (extracted s cur c).heap (nodes.eraseIdx k) j p := by
    intro m j p hb hmj
    refine hb.map (by omega) (by omega) ?_ (fun a ha hd => dead_extracted ⟨ha, .inl hd⟩)
    intro i a hi ha
    rcases Nat.lt_trichotomy i k with hik | rfl | hik
    · exact .inl ⟨i, by omega, by rw [List.getElem?_eraseIdx_of_lt hik, ha]⟩
    · obtain rfl : a = cur := Option.some.inj (ha.symm.trans hcur)
      exact .inr (dead_extracted ⟨s.heap.lt_brk hc, .inr rfl⟩)
    · refine .inl ⟨i - 1, by omega, ?_⟩
      rw [List.getElem?_eraseIdx_of_ge (by omega), show i - 1 + 1 = i by omega, ha]
  refine ⟨forward_extracted h.toForward hcur hc hp, ?_, ?_⟩
  · intro j a n hj hn
    rcases extracted_prev h.toForward hcur hc hj hn with
      ⟨rfl, hnp⟩ | ⟨m, n₀, hm, hold, hn₀, hnp⟩
    · rw [hnp]
      exact hprev
    · rw [hnp]
      exact hmap (h.back m a n₀ hold hn₀) (by omega)
  · rw [hlen]
    rcases extracted_tail h.toForward hcur hc with ⟨hlast, ht⟩ | ⟨hlast, ht⟩
    · rw [ht, show nodes.length - 1 = k by omega]
      exact hprev
    · rw [ht]
      exact hmap h.tail (by omega)

end

/-! ## Lockstep -/

/-- A call in range that goes through no stale pointer is made alike on both sides. -/
theorem exec_of_safe (h : Represents s nodes xs) {op : Op} (hr : op.InRange xs.length)
    (hs : Safe (s, xs) op) :
    ∃ s' nodes', op.exec.run s = .ok (op.result xs, s') ∧
      Represents s' nodes' (op.apply xs) := by
  have hslen := h.length
  rw [h.chain.length_eq] at hr
  cases op with
  | append data =>
      have ht := (tailOk_iff h.toForward).mp hs
      refine ⟨_, _, ?_, represents_appended h ht data⟩
      rw [Op.exec, run_bind (h.listAppend_run ht data)]
      rfl
  | insert index data =>
      obtain ⟨h0, hn⟩ := hr
      by_cases hi : s.list.length ≤ index
      · have ht := (tailOk_iff h.toForward).mp (by simpa [Safe, hi] using hs)
        have hindex : index.toNat = xs.length := by
          rw [h.chain.length_eq]
          omega
        have hend : Op.apply (.insert index data) xs = xs ++ [data] := by
          simp [Op.apply, hindex]
        rw [hend]
        refine ⟨_, _, ?_, represents_appended h ht data⟩
        rw [Op.exec, run_bind ((listInsert_run_append s data hi).trans
          (h.listAppend_run ht data))]
        rfl
      · obtain ⟨cur, c, hcur, hc, hrun⟩ :=
          h.listInsert_run (by omega) (show index < nodes.length by omega) data
        have hrep := represents_insertedAfter h hcur hc data
        have happly : xs.insertIdx ((index - 1).toNat + 1) data =
            Op.apply (.insert index data) xs := by
          have hsafe : 1 ≤ index ∨ HeadHolds s data := by simpa [Safe, hi] using hs
          by_cases hone : 1 ≤ index
          · rw [Op.apply, show (index - 1).toNat + 1 = index.toNat by omega]
          · have hhead := (headHolds_iff h.toForward data).mp (hsafe.resolve_left hone)
            rw [Op.apply, show (index - 1).toNat + 1 = 1 by omega,
              show index.toNat = 0 by omega]
            cases xs with
            | nil => simp at hhead
            | cons x rest =>
                obtain rfl : x = data := by simpa using hhead
                rfl
        rw [happly] at hrep
        refine ⟨_, _, ?_, hrep⟩
        rw [Op.exec, run_bind hrun]
        rfl
  | get index =>
      obtain ⟨v, hv, hrun⟩ := h.listGet_run hr.1 hr.2
      refine ⟨s, nodes, ?_, h⟩
      rw [Op.exec, run_bind hrun, Op.result, hv]
      rfl
  | extract index =>
      obtain ⟨cur, c, hcur, hc, -⟩ := h.locate (show index.toNat < nodes.length by
        have := hr.1
        have := hr.2
        omega)
      have hp := (backLinkOk_iff h.toForward hcur hc).mp hs
      obtain ⟨hx, hrun⟩ := h.listExtract_run hr.1 hr.2 hcur hc (Nat.le_refl _) hp
      refine ⟨_, _, ?_, represents_extracted h hcur hc hp⟩
      rw [Op.exec, run_bind hrun, Op.result, hx]
      rfl

/-! ## Calls through a stale pointer -/

/-- A stale pointer goes too far back on the list or to a freed node. -/
theorem Behind.stale {h : Heap Node} {p : Option ℕ} (hp : Behind h nodes k p)
    (hne : p ≠ prevAt nodes k) :
    (∃ i, 0 < i ∧ i < k ∧ p = prevAt nodes i) ∨
      ∃ a, p = some a ∧ a < h.brk ∧ h.cells a = none := by
  cases k with
  | zero => exact absurd hp hne
  | succ k =>
      obtain ⟨a, rfl, ⟨i, hi, hia⟩ | ⟨hlt, hd⟩⟩ := hp
      · have hik : i ≠ k := by
          rintro rfl
          exact hne hia.symm
        exact .inl ⟨i + 1, by omega, by omega, hia.symm⟩
      · exact .inr ⟨a, rfl, hlt, hd⟩

/-- After a call that is observed as right, any chain from the head spells the reference
sequence. -/
theorem Observed.eq_of_chain {p q : Store × List ℤ} {op : Op} (ho : Observed p op q)
    {nodes' : List ℕ} {ys : List ℤ}
    (hc : Chain Node.next Node.data q.1.heap.cells nodes' ys)
    (hh : q.1.list.head = nodes'[0]?) : ys = q.2 := by
  have hrun := ho.printed
  rw [listPrint_run hc hh] at hrun
  exact congrArg Prod.fst (Except.ok.inj hrun)

theorem not_observed_of_stale_tail (h : Represents s nodes xs) {data : ℤ} {op : Op}
    {q : Store × List ℤ} (ht : s.list.tail ≠ prevAt nodes nodes.length)
    (hexec : op.exec.run s = (listAppend data >>= fun _ => pure none).run s)
    (hlen : (op.apply xs).length = xs.length + 1) (hstep : Step (s, xs) op q) :
    ¬ Observed (s, xs) op q := by
  intro ho
  obtain ⟨⟨r, hr⟩, happly⟩ := hstep
  rw [hexec] at hr
  rcases h.tail.stale ht with ⟨i, h0, hi, hti⟩ | ⟨a, hta, hlt, hd⟩
  · rw [run_bind (h.listAppend_run hti data)] at hr
    have hq : appended s data = q.1 := congrArg Prod.snd (Except.ok.inj hr)
    have hchain := chain_appended h.toForward (Nat.le_of_lt hi) hti data
    have hhead : (appended s data).list.head = (nodes.take i ++ [s.heap.brk])[0]? := by
      have hsome : s.list.head ≠ none := by
        rw [h.head, List.getElem?_eq_getElem (by omega)]
        exact Option.some_ne_none _
      rw [Chain.getElem?_take_append (Nat.le_of_lt hi), if_pos h0, ← h.head]
      simp [appended, hsome]
    rw [hq] at hchain hhead
    have hlens := congrArg List.length (ho.eq_of_chain hchain hhead)
    rw [happly, hlen, List.length_append, List.length_take, h.chain.length_eq] at hlens
    simp only [List.length_singleton] at hlens
    omega
  · rw [run_bind_error (listAppend_dangling s data hta hlt hd)] at hr
    cases hr

theorem not_observed_of_stale_back (h : Represents s nodes xs) {index : ℤ}
    {q : Store × List ℤ} (h0 : 0 ≤ index) (hlt : index < nodes.length)
    (hs : ¬ BackLinkOk s index.toNat) (hstep : Step (s, xs) (.extract index) q) :
    ¬ Observed (s, xs) (.extract index) q := by
  intro ho
  obtain ⟨⟨r, hr⟩, happly⟩ := hstep
  obtain ⟨cur, c, hcur, hc, -, -, hadv⟩ :=
    h.locate (show index.toNat < nodes.length by omega)
  rw [backLinkOk_iff h.toForward hcur hc] at hs
  rcases (h.back _ cur c hcur hc).stale hs with ⟨i, hi0, hi, hpi⟩ | ⟨a, hpa, -, hd⟩
  · obtain ⟨-, hrun⟩ := h.listExtract_run h0 hlt hcur hc (Nat.le_of_lt hi) hpi
    rw [Op.exec, run_bind hrun] at hr
    have hq : extracted s cur c = q.1 := congrArg Prod.snd (Except.ok.inj hr)
    have hchain := chain_extracted h.toForward (Nat.le_of_lt hi) hcur hc hpi
    have hhead : (extracted s cur c).list.head =
        (nodes.take i ++ nodes.drop (index.toNat + 1))[0]? := by
      have hsome : c.prev ≠ none := by
        rw [hpi]
        obtain ⟨i, rfl⟩ : ∃ i', i = i' + 1 := ⟨i - 1, by omega⟩
        simp
        omega
      rw [Chain.getElem?_take_append (by omega), if_pos hi0, ← h.head]
      simp [extracted, hsome]
    rw [hq] at hchain hhead
    have hlens := congrArg List.length (ho.eq_of_chain hchain hhead)
    rw [happly, Op.apply, List.length_eraseIdx, if_pos (by rw [h.chain.length_eq]; omega),
      List.length_append, List.length_take, List.length_drop, h.chain.length_eq] at hlens
    omega
  · have hin : index < s.list.length := by
      rw [h.length]
      exact hlt
    rw [Op.exec, run_bind_error (listExtract_dangling s hin hadv hc hpa hd)] at hr
    cases hr

theorem not_observed_of_insert_head (h : Represents s nodes xs) {data : ℤ}
    {q : Store × List ℤ} (hne : 0 < nodes.length) (hs : ¬ HeadHolds s data)
    (hstep : Step (s, xs) (.insert 0 data) q) : ¬ Observed (s, xs) (.insert 0 data) q := by
  intro ho
  obtain ⟨⟨r, hr⟩, happly⟩ := hstep
  obtain ⟨cur, c, hcur, hc, hrun⟩ := h.listInsert_run hne (Int.natCast_pos.mpr hne) data
  rw [Op.exec, run_bind hrun] at hr
  have hq : insertedAfter s cur c data = q.1 := congrArg Prod.snd (Except.ok.inj hr)
  have hrep := represents_insertedAfter h hcur hc data
  rw [hq] at hrep
  have heq := ho.eq_of_chain hrep.chain hrep.head
  rw [headHolds_iff h.toForward] at hs
  rw [happly] at heq
  cases xs with
  | nil =>
      have := h.chain.length_eq
      simp at this
      omega
  | cons x rest =>
      have hx : x = data := (List.cons.inj heq).1
      exact hs (by simp [hx])

/-- A call in range that goes through a stale pointer errs or is observed to be wrong. -/
theorem not_observed_of_unsafe (h : Represents s nodes xs) {op : Op} {q : Store × List ℤ}
    (hr : op.InRange xs.length) (hs : ¬ Safe (s, xs) op) (hstep : Step (s, xs) op q) :
    ¬ Observed (s, xs) op q := by
  have hslen := h.length
  have hxlen := h.chain.length_eq
  cases op with
  | append data =>
      rw [Safe, tailOk_iff h.toForward] at hs
      exact not_observed_of_stale_tail h hs rfl (by simp [Op.apply]) hstep
  | insert index data =>
      obtain ⟨h0, hn⟩ := hr
      by_cases hi : s.list.length ≤ index
      · have ht : ¬ TailOk s := by simpa [Safe, hi] using hs
        rw [tailOk_iff h.toForward] at ht
        have hexec : (Op.exec (.insert index data)).run s =
            (listAppend data >>= fun _ => pure none).run s := by
          rw [Op.exec, StateT.run_bind, listInsert_run_append s data hi]
          rfl
        refine not_observed_of_stale_tail h ht hexec ?_ hstep
        rw [Op.apply, List.length_insertIdx, if_pos (by omega)]
      · have hsafe : ¬ (1 ≤ index ∨ HeadHolds s data) := by simpa [Safe, hi] using hs
        obtain rfl : index = 0 := by
          have : ¬ 1 ≤ index := fun hone => hsafe (.inl hone)
          omega
        exact not_observed_of_insert_head h (by omega) (fun hh => hsafe (.inr hh)) hstep
  | get index => exact absurd trivial hs
  | extract index =>
      exact not_observed_of_stale_back h hr.1 (by have := hr.2; omega) hs hstep

/-- Calls in range are observed as on the reference sequence, and none errs, exactly when
none of them goes through a stale pointer or inserts at index 0 of a nonempty list. -/
theorem list_refines_iff (h : Heap Node) (ops : List Op) (hr : InRangeFrom 0 ops) :
    Throughout Step Observed (listCreate h, []) ops ↔
      Along Step Safe (listCreate h, []) ops := by
  let P : Store × List ℤ → Prop := fun p => ∃ nodes, Represents p.1 nodes p.2
  have hgood : ∀ p op, P p → op.InRange p.2.length → Safe p op →
      ∃ q, Step p op q ∧ P q ∧ Observed p op q := by
    rintro ⟨s, xs⟩ op ⟨nodes, h⟩ hr hs
    obtain ⟨s', nodes', hrun, h'⟩ := exec_of_safe h hr hs
    exact ⟨(s', op.apply xs), ⟨⟨_, hrun⟩, rfl⟩, ⟨nodes', h'⟩, hrun,
      listPrint_run h'.chain h'.head, h'.length_eq⟩
  have hbad : ∀ p op q, P p → op.InRange p.2.length → ¬ Safe p op → Step p op q →
      ¬ Observed p op q := by
    rintro ⟨s, xs⟩ op q ⟨nodes, h⟩ hr hs hstep
    exact not_observed_of_unsafe h hr hs hstep
  exact throughout_iff_along step_deterministic hgood hbad ⟨[], represents_create h⟩
    (along_inRange (show InRangeFrom ([] : List ℤ).length ops from hr) _)

/-- Two appends, an insertion between them, a read and an extraction of the head are in range. -/
theorem list_refines_iff_of_five_calls :
    Throughout Step Observed (listCreate Heap.empty, [])
        [.append 1, .append 2, .insert 1 9, .get 1, .extract 0] ↔
      Along Step Safe (listCreate Heap.empty, [])
        [.append 1, .append 2, .insert 1 9, .get 1, .extract 0] :=
  list_refines_iff Heap.empty _ (by decide)

/-! ## An insertion at index 0 -/

/-- Make the calls, then `list_print`. -/
def listPrintAfter : List Op → ListM (List ℤ)
  | [] => listPrint
  | op :: ops => do
    let _ ← op.exec
    listPrintAfter ops

theorem listPrintAfter_of_throughout {ops : List Op} {s : Store} {xs : List ℤ}
    (h : Throughout Step Observed (s, xs) ops) (h0 : listPrint.run s = .ok (xs, s)) :
    ((listPrintAfter ops).run s).map Prod.fst =
      .ok (ops.foldl (fun ys op => op.apply ys) xs) := by
  induction ops generalizing s xs with
  | nil =>
      rw [listPrintAfter, h0]
      rfl
  | cons op ops ih =>
      obtain ⟨⟨s', xs'⟩, ⟨-, rfl⟩, ho, hrest⟩ := h
      rw [listPrintAfter, run_bind ho.returned]
      exact ih hrest ho.printed

/-- Inserting 9 at index 0 of `[1, 2]` gives `[1, 9, 2]`. -/
theorem insert_zero_not_observed :
    InRangeFrom 0 [.append 1, .append 2, .insert 0 9] ∧
      ¬ Throughout Step Observed (listCreate Heap.empty, [])
        [.append 1, .append 2, .insert 0 9] := by
  refine ⟨by decide, ?_⟩
  intro h
  have hprint := listPrintAfter_of_throughout h rfl
  exact absurd hprint (by decide)

end RealTime.LinkedList
