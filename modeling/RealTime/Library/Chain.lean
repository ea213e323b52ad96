import Mathlib.Data.List.Nodup
import RealTime.Library.Heap

/-! # Linked chains of heap cells

A chain is a list of distinct live addresses in which each cell links to the next
address of the list. `link` reads the pointer of a cell and `value` what it stores. -/

namespace RealTime

variable {α β : Type*} {link : α → Option ℕ} {value : α → β}

/-- The cells at `nodes` are linked in order, end in the null link, and store `xs`. -/
structure Chain (link : α → Option ℕ) (value : α → β) (cells : ℕ → Option α)
    (nodes : List ℕ) (xs : List β) : Prop where
  nodup : nodes.Nodup
  length_eq : xs.length = nodes.length
  cell : ∀ k a, nodes[k]? = some a →
    ∃ c, cells a = some c ∧ link c = nodes[k + 1]? ∧ xs[k]? = some (value c)

namespace Chain

variable {cells cells' : ℕ → Option α} {nodes rest : List ℕ} {xs ys : List β}

theorem nil : Chain link value cells [] [] :=
  ⟨List.nodup_nil, rfl, by simp⟩

theorem live (h : Chain link value cells nodes xs) {a : ℕ} (ha : a ∈ nodes) :
    ∃ c, cells a = some c := by
  obtain ⟨k, hk⟩ := List.mem_iff_getElem?.mp ha
  obtain ⟨c, hc, _⟩ := h.cell k a hk
  exact ⟨c, hc⟩

theorem index_inj (h : Chain link value cells nodes xs) {i j : ℕ} {a : ℕ}
    (hi : nodes[i]? = some a) (hj : nodes[j]? = some a) : i = j := by
  obtain ⟨hil, hia⟩ := List.getElem?_eq_some_iff.mp hi
  obtain ⟨hjl, hja⟩ := List.getElem?_eq_some_iff.mp hj
  exact (h.nodup.getElem_inj_iff).mp (hia.trans hja.symm)

/-- A cell at a given position links to the next one. -/
theorem link_eq (h : Chain link value cells nodes xs) {k a : ℕ} {c : α} (hk : nodes[k]? = some a)
    (hc : cells a = some c) : link c = nodes[k + 1]? := by
  obtain ⟨d, hd, hl, -⟩ := h.cell k a hk
  rwa [Option.some.inj (hc.symm.trans hd)]

/-- Only the last cell has the null link. -/
theorem link_eq_none_iff (h : Chain link value cells nodes xs) {k a : ℕ} {c : α}
    (hk : nodes[k]? = some a) (hc : cells a = some c) :
    link c = none ↔ nodes.length ≤ k + 1 := by
  rw [h.link_eq hk hc, List.getElem?_eq_none_iff]

/-- A chain is determined by its first address. -/
theorem unique (h : Chain link value cells nodes xs) (h' : Chain link value cells rest ys)
    (hd : nodes[0]? = rest[0]?) : nodes = rest ∧ xs = ys := by
  have hnodes : ∀ k : ℕ, nodes[k]? = rest[k]? := by
    intro k
    induction k with
    | zero => exact hd
    | succ k ih =>
        cases hk : nodes[k]? with
        | none =>
            have hr : rest[k]? = none := ih ▸ hk
            rw [List.getElem?_eq_none_iff] at hk hr
            rw [List.getElem?_eq_none (by omega), List.getElem?_eq_none (by omega)]
        | some a =>
            obtain ⟨c, hc, hl, _⟩ := h.cell k a hk
            exact hl.symm.trans (h'.link_eq (ih ▸ hk) hc)
  obtain rfl : nodes = rest := List.ext_getElem? hnodes
  refine ⟨rfl, List.ext_getElem? ?_⟩
  intro k
  cases hk : nodes[k]? with
  | none =>
      have hlen := List.getElem?_eq_none_iff.mp hk
      rw [List.getElem?_eq_none (by rw [h.length_eq]; exact hlen),
        List.getElem?_eq_none (by rw [h'.length_eq]; exact hlen)]
  | some a =>
      obtain ⟨c, hc, _, hx⟩ := h.cell k a hk
      obtain ⟨c', hc', _, hy⟩ := h'.cell k a hk
      obtain rfl : c = c' := Option.some.inj (hc.symm.trans hc')
      exact hx.trans hy.symm

/-- Cells that keep their link and value keep the chain. -/
theorem frame (h : Chain link value cells nodes xs)
    (hkeep : ∀ a ∈ nodes, ∀ c, cells a = some c →
      ∃ c', cells' a = some c' ∧ link c' = link c ∧ value c' = value c) :
    Chain link value cells' nodes xs := by
  refine ⟨h.nodup, h.length_eq, ?_⟩
  intro k a hk
  obtain ⟨c, hc, hl, hx⟩ := h.cell k a hk
  obtain ⟨c', hc', hl', hv'⟩ := hkeep a (List.mem_of_getElem? hk) c hc
  exact ⟨c', hc', hl'.trans hl, hv' ▸ hx⟩

theorem drop (h : Chain link value cells nodes xs) (k : ℕ) :
    Chain link value cells (nodes.drop k) (xs.drop k) := by
  refine ⟨h.nodup.sublist (List.drop_sublist k nodes), by simp [h.length_eq], ?_⟩
  intro j a hj
  rw [List.getElem?_drop] at hj
  obtain ⟨c, hc, hl, hx⟩ := h.cell (k + j) a hj
  exact ⟨c, hc, by rw [hl, List.getElem?_drop, Nat.add_assoc], by rw [List.getElem?_drop, hx]⟩

/-- A cell linked to the first address of a chain extends it at the front. -/
theorem cons (h : Chain link value cells nodes xs) {a : ℕ} {c : α} (ha : a ∉ nodes)
    (hc : cells a = some c) (hl : link c = nodes[0]?) :
    Chain link value cells (a :: nodes) (value c :: xs) := by
  refine ⟨List.nodup_cons.mpr ⟨ha, h.nodup⟩, by simp [h.length_eq], ?_⟩
  intro k b hk
  cases k with
  | zero =>
      obtain rfl : a = b := by simpa using hk
      exact ⟨c, hc, by simpa using hl, by simp⟩
  | succ k =>
      obtain ⟨d, hd, hld, hxd⟩ := h.cell k b (by simpa using hk)
      exact ⟨d, hd, by simpa using hld, by simpa using hxd⟩

/-- Reading a list whose first `i` entries are kept and whose rest is replaced. -/
theorem getElem?_take_append {γ : Type*} {l : List γ} {i : ℕ} (hi : i ≤ l.length)
    (r : List γ) (k : ℕ) :
    (l.take i ++ r)[k]? = if k < i then l[k]? else r[k - i]? := by
  have hlen : (l.take i).length = i := by simp [hi]
  split
  · rename_i hk
    rw [List.getElem?_append_left (by omega), List.getElem?_take_of_lt hk]
  · rw [List.getElem?_append_right (by omega), hlen]

/-- Redirecting the link of the `i`-th cell grafts another chain after the first `i`
cells; the cells cut off are left out. -/
theorem graft (h : Chain link value cells nodes xs) {i : ℕ} (hi : i ≤ nodes.length)
    (hrest : Chain link value cells' rest ys) (hdisj : ∀ a ∈ nodes.take i, a ∉ rest)
    (hkeep : ∀ j a c, j + 1 < i → nodes[j]? = some a → cells a = some c →
      ∃ c', cells' a = some c' ∧ link c' = link c ∧ value c' = value c)
    (hlast : ∀ j a c, j + 1 = i → nodes[j]? = some a → cells a = some c →
      ∃ c', cells' a = some c' ∧ link c' = rest[0]? ∧ value c' = value c) :
    Chain link value cells' (nodes.take i ++ rest) (xs.take i ++ ys) := by
  have hxi : i ≤ xs.length := h.length_eq ▸ hi
  refine ⟨?_, by simp [hrest.length_eq, h.length_eq], ?_⟩
  · exact List.nodup_append'.mpr ⟨h.nodup.sublist (List.take_sublist i nodes), hrest.nodup,
      fun a ha hr => hdisj a ha hr⟩
  · intro k a hk
    rw [getElem?_take_append hi] at hk
    rw [getElem?_take_append hi, getElem?_take_append hxi]
    by_cases hki : k < i
    · rw [if_pos hki] at hk ⊢
      obtain ⟨c, hc, hl, hx⟩ := h.cell k a hk
      by_cases hend : k + 1 = i
      · obtain ⟨c', hc', hl', hv'⟩ := hlast k a c hend hk hc
        exact ⟨c', hc', by simp [hend, hl'], hv' ▸ hx⟩
      · obtain ⟨c', hc', hl', hv'⟩ := hkeep k a c (by omega) hk hc
        have hnext : k + 1 < i := by omega
        exact ⟨c', hc', by simp [hnext, hl', hl], hv' ▸ hx⟩
    · rw [if_neg hki] at hk ⊢
      obtain ⟨c, hc, hl, hx⟩ := hrest.cell (k - i) a hk
      have hnext : ¬ k + 1 < i := by omega
      exact ⟨c, hc, by rw [hl, if_neg hnext, show k - i + 1 = k + 1 - i by omega], hx⟩

end Chain

end RealTime
