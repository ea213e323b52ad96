import Mathlib.Algebra.Order.BigOperators.Group.List
import Mathlib.Algebra.Order.Ring.Int
import RealTime.LinkedList.Extract

/-! # Walking the list to NULL and walking it by count

`list_sum` and `list_print` follow `next` until NULL, `list_get` counts links. On every
list with an element they meet the same values; `list_sum` has no test for the empty one. -/

namespace RealTime.LinkedList

open Exec

/-- A value of a 32-bit `int`. -/
def IsInt (x : ℤ) : Prop := -2 ^ 31 ≤ x ∧ x < 2 ^ 31

/-- A value of a 64-bit `long`. -/
def IsLong (x : ℤ) : Prop := -2 ^ 63 ≤ x ∧ x < 2 ^ 63

instance (x : ℤ) : Decidable (IsLong x) := inferInstanceAs (Decidable (_ ∧ _))

/-- A sum can go wrong at a node or overflow. -/
inductive SumFault where
  | access (fault : Fault)
  | overflow
deriving DecidableEq, Repr

abbrev SumM := StateT Store (Except SumFault)

def access {α : Type} (x : ListM α) : SumM α := do
  match x.run (← get) with
  | .ok (a, s) =>
    set s
    return a
  | .error e => throw (.access e)

/-- `sum + data`, where `sum` is a `long`. -/
def addLong (sum data : ℤ) : SumM ℤ :=
  if IsLong (sum + data) then return sum + data else throw .overflow

def listSumLoop : ℕ → Option ℕ → ℤ → SumM ℤ
  | 0, _, _ => throw (.access .diverged)
  | fuel + 1, currentNode, sum => do
    let node ← access (load currentNode)
    if node.next ≠ none then
      let sum ← addLong sum node.data
      listSumLoop fuel node.next sum
    else
      addLong sum node.data

/-- `list_sum`. The first node is read before any test, so there is always one step. -/
def listSum : SumM ℤ := do
  let s ← get
  listSumLoop (s.heap.brk + 1) s.list.head 0

/-- One sequence is what `list_get` returns index by index, what `list_sum` adds up
without an overflow and what `list_print` visits; no call errs or changes the list. -/
def TraversalsAgree (s : Store) : Prop :=
  ∃ vs : List ℤ, s.list.length = vs.length ∧
    (∀ (i : ℕ) v, vs[i]? = some v → (listGet i).run s = .ok (v, s)) ∧
    listSum.run s = .ok (vs.sum, s) ∧ listPrint.run s = .ok (vs, s)

/-! ## Sums of ints -/

/-- `INT_MAX` values of an `int` add up to a `long`. -/
theorem isLong_sum {xs : List ℤ} (hxs : ∀ x ∈ xs, IsInt x) (hlen : xs.length < 2 ^ 31) :
    IsLong xs.sum := by
  have hupper := List.sum_le_card_nsmul xs (2 ^ 31) fun x hx => Int.le_of_lt (hxs x hx).2
  have hlower := List.card_nsmul_le_sum xs (-2 ^ 31) fun x hx => (hxs x hx).1
  simp only [nsmul_eq_mul] at hupper hlower
  rw [IsLong]
  constructor <;> push_cast at * <;> omega

/-! ## The loop -/

section
variable {s : Store} {nodes : List ℕ} {xs : List ℤ}

theorem access_run {α : Type} {x : ListM α} {a : α} {t : Store} (h : x.run s = .ok (a, t)) :
    (access x).run s = .ok (a, t) := by
  simp [access, h]
  rfl

theorem addLong_run {sum data : ℤ} (h : IsLong (sum + data)) (s : Store) :
    (addLong sum data).run s = .ok (sum + data, s) := by
  rw [addLong, if_pos h]
  rfl

theorem listSumLoop_run (h : Chain Node.next Node.data s.heap.cells nodes xs)
    (hlong : ∀ k, IsLong (xs.take k).sum) (fuel j : ℕ) (hj : j < nodes.length)
    (hfuel : nodes.length ≤ j + fuel) :
    (listSumLoop fuel nodes[j]? (xs.take j).sum).run s = .ok (xs.sum, s) := by
  induction fuel generalizing j with
  | zero => omega
  | succ fuel ih =>
      have hget : nodes[j]? = some nodes[j] := List.getElem?_eq_getElem hj
      obtain ⟨n, hn, hnext, hx⟩ := h.cell j _ hget
      have hsum : (xs.take j).sum + n.data = (xs.take (j + 1)).sum := by
        rw [List.take_add_one, hx]
        simp
      have hadd := addLong_run (hsum ▸ hlong (j + 1)) s
      rw [hsum] at hadd
      have hlink := h.link_eq_none_iff hget hn
      rw [listSumLoop, hget, run_bind (access_run (load_run hn))]
      by_cases hlast : nodes.length ≤ j + 1
      · rw [if_neg (not_not.mpr (hlink.mpr hlast)), hadd,
          List.take_of_length_le (h.length_eq ▸ hlast)]
      · rw [if_pos (mt hlink.mp hlast), run_bind hadd, hnext]
        exact ih (j + 1) (by omega) (by omega)

theorem listSum_null (h : s.list.head = none) : listSum.run s = .error (.access .null) := by
  rw [listSum, run_bind (get_run s), h]
  rfl

theorem Forward.listSum_run (h : Forward s nodes xs) (hpos : 0 < nodes.length)
    (hlong : ∀ k, IsLong (xs.take k).sum) : listSum.run s = .ok (xs.sum, s) := by
  rw [listSum, run_bind (get_run s), h.head]
  have hloop := listSumLoop_run h.chain hlong (s.heap.brk + 1) 0 hpos
  rw [List.take_zero, List.sum_nil] at hloop
  exact hloop (by have := length_le_brk h.chain; omega)

/-! ## Agreement -/

/-- The values of a chain of `int` nodes. -/
theorem isInt_of_chain (h : Chain Node.next Node.data s.heap.cells nodes xs)
    (hdata : ∀ a ∈ nodes, ∀ n, s.heap.cells a = some n → IsInt n.data) :
    ∀ x ∈ xs, IsInt x := by
  intro x hx
  obtain ⟨k, hk⟩ := List.mem_iff_getElem?.mp hx
  have hlt : k < nodes.length := by
    rw [← h.length_eq]
    exact (List.getElem?_eq_some_iff.mp hk).1
  obtain ⟨n, hn, -, hxk⟩ := h.cell k _ (List.getElem?_eq_getElem hlt)
  obtain rfl : x = n.data := Option.some.inj (hk.symm.trans hxk)
  exact hdata _ (List.getElem_mem hlt) n hn

theorem Forward.listGet_eq (h : Forward s nodes xs) (i : ℕ) (v : ℤ) (hv : xs[i]? = some v) :
    (listGet i).run s = .ok (v, s) := by
  have hlt := (List.getElem?_eq_some_iff.mp hv).1
  rw [h.chain.length_eq] at hlt
  obtain ⟨w, hw, hrun⟩ := h.listGet_run (Int.natCast_nonneg i) (Int.ofNat_lt.mpr hlt)
  rw [Int.toNat_natCast, hv] at hw
  rwa [Option.some.inj hw]

theorem Forward.traversalsAgree (h : Forward s nodes xs) (hpos : 0 < nodes.length)
    (hxs : ∀ x ∈ xs, IsInt x) (hlen : xs.length < 2 ^ 31) : TraversalsAgree s := by
  have hlong : ∀ k, IsLong (xs.take k).sum := by
    intro k
    refine isLong_sum (fun x hx => hxs x (List.mem_of_mem_take hx)) ?_
    rw [List.length_take]
    omega
  exact ⟨xs, h.length_eq, h.listGet_eq, h.listSum_run hpos hlong, listPrint_run h.chain h.head⟩

theorem not_traversalsAgree (h : s.list.head = none) : ¬ TraversalsAgree s := by
  intro hagree
  obtain ⟨vs, -, -, hsum, -⟩ := hagree
  rw [listSum_null h] at hsum
  cases hsum

/-- On a well formed list of at most `INT_MAX` ints, of any values, the traversals agree
exactly when there is a first element: `list_sum` reads through `head` untested. -/
theorem traversalsAgree_iff (h : WellFormed s nodes)
    (hdata : ∀ a ∈ nodes, ∀ n, s.heap.cells a = some n → IsInt n.data)
    (hlen : s.list.length < 2 ^ 31) : TraversalsAgree s ↔ 0 < s.list.length := by
  obtain ⟨xs, hl⟩ := h.linked
  have hxs := isInt_of_chain hl.chain hdata
  rw [hl.length_eq] at hlen ⊢
  constructor
  · intro hagree
    by_contra hzero
    have hnodes : nodes = [] := by
      rw [← List.length_eq_zero_iff, ← hl.chain.length_eq]
      omega
    exact not_traversalsAgree (by rw [hl.head, hnodes]; rfl) hagree
  · intro hpos
    rw [hl.chain.length_eq] at hpos
    exact hl.traversalsAgree (by omega) hxs (by omega)

end

/-- Two elements of the largest `int`. -/
theorem traversalsAgree_iff_of_two :
    TraversalsAgree (appended (appended (listCreate Heap.empty) 2147483647) 2147483647) ↔
      0 < (appended (appended (listCreate Heap.empty) 2147483647) 2147483647).list.length := by
  have hl := linked_appended (linked_appended (linked_create Heap.empty) 2147483647) 2147483647
  refine traversalsAgree_iff hl.wellFormed ?_ (by decide)
  intro a ha n hn
  have hmem : a ∈ [0, 1] := ha
  rw [List.mem_pair] at hmem
  cases hmem with
  | inl h0 =>
      subst h0
      obtain rfl : (⟨some 1, none, 2147483647⟩ : Node) = n := Option.some.inj hn
      constructor <;> decide
  | inr h1 =>
      subst h1
      obtain rfl : (⟨none, some 0, 2147483647⟩ : Node) = n := Option.some.inj hn
      constructor <;> decide

/-- The sum of the empty list reads through NULL, where `list_print` returns. -/
theorem listSum_of_empty :
    WellFormed (listCreate Heap.empty) [] ∧
      listSum.run (listCreate Heap.empty) = .error (.access .null) ∧
      listPrint.run (listCreate Heap.empty) = .ok ([], listCreate Heap.empty) ∧
      ¬ TraversalsAgree (listCreate Heap.empty) :=
  ⟨(linked_create Heap.empty).wellFormed, listSum_null rfl, rfl, not_traversalsAgree rfl⟩

end RealTime.LinkedList
