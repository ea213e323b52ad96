import RealTime.Library.Transition
import RealTime.LinkedList.Extract

/-! # Deleting a list

`list_delete` extracts the head until there is none, and frees the header. The back links
of the list may be stale: taking out the head repairs the back link of the next node
before that node becomes the head. -/

namespace RealTime.LinkedList

open Exec Transition

/-- The nodes, and the header until it is freed. -/
structure Memory where
  heap : Heap Node
  header : Option ListT

abbrev MemoryM := StateT Memory (Except Fault)

/-- Code that works on the list goes through the header. -/
def onList {α : Type} (x : ListM α) : MemoryM α := do
  let memory ← get
  match memory.header with
  | none => throw .dangling
  | some list =>
    match x.run ⟨memory.heap, list⟩ with
    | .ok (a, s) =>
      set { heap := s.heap, header := some s.list : Memory }
      return a
    | .error e => throw e

/-- `free(list)`. -/
def freeHeader : MemoryM Unit := do
  let memory ← get
  match memory.header with
  | none => throw .dangling
  | some _ => set { memory with header := none }

/-- The loop of `list_delete`; the result is the number of its rounds. -/
def listDeleteLoop : ℕ → MemoryM ℕ
  | 0 => throw .diverged
  | fuel + 1 => do
    let s ← onList get
    if s.list.head ≠ none then
      let _ ← onList (listExtract 0)
      return (← listDeleteLoop fuel) + 1
    else
      return 0

def listDelete (fuel : ℕ) : MemoryM ℕ := do
  let rounds ← listDeleteLoop fuel
  freeHeader
  return rounds

/-! ## One round -/

/-- The memory of a list in use. -/
def Store.memory (s : Store) : Memory := ⟨s.heap, some s.list⟩

variable {s t : Store} {nodes : List ℕ} {xs : List ℤ} {a : ℕ} {c : Node}

theorem onList_run {α : Type} {x : ListM α} {v : α} (h : x.run s = .ok (v, t)) :
    (onList x).run s.memory = .ok (v, t.memory) := by
  simp [onList, Store.memory, h]
  rfl

theorem freeHeader_run (s : Store) : freeHeader.run s.memory = .ok ((), ⟨s.heap, none⟩) := rfl

/-- One call of `list_extract(list, 0)` that frees the node at `a`. The node has no back
link to go through, and only its successor is written. -/
structure FreesHead (s : Store) (a : ℕ) (t : Store) : Prop where
  head : s.list.head = some a
  run : ∃ v, (listExtract 0).run s = .ok (v, t)
  node : ∃ c, s.heap.cells a = some c ∧ c.prev = none ∧
    ∀ b ≠ a, c.next ≠ some b → t.heap.cells b = s.heap.cells b
  freed : ∀ b, t.heap.cells b = none ↔ s.heap.cells b = none ∨ b = a

/-- A forward chain whose head is not linked back. -/
structure Deletable (s : Store) (nodes : List ℕ) (xs : List ℤ) : Prop
    extends Forward s nodes xs where
  headPrev : ∀ a c, s.list.head = some a → s.heap.cells a = some c → c.prev = none

/-- Taking out the head leaves the back link of the next node NULL. -/
theorem Deletable.freesHead (h : Deletable s (a :: nodes) xs) :
    ∃ t, FreesHead s a t ∧ Deletable t nodes xs.tail ∧
      ∀ b ∉ a :: nodes, t.heap.cells b = s.heap.cells b := by
  have hhead : s.list.head = some a := h.head
  obtain ⟨b, c, hb, hc, hnext, -⟩ := h.locate (show 0 < (a :: nodes).length by simp)
  obtain rfl : a = b := Option.some.inj hb
  have hprev : c.prev = prevAt (a :: nodes) 0 := h.headPrev a c hhead hc
  obtain ⟨-, hrun⟩ := h.listExtract_run (Int.le_refl 0) (by simp) hb hc (Nat.le_refl _) hprev
  have hforward : Forward (extracted s a c) nodes xs.tail := by
    simpa using forward_extracted h.toForward hb hc hprev
  have hback : ∀ b n, (extracted s a c).list.head = some b →
      (extracted s a c).heap.cells b = some n → n.prev = none := by
    intro b n hbhead hn
    have hbpos : ((a :: nodes).eraseIdx 0)[0]? = some b := hforward.head.symm.trans hbhead
    rcases extracted_prev h.toForward hb hc hbpos hn with ⟨-, hn⟩ | ⟨m, _, hm, -⟩
    · rw [hn, hprev, prevAt_zero]
    · omega
  refine ⟨extracted s a c, ⟨hhead, ⟨_, hrun⟩, ⟨c, hc, hprev, ?_⟩, extracted_eq_none s c⟩,
    ⟨hforward, hback⟩, ?_⟩
  · intro b hba hbnext
    exact extracted_outside s c hba (by simp [hprev]) hbnext
  · intro b hb'
    refine extracted_outside s c (fun heq => hb' (heq ▸ List.mem_cons_self)) (by simp [hprev]) ?_
    intro heq
    exact hb' (List.mem_of_getElem? (hnext.symm.trans heq))

/-! ## The loop -/

theorem listDeleteLoop_run (h : Deletable s nodes xs) :
    ∃ t, Runs FreesHead s nodes t ∧ t.list.head = none ∧
      (∀ b ∉ nodes, t.heap.cells b = s.heap.cells b) ∧
      ∀ fuel, (listDeleteLoop fuel).run s.memory =
        if nodes.length < fuel then .ok (nodes.length, t.memory) else .error .diverged := by
  induction nodes generalizing s xs with
  | nil =>
      have hhead : s.list.head = none := h.head
      refine ⟨s, .nil s, hhead, fun _ _ => rfl, ?_⟩
      intro fuel
      cases fuel with
      | zero => rfl
      | succ fuel =>
          rw [listDeleteLoop, run_bind (onList_run (get_run s))]
          simp [hhead]
          rfl
  | cons a nodes ih =>
      obtain ⟨u, hfrees, hu, houtside⟩ := h.freesHead
      obtain ⟨t, hruns, hend, hkept, hloop⟩ := ih hu
      obtain ⟨v, hv⟩ := hfrees.run
      refine ⟨t, .cons hfrees hruns, hend, ?_, ?_⟩
      · intro b hb
        rw [hkept b fun hmem => hb (List.mem_cons_of_mem a hmem), houtside b hb]
      · intro fuel
        cases fuel with
        | zero => rfl
        | succ fuel =>
            have hhead : s.list.head ≠ none := by simp [hfrees.head]
            rw [listDeleteLoop, run_bind (onList_run (get_run s)), if_pos hhead,
              run_bind (onList_run hv)]
            simp only [List.length_cons, Nat.add_lt_add_iff_right]
            by_cases hfuel : nodes.length < fuel
            · rw [run_bind ((hloop fuel).trans (if_pos hfuel)), if_pos hfuel]
              rfl
            · rw [run_bind_error ((hloop fuel).trans (if_neg hfuel)), if_neg hfuel]

theorem runs_freesHead_eq_none (h : Runs FreesHead s nodes t) (b : ℕ) :
    t.heap.cells b = none ↔ s.heap.cells b = none ∨ b ∈ nodes := by
  induction h with
  | nil => simp
  | cons hfrees _ ih => rw [ih, hfrees.freed, List.mem_cons, or_assoc]

/-- Whatever the back links and the tail are, `list_delete` ends after one round for each
node, in which exactly this node is freed, and then frees the header. Nothing outside the
list is touched, and no call errs. -/
theorem listDelete_frees (h : Deletable s nodes xs) :
    ∃ t, Runs FreesHead s nodes t ∧ nodes.Nodup ∧
      (∀ b, t.heap.cells b = if b ∈ nodes then none else s.heap.cells b) ∧
      ∀ fuel, (listDelete fuel).run s.memory =
        if nodes.length < fuel then .ok (nodes.length, ⟨t.heap, none⟩)
        else .error .diverged := by
  obtain ⟨t, hruns, -, hkept, hloop⟩ := listDeleteLoop_run h
  refine ⟨t, hruns, h.chain.nodup, ?_, ?_⟩
  · intro b
    by_cases hb : b ∈ nodes
    · rw [if_pos hb]
      exact (runs_freesHead_eq_none hruns b).mpr (.inr hb)
    · rw [if_neg hb]
      exact hkept b hb
  · intro fuel
    rw [listDelete]
    by_cases hfuel : nodes.length < fuel
    · rw [run_bind ((hloop fuel).trans (if_pos hfuel)), run_bind (freeHeader_run t),
        if_pos hfuel]
      rfl
    · rw [run_bind_error ((hloop fuel).trans (if_neg hfuel)), if_neg hfuel]

/-- Inserting leaves a list that can be deleted, with stale links. -/
theorem Deletable.insertedAfter (h : Deletable s nodes xs) {i cur : ℕ}
    (hcur : nodes[i]? = some cur) (hc : s.heap.cells cur = some c) (data : ℤ) :
    Deletable (insertedAfter s cur c data) (nodes.insertIdx (i + 1) s.heap.brk)
      (xs.insertIdx (i + 1) data) where
  toForward := forward_insertedAfter h.toForward hcur hc data
  headPrev a n ha hn := by
    have hmem : nodes[0]? = some a := h.head.symm.trans ha
    have hne : a ≠ s.heap.brk := Nat.ne_of_lt (h.lt_brk (List.mem_of_getElem? hmem))
    obtain ⟨n₀, hn₀, hprev⟩ := insertedAfter_prev hc hne hn
    rw [hprev]
    exact h.headPrev a n₀ ha hn₀

theorem Linked.deletable (h : Linked s nodes xs) : Deletable s nodes xs :=
  ⟨h.toForward, h.wellFormed.headPrev⟩

/-- A list of two into which a third node has been inserted between them. -/
def insertedBetween : Store :=
  insertedAfter (appended (appended (listCreate Heap.empty) 1) 2) 0 ⟨some 1, none, 1⟩ 9

theorem deletable_insertedBetween : Deletable insertedBetween [0, 2, 1] [1, 9, 2] :=
  (linked_appended (linked_appended (linked_create Heap.empty) 1) 2).deletable.insertedAfter
    (show [0, 1][0]? = some 0 from rfl) rfl 9

theorem listDelete_frees_of_three :
    ∃ t, Runs FreesHead insertedBetween [0, 2, 1] t ∧ [0, 2, 1].Nodup ∧
      (∀ b, t.heap.cells b = if b ∈ [0, 2, 1] then none else insertedBetween.heap.cells b) ∧
      ∀ fuel, (listDelete fuel).run insertedBetween.memory =
        if [0, 2, 1].length < fuel then .ok ([0, 2, 1].length, ⟨t.heap, none⟩)
        else .error .diverged :=
  listDelete_frees deletable_insertedBetween

end RealTime.LinkedList
