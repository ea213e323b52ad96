import Mathlib.Data.List.Nodup
import Mathlib.Data.List.Sort
import Mathlib.Data.List.TakeWhile

/-! # Lists with a cursor

A list that is walked round and round. The cursor is behind the elements of `before`; at the
end of the list it goes back to the start. -/

namespace RealTime

variable {α : Type*}

@[ext] structure Cursor (α : Type*) where
  before : List α
  after : List α
deriving DecidableEq, Repr

namespace Cursor

def empty : Cursor α := ⟨[], []⟩

/-- The elements from the start of the list. -/
def items (c : Cursor α) : List α := c.before ++ c.after

/-- The elements in the order in which the cursor will come to them. -/
def queue (c : Cursor α) : List α := c.after ++ c.before

/-- The cursor moves over the next element. -/
def next? (c : Cursor α) : Option (α × Cursor α) :=
  match c.after, c.before with
  | a :: after, before => some (a, ⟨before ++ [a], after⟩)
  | [], a :: before => some (a, ⟨[a], before⟩)
  | [], [] => none

/-- A new element right in front of the cursor. -/
def insertHere (c : Cursor α) (x : α) : Cursor α := ⟨c.before ++ [x], c.after⟩

/-- A new element at its place in the order `r`. -/
def insertSorted (r : α → α → Prop) [DecidableRel r] (c : Cursor α) (x : α) : Cursor α :=
  if ∃ b ∈ c.before, r x b then ⟨c.before.orderedInsert r x, c.after⟩
  else ⟨c.before, c.after.orderedInsert r x⟩

variable [DecidableEq α]

/-- An element is taken out. -/
def remove (c : Cursor α) (x : α) : Cursor α := ⟨c.before.erase x, c.after.erase x⟩

/-! ## What they do to the elements -/

omit [DecidableEq α]

variable {c d : Cursor α} {x a : α}

theorem perm_queue (c : Cursor α) : c.queue.Perm c.items := List.perm_append_comm

theorem mem_queue : a ∈ c.queue ↔ a ∈ c.items := c.perm_queue.mem_iff

theorem items_insertHere (c : Cursor α) (x : α) : (c.insertHere x).items.Perm (x :: c.items) := by
  simp [items, insertHere, List.perm_middle]

theorem orderedInsert_append (r : α → α → Prop) [DecidableRel r] (x : α) (ys zs : List α) :
    (ys ++ zs).orderedInsert r x =
      if ∃ b ∈ ys, r x b then ys.orderedInsert r x ++ zs else ys ++ zs.orderedInsert r x := by
  induction ys with
  | nil => simp
  | cons b ys ih =>
      by_cases hb : r x b
      · simp [hb]
      · rw [List.cons_append, List.orderedInsert_cons, if_neg hb, ih, List.orderedInsert_cons,
          if_neg hb]
        by_cases hys : ∃ b ∈ ys, r x b
        · simp [hys]
        · simp [hys, hb]

theorem items_insertSorted (r : α → α → Prop) [DecidableRel r] (c : Cursor α) (x : α) :
    (c.insertSorted r x).items = c.items.orderedInsert r x := by
  rw [items, items, orderedInsert_append, insertSorted]
  split <;> rfl

/-- The element before the cursor stays there. -/
theorem getLast?_insertSorted (r : α → α → Prop) [DecidableRel r] (c : Cursor α) (x : α) :
    (c.insertSorted r x).before.getLast? = c.before.getLast? := by
  unfold insertSorted
  split
  · rename_i h
    have hne : c.before.dropWhile (fun b => ¬ r x b) ≠ [] := by
      obtain ⟨b, hb, hxb⟩ := h
      rw [Ne, List.dropWhile_eq_nil_iff]
      exact fun hall => by simpa [hxb] using hall b hb
    have hsplit := List.takeWhile_append_dropWhile (p := fun b => ¬ r x b) (l := c.before)
    conv_rhs => rw [← hsplit]
    rw [List.orderedInsert_eq_take_drop, List.getLast?_append_of_ne_nil _ (List.cons_ne_nil _ _),
      List.getLast?_cons_of_ne_nil hne, List.getLast?_append_of_ne_nil _ hne]
  · rfl

theorem next?_isSome (c : Cursor α) : c.next?.isSome ↔ c.items ≠ [] := by
  obtain ⟨before, after⟩ := c
  cases after <;> cases before <;> simp [next?, items]

theorem items_next (h : c.next? = some (a, d)) : d.items = c.items := by
  obtain ⟨before, after⟩ := c
  cases after with
  | cons b after =>
      obtain ⟨rfl, rfl⟩ : b = a ∧ _ = d := by simpa [next?] using h
      simp [items]
  | nil =>
      cases before with
      | nil => simp [next?] at h
      | cons b before =>
          obtain ⟨rfl, rfl⟩ : b = a ∧ _ = d := by simpa [next?] using h
          simp [items]

/-- The cursor stops behind what it came to. -/
theorem before_next (h : c.next? = some (a, d)) : ∃ before, d.before = before ++ [a] := by
  obtain ⟨before, after⟩ := c
  cases after with
  | cons b after =>
      obtain ⟨rfl, rfl⟩ : b = a ∧ _ = d := by simpa [next?] using h
      exact ⟨before, rfl⟩
  | nil =>
      cases before with
      | nil => simp [next?] at h
      | cons b before =>
          obtain ⟨rfl, rfl⟩ : b = a ∧ _ = d := by simpa [next?] using h
          exact ⟨[], rfl⟩

/-- The queue is served at the front, and what is served goes to its end. -/
theorem queue_next (h : c.next? = some (a, d)) :
    ∃ rest, c.queue = a :: rest ∧ d.queue = rest ++ [a] := by
  obtain ⟨before, after⟩ := c
  cases after with
  | cons b after =>
      obtain ⟨rfl, rfl⟩ : b = a ∧ _ = d := by simpa [next?] using h
      exact ⟨after ++ before, rfl, by simp [queue]⟩
  | nil =>
      cases before with
      | nil => simp [next?] at h
      | cons b before =>
          obtain ⟨rfl, rfl⟩ : b = a ∧ _ = d := by simpa [next?] using h
          exact ⟨before, rfl, rfl⟩

/-- What is at the front of the queue comes next. -/
theorem next?_of_queue {rest : List α} (h : c.queue = a :: rest) :
    ∃ d, c.next? = some (a, d) ∧ d.queue = rest ++ [a] := by
  have hsome : c.next?.isSome := by
    rw [next?_isSome]
    intro hnil
    have hmem : a ∈ c.items := mem_queue.mp (by simp [h])
    rw [hnil] at hmem
    cases hmem
  obtain ⟨⟨b, d⟩, hnext⟩ := Option.isSome_iff_exists.mp hsome
  obtain ⟨rest', hqueue, hd⟩ := queue_next hnext
  obtain ⟨rfl, rfl⟩ := List.cons.inj (hqueue.symm.trans h)
  exact ⟨d, hnext, hd⟩

/-- A new element is served last. -/
theorem queue_insertHere (c : Cursor α) (x : α) : (c.insertHere x).queue = c.queue ++ [x] := by
  simp [queue, insertHere]

variable [DecidableEq α]

theorem items_remove (h : c.items.Nodup) (x : α) : (c.remove x).items = c.items.erase x := by
  rw [items, items, List.erase_append]
  split
  · rename_i hx
    have hafter : x ∉ c.after := List.disjoint_of_nodup_append h hx
    rw [remove, List.erase_of_not_mem hafter]
  · rename_i hx
    rw [remove, List.erase_of_not_mem hx]

theorem remove_of_notMem (h : x ∉ c.items) : c.remove x = c := by
  obtain ⟨hbefore, hafter⟩ : x ∉ c.before ∧ x ∉ c.after := by simpa [items] using h
  rw [remove, List.erase_of_not_mem hbefore, List.erase_of_not_mem hafter]

theorem queue_remove (h : c.items.Nodup) (x : α) : (c.remove x).queue = c.queue.erase x := by
  rw [queue, queue, List.erase_append]
  split
  · rename_i hx
    have hbefore : x ∉ c.before := fun hb => List.disjoint_of_nodup_append h hb hx
    rw [remove, List.erase_of_not_mem hbefore]
  · rename_i hx
    rw [remove, List.erase_of_not_mem hx]

/-- If the element before the cursor goes, the one before it takes its place. -/
theorem getLast?_remove {ys zs : List α} (h : c.items.Nodup) (hsplit : c.items = ys ++ x :: zs) :
    (c.remove x).before.getLast? =
      if c.before.getLast? = some x then ys.getLast? else c.before.getLast? := by
  rw [remove]
  by_cases hx : x ∈ c.before
  · obtain ⟨as, bs, hbefore⟩ := List.append_of_mem hx
    have hitems : as ++ x :: (bs ++ c.after) = ys ++ x :: zs := by
      rw [← hsplit, items, hbefore]
      simp
    have hnodup : (as ++ x :: (bs ++ c.after)).Nodup := by
      rw [hitems, ← hsplit]
      exact h
    have hout := (List.nodup_cons.mp (List.nodup_middle.mp hnodup)).1
    have has : x ∉ as := fun hmem => hout (List.mem_append_left _ hmem)
    have hbs : x ∉ bs := fun hmem => hout (by simp [hmem])
    obtain ⟨rfl, -⟩ := (List.append_cons_inj_of_notMem has fun hmem =>
      hout (List.mem_append_right _ hmem)).mp hitems
    rw [hbefore, List.erase_append_right _ has, List.erase_cons_head]
    rcases List.eq_nil_or_concat bs with rfl | ⟨bs', b, rfl⟩
    · simp
    · have hb : b ≠ x := by
        rintro rfl
        simp at hbs
      have hlast : (as ++ x :: bs'.concat b).getLast? = some b := by
        rw [List.concat_eq_append, ← List.cons_append, ← List.append_assoc, List.getLast?_concat]
      rw [hlast, if_neg (by simpa using hb), List.concat_eq_append, ← List.append_assoc,
        List.getLast?_concat]
  · rw [List.erase_of_not_mem hx, if_neg]
    exact fun hlast => hx (List.mem_of_getLast? hlast)

end Cursor

end RealTime
