import RealTime.FreeRtos.List
import RealTime.Library.Cursor

/-! # What the kernel's lists are for

Lists with a cursor over the items, each item on one list at most. An operation fails where
its caller breaks the rules of `list.h`: an item is put on a list while it is on one, taken
off while it is on none, or asked of an empty list. -/

namespace RealTime.FreeRtos

variable {L I : Type}

/-- The lists, and the value of each item. `container` says where an item is, and an item that is
nowhere is `cleared` once its container is NULL in memory. -/
structure Lists (L I : Type) where
  value : I → PortTickType
  container : I → Option L
  cleared : I → Bool
  list : L → Cursor I
  nodup : ∀ l, (list l).items.Nodup
  mem_iff : ∀ l i, i ∈ (list l).items ↔ container i = some l

namespace Lists

/-- No item is on a list. -/
def empty (value : I → PortTickType) : Lists L I where
  value := value
  container _ := none
  cleared _ := false
  list _ := .empty
  nodup _ := List.nodup_nil
  mem_iff _ _ := by simp [Cursor.empty, Cursor.items]

def setValue [DecidableEq I] (a : Lists L I) (i : I) (value : PortTickType) : Lists L I :=
  { a with value := Function.update a.value i value }

theorem notMem (a : Lists L I) {i : I} (h : a.container i = none) (l : L) :
    i ∉ (a.list l).items := by
  rw [a.mem_iff, h]
  simp

variable [DecidableEq L]

/-- Only the cursor of the list `l` moves. -/
def move (a : Lists L I) (l : L) (c : Cursor I) (hc : c.items = (a.list l).items) :
    Lists L I where
  value := a.value
  container := a.container
  cleared := a.cleared
  list := Function.update a.list l c
  nodup k := by
    by_cases hk : k = l
    · subst hk
      rw [Function.update_self, hc]
      exact a.nodup k
    · rw [Function.update_of_ne hk]
      exact a.nodup k
  mem_iff k j := by
    by_cases hk : k = l
    · subst hk
      rw [Function.update_self, hc]
      exact a.mem_iff k j
    · rw [Function.update_of_ne hk]
      exact a.mem_iff k j

@[simp] theorem items_move (a : Lists L I) {l : L} {c : Cursor I}
    (hc : c.items = (a.list l).items) (k : L) :
    ((a.move l c hc).list k).items = (a.list k).items := by
  by_cases hk : k = l
  · subst hk
    simpa [move] using hc
  · simp [move, hk]

variable [DecidableEq I]

/-- The list `l` becomes `c`, with one item more. -/
def put (a : Lists L I) (l : L) (i : I) (c : Cursor I) (h : a.container i = none)
    (hc : c.items.Perm (i :: (a.list l).items)) : Lists L I where
  value := a.value
  container := Function.update a.container i (some l)
  cleared := a.cleared
  list := Function.update a.list l c
  nodup k := by
    by_cases hk : k = l
    · subst hk
      rw [Function.update_self, hc.nodup_iff, List.nodup_cons]
      exact ⟨a.notMem h k, a.nodup k⟩
    · rw [Function.update_of_ne hk]
      exact a.nodup k
  mem_iff k j := by
    have hj := a.mem_iff k j
    rw [Function.update_apply, Function.update_apply]
    by_cases hk : k = l
    · subst hk
      rw [if_pos rfl, hc.mem_iff, List.mem_cons, hj]
      by_cases hji : j = i <;> simp [hji]
    · rw [if_neg hk, hj]
      by_cases hji : j = i
      · subst hji
        simp [h, Ne.symm hk]
      · simp [hji]

/-- The list `l` loses an item. -/
def drop (a : Lists L I) (l : L) (i : I) (h : a.container i = some l) : Lists L I where
  value := a.value
  container := Function.update a.container i none
  cleared := Function.update a.cleared i true
  list := Function.update a.list l ((a.list l).remove i)
  nodup k := by
    by_cases hk : k = l
    · subst hk
      rw [Function.update_self, Cursor.items_remove (a.nodup k)]
      exact (a.nodup k).erase i
    · rw [Function.update_of_ne hk]
      exact a.nodup k
  mem_iff k j := by
    have hj := a.mem_iff k j
    rw [Function.update_apply, Function.update_apply]
    by_cases hk : k = l
    · subst hk
      rw [if_pos rfl, Cursor.items_remove (a.nodup k), (a.nodup k).mem_erase_iff, hj]
      by_cases hji : j = i <;> simp [hji]
    · rw [if_neg hk, hj]
      by_cases hji : j = i
      · subst hji
        simp [h, Ne.symm hk]
      · simp [hji]

theorem list_drop (a : Lists L I) {l : L} {i : I} (h : a.container i = some l) (k : L) :
    (a.drop l i h).list k = (a.list k).remove i := by
  by_cases hk : k = l
  · subst hk
    simp [drop]
  · have hi : i ∉ (a.list k).items := by
      rw [a.mem_iff, h]
      simpa using Ne.symm hk
    rw [Cursor.remove_of_notMem hi]
    simp [drop, hk]

theorem queue_drop (a : Lists L I) {l : L} {i : I} (h : a.container i = some l) (k : L) :
    ((a.drop l i h).list k).queue = (a.list k).queue.filter (· ≠ i) := by
  rw [list_drop, Cursor.queue_remove (a.nodup k),
    List.Nodup.erase_eq_filter ((a.list k).perm_queue.nodup_iff.mpr (a.nodup k))]
  exact List.filter_congr fun j _ => by by_cases hj : j = i <;> simp [hj]

theorem items_drop (a : Lists L I) {l : L} {i : I} (h : a.container i = some l) (k : L) :
    ((a.drop l i h).list k).items = (a.list k).items.filter (· ≠ i) := by
  rw [list_drop, Cursor.items_remove (a.nodup k), List.Nodup.erase_eq_filter (a.nodup k)]
  exact List.filter_congr fun j _ => by by_cases hj : j = i <;> simp [hj]

/-! ## The operations -/

/-- An item has its place behind those of the same value. -/
def earlier (a : Lists L I) (i j : I) : Prop := a.value i < a.value j

instance (a : Lists L I) : DecidableRel a.earlier := fun i j =>
  inferInstanceAs (Decidable (a.value i < a.value j))

def insertEnd (a : Lists L I) (l : L) (i : I) : Option (Lists L I) :=
  if h : a.container i = none then
    some (a.put l i ((a.list l).insertHere i) h (Cursor.items_insertHere _ _))
  else none

def insert (a : Lists L I) (l : L) (i : I) : Option (Lists L I) :=
  if h : a.container i = none then
    some (a.put l i ((a.list l).insertSorted a.earlier i) h (by
      rw [Cursor.items_insertSorted]
      exact List.perm_orderedInsert _ _ _))
  else none

def remove (a : Lists L I) (i : I) : Option (Lists L I) :=
  match h : a.container i with
  | some l => some (a.drop l i h)
  | none => none

def nextEntry (a : Lists L I) (l : L) : Option (I × Lists L I) :=
  match h : (a.list l).next? with
  | some (i, c) => some (i, a.move l c (Cursor.items_next h))
  | none => none

def headEntry (a : Lists L I) (l : L) : Option I := (a.list l).items.head?

/-- Whether an item is on this list. Before it is initialised its container may be anything. -/
def contained (a : Lists L I) (l : L) (i : I) : Option Bool :=
  match a.container i with
  | some k => some (decide (k = l))
  | none => if a.cleared i then some false else none

/-- Only an item that is on no list may be initialised. -/
def initialiseItem (a : Lists L I) (i : I) : Option (Lists L I) :=
  if a.container i = none then some { a with cleared := Function.update a.cleared i true } else none

end Lists

/-! ## Both levels as one -/

/-- What the kernel does with its lists. -/
class ListStore (S : Type) (L I : outParam Type) where
  insertEnd : S → L → I → Option S
  insert : S → L → I → Option S
  remove : S → I → Option S
  nextEntry : S → L → Option (I × S)
  headEntry : S → L → Option I
  length : S → L → ℕ
  isEmpty : S → L → Bool
  value : S → I → PortTickType
  setValue : S → I → PortTickType → S
  contained : S → L → I → Option Bool
  initialiseItem : S → I → Option S
  initialise : S → List L → S

section
variable [DecidableEq L] [DecidableEq I]

instance : ListStore (Memory L I) L I where
  insertEnd m l i := some (vListInsertEnd m l i)
  insert := vListInsert
  remove := vListRemove
  nextEntry := listGetOwnerOfNextEntry
  headEntry := listGetOwnerOfHeadEntry
  length := listCurrentListLength
  isEmpty := listListIsEmpty
  value := listGetListItemValue
  setValue := listSetListItemValue
  contained m l i := some (listIsContainedWithin m l i)
  initialiseItem m i := some (vListInitialiseItem m i)
  initialise m ls := ls.foldl vListInitialise m

instance : ListStore (Lists L I) L I where
  insertEnd := Lists.insertEnd
  insert := Lists.insert
  remove := Lists.remove
  nextEntry := Lists.nextEntry
  headEntry := Lists.headEntry
  length a l := (a.list l).items.length
  isEmpty a l := (a.list l).items.isEmpty
  value := Lists.value
  setValue := Lists.setValue
  contained := Lists.contained
  initialiseItem := Lists.initialiseItem
  initialise a _ := Lists.empty a.value
end

/-! ## Runs of calls -/

inductive Call (L I : Type) where
  | insertEnd (l : L) (i : I)
  | insert (l : L) (i : I)
  | remove (i : I)
  | nextEntry (l : L)
  | headEntry (l : L)
  | length (l : L)
  | isEmpty (l : L)
  | value (i : I)
  | setValue (i : I) (value : PortTickType)
  | contained (l : L) (i : I)
  | initialiseItem (i : I)
deriving DecidableEq, Repr

inductive Reply (I : Type) where
  | done
  | owner (i : I)
  | number (n : ℕ)
  | ticks (v : PortTickType)
  | flag (b : Bool)
deriving DecidableEq, Repr

def Call.run {S : Type} [ListStore S L I] (s : S) : Call L I → Option (Reply I × S)
  | .insertEnd l i => (ListStore.insertEnd s l i).map (.done, ·)
  | .insert l i => (ListStore.insert s l i).map (.done, ·)
  | .remove i => (ListStore.remove s i).map (.done, ·)
  | .nextEntry l => (ListStore.nextEntry s l).map fun p => (.owner p.1, p.2)
  | .headEntry l => (ListStore.headEntry s l).map fun i => (.owner i, s)
  | .length l => some (.number (ListStore.length s l), s)
  | .isEmpty l => some (.flag (ListStore.isEmpty s l), s)
  | .value i => some (.ticks (ListStore.value s i), s)
  | .setValue i v => some (.done, ListStore.setValue s i v)
  | .contained l i => (ListStore.contained s l i).map fun b => (.flag b, s)
  | .initialiseItem i => (ListStore.initialiseItem s i).map (.done, ·)

/-- The replies, last one first, and the lists behind them. -/
def Call.runs {S : Type} [ListStore S L I] (s : S) (calls : List (Call L I)) :
    Option (List (Reply I) × S) :=
  calls.foldlM (fun p call => (call.run p.2).map fun q => (q.1 :: p.1, q.2)) ([], s)

end RealTime.FreeRtos
