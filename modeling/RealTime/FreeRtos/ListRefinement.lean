import RealTime.FreeRtos.Lists
import RealTime.Library.Circle
import RealTime.Library.Refines

/-! # `list.c` implements lists with a cursor -/

namespace RealTime.FreeRtos

variable {L I : Type}

/-- The nodes of a list, from its end marker on. -/
def Lists.nodes (a : Lists L I) (l : L) : List (Pointer L I) :=
  .xListEnd l :: (a.list l).items.map .item

/-- The memory holds the lists. Nothing is said of the links of an item that is on no list. -/
structure Represents (m : Memory L I) (a : Lists L I) : Prop where
  circle : ∀ l, Circle m.pxNext m.pxPrevious (.xListEnd l) ((a.list l).items.map .item)
  index : ∀ l, m.pxIndex l = Circle.last (.xListEnd l) ((a.list l).before.map .item)
  number : ∀ l, m.uxNumberOfItems l = (a.list l).items.length
  container : ∀ i l, a.container i = some l → m.pvContainer i = some l
  cleared : ∀ i, a.container i = none → a.cleared i = true → m.pvContainer i = none
  value : ∀ i, m.xItemValue (.item i) = a.value i
  marker : ∀ l, m.xItemValue (.xListEnd l) = portMAX_DELAY

namespace Lists

variable {a : Lists L I} {i : I} {k l : L} {p : Pointer L I}

theorem mem_nodes :
    p ∈ a.nodes l ↔ p = .xListEnd l ∨ ∃ i, p = .item i ∧ a.container i = some l := by
  simp only [nodes, List.mem_cons, List.mem_map, a.mem_iff]
  constructor
  · rintro (h | ⟨i, hi, rfl⟩)
    · exact .inl h
    · exact .inr ⟨i, rfl, hi⟩
  · rintro (h | ⟨i, rfl, hi⟩)
    · exact .inl h
    · exact .inr ⟨i, hi, rfl⟩

/-- Two lists share no node. -/
theorem nodes_disjoint (hk : p ∈ a.nodes k) (hl : p ∈ a.nodes l) : k = l := by
  rw [mem_nodes] at hk hl
  rcases hk with rfl | ⟨i, rfl, hi⟩ <;> rcases hl with h | ⟨j, h, hj⟩
  · exact Pointer.xListEnd.inj h
  · cases h
  · cases h
  · obtain rfl := Pointer.item.inj h
    exact Option.some.inj (hi.symm.trans hj)

theorem item_notMem (h : a.container i = none) (l : L) : .item i ∉ a.nodes l := by
  rw [mem_nodes]
  rintro (hp | ⟨j, hp, hj⟩)
  · cases hp
  · obtain rfl := Pointer.item.inj hp
    rw [h] at hj
    cases hj

end Lists

/-! ## Relinking one list -/

section
variable {m m' : Memory L I} {a : Lists L I} {i : I} {k l : L} {ys zs : List I}

theorem Represents.last_mem (h : (a.list l).items = ys ++ zs) :
    Circle.last (.xListEnd l) (ys.map .item) ∈ a.nodes l := by
  rw [Lists.nodes, h, List.map_append]
  exact Circle.mem_front _ (Circle.last_mem _ _)

theorem Represents.first_mem (h : (a.list l).items = ys ++ zs) :
    Circle.first (.xListEnd l) (zs.map .item) ∈ a.nodes l := by
  rw [Lists.nodes, h, List.map_append]
  refine Circle.mem_back _ ?_
  have hmem := Circle.first_mem (Pointer.xListEnd l) (zs.map .item)
  simpa [or_comm] using hmem

/-- The pointers of an item that is on a list. -/
theorem Represents.links (h : Represents m a) (hsplit : (a.list l).items = ys ++ i :: zs) :
    m.pxPrevious (.item i) = Circle.last (.xListEnd l) (ys.map .item) ∧
      m.pxNext (.item i) = Circle.first (.xListEnd l) (zs.map .item) := by
  have hcircle := h.circle l
  rw [hsplit, List.map_append, List.map_cons] at hcircle
  have hprev := hcircle.prev_first
  rw [List.append_cons] at hcircle
  have hnext := hcircle.next_last
  rw [Circle.last_concat] at hnext
  exact ⟨hprev, hnext⟩

theorem Represents.headEntry (h : Represents m a) (l : L) :
    Refines Eq (listGetOwnerOfHeadEntry m l) (a.headEntry l) := by
  intro i hi
  obtain ⟨zs, hitems⟩ : ∃ zs, (a.list l).items = i :: zs := List.head?_eq_some_iff.mp hi
  have hcircle := h.circle l
  rw [← List.nil_append ((a.list l).items.map Pointer.item), hitems] at hcircle
  have hnext := hcircle.next_last
  refine ⟨i, ?_, rfl⟩
  rw [Circle.last_nil, List.map_cons, Circle.first_cons] at hnext
  rw [listGetOwnerOfHeadEntry, hnext, owner]

/-- The entry before which the cursor stands, and the first entry when it is at the end. -/
theorem Represents.next_index (h : Represents m a) {c : Cursor I}
    (hnext : (a.list l).next? = some (i, c)) :
    m.pxNext (m.pxIndex l) = .item i ∨
      m.pxNext (m.pxIndex l) = .xListEnd l ∧ m.pxNext (.xListEnd l) = .item i := by
  have hcircle := h.circle l
  rw [h.index]
  generalize a.list l = d at hcircle hnext ⊢
  obtain ⟨before, after⟩ := d
  rw [Cursor.items, List.map_append] at hcircle
  have hindex := hcircle.next_last
  cases after with
  | cons b after =>
      obtain ⟨rfl, -⟩ : b = i ∧ _ = c := by simpa [Cursor.next?] using hnext
      exact .inl hindex
  | nil =>
      cases before with
      | nil => simp [Cursor.next?] at hnext
      | cons b before =>
          obtain ⟨rfl, -⟩ : b = i ∧ _ = c := by simpa [Cursor.next?] using hnext
          rw [List.map_nil, List.append_nil, ← List.nil_append (List.map _ _)] at hcircle
          exact .inr ⟨hindex, hcircle.next_last⟩

variable [DecidableEq L] [DecidableEq I]

/-- What both insertions make of the memory, except for `pxIndex`. -/
def enter (m : Memory L I) (l : L) (i : I) (pxIterator : Pointer L I) : Memory L I :=
  { m with
    pxNext := Function.update (Function.update m.pxNext (.item i) (m.pxNext pxIterator))
      pxIterator (.item i)
    pxPrevious := Function.update (Function.update m.pxPrevious (.item i) pxIterator)
      (m.pxNext pxIterator) (.item i)
    pvContainer := Function.update m.pvContainer i (some l)
    uxNumberOfItems := Function.update m.uxNumberOfItems l (m.uxNumberOfItems l + 1) }

theorem vListInsertEnd_eq {i : I} (h : m.pxIndex l ≠ .item i) :
    vListInsertEnd m l i = (enter m l i (m.pxIndex l)).setIndex l (.item i) := by
  simp [vListInsertEnd, enter, Memory.setNext, Memory.setPrevious, Memory.setIndex,
    Memory.setContainer, Memory.setNumberOfItems, h]

theorem vListInsert_eq {i : I} {p : Pointer L I} {v : PortTickType} (hnext : m.pxNext p ≠ .item i)
    (hv : m.xItemValue (.item i) = v)
    (hplace : (if v = portMAX_DELAY then some (m.pxPrevious (.xListEnd l))
      else insertionPoint m v (m.uxNumberOfItems l + 1) (.xListEnd l)) = some p) :
    vListInsert m l i = some (enter m l i p) := by
  subst hv
  have hrest : vListInsert m l i = some p >>= fun p => some
      ((((((m.setNext (.item i) (m.pxNext p)).setPrevious
        ((m.setNext (.item i) (m.pxNext p)).pxNext (.item i)) (.item i)).setPrevious
          (.item i) p).setNext p (.item i)).setContainer i (some l)).setNumberOfItems l
            (m.uxNumberOfItems l + 1)) := by
    rw [← hplace, vListInsert]
    split <;> rfl
  rw [hrest]
  simp [enter, Memory.setNext, Memory.setPrevious, Memory.setContainer,
    Memory.setNumberOfItems, Function.update_comm hnext]

theorem Represents.circle_enter (h : Represents m a) (hi : a.container i = none)
    (hsplit : (a.list l).items = ys ++ zs) (c : Cursor I) (hc : c.items = ys ++ i :: zs) (k : L) :
    Circle (enter m l i (Circle.last (.xListEnd l) (ys.map .item))).pxNext
      (enter m l i (Circle.last (.xListEnd l) (ys.map .item))).pxPrevious (.xListEnd k)
      ((Function.update a.list l c k).items.map .item) := by
  have hcircle := h.circle l
  rw [hsplit, List.map_append] at hcircle
  have hnext := hcircle.next_last
  have hlast := Represents.last_mem hsplit
  have hfirst := Represents.first_mem hsplit
  have hnew := Lists.item_notMem hi
  rw [enter, hnext]
  by_cases hk : k = l
  · subst hk
    rw [Function.update_self, hc, List.map_append, List.map_cons]
    have hlne : Pointer.item i ≠ Circle.last (.xListEnd k) (ys.map .item) :=
      fun he => hnew k (he ▸ hlast)
    have hfne : Pointer.item i ≠ Circle.first (.xListEnd k) (zs.map .item) :=
      fun he => hnew k (he ▸ hfirst)
    refine hcircle.insert ?_ ?_ ?_ ?_ ?_ ?_ ?_
    · rw [← List.map_append, ← hsplit]
      exact hnew k
    · simp
    · simp [hlne]
    · intro p hp hpi
      simp [hp, hpi]
    · simp
    · simp [hfne]
    · intro p hp hpi
      simp [hp, hpi]
  · rw [Function.update_of_ne hk]
    have hout : ∀ p ∈ a.nodes k, ∀ q ∈ a.nodes l, p ≠ q := by
      rintro p hp q hq rfl
      exact hk (Lists.nodes_disjoint hp hq)
    have hne : ∀ p ∈ a.nodes k, p ≠ .item i := fun p hp he => hnew k (he ▸ hp)
    refine (h.circle k).frame ?_ ?_
    · intro p hp
      simp [hne p hp, hout p hp _ hlast]
    · intro p hp
      simp [hne p hp, hout p hp _ hfirst]

/-- A new item has been entered, and `pxIndex` is where the cursor is. -/
theorem Represents.put (h : Represents m a) (hi : a.container i = none)
    (hsplit : (a.list l).items = ys ++ zs) {c : Cursor I} (hc : c.items = ys ++ i :: zs)
    (hperm : c.items.Perm (i :: (a.list l).items)) :
    Represents ((enter m l i (Circle.last (.xListEnd l) (ys.map .item))).setIndex l
      (Circle.last (.xListEnd l) (c.before.map .item))) (a.put l i c hi hperm) := by
  refine ⟨fun k => h.circle_enter hi hsplit c hc k, ?_, ?_, ?_, ?_, h.value, h.marker⟩
  · intro k
    by_cases hk : k = l
    · subst hk
      simp [Lists.put, Memory.setIndex]
    · simp [Lists.put, Memory.setIndex, enter, hk, h.index k]
  · intro k
    by_cases hk : k = l
    · subst hk
      simp [Lists.put, Memory.setIndex, enter, h.number, hperm.length_eq]
    · simp [Lists.put, Memory.setIndex, enter, hk, h.number k]
  · intro j k hj
    simp only [Lists.put, Memory.setIndex, enter] at hj ⊢
    by_cases hji : j = i
    · subst hji
      simpa using hj
    · rw [Function.update_of_ne hji] at hj ⊢
      exact h.container j k hj
  · intro j hj hcleared
    simp only [Lists.put, Memory.setIndex, enter] at hj hcleared ⊢
    by_cases hji : j = i
    · subst hji
      simp at hj
    · rw [Function.update_of_ne hji] at hj ⊢
      exact h.cleared j hj hcleared

/-! ## The operations -/

omit [DecidableEq L] [DecidableEq I] in
theorem Represents.isEmpty (h : Represents m a) (l : L) :
    listListIsEmpty m l = (a.list l).items.isEmpty := by
  rw [listListIsEmpty, h.number]
  cases (a.list l).items <;> simp

theorem Represents.insertEnd (h : Represents m a) (l : L) (i : I) :
    Refines Represents (some (vListInsertEnd m l i)) (a.insertEnd l i) := by
  unfold Lists.insertEnd
  split
  · rename_i hi
    have hlast := Represents.last_mem
      (show (a.list l).items = (a.list l).before ++ (a.list l).after from rfl)
    have hne : m.pxIndex l ≠ .item i := by
      intro he
      rw [h.index] at he
      exact Lists.item_notMem hi l (he ▸ hlast)
    have hitems : ((a.list l).insertHere i).items = (a.list l).before ++ i :: (a.list l).after := by
      simp [Cursor.insertHere, Cursor.items]
    have hput := h.put hi rfl hitems (Cursor.items_insertHere _ _)
    rw [vListInsertEnd_eq hne, h.index]
    simp only [Cursor.insertHere, List.map_append, List.map_singleton, Circle.last_concat] at hput
    exact Refines.some hput
  · exact Refines.none _

/-- The loop of `vListInsert` passes the items that are not greater. -/
theorem Represents.insertionPoint_eq (h : Represents m a) {v : PortTickType}
    (hv : v ≠ portMAX_DELAY) (fuel : ℕ) {ys zs : List I} (hsplit : (a.list l).items = ys ++ zs)
    (hfuel : zs.length < fuel) :
    insertionPoint m v fuel (Circle.last (.xListEnd l) (ys.map .item)) =
      some (Circle.last (.xListEnd l)
        ((ys ++ zs.takeWhile fun j => a.value j ≤ v).map .item)) := by
  have hcircle := h.circle l
  rw [hsplit, List.map_append] at hcircle
  have hnext := hcircle.next_last
  induction fuel generalizing ys zs with
  | zero => omega
  | succ fuel ih =>
      rw [insertionPoint, hnext]
      cases zs with
      | nil =>
          have hend : ¬ portMAX_DELAY ≤ v := by
            rw [portMAX_DELAY] at hv ⊢
            bv_omega
          rw [List.map_nil, Circle.first_nil, h.marker, if_neg hend]
          simp
      | cons z zs =>
          rw [List.map_cons, Circle.first_cons, h.value]
          by_cases hz : a.value z ≤ v
          · have hsplit' : (a.list l).items = (ys ++ [z]) ++ zs := by simpa using hsplit
            have hcircle' := h.circle l
            rw [hsplit', List.map_append] at hcircle'
            have hrest := ih hsplit' (by simpa using hfuel) hcircle' hcircle'.next_last
            rw [List.map_append, List.map_singleton, Circle.last_concat] at hrest
            rw [if_pos hz, hrest]
            simp [hz]
          · rw [if_neg hz]
            simp [hz]

/-- The place of a new item: behind the items that are not greater. -/
theorem Represents.iterator_eq (h : Represents m a) (l : L) (v : PortTickType) :
    (if v = portMAX_DELAY then some (m.pxPrevious (.xListEnd l))
      else insertionPoint m v (m.uxNumberOfItems l + 1) (.xListEnd l)) =
      some (Circle.last (.xListEnd l)
        (((a.list l).items.takeWhile fun j => a.value j ≤ v).map .item)) := by
  split
  · rename_i hv
    have hall : (a.list l).items.takeWhile (fun j => a.value j ≤ v) = (a.list l).items := by
      rw [List.takeWhile_eq_self_iff]
      intro j _
      rw [hv, portMAX_DELAY]
      simp only [decide_eq_true_eq]
      bv_omega
    have hcircle := h.circle l
    rw [← List.append_nil ((a.list l).items.map Pointer.item)] at hcircle
    rw [hall, ← hcircle.prev_first, Circle.first_nil]
  · rename_i hv
    have hfuel : (a.list l).items.length < m.uxNumberOfItems l + 1 := by rw [h.number]; omega
    have hloop := h.insertionPoint_eq hv _ (List.nil_append (a.list l).items).symm hfuel
    simpa using hloop

theorem Represents.insert (h : Represents m a) (l : L) (i : I) :
    Refines Represents (vListInsert m l i) (a.insert l i) := by
  unfold Lists.insert
  split
  · rename_i hi
    have hplace : ((a.list l).insertSorted a.earlier i).items =
        (a.list l).items.takeWhile (fun j => a.value j ≤ a.value i) ++
          i :: (a.list l).items.dropWhile fun j => a.value j ≤ a.value i := by
      rw [Cursor.items_insertSorted, List.orderedInsert_eq_take_drop]
      simp [Lists.earlier]
    have hsplit := (List.takeWhile_append_dropWhile (p := fun j => a.value j ≤ a.value i)
      (l := (a.list l).items)).symm
    have hcircle := h.circle l
    rw [hsplit, List.map_append] at hcircle
    have hlast := Represents.last_mem hsplit
    have hfirst := Represents.first_mem hsplit
    have hnew := Lists.item_notMem hi l
    have hentered := vListInsert_eq (fun he => hnew (he ▸ hcircle.next_last ▸ hfirst)) (h.value i)
      (h.iterator_eq l (a.value i))
    have hput := h.put hi hsplit hplace (by
      rw [Cursor.items_insertSorted]
      exact List.perm_orderedInsert _ _ _)
    have hindex : Circle.last (.xListEnd l)
        (((a.list l).insertSorted a.earlier i).before.map .item) = m.pxIndex l := by
      rw [h.index, Circle.last_eq, Circle.last_eq, List.getLast?_map, List.getLast?_map,
        Cursor.getLast?_insertSorted]
    rw [hindex] at hput
    rw [hentered]
    have hsame (p) : (enter m l i p).setIndex l (m.pxIndex l) = enter m l i p := by
      simp [Memory.setIndex, enter]
    rw [hsame] at hput
    exact Refines.some hput
  · exact Refines.none _

/-- What `vListRemove` makes of the memory. -/
def leave (m : Memory L I) (l : L) (i : I) : Memory L I :=
  { m with
    pxNext := Function.update m.pxNext (m.pxPrevious (.item i)) (m.pxNext (.item i))
    pxPrevious := Function.update m.pxPrevious (m.pxNext (.item i)) (m.pxPrevious (.item i))
    pxIndex := Function.update m.pxIndex l
      (if m.pxIndex l = .item i then m.pxPrevious (.item i) else m.pxIndex l)
    pvContainer := Function.update m.pvContainer i none
    uxNumberOfItems := Function.update m.uxNumberOfItems l (m.uxNumberOfItems l - 1) }

theorem vListRemove_eq (hnext : m.pxNext (.item i) ≠ .item i) (hc : m.pvContainer i = some l) :
    vListRemove m i = some (leave m l i) := by
  simp only [vListRemove, Memory.setPrevious, Memory.setNext, hc, Function.update_of_ne hnext.symm]
  by_cases hindex : m.pxIndex l = .item i <;>
    simp [hindex, leave, Memory.setIndex, Memory.setContainer, Memory.setNumberOfItems]

theorem Represents.circle_leave (h : Represents m a) (hi : a.container i = some l)
    (hsplit : (a.list l).items = ys ++ i :: zs) (k : L) :
    Circle (leave m l i).pxNext (leave m l i).pxPrevious (.xListEnd k)
      (((a.drop l i hi).list k).items.map .item) := by
  obtain ⟨hprev, hnext⟩ := h.links hsplit
  rw [leave, hprev, hnext]
  by_cases hk : k = l
  · subst hk
    have hitems := Cursor.items_remove (a.nodup k) i
    have hnodup := a.nodup k
    rw [hsplit] at hitems hnodup
    have hys : i ∉ ys := fun hmem =>
      (List.nodup_cons.mp (List.nodup_middle.mp hnodup)).1 (List.mem_append_left _ hmem)
    rw [List.erase_append_right _ hys, List.erase_cons_head] at hitems
    rw [show (a.drop k i hi).list k = _ from Function.update_self .., hitems, List.map_append]
    have hcircle := h.circle k
    rw [hsplit, List.map_append, List.map_cons] at hcircle
    refine hcircle.remove ?_ ?_ ?_ ?_
    · simp
    · intro p hp
      simp [hp]
    · simp
    · intro p hp
      simp [hp]
  · rw [show (a.drop l i hi).list k = _ from Function.update_of_ne hk _ _]
    have hout : ∀ p ∈ a.nodes k, ∀ q ∈ a.nodes l, p ≠ q := by
      rintro p hp q hq rfl
      exact hk (Lists.nodes_disjoint hp hq)
    have hlast := Represents.last_mem hsplit
    have hfirst := Represents.first_mem
      (show (a.list l).items = (ys ++ [i]) ++ zs by rw [hsplit, List.append_cons])
    refine (h.circle k).frame ?_ ?_
    · intro p hp
      simp [hout p hp _ hlast]
    · intro p hp
      simp [hout p hp _ hfirst]

theorem Represents.index_leave (h : Represents m a) (hi : a.container i = some l)
    (hsplit : (a.list l).items = ys ++ i :: zs) (k : L) :
    (leave m l i).pxIndex k =
      Circle.last (.xListEnd k) (((a.drop l i hi).list k).before.map .item) := by
  by_cases hk : k = l
  · subst hk
    have hlast := Cursor.getLast?_remove (a.nodup k) hsplit
    simp only [leave, Lists.drop, Function.update_self, (h.links hsplit).1, h.index]
    simp only [Circle.last_eq, List.getLast?_map, hlast]
    cases (a.list k).before.getLast? with
    | none => simp
    | some j => by_cases hj : j = i <;> simp [hj]
  · simp [leave, Lists.drop, hk, h.index k]

theorem Represents.remove (h : Represents m a) (i : I) :
    Refines Represents (vListRemove m i) (a.remove i) := by
  unfold Lists.remove
  split
  · rename_i l hi
    obtain ⟨ys, zs, hsplit⟩ := List.append_of_mem ((a.mem_iff l i).mpr hi)
    have hne : m.pxNext (.item i) ≠ .item i := by
      have hcircle := h.circle l
      rw [hsplit, List.append_cons, List.map_append] at hcircle
      have hout := Circle.first_notMem_front hcircle.nodup
      rw [← (h.links hsplit).2] at hout
      exact fun he => hout (by simp [he])
    rw [vListRemove_eq hne (h.container i l hi)]
    refine Refines.some ⟨h.circle_leave hi hsplit, h.index_leave hi hsplit, ?_, ?_, ?_, h.value,
      h.marker⟩
    · intro k
      by_cases hk : k = l
      · subst hk
        simp only [leave, Lists.drop, Function.update_self, h.number,
          Cursor.items_remove (a.nodup k), List.length_erase_of_mem ((a.mem_iff k i).mpr hi)]
      · simp [leave, Lists.drop, hk, h.number k]
    · intro j k hj
      simp only [Lists.drop, leave] at hj ⊢
      by_cases hji : j = i
      · subst hji
        simp at hj
      · rw [Function.update_of_ne hji] at hj ⊢
        exact h.container j k hj
    · intro j hj hcleared
      simp only [Lists.drop, leave] at hj hcleared ⊢
      by_cases hji : j = i
      · subst hji
        exact Function.update_self _ _ _
      · rw [Function.update_of_ne hji] at hj hcleared ⊢
        exact h.cleared j hj hcleared
  · exact Refines.none _

/-- The owner of the next entry. -/
theorem Represents.nextEntry (h : Represents m a) (l : L) :
    Refines (fun x y => x.1 = y.1 ∧ Represents x.2 y.2) (listGetOwnerOfNextEntry m l)
      (a.nextEntry l) := by
  unfold Lists.nextEntry
  split
  · rename_i i c hnext
    have hitems := Cursor.items_next hnext
    have hlast : Circle.last (Pointer.xListEnd l) (c.before.map .item) = .item i := by
      obtain ⟨bs, hbs⟩ := Cursor.before_next hnext
      rw [hbs, List.map_append, List.map_singleton, Circle.last_concat]
    have hmoved : Represents (m.setIndex l (.item i)) (a.move l c hitems) := by
      refine ⟨?_, ?_, ?_, h.container, h.cleared, h.value, h.marker⟩
      · intro k
        rw [Lists.items_move]
        exact h.circle k
      · intro k
        by_cases hk : k = l
        · subst hk
          simp [Lists.move, Memory.setIndex, hlast]
        · simp [Lists.move, Memory.setIndex, hk, h.index k]
      · intro k
        rw [Lists.items_move]
        exact h.number k
    have heq : listGetOwnerOfNextEntry m l = some (i, m.setIndex l (.item i)) := by
      rcases h.next_index hnext with hi | ⟨hend, hi⟩
      · simp [listGetOwnerOfNextEntry, Memory.setIndex, hi, owner]
      · simp [listGetOwnerOfNextEntry, Memory.setIndex, hend, hi, owner]
    rw [heq]
    exact Refines.some ⟨rfl, hmoved⟩
  · exact Refines.none _

theorem Represents.setValue (h : Represents m a) (i : I) (v : PortTickType) :
    Represents (listSetListItemValue m i v) (a.setValue i v) := by
  refine ⟨h.circle, h.index, h.number, h.container, h.cleared, ?_, ?_⟩
  · intro j
    by_cases hj : j = i <;>
      simp [listSetListItemValue, Memory.setValue, Lists.setValue, hj, h.value]
  · intro l
    simp [listSetListItemValue, Memory.setValue, h.marker]

omit [DecidableEq I] in
theorem Represents.contained (h : Represents m a) (l : L) (i : I) :
    Refines Eq (some (listIsContainedWithin m l i)) (a.contained l i) := by
  unfold Lists.contained
  split
  · rename_i k hk
    exact Refines.some (by simp [listIsContainedWithin, h.container i k hk])
  · rename_i hnone
    split
    · rename_i hcleared
      exact Refines.some (by simp [listIsContainedWithin, h.cleared i hnone hcleared])
    · exact Refines.none _

omit [DecidableEq L] in
theorem Represents.initialiseItem (h : Represents m a) (i : I) :
    Refines Represents (some (vListInitialiseItem m i)) (a.initialiseItem i) := by
  unfold Lists.initialiseItem
  split
  · rename_i hi
    refine Refines.some ⟨h.circle, h.index, h.number, ?_, ?_, h.value, h.marker⟩
    · intro j l hj
      have hji : j ≠ i := by
        rintro rfl
        rw [hi] at hj
        cases hj
      simpa [vListInitialiseItem, Memory.setContainer, hji] using h.container j l hj
    · intro j hj hcleared
      by_cases hji : j = i
      · simp [vListInitialiseItem, Memory.setContainer, hji]
      · have hbefore : a.cleared j = true := by simpa [hji] using hcleared
        simpa [vListInitialiseItem, Memory.setContainer, hji] using h.cleared j hj hbefore
  · exact Refines.none _

/-! ## Initialisation -/

/-- What `vListInitialise` leaves of a list. -/
structure Fresh (m : Memory L I) (l : L) : Prop where
  next : m.pxNext (.xListEnd l) = .xListEnd l
  previous : m.pxPrevious (.xListEnd l) = .xListEnd l
  index : m.pxIndex l = .xListEnd l
  number : m.uxNumberOfItems l = 0
  marker : m.xItemValue (.xListEnd l) = portMAX_DELAY

theorem fresh_initialise (m : Memory L I) {k l : L} (h : k = l ∨ Fresh m k) :
    Fresh (vListInitialise m l) k := by
  by_cases hk : k = l
  · subst hk
    constructor <;> simp [vListInitialise, Memory.setNext, Memory.setPrevious, Memory.setIndex,
      Memory.setNumberOfItems, Memory.setValue]
  · obtain ⟨hnext, hprevious, hindex, hnumber, hmarker⟩ := h.resolve_left hk
    constructor <;> simpa [vListInitialise, Memory.setNext, Memory.setPrevious, Memory.setIndex,
      Memory.setNumberOfItems, Memory.setValue, hk]

theorem fresh_foldl (m : Memory L I) (ls : List L) {k : L} (h : k ∈ ls ∨ Fresh m k) :
    Fresh (ls.foldl vListInitialise m) k := by
  induction ls generalizing m with
  | nil => simpa using h
  | cons l ls ih =>
      refine ih _ ?_
      rcases h with h | h
      · rcases List.mem_cons.mp h with heq | hmem
        · exact .inr (fresh_initialise m (.inl heq))
        · exact .inl hmem
      · exact .inr (fresh_initialise m (.inr h))

theorem value_foldl (m : Memory L I) (ls : List L) (i : I) :
    (ls.foldl vListInitialise m).xItemValue (.item i) = m.xItemValue (.item i) := by
  induction ls generalizing m with
  | nil => rfl
  | cons l ls ih =>
      rw [List.foldl_cons, ih]
      simp [vListInitialise, Memory.setNext, Memory.setPrevious, Memory.setIndex,
        Memory.setNumberOfItems, Memory.setValue]

/-- `vListInitialise` on every list makes sense of a memory with anything in it. -/
theorem Represents.initialise (m : Memory L I) (ls : List L) (hls : ∀ l, l ∈ ls) :
    Represents (ls.foldl vListInitialise m) (Lists.empty fun i => m.xItemValue (.item i)) := by
  have hfresh (l) := fresh_foldl m ls (.inl (hls l))
  refine ⟨?_, fun l => (hfresh l).index, fun l => (hfresh l).number, ?_, nofun,
    value_foldl m ls, fun l => (hfresh l).marker⟩
  · intro l
    refine ⟨List.nodup_singleton _, ?_⟩
    simp [Lists.empty, Cursor.empty, Cursor.items, Link, (hfresh l).next, (hfresh l).previous]
  · intro i l hi
    cases hi

end

/-! ## Runs of calls -/

/-- Each operation on the one side has its counterpart on the other. -/
structure StoreRefines {S T : Type} [ListStore S L I] [ListStore T L I] (R : S → T → Prop) :
    Prop where
  insertEnd : ∀ {s t}, R s t → ∀ l i,
    Refines R (ListStore.insertEnd s l i) (ListStore.insertEnd t l i)
  insert : ∀ {s t}, R s t → ∀ l i, Refines R (ListStore.insert s l i) (ListStore.insert t l i)
  remove : ∀ {s t}, R s t → ∀ i, Refines R (ListStore.remove s i) (ListStore.remove t i)
  nextEntry : ∀ {s t}, R s t → ∀ l,
    Refines (fun x y => x.1 = y.1 ∧ R x.2 y.2) (ListStore.nextEntry s l) (ListStore.nextEntry t l)
  headEntry : ∀ {s t}, R s t → ∀ l, Refines Eq (ListStore.headEntry s l) (ListStore.headEntry t l)
  length : ∀ {s t}, R s t → ∀ l, ListStore.length s l = ListStore.length t l
  isEmpty : ∀ {s t}, R s t → ∀ l, ListStore.isEmpty s l = ListStore.isEmpty t l
  value : ∀ {s t}, R s t → ∀ i, ListStore.value s i = ListStore.value t i
  setValue : ∀ {s t}, R s t → ∀ i v, R (ListStore.setValue s i v) (ListStore.setValue t i v)
  contained : ∀ {s t}, R s t → ∀ l i,
    Refines Eq (ListStore.contained s l i) (ListStore.contained t l i)
  initialiseItem : ∀ {s t}, R s t → ∀ i,
    Refines R (ListStore.initialiseItem s i) (ListStore.initialiseItem t i)
  initialise : ∀ s t, (∀ i, ListStore.value s i = ListStore.value t i) →
    ∀ ls, (∀ l, l ∈ ls) → R (ListStore.initialise s ls) (ListStore.initialise t ls)

theorem Call.run_refines {S T : Type} [ListStore S L I] [ListStore T L I] {R : S → T → Prop}
    (hR : StoreRefines R) {s : S} {t : T} (h : R s t) (call : Call L I) :
    Refines (fun x y => x.1 = y.1 ∧ R x.2 y.2) (call.run s) (call.run t) := by
  cases call with
  | insertEnd l i => exact (hR.insertEnd h l i).map fun _ _ hst => ⟨rfl, hst⟩
  | insert l i => exact (hR.insert h l i).map fun _ _ hst => ⟨rfl, hst⟩
  | remove i => exact (hR.remove h i).map fun _ _ hst => ⟨rfl, hst⟩
  | nextEntry l => exact (hR.nextEntry h l).map fun _ _ hst => ⟨congrArg _ hst.1, hst.2⟩
  | headEntry l => exact (hR.headEntry h l).map fun _ _ hij => ⟨congrArg _ hij, h⟩
  | length l => exact Refines.some ⟨congrArg _ (hR.length h l), h⟩
  | isEmpty l => exact Refines.some ⟨congrArg _ (hR.isEmpty h l), h⟩
  | value i => exact Refines.some ⟨congrArg _ (hR.value h i), h⟩
  | setValue i v => exact Refines.some ⟨rfl, hR.setValue h i v⟩
  | contained l i => exact (hR.contained h l i).map fun _ _ hb => ⟨congrArg _ hb, h⟩
  | initialiseItem i => exact (hR.initialiseItem h i).map fun _ _ hst => ⟨rfl, hst⟩

section
variable [DecidableEq L] [DecidableEq I]

theorem represents_refines : StoreRefines (Represents (L := L) (I := I)) where
  insertEnd h := h.insertEnd
  insert h := h.insert
  remove h := h.remove
  nextEntry h := h.nextEntry
  headEntry h := h.headEntry
  length h l := h.number l
  isEmpty h l := h.isEmpty l
  value h i := h.value i
  setValue h := h.setValue
  contained h := h.contained
  initialiseItem h := h.initialiseItem
  initialise m a h ls hls := by
    have hvalue : (fun i => m.xItemValue (.item i)) = a.value := funext h
    have hfresh := Represents.initialise m ls hls
    rw [hvalue] at hfresh
    exact hfresh

/-- Whatever legal calls are made, `list.c` answers as lists with a cursor do. -/
theorem runs_initialise (m : Memory L I) (ls : List L) (hls : ∀ l, l ∈ ls) (calls : List (Call L I))
    {replies : List (Reply I)} {a : Lists L I}
    (h : Call.runs (Lists.empty fun i => m.xItemValue (.item i)) calls = some (replies, a)) :
    ∃ m', Call.runs (ls.foldl vListInitialise m) calls = some (replies, m') ∧ Represents m' a := by
  have hruns : Refines (fun x y => x.1 = y.1 ∧ Represents x.2 y.2)
      (Call.runs (ls.foldl vListInitialise m) calls)
      (Call.runs (Lists.empty fun i => m.xItemValue (.item i)) calls) := by
    refine Refines.foldlM ?_ calls ⟨rfl, Represents.initialise m ls hls⟩
    intro p q call hpq
    exact (call.run_refines represents_refines hpq.2).map fun x y hxy =>
      ⟨congrArg₂ _ hxy.1 hpq.1, hxy.2⟩
  obtain ⟨⟨_, m'⟩, hm, rfl, hrep⟩ := hruns _ h
  exact ⟨m', hm, hrep⟩

/-- Two items are entered in the order of their values, and the cursor goes round. -/
theorem runs_initialise_garbage :
    ∃ m', Call.runs (vListInitialise (⟨fun _ => 9, fun _ => .item true, fun _ => .item false,
      fun _ => some (), fun _ => 5, fun _ => .item true⟩ : Memory Unit Bool) ())
        [.initialiseItem true, .contained () true, .setValue true 7, .insert () true,
          .setValue false 3, .insert () false, .nextEntry (), .nextEntry (), .nextEntry (),
          .remove false, .contained () false, .headEntry ()] =
        some ([.owner true, .flag false, .done, .owner false, .owner true, .owner false, .done,
          .done, .done, .done, .flag false, .done], m') := by
  obtain ⟨m', hm, -⟩ := runs_initialise (⟨fun _ => 9, fun _ => .item true, fun _ => .item false,
    fun _ => some (), fun _ => 5, fun _ => .item true⟩ : Memory Unit Bool) [()] (by simp)
    [.initialiseItem true, .contained () true, .setValue true 7, .insert () true,
      .setValue false 3, .insert () false, .nextEntry (), .nextEntry (), .nextEntry (),
      .remove false, .contained () false, .headEntry ()] rfl
  exact ⟨m', hm⟩
end

end RealTime.FreeRtos
