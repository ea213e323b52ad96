import Mathlib.Data.List.Sort
import Mathlib.Order.Basic

/-! # Lists sorted by a key

Elements of one key stay in the order in which they came. -/

namespace RealTime

variable {α κ : Type*} [LinearOrder κ] {key : α → κ} {l : List α} {a x : α} {k : κ}

/-! ## Insertion -/

section
variable {r r' : α → α → Prop} [DecidableRel r] [DecidableRel r']

theorem orderedInsert_congr (h : ∀ b ∈ l, r x b ↔ r' x b) :
    l.orderedInsert r x = l.orderedInsert r' x := by
  induction l with
  | nil => rfl
  | cons b l ih =>
      rw [List.orderedInsert_cons, List.orderedInsert_cons, ih fun c hc => h c (.tail _ hc)]
      simp only [h b List.mem_cons_self]

/-- In front of everything. -/
theorem orderedInsert_first (h : ∀ b ∈ l, r x b) : l.orderedInsert r x = x :: l := by
  cases l with
  | nil => rfl
  | cons b l => rw [List.orderedInsert_cons, if_pos (h b List.mem_cons_self)]

/-- Behind everything. -/
theorem orderedInsert_last (h : ∀ b ∈ l, ¬ r x b) : l.orderedInsert r x = l ++ [x] := by
  induction l with
  | nil => rfl
  | cons b l ih =>
      rw [List.orderedInsert_cons, if_neg (h b List.mem_cons_self),
        ih fun c hc => h c (.tail _ hc), List.cons_append]
end

/-- Nothing in the list has an earlier key than what stands before it. -/
def SortedByKey (key : α → κ) (l : List α) : Prop := l.Pairwise fun a b => key a ≤ key b

namespace SortedByKey

/-- A new element goes behind those of its key. -/
theorem orderedInsert (h : SortedByKey key l) (x : α) :
    SortedByKey key (l.orderedInsert (fun a b => key a < key b) x) := by
  induction l with
  | nil => exact List.pairwise_singleton _ _
  | cons b l ih =>
      obtain ⟨hb, hl⟩ := List.pairwise_cons.mp h
      rw [List.orderedInsert_cons]
      split
      · rename_i hx
        refine List.pairwise_cons.mpr ⟨fun c hc => ?_, h⟩
        rcases List.mem_cons.mp hc with rfl | hc
        · exact hx.le
        · exact hx.le.trans (hb c hc)
      · rename_i hx
        refine List.pairwise_cons.mpr ⟨fun c hc => ?_, ih hl⟩
        rcases List.mem_orderedInsert _ |>.mp hc with rfl | hc
        · exact not_lt.mp hx
        · exact hb c hc

theorem filter (h : SortedByKey key l) (p : α → Bool) : SortedByKey key (l.filter p) :=
  List.Pairwise.filter p h

theorem dropWhile (h : SortedByKey key l) (p : α → Bool) : SortedByKey key (l.dropWhile p) :=
  h.sublist (List.dropWhile_sublist p)

theorem congr {key' : α → κ} (h : SortedByKey key l) (heq : ∀ a ∈ l, key' a = key a) :
    SortedByKey key' l :=
  List.Pairwise.imp_of_mem (fun ha hb hab => by rwa [heq _ ha, heq _ hb]) h

/-- Behind the elements up to a key all are later. -/
theorem lt_of_mem_dropWhile (h : SortedByKey key l)
    (hx : x ∈ l.dropWhile fun a => key a ≤ k) : k < key x := by
  induction l with
  | nil => simp at hx
  | cons b l ih =>
      obtain ⟨hb, hl⟩ := List.pairwise_cons.mp h
      rw [List.dropWhile_cons] at hx
      split at hx
      · exact ih hl hx
      · rename_i hk
        have hk : k < key b := by simpa using hk
        rcases List.mem_cons.mp hx with rfl | hx
        · exact hk
        · exact hk.trans_le (hb x hx)

/-- What is up to one key, and then up to a later one. -/
theorem takeWhile_append {m : κ} (hkm : k ≤ m) (l : List α) :
    l.takeWhile (fun a => key a ≤ k) ++
      (l.dropWhile fun a => key a ≤ k).takeWhile (fun a => key a ≤ m) =
        l.takeWhile fun a => key a ≤ m := by
  induction l with
  | nil => rfl
  | cons b l ih =>
      by_cases hb : key b ≤ k
      · simpa [hb, hb.trans hkm] using ih
      · simp [hb]

theorem dropWhile_dropWhile {m : κ} (hkm : k ≤ m) (l : List α) :
    (l.dropWhile fun a => key a ≤ k).dropWhile (fun a => key a ≤ m) =
      l.dropWhile fun a => key a ≤ m := by
  induction l with
  | nil => rfl
  | cons b l ih =>
      by_cases hb : key b ≤ k
      · simpa [hb, hb.trans hkm] using ih
      · simp [hb]

end SortedByKey

end RealTime
