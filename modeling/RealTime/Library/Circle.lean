import Mathlib.Data.List.Chain
import Mathlib.Data.List.Nodup

/-! # Doubly linked circles

Nodes linked both ways in a circle through a marker. `next` and `prev` are whatever reads
the two pointers of a node. An edit is stated by what it makes the two pointers of every
node, so that the order of the writes does not matter. -/

namespace RealTime

variable {P : Type*}

/-- `a` is followed by `b`. -/
def Link (next prev : P → P) (a b : P) : Prop := next a = b ∧ prev b = a

/-- The circle that leads from `marker` over the nodes `xs` back to `marker`. -/
structure Circle (next prev : P → P) (marker : P) (xs : List P) : Prop where
  nodup : (marker :: xs).Nodup
  linked : (marker :: xs ++ [marker]).IsChain (Link next prev)

namespace Circle

variable {next prev next' prev' : P → P} {marker p q x : P} {xs ys zs as bs : List P}

/-- The node before the place between `ys` and `zs`. -/
def last (marker : P) (ys : List P) : P := (marker :: ys).getLast (List.cons_ne_nil _ _)

/-- The node behind that place. -/
def first (marker : P) (zs : List P) : P := (zs ++ [marker]).head (by simp)

@[simp] theorem last_nil (marker : P) : last marker [] = marker := rfl

@[simp] theorem last_concat (marker : P) (ys : List P) (x : P) : last marker (ys ++ [x]) = x := by
  simp [last]

theorem last_eq (marker : P) (ys : List P) : last marker ys = ys.getLast?.getD marker := by
  refine Option.some.inj ?_
  rw [← List.getLast?_cons]
  exact (List.getLast?_eq_some_getLast _).symm

@[simp] theorem first_nil (marker : P) : first marker [] = marker := rfl

@[simp] theorem first_cons (marker : P) (x : P) (zs : List P) : first marker (x :: zs) = x := rfl

theorem last_mem (marker : P) (ys : List P) : last marker ys ∈ marker :: ys :=
  List.getLast_mem _

theorem first_mem (marker : P) (zs : List P) : first marker zs ∈ marker :: zs := by
  have hmem : first marker zs ∈ zs ++ [marker] := List.head_mem _
  simpa [or_comm] using hmem

/-- The circle cut open at a place. -/
theorem isChain_iff {R : P → P → Prop} (marker : P) (ys zs : List P) :
    (marker :: (ys ++ zs) ++ [marker]).IsChain R ↔
      (marker :: ys).IsChain R ∧ (zs ++ [marker]).IsChain R ∧
        R (last marker ys) (first marker zs) := by
  have hsplit : marker :: (ys ++ zs) ++ [marker] = (marker :: ys) ++ (zs ++ [marker]) := by simp
  have hlast : (marker :: ys).getLast? = some (last marker ys) := List.getLast?_eq_some_getLast _
  have hfirst : (zs ++ [marker]).head? = some (first marker zs) := List.head?_eq_some_head _
  rw [hsplit, List.isChain_append, hlast, hfirst]
  simp

/-- The part behind the place, with another node in front. -/
theorem isChain_cons_iff {R : P → P → Prop} (marker x : P) (zs : List P) :
    (x :: zs ++ [marker]).IsChain R ↔ R x (first marker zs) ∧ (zs ++ [marker]).IsChain R := by
  have hfirst : (zs ++ [marker]).head? = some (first marker zs) := List.head?_eq_some_head _
  rw [List.cons_append, List.isChain_cons, hfirst]
  simp

theorem link (h : Circle next prev marker (ys ++ zs)) :
    Link next prev (last marker ys) (first marker zs) :=
  ((isChain_iff marker ys zs).mp h.linked).2.2

theorem next_last (h : Circle next prev marker (ys ++ zs)) :
    next (last marker ys) = first marker zs := h.link.1

theorem prev_first (h : Circle next prev marker (ys ++ zs)) :
    prev (first marker zs) = last marker ys := h.link.2

theorem frame (h : Circle next prev marker xs) (hnext : ∀ a ∈ marker :: xs, next' a = next a)
    (hprev : ∀ a ∈ marker :: xs, prev' a = prev a) : Circle next' prev' marker xs := by
  refine ⟨h.nodup, h.linked.imp_of_mem_imp ?_⟩
  intro a b ha hb hab
  constructor
  · rw [hnext a (by simpa [or_comm, or_assoc] using ha), hab.1]
  · rw [hprev b (by simpa [or_comm, or_assoc] using hb), hab.2]

/-! ## The two edits -/

/-- A part that is entered neither from `p` nor at `q` is kept. -/
theorem keep {l : List P} (hnext : ∀ a ∈ l, a ≠ p → next' a = next a)
    (hprev : ∀ b ∈ l, b ≠ q → prev' b = prev b) (hp : next p ∉ l.tail) (hq : q ∉ l.tail)
    (h : l.IsChain (Link next prev)) : l.IsChain (Link next' prev') := by
  refine h.imp_of_mem_tail_imp ?_
  intro a b ha hb hab
  have hap : a ≠ p := fun he => hp (he ▸ hab.1 ▸ hb)
  have hbq : b ≠ q := fun he => hq (he ▸ hb)
  exact ⟨(hnext a ha hap).trans hab.1, (hprev b (List.mem_of_mem_tail hb) hbq).trans hab.2⟩

theorem first_notMem_front (h : (marker :: (ys ++ zs)).Nodup) : first marker zs ∉ ys := by
  intro hmem
  have hmarker := (List.nodup_cons.mp h).1
  have hdisjoint := List.disjoint_of_nodup_append (List.nodup_cons.mp h).2
  rcases List.mem_cons.mp (first_mem marker zs) with heq | hzs
  · exact hmarker (List.mem_append_left _ (heq ▸ hmem))
  · exact hdisjoint hmem hzs

theorem first_notMem_tail (h : (marker :: (ys ++ zs)).Nodup) :
    first marker zs ∉ (zs ++ [marker]).tail := by
  have hback : first marker zs :: (zs ++ [marker]).tail = zs ++ [marker] := List.cons_head_tail _
  have hnodup : (zs ++ [marker]).Nodup := by
    rw [List.nodup_append_comm]
    exact h.sublist (List.cons_sublist_cons.mpr (List.sublist_append_right ys zs))
  rw [← hback] at hnodup
  exact (List.nodup_cons.mp hnodup).1

theorem mem_front (zs : List P) (ha : x ∈ marker :: ys) : x ∈ marker :: (ys ++ zs) :=
  (List.sublist_append_left (marker :: ys) zs).subset ha

theorem mem_back (ys : List P) (ha : x ∈ zs ++ [marker]) : x ∈ marker :: (ys ++ zs) := by
  have ha' : x ∈ zs ∨ x = marker := by simpa using ha
  rcases ha' with hzs | rfl
  · exact List.mem_cons_of_mem _ (List.mem_append_right _ hzs)
  · exact List.mem_cons_self

theorem perm_middle (marker x : P) (ys zs : List P) :
    (marker :: (ys ++ x :: zs)).Perm (x :: marker :: (ys ++ zs)) :=
  (List.perm_middle.cons marker).trans (List.Perm.swap _ _ _)

/-- A node is linked in between `ys` and `zs`. -/
theorem insert (h : Circle next prev marker (ys ++ zs)) (hx : x ∉ marker :: (ys ++ zs))
    (hlast : next' (last marker ys) = x) (hnew : next' x = first marker zs)
    (hnext : ∀ a, a ≠ last marker ys → a ≠ x → next' a = next a)
    (hfirst : prev' (first marker zs) = x) (hold : prev' x = last marker ys)
    (hprev : ∀ b, b ≠ first marker zs → b ≠ x → prev' b = prev b) :
    Circle next' prev' marker (ys ++ x :: zs) := by
  obtain ⟨hys, hzs, hlink⟩ := (isChain_iff marker ys zs).mp h.linked
  have hne : ∀ a ∈ marker :: (ys ++ zs), a ≠ x := fun a ha he => hx (he ▸ ha)
  have hcut : next (last marker ys) = first marker zs := hlink.1
  refine ⟨(perm_middle marker x ys zs).nodup_iff.mpr (List.nodup_cons.mpr ⟨hx, h.nodup⟩), ?_⟩
  rw [isChain_iff, isChain_cons_iff]
  refine ⟨?_, ⟨⟨hnew, hfirst⟩, ?_⟩, hlast, hold⟩
  · have hq := first_notMem_front h.nodup
    exact keep (fun a ha hap => hnext a hap (hne a (mem_front zs ha)))
      (fun b hb hbq => hprev b hbq (hne b (mem_front zs hb))) (hcut ▸ hq) hq hys
  · have hq := first_notMem_tail h.nodup
    exact keep (fun a ha hap => hnext a hap (hne a (mem_back ys ha)))
      (fun b hb hbq => hprev b hbq (hne b (mem_back ys hb))) (hcut ▸ hq) hq hzs

/-- The node between `ys` and `zs` is taken out. -/
theorem remove (h : Circle next prev marker (ys ++ x :: zs))
    (hlast : next' (last marker ys) = first marker zs)
    (hnext : ∀ a, a ≠ last marker ys → next' a = next a)
    (hfirst : prev' (first marker zs) = last marker ys)
    (hprev : ∀ b, b ≠ first marker zs → prev' b = prev b) :
    Circle next' prev' marker (ys ++ zs) := by
  obtain ⟨hys, hrest, hlink⟩ := (isChain_iff marker ys (x :: zs)).mp h.linked
  obtain ⟨-, hzs⟩ := (isChain_cons_iff marker x zs).mp hrest
  obtain ⟨hx, hnodup⟩ := List.nodup_cons.mp ((perm_middle marker x ys zs).nodup_iff.mp h.nodup)
  have hcut : next (last marker ys) = x := hlink.1
  refine ⟨hnodup, (isChain_iff marker ys zs).mpr ⟨?_, ?_, hlast, hfirst⟩⟩
  · exact keep (fun a _ => hnext a) (fun b _ => hprev b)
      (hcut ▸ fun hmem => hx (mem_front zs (List.mem_of_mem_tail hmem)))
      (first_notMem_front hnodup) hys
  · exact keep (fun a _ => hnext a) (fun b _ => hprev b)
      (hcut ▸ fun hmem => hx (mem_back ys (List.mem_of_mem_tail hmem)))
      (first_notMem_tail hnodup) hzs

end Circle

end RealTime
