import Mathlib.Data.Option.Basic

/-! # Refinement of partial computations

The concrete computation succeeds whenever the abstract one does, with a related result. -/

namespace RealTime

variable {α β γ δ ι : Type} {R : α → β → Prop} {S : γ → δ → Prop}

def Refines (R : α → β → Prop) (x : Option α) (y : Option β) : Prop :=
  ∀ b, y = some b → ∃ a, x = some a ∧ R a b

namespace Refines

variable {x x' : Option α} {y y' : Option β} {a : α} {b : β}

theorem some (h : R a b) : Refines R (some a) (some b) := by
  intro b' hb
  obtain rfl := Option.some.inj hb
  exact ⟨a, rfl, h⟩

theorem none (x : Option α) : Refines R x none := by
  intro b hb
  cases hb

theorem mono {R' : α → β → Prop} (h : Refines R x y) (hR : ∀ a b, R a b → R' a b) :
    Refines R' x y := by
  intro b hb
  obtain ⟨a, ha, hab⟩ := h b hb
  exact ⟨a, ha, hR a b hab⟩

theorem bind {f : α → Option γ} {g : β → Option δ} (h : Refines R x y)
    (hfg : ∀ a b, R a b → Refines S (f a) (g b)) : Refines S (x >>= f) (y >>= g) := by
  intro d hd
  obtain ⟨b, hb, hgb⟩ := Option.bind_eq_some_iff.mp hd
  obtain ⟨a, rfl, hab⟩ := h b hb
  exact hfg a b hab d hgb

theorem map {f : α → γ} {g : β → δ} (h : Refines R x y) (hfg : ∀ a b, R a b → S (f a) (g b)) :
    Refines S (x.map f) (y.map g) := by
  intro d hd
  obtain ⟨b, hb, rfl⟩ := Option.map_eq_some_iff.mp hd
  obtain ⟨a, rfl, hab⟩ := h b hb
  exact ⟨f a, rfl, hfg a b hab⟩

theorem ite_iff {c d : Prop} [Decidable c] [Decidable d] (hcd : c ↔ d) (h : Refines R x y)
    (h' : Refines R x' y') : Refines R (if c then x else x') (if d then y else y') := by
  by_cases hc : c
  · rw [if_pos hc, if_pos (hcd.mp hc)]
    exact h
  · rw [if_neg hc, if_neg fun hd => hc (hcd.mpr hd)]
    exact h'

theorem ite {c : Prop} [Decidable c] (h : Refines R x y) (h' : Refines R x' y') :
    Refines R (if c then x else x') (if c then y else y') :=
  ite_iff Iff.rfl h h'

/-- Steps that refine each other make runs that do. -/
theorem foldlM {f : α → ι → Option α} {g : β → ι → Option β}
    (hstep : ∀ a b i, R a b → Refines R (f a i) (g b i)) (is : List ι) (h : R a b) :
    Refines R (is.foldlM f a) (is.foldlM g b) := by
  induction is generalizing a b with
  | nil => exact some h
  | cons i is ih => exact bind (hstep a b i h) fun a' b' hab => ih hab

end Refines

end RealTime
