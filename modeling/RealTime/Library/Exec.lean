import Mathlib.Init

/-! # Running programs with a state and errors

One statement after the other, each with its result. -/

namespace RealTime.Exec

variable {σ ε α β : Type} {x : StateT σ (Except ε) α} {f : α → StateT σ (Except ε) β}
  {s s' : σ} {a : α} {e : ε}

@[simp]
theorem ok_bind (a : α) (g : α → Except ε β) : (Except.ok a >>= g) = g a := rfl

theorem run_bind (h : x.run s = .ok (a, s')) : (x >>= f).run s = (f a).run s' := by
  rw [StateT.run_bind, h, ok_bind]

theorem run_bind_error (h : x.run s = .error e) : (x >>= f).run s = .error e := by
  simp only [StateT.run_bind, h]
  rfl

theorem get_run (s : σ) : (get : StateT σ (Except ε) σ).run s = .ok (s, s) := rfl

theorem of_run_bind {b : β} {t : σ} (h : (x >>= f).run s = .ok (b, t)) :
    ∃ a u, x.run s = .ok (a, u) ∧ (f a).run u = .ok (b, t) := by
  cases hx : x.run s with
  | ok p => exact ⟨p.1, p.2, rfl, (run_bind hx).symm.trans h⟩
  | error e => cases (run_bind_error hx).symm.trans h

/-! ## Invariants -/

/-- Started in a state of `I`, the program can only return in a state of `I`. -/
def Keeps (I : σ → Prop) (x : StateT σ (Except ε) α) : Prop :=
  ∀ s a t, I s → x.run s = .ok (a, t) → I t

namespace Keeps

variable {I : σ → Prop}

theorem pure (a : α) : Keeps I (pure a : StateT σ (Except ε) α) := by
  intro s b t hs hrun
  cases hrun
  exact hs

theorem get : Keeps I (get : StateT σ (Except ε) σ) := by
  intro s b t hs hrun
  cases hrun
  exact hs

theorem throw (e : ε) : Keeps I (throw e : StateT σ (Except ε) α) := by
  intro s b t _ hrun
  cases hrun

theorem modify {g : σ → σ} (hg : ∀ s, I s → I (g s)) :
    Keeps I (modify g : StateT σ (Except ε) PUnit) := by
  intro s b t hs hrun
  cases hrun
  exact hg s hs

theorem bind (hx : Keeps I x) (hf : ∀ a, Keeps I (f a)) : Keeps I (x >>= f) := by
  intro s b t hs hrun
  obtain ⟨a, u, ha, hb⟩ := of_run_bind hrun
  exact hf a u b t (hx s a u hs ha) hb

theorem ite {c : Prop} [Decidable c] {y : StateT σ (Except ε) α} (hx : Keeps I x)
    (hy : Keeps I y) : Keeps I (if c then x else y) := by
  split
  · exact hx
  · exact hy

end Keeps

end RealTime.Exec
