import Mathlib.Data.List.Basic

/-! # Requests and responses in a history

A history is a list of events, the newest at the end. -/

namespace RealTime.History

variable {α : Type*} {a b x : α} {h : List α}

/-- Every `a` in the history is followed by a `b`. -/
def Answered (a b : α) (h : List α) : Prop :=
  ∀ i : ℕ, h[i]? = some a → ∃ j, i < j ∧ h[j]? = some b

theorem answered_nil (a b : α) : Answered a b [] := by
  intro i hi
  simp at hi

/-- A response answers all requests before it. -/
theorem answered_append_response (hab : a ≠ b) (h : List α) : Answered a b (h ++ [b]) := by
  intro i hi
  refine ⟨h.length, ?_, by simp⟩
  by_contra hle
  rcases Nat.lt_or_eq_of_le (Nat.le_of_not_lt hle) with hlt | heq
  · rw [List.getElem?_eq_none (by simpa using Nat.succ_le_of_lt hlt)] at hi
    cases hi
  · subst heq
    have hb : b = a := by simpa using hi
    exact hab hb.symm

/-- A request is not answered when it is made. -/
theorem not_answered_append_request (a b : α) (h : List α) : ¬ Answered a b (h ++ [a]) := by
  intro hans
  have hlast : (h ++ [a])[h.length]? = some a := by simp
  obtain ⟨j, hlt, hj⟩ := hans h.length hlast
  rw [List.getElem?_eq_none (by simpa using Nat.succ_le_of_lt hlt)] at hj
  cases hj

/-- Other events neither ask nor answer. -/
theorem answered_append_other (ha : x ≠ a) (hb : x ≠ b) :
    Answered a b (h ++ [x]) ↔ Answered a b h := by
  have hkeep : ∀ (y : α) (i : ℕ), x ≠ y → ((h ++ [x])[i]? = some y ↔ h[i]? = some y) := by
    intro y i hy
    rcases Nat.lt_trichotomy i h.length with hlt | heq | hgt
    · rw [List.getElem?_append_left hlt]
    · subst heq
      simp [hy]
    · rw [List.getElem?_eq_none (by simpa using Nat.succ_le_of_lt hgt),
        List.getElem?_eq_none (Nat.le_of_lt hgt)]
  unfold Answered
  simp only [hkeep a _ ha, hkeep b _ hb]

end RealTime.History
