import Mathlib.Data.List.Nodup

/-! # Custody of tokens

Tokens are issued, carried by a thread for a while and then used. Custody says that no
issued token is lost and none is carried or used twice. -/

namespace RealTime.Tokens

variable {T K : Type*} {issued issued' : K → Prop} {carried carried' : T → K → Prop}
  {used : List K} {t : T} {k : K}

structure Custody (issued : K → Prop) (carried : T → K → Prop) (used : List K) : Prop where
  accounted : ∀ k, issued k ↔ k ∈ used ∨ ∃ t, carried t k
  alone : ∀ t u k, carried t k → carried u k → t = u
  unused : ∀ t k, carried t k → k ∉ used
  once : used.Nodup

namespace Custody

theorem congr (h : Custody issued carried used) (hi : ∀ k, issued' k ↔ issued k)
    (hc : ∀ t k, carried' t k ↔ carried t k) : Custody issued' carried' used where
  accounted k := by simp only [hi, hc, h.accounted]
  alone t u k ht hu := h.alone t u k ((hc t k).mp ht) ((hc u k).mp hu)
  unused t k ht := h.unused t k ((hc t k).mp ht)
  once := h.once

/-- A new token is handed to a thread. -/
theorem issue (h : Custody issued carried used) (hk : ¬ issued k)
    (hi : ∀ j, issued' j ↔ issued j ∨ j = k)
    (hc : ∀ u j, carried' u j ↔ carried u j ∨ u = t ∧ j = k) :
    Custody issued' carried' used := by
  have hnew : k ∉ used ∧ ∀ u, ¬ carried u k := by
    simpa only [h.accounted, not_or, not_exists] using hk
  refine ⟨?_, ?_, ?_, h.once⟩
  · intro j
    simp only [hi, hc, h.accounted, exists_or, or_assoc]
    simp
  · intro u v j hu hv
    rw [hc] at hu hv
    rcases hu with hu | ⟨rfl, rfl⟩ <;> rcases hv with hv | ⟨rfl, hj⟩
    · exact h.alone u v j hu hv
    · exact absurd (hj ▸ hu) (hnew.2 u)
    · exact absurd hv (hnew.2 v)
    · rfl
  · intro u j hu
    rw [hc] at hu
    rcases hu with hu | ⟨rfl, rfl⟩
    · exact h.unused u j hu
    · exact hnew.1

/-- A thread uses the token it carries. -/
theorem use (h : Custody issued carried used) (hk : carried t k)
    (hc : ∀ u j, carried' u j ↔ carried u j ∧ ¬ (u = t ∧ j = k)) :
    Custody issued carried' (used ++ [k]) := by
  have hothers : ∀ u, carried' u k → False := fun u hu =>
    ((hc u k).mp hu).2 ⟨h.alone u t k ((hc u k).mp hu).1 hk, rfl⟩
  refine ⟨?_, ?_, ?_, ?_⟩
  · intro j
    rw [h.accounted]
    by_cases hj : j = k
    · subst hj
      simp only [List.mem_append, List.mem_singleton, or_true, true_or, iff_true]
      exact .inr ⟨t, hk⟩
    · simp [hc, hj]
  · exact fun u v j hu hv => h.alone u v j ((hc u j).mp hu).1 ((hc v j).mp hv).1
  · intro u j hu
    have hj : j ≠ k := fun hj => hothers u (hj ▸ hu)
    simpa [hj] using h.unused u j ((hc u j).mp hu).1
  · have hne : ∀ j ∈ used, j ≠ k := by
      rintro j hj rfl
      exact h.unused t j hk hj
    simpa [List.nodup_append, h.once] using hne

/-- Once nobody carries a token, the used ones are the issued ones. -/
theorem mem_used (h : Custody issued carried used) (hc : ∀ t, ¬ carried t k) :
    k ∈ used ↔ issued k := by
  simp [h.accounted, hc]

end Custody

end RealTime.Tokens
