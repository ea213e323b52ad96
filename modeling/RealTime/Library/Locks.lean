import Mathlib.Logic.Function.Basic

/-! # Mutex ownership and what threads hold

`held t m` says, from the control position of thread `t` alone, that `t` has locked `m`
and not unlocked it since. A lock protocol is sound as long as this agrees with the
recorded owners. -/

namespace RealTime.Locks

variable {T M : Type*} {owner : M → Option T} {held held' : T → M → Prop}

def Agrees (owner : M → Option T) (held : T → M → Prop) : Prop :=
  ∀ t m, owner m = some t ↔ held t m

/-- No mutex is held by two threads. -/
theorem Agrees.exclusive (h : Agrees owner held) {t u : T} {m : M} (ht : held t m)
    (hu : held u m) : t = u :=
  Option.some.inj (((h t m).mpr ht).symm.trans ((h u m).mpr hu))

theorem Agrees.congr (h : Agrees owner held) (hh : ∀ t m, held' t m ↔ held t m) :
    Agrees owner held' :=
  fun t m => (h t m).trans (hh t m).symm

variable [DecidableEq M]

/-- Locking a free mutex. -/
theorem Agrees.acquire (h : Agrees owner held) {t : T} {m : M} (hm : owner m = none)
    (hh : ∀ u k, held' u k ↔ held u k ∨ u = t ∧ k = m) :
    Agrees (Function.update owner m (some t)) held' := by
  intro u k
  rw [hh, Function.update_apply]
  by_cases hk : k = m
  · subst hk
    have hfree : ¬ held u k := fun hu => by simp [(h u k).mpr hu] at hm
    simp [hfree, eq_comm]
  · simp [hk, h u k]

/-- Unlocking a mutex by the thread that holds it. -/
theorem Agrees.release (h : Agrees owner held) {t : T} {m : M} (hm : held t m)
    (hh : ∀ u k, held' u k ↔ held u k ∧ ¬ (u = t ∧ k = m)) :
    Agrees (Function.update owner m none) held' := by
  intro u k
  rw [hh, Function.update_apply]
  by_cases hk : k = m
  · subst hk
    have hu : held u k → u = t := fun hu => h.exclusive hu hm
    simpa using hu
  · simp [hk, h u k]

end RealTime.Locks
