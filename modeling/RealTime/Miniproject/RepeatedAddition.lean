import Mathlib.Algebra.BigOperators.Group.List.Basic
import Mathlib.Algebra.Ring.Int.Defs
import RealTime.Miniproject.Timespec

/-! # Adding to a time again and again

`nag_task` of the I/O test adds half a second to its wake-up time in each round, and
`PIController` its period; `timespec_add_us` is the same in `miniproject.c` and in both
`iotest.c`. The carry is taken when the nanoseconds exceed `10^9`, not when they reach it. -/

namespace RealTime.Miniproject

/-- One call of `timespec_add_us` after the other. -/
def addAll (start : Timespec) (calls : List ℤ) : Timespec := calls.foldl timespecAddUs start

/-- After each call the time is the start and the sum of what was added, in the normal form
that `clock_nanosleep` asks for; before the carry the nanoseconds fit a 32-bit `long`. -/
structure StaysNormalised (start : Timespec) (calls : List ℤ) : Prop where
  exact : ∀ k ≤ calls.length,
    (addAll start (calls.take k)).toNs = start.toNs + (calls.take k).sum * 1000
  normalised : ∀ k ≤ calls.length, 0 ≤ (addAll start (calls.take k)).tvNsec ∧
    (addAll start (calls.take k)).tvNsec < 1000000000
  inLong : ∀ k us, calls[k]? = some us →
    (addAll start (calls.take k)).tvNsec + us * 1000 ≤ 2 ^ 31 - 1

/-- No call that adds something ends on a whole second. -/
def MissesWholeSeconds (start : Timespec) (calls : List ℤ) : Prop :=
  ∀ k us, calls[k]? = some us → 0 < us →
    ¬ 1000000000 ∣ start.toNs + (calls.take (k + 1)).sum * 1000

/-! ## One call -/

section
variable {t start : Timespec} {us : ℤ} {calls : List ℤ} {k : ℕ}

/-- The nanoseconds go out of normal form exactly when the sum is a whole second. -/
theorem timespecAddUs_nsec_lt_iff (hlow : 0 ≤ t.tvNsec) (hhigh : t.tvNsec < 1000000000)
    (hus : 0 ≤ us) (hmax : us ≤ 500000) :
    (timespecAddUs t us).tvNsec < 1000000000 ↔
      (0 < us → ¬ 1000000000 ∣ (timespecAddUs t us).toNs) := by
  rw [toNs_timespecAddUs]
  unfold timespecAddUs Timespec.toNs
  simp only
  split <;> simp only <;> omega

theorem timespecAddUs_nsec_range (ht : 0 ≤ t.tvNsec ∧ t.tvNsec ≤ 1000000000)
    (hus : 0 ≤ us ∧ us ≤ 500000) :
    0 ≤ (timespecAddUs t us).tvNsec ∧ (timespecAddUs t us).tvNsec ≤ 1000000000 := by
  unfold timespecAddUs
  simp only
  split <;> simp only <;> omega

/-! ## All calls -/

theorem addAll_take_succ (hk : calls[k]? = some us) :
    addAll start (calls.take (k + 1)) = timespecAddUs (addAll start (calls.take k)) us := by
  simp [addAll, List.take_add_one, hk]

/-- The time is exact whether or not it is in normal form. -/
theorem toNs_addAll (start : Timespec) (calls : List ℤ) :
    (addAll start calls).toNs = start.toNs + calls.sum * 1000 := by
  induction calls generalizing start with
  | nil => simp [addAll]
  | cons us calls ih =>
      have hrest := ih (timespecAddUs start us)
      rw [toNs_timespecAddUs] at hrest
      have hfirst : addAll start (us :: calls) = addAll (timespecAddUs start us) calls := rfl
      rw [hfirst, List.sum_cons]
      omega

/-- The nanoseconds never leave `[0, 10^9]`. -/
theorem addAll_nsec (start : ClockReading) (hcalls : ∀ us ∈ calls, 0 ≤ us ∧ us ≤ 500000)
    (k : ℕ) : 0 ≤ (addAll start.toTimespec (calls.take k)).tvNsec ∧
      (addAll start.toTimespec (calls.take k)).tvNsec ≤ 1000000000 := by
  induction k with
  | zero => exact ⟨start.nsec_nonneg, Int.le_of_lt start.nsec_lt⟩
  | succ k ih =>
      cases hk : calls[k]? with
      | none =>
          have hlen := List.getElem?_eq_none_iff.mp hk
          rw [List.take_of_length_le (by omega)] at ih ⊢
          exact ih
      | some us =>
          rw [addAll_take_succ hk]
          exact timespecAddUs_nsec_range ih (hcalls us (List.mem_of_getElem? hk))

/-- The call that follows `k` calls keeps the normal form exactly when it misses the whole
second. -/
theorem nsec_lt_iff (hstart : 0 ≤ (addAll start (calls.take k)).tvNsec ∧
      (addAll start (calls.take k)).tvNsec < 1000000000)
    (hk : calls[k]? = some us) (hus : 0 ≤ us ∧ us ≤ 500000) :
    (addAll start (calls.take (k + 1))).tvNsec < 1000000000 ↔
      (0 < us → ¬ 1000000000 ∣ start.toNs + (calls.take (k + 1)).sum * 1000) := by
  rw [← toNs_addAll, addAll_take_succ hk]
  exact timespecAddUs_nsec_lt_iff hstart.1 hstart.2 hus.1 hus.2

end

/-- From every clock reading, and for every sequence of additions of up to half a second,
the time stays exact and in normal form exactly when no addition ends on a whole second. -/
theorem staysNormalised_iff (start : ClockReading) (calls : List ℤ)
    (hcalls : ∀ us ∈ calls, 0 ≤ us ∧ us ≤ 500000) :
    StaysNormalised start.toTimespec calls ↔ MissesWholeSeconds start.toTimespec calls := by
  have hbounds := addAll_nsec start hcalls
  constructor
  · intro hstays k us hk
    have hlt := (List.getElem?_eq_some_iff.mp hk).1
    have hus := hcalls us (List.mem_of_getElem? hk)
    have hnow := hstays.normalised k (Nat.le_of_lt hlt)
    exact (nsec_lt_iff hnow hk hus).mp (hstays.normalised (k + 1) hlt).2
  · intro hmisses
    refine ⟨fun k _ => toNs_addAll _ _, ?_, ?_⟩
    · intro k
      induction k with
      | zero => exact fun _ => ⟨start.nsec_nonneg, start.nsec_lt⟩
      | succ k ih =>
          intro hlt
          have hk : calls[k]? = some calls[k] := List.getElem?_eq_getElem (by omega)
          have hus := hcalls calls[k] (List.getElem_mem _)
          refine ⟨(hbounds (k + 1)).1, ?_⟩
          exact (nsec_lt_iff (ih (by omega)) hk hus).mpr (hmisses k _ hk)
    · intro k us hk
      have hus := hcalls us (List.mem_of_getElem? hk)
      have hnow := (hbounds k).2
      omega

/-- Two rounds of `nag_task` from a reading with a nanosecond past the second. -/
theorem staysNormalised_iff_of_two_rounds :
    StaysNormalised ⟨7, 1⟩ [500000, 500000] ↔ MissesWholeSeconds ⟨7, 1⟩ [500000, 500000] :=
  staysNormalised_iff ⟨⟨7, 1⟩, by decide, by decide⟩ [500000, 500000] (by decide)

/-- Two rounds of `nag_task` from a whole second leave `10^9` nanoseconds. -/
theorem nag_task_not_normalised :
    addAll ⟨7, 0⟩ [500000, 500000] = ⟨7, 1000000000⟩ ∧
      ¬ StaysNormalised ⟨7, 0⟩ [500000, 500000] := by
  have htwo : addAll ⟨7, 0⟩ [500000, 500000] = ⟨7, 1000000000⟩ := by decide
  refine ⟨htwo, fun hstays => ?_⟩
  have hnow := (hstays.normalised 2 (Nat.le_refl _)).2
  exact absurd hnow (by decide)

end RealTime.Miniproject
