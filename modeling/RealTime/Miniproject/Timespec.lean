import Mathlib.Data.Int.Notation

/-! # The time values of `miniproject.c`

A timespec need not be in normal form: `timespec_add_us` may leave exactly `10^9`
nanoseconds. The three operations are exact all the same on the values that occur. -/

namespace RealTime.Miniproject

/-- `struct timespec`. -/
structure Timespec where
  tvSec : ℤ
  tvNsec : ℤ
deriving DecidableEq, Repr

/-- A reading of the real-time clock is in normal form. -/
structure ClockReading extends Timespec where
  nsec_nonneg : 0 ≤ tvNsec
  nsec_lt : tvNsec < 1000000000

/-- The macro `timercmp` with `>` as its last argument. -/
def timercmpGt (a b : Timespec) : Bool :=
  if a.tvSec = b.tvSec then a.tvNsec > b.tvNsec else a.tvSec > b.tvSec

def timespecAddUs (t : Timespec) (us : ℤ) : Timespec :=
  let nsec := t.tvNsec + us * 1000
  if nsec > 1000000000 then ⟨t.tvSec + 1, nsec - 1000000000⟩ else ⟨t.tvSec, nsec⟩

/-- The timespec that `clock_nanosleep` hands to `nanosleep` when the clock reads `now`. -/
def clockNanosleep (next now : Timespec) : Timespec :=
  let sec := next.tvSec - now.tvSec
  let nsec := next.tvNsec - now.tvNsec
  if nsec < 0 then ⟨sec - 1, nsec + 1000000000⟩ else ⟨sec, nsec⟩

/-! ## Instants and durations -/

/-- The nanoseconds that a timespec denotes. -/
def Timespec.toNs (t : Timespec) : ℤ := t.tvSec * 1000000000 + t.tvNsec

/-- What `nanosleep` accepts. -/
def Timespec.Valid (t : Timespec) : Prop :=
  0 ≤ t.tvSec ∧ 0 ≤ t.tvNsec ∧ t.tvNsec < 1000000000

variable {a b t next : Timespec} {us : ℤ}

theorem toNs_timespecAddUs (t : Timespec) (us : ℤ) :
    (timespecAddUs t us).toNs = t.toNs + us * 1000 := by
  unfold timespecAddUs Timespec.toNs
  simp only
  split <;> simp only <;> omega

/-- The nanoseconds after an addition are never 0, and may be `10^9`. -/
theorem timespecAddUs_nsec (hlow : 0 ≤ t.tvNsec) (hhigh : t.tvNsec ≤ 1000000000)
    (hpos : 0 < us) (hus : us ≤ 1000000) :
    0 < (timespecAddUs t us).tvNsec ∧ (timespecAddUs t us).tvNsec ≤ 1000000000 := by
  unfold timespecAddUs
  simp only
  split <;> simp only <;> omega

example : timespecAddUs ⟨7, 998000000⟩ 2000 = ⟨7, 1000000000⟩ := by decide

/-- The comparison is right as long as the nanoseconds lie in `(0, 10^9]` on the left and
in `[0, 10^9]` on the right. -/
theorem timercmpGt_iff (ha : 0 < a.tvNsec) (ha' : a.tvNsec ≤ 1000000000) (hb : 0 ≤ b.tvNsec)
    (hb' : b.tvNsec ≤ 1000000000) : timercmpGt a b = true ↔ b.toNs < a.toNs := by
  unfold timercmpGt Timespec.toNs
  split <;> simp only [gt_iff_lt, decide_eq_true_eq] <;> omega

theorem toNs_clockNanosleep (next now : Timespec) :
    (clockNanosleep next now).toNs = next.toNs - now.toNs := by
  unfold clockNanosleep Timespec.toNs
  simp only
  split <;> simp only <;> omega

/-- A positive duration of less than a second is handed over in normal form. -/
theorem valid_clockNanosleep (hnext : 0 ≤ next.tvNsec) (hnext' : next.tvNsec ≤ 1000000000)
    (c : ClockReading) (hpos : c.toNs < next.toNs) (hlt : next.toNs < c.toNs + 1000000000) :
    (clockNanosleep next c.toTimespec).Valid := by
  have hlow := c.nsec_nonneg
  have hhigh := c.nsec_lt
  unfold Timespec.toNs at hpos hlt
  unfold clockNanosleep Timespec.Valid
  simp only
  split <;> simp only <;> omega

end RealTime.Miniproject
