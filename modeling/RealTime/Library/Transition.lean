import Mathlib.Data.List.Basic

/-! # Runs of a labelled transition relation

A run is a list of labels taken in order. `Along` is a condition on the label and the
state it is taken from, `Throughout` an observation of each step that is taken. -/

namespace RealTime.Transition

variable {σ ι : Type*} {R : σ → ι → σ → Prop}

/-- The labels `is`, taken in order from `s`, can lead to `t`. -/
inductive Runs (R : σ → ι → σ → Prop) : σ → List ι → σ → Prop where
  | nil (s) : Runs R s [] s
  | cons {s i u is t} : R s i u → Runs R u is t → Runs R s (i :: is) t

/-- Every label meets `c` in each state from which the run takes it. -/
def Along (R : σ → ι → σ → Prop) (c : σ → ι → Prop) : σ → List ι → Prop
  | _, [] => True
  | s, i :: is => c s i ∧ ∀ u, R s i u → Along R c u is

/-- Every label can be taken, with a step that meets `q`. -/
def Throughout (R : σ → ι → σ → Prop) (q : σ → ι → σ → Prop) : σ → List ι → Prop
  | _, [] => True
  | s, i :: is => ∃ u, R s i u ∧ q s i u ∧ Throughout R q u is

theorem Runs.append {s u t : σ} {is js : List ι} (h : Runs R s is u) (k : Runs R u js t) :
    Runs R s (is ++ js) t := by
  induction h with
  | nil => exact k
  | cons hs _ ih => exact .cons hs (ih k)

/-- Executing a step function yields a run of its graph. -/
theorem Runs.of_foldlM {f : σ → ι → Option σ} {s t : σ} {is : List ι}
    (h : is.foldlM f s = some t) : Runs (fun s i t => f s i = some t) s is t := by
  induction is generalizing s with
  | nil =>
      obtain rfl : s = t := by simpa using h
      exact .nil s
  | cons i is ih =>
      obtain ⟨u, hu, hrest⟩ : ∃ u, f s i = some u ∧ is.foldlM f u = some t := by
        simpa [Option.bind_eq_some_iff] using h
      exact .cons hu (ih hrest)

/-- A run can be computed, and the state it ends in tested. -/
theorem Runs.exists_of_foldlM {f : σ → ι → Option σ} {P : σ → Prop} [DecidablePred P] {s : σ}
    {is : List ι} (h : (is.foldlM f s).any (fun t => decide (P t)) = true) :
    ∃ t, Runs (fun s i t => f s i = some t) s is t ∧ P t := by
  obtain ⟨t, ht, hP⟩ := (Option.any_eq_true _ _).mp h
  exact ⟨t, Runs.of_foldlM ht, of_decide_eq_true hP⟩

/-- A run put together from `n` stages, each reaching the start of the next. -/
theorem Runs.exists_of_stages {P : ℕ → σ → Prop} {n : ℕ} {s : σ} (hs : P 0 s)
    (hstage : ∀ k < n, ∀ s, P k s → ∃ is t, Runs R s is t ∧ P (k + 1) t) :
    ∃ is t, Runs R s is t ∧ P n t := by
  induction n with
  | zero => exact ⟨[], s, .nil s, hs⟩
  | succ n ih =>
      obtain ⟨is, u, hrun, hu⟩ := ih fun k hk => hstage k (Nat.lt_succ_of_lt hk)
      obtain ⟨js, t, hmore, ht⟩ := hstage n (Nat.lt_succ_self n) u hu
      exact ⟨is ++ js, t, hrun.append hmore, ht⟩

/-- What every step preserves, every run preserves. -/
theorem Runs.invariant {P : σ → Prop} (hstep : ∀ s i u, P s → R s i u → P u)
    {s t : σ} {is : List ι} (h : Runs R s is t) (hs : P s) : P t := by
  induction h with
  | nil => exact hs
  | cons hr _ ih => exact ih (hstep _ _ _ hs hr)

/-- If `P` is kept by every label, taken from a state of `P`, then all labels can be
taken and lead to a state of `P`. -/
theorem Runs.exists_of_invariant {P : σ → Prop} (hstep : ∀ s i, P s → ∃ t, R s i t ∧ P t)
    {s : σ} (hs : P s) (is : List ι) : ∃ t, Runs R s is t ∧ P t := by
  induction is generalizing s with
  | nil => exact ⟨s, .nil s, hs⟩
  | cons i is ih =>
      obtain ⟨u, hr, hu⟩ := hstep s i hs
      obtain ⟨t, hrun, ht⟩ := ih hu
      exact ⟨t, .cons hr hrun, ht⟩

/-- What the steps meeting `c` preserve, a run whose labels all meet `c` preserves. -/
theorem Runs.invariant_of_along {P : σ → Prop} {c : σ → ι → Prop}
    (hstep : ∀ s i u, P s → c s i → R s i u → P u)
    {s t : σ} {is : List ι} (h : Runs R s is t) (hc : Along R c s is) (hs : P s) : P t := by
  induction h with
  | nil => exact hs
  | cons hr _ ih => exact ih (hc.2 _ hr) (hstep _ _ _ hs hc.1 hr)

theorem Along.of_forall {c : σ → ι → Prop} (h : ∀ s i, c s i) (s : σ) (is : List ι) :
    Along R c s is := by
  induction is generalizing s with
  | nil => trivial
  | cons i is ih => exact ⟨h s i, fun u _ => ih u⟩

/-- A condition along the run of a step function can be evaluated. -/
instance Along.decidable {f : σ → ι → Option σ} {c : σ → ι → Prop} [∀ s i, Decidable (c s i)] :
    ∀ (s : σ) (is : List ι), Decidable (Along (fun s i t => f s i = some t) c s is)
  | _, [] => isTrue trivial
  | s, i :: is =>
    match h : f s i with
    | none => decidable_of_iff (c s i) ⟨fun hc => ⟨hc, fun u hu => by simp [h] at hu⟩, And.left⟩
    | some u =>
      have : Decidable (Along (fun s i t => f s i = some t) c u is) := decidable u is
      decidable_of_iff (c s i ∧ Along (fun s i t => f s i = some t) c u is)
        ⟨fun hc => ⟨hc.1, fun v hv => Option.some.inj (h.symm.trans hv) ▸ hc.2⟩,
          fun hc => ⟨hc.1, hc.2 u h⟩⟩

/-- Exactness of a step condition: if the legal labels that meet `ok` keep `P` and are
observed as `q`, and those that do not are never observed as `q`, then a legal run is
observed as `q` throughout exactly when all its labels meet `ok`. -/
theorem throughout_iff_along {P : σ → Prop} {legal ok : σ → ι → Prop} {q : σ → ι → σ → Prop}
    (hdet : ∀ s i u v, R s i u → R s i v → u = v)
    (hgood : ∀ s i, P s → legal s i → ok s i → ∃ u, R s i u ∧ P u ∧ q s i u)
    (hbad : ∀ s i u, P s → legal s i → ¬ ok s i → R s i u → ¬ q s i u)
    {s : σ} {is : List ι} (hs : P s) (hl : Along R legal s is) :
    Throughout R q s is ↔ Along R ok s is := by
  induction is generalizing s with
  | nil => simp [Throughout, Along]
  | cons i is ih =>
      constructor
      · rintro ⟨u, hr, hq, hrest⟩
        have hok : ok s i := by
          by_contra hn
          exact hbad s i u hs hl.1 hn hr hq
        refine ⟨hok, ?_⟩
        intro v hv
        obtain ⟨w, hw, hpw, _⟩ := hgood s i hs hl.1 hok
        have hvw : v = w := hdet s i v w hv hw
        have hvu : v = u := hdet s i v u hv hr
        subst hvw
        exact (ih hpw (hl.2 v hv)).mp (hvu ▸ hrest)
      · rintro ⟨hok, hrest⟩
        obtain ⟨u, hr, hpu, hq⟩ := hgood s i hs hl.1 hok
        exact ⟨u, hr, hq, (ih hpu (hl.2 u hr)).mpr (hrest u hr)⟩

end RealTime.Transition
