import Mathlib.Tactic.IntervalCases
import RealTime.Library.Locks
import RealTime.PriorityCeiling.Model

/-! # Deadlock at the ceiling

While `l` has its ceiling priority, or no mutex at all, the two tasks never meet inside their
sections and nobody waits. Between the acquire and the raise `l` can be overtaken. -/

namespace RealTime.PriorityCeiling

open Transition Locks

/-! ## What the bodies say -/

/-- Whether `m` is held after some calls. -/
def heldAfter (calls : List Call) (m : Mutex) : Bool :=
  calls.foldl
    (fun held c => if c = .acquire m then true else if c = .release m then false else held) false

/-- At this place of its body the task has acquired `m` and not released it since. -/
def Held (t : Task) (pc : ℕ) (m : Mutex) : Prop := heldAfter ((body t).take pc) m = true

instance (t : Task) (pc : ℕ) (m : Mutex) : Decidable (Held t pc m) :=
  inferInstanceAs (Decidable (_ = true))

variable {s u : State} {t : Task} {c : Call} {m : Mutex} {pc : ℕ}

theorem held_succ (h : (body t)[pc]? = some c) :
    Held t (pc + 1) m ↔ c = .acquire m ∨ c ≠ .release m ∧ Held t pc m := by
  have htake : (body t).take (pc + 1) = (body t).take pc ++ [c] := by
    rw [List.take_add_one, h]
    rfl
  by_cases hacquire : c = .acquire m
  · simp [Held, heldAfter, htake, hacquire]
  · by_cases hrelease : c = .release m
    · simp [Held, heldAfter, htake, hrelease]
    · simp [Held, heldAfter, htake, hacquire, hrelease]

theorem held_l (hpc : pc ≤ 16) (h : Held .l pc m) : 1 ≤ pc ∧ pc ≤ 11 := by
  revert h
  cases m <;> interval_cases pc <;> decide

theorem held_h (hpc : pc ≤ 16) (h : Held .h pc m) : 3 ≤ pc ∧ pc ≤ 12 := by
  revert h
  cases m <;> interval_cases pc <;> decide

/-- Between its first acquire and the raise of its priority `l` holds `A` only. -/
theorem held_l_window (hpc : pc = 1 ∨ pc = 2) : Held .l pc m ↔ m = .A := by
  obtain rfl | rfl := hpc <;> cases m <;> decide

theorem length_body (t : Task) : (body t).length = 16 := by
  cases t <;> rfl

theorem pc_lt_of_call (h : (body t)[pc]? = some c) : pc < 16 := by
  have hlt := (List.getElem?_eq_some_iff.mp h).1
  rwa [length_body] at hlt

/-- No task acquires what it holds. -/
theorem not_held_of_acquire (h : (body t)[pc]? = some (.acquire m)) : ¬ Held t pc m := by
  have hlt := pc_lt_of_call h
  revert h
  cases t <;> cases m <;> interval_cases pc <;> decide

/-- No task releases what it does not hold. -/
theorem held_of_release (h : (body t)[pc]? = some (.release m)) : Held t pc m := by
  have hlt := pc_lt_of_call h
  revert h
  cases t <;> cases m <;> interval_cases pc <;> decide

theorem call_l (h : (body .l)[pc]? = some c) :
    c ≠ .sleep ∧ (pc = 2 ∧ c = .setPriority A_PRIO ∨ pc = 13 ∧ c = .setPriority 1 ∨
      pc ≠ 2 ∧ pc ≠ 13 ∧ ∀ prio, c ≠ .setPriority prio) := by
  have hlt := pc_lt_of_call h
  interval_cases pc <;> obtain rfl := Option.some.inj h <;> simp

theorem call_h (h : (body .h)[pc]? = some c) :
    (c = .sleep ↔ pc = 0) ∧ ∀ prio, c ≠ .setPriority prio := by
  have hlt := pc_lt_of_call h
  interval_cases pc <;> obtain rfl := Option.some.inj h <;> simp

/-! ## The invariant -/

/-- Nobody waits. `l` has its ceiling priority from place 3 to place 13. Once `h` has
started with its section, `l` is before or behind its own. -/
structure Inv (s : State) : Prop where
  inBody : ∀ t, s.pc t ≤ 16
  owners : Agrees s.owner fun t m => Held t (s.pc t) m
  nobodyWaits : ∀ t m, s.status t ≠ .waiting m
  baseL : s.base .l = if 3 ≤ s.pc .l ∧ s.pc .l ≤ 13 then A_PRIO else 1
  baseH : s.base .h = 2
  readyL : s.status .l = .ready
  asleep : s.status .h = .sleeping → s.pc .h = 1
  start : s.pc .h = 0 → s.pc .l = 0
  woken : s.status .h = .ready → s.pc .h = 1 → s.pc .l ≠ 1 ∧ s.pc .l ≠ 2
  through : 2 ≤ s.pc .h → s.pc .h < 16 → s.pc .l = 0 ∨ 14 ≤ s.pc .l

theorem inv_init : Inv init where
  inBody t := Nat.zero_le _
  owners t m := by cases t <;> cases m <;> decide
  nobodyWaits t m := Status.noConfusion
  baseL := rfl
  baseH := rfl
  readyL := rfl
  asleep := Status.noConfusion
  start _ := rfl
  woken _ h := absurd h (by decide)
  through h := absurd h (by decide)

theorem Inv.priority_eq (hi : Inv s) (t : Task) : s.priority t = s.base t := by
  have hnone : s.inherited t = 0 := by
    unfold State.inherited
    split
    · rename_i m hm
      exact absurd hm (hi.nobodyWaits _ _)
    · rfl
  rw [State.priority, hnone, Nat.max_zero]

/-- Nobody waits, so a task that is not asleep is ready until it has ended. -/
theorem Inv.ready_h (hi : Inv s) (hne : s.status .h ≠ .sleeping) (hlt : s.pc .h < 16) :
    s.Ready .h := by
  refine ⟨?_, hlt⟩
  cases hs : s.status .h with
  | ready => rfl
  | sleeping => exact absurd hs hne
  | waiting m => exact absurd hs (hi.nobodyWaits .h m)

/-- `l` has the CPU while `h` sleeps or has ended, or at its ceiling priority. -/
theorem Inv.running_l (hi : Inv s) (hr : s.Running .l) :
    (s.pc .h = 1 ∨ s.pc .h = 16) ∧
      (s.status .h = .ready → s.pc .h = 1 → 3 ≤ s.pc .l ∧ s.pc .l ≤ 13) := by
  have hceiling : s.status .h ≠ .sleeping → s.pc .h < 16 → 3 ≤ s.pc .l ∧ s.pc .l ≤ 13 := by
    intro hne hlt
    have hle := hr.2 (hi.ready_h hne hlt)
    rw [show Task.l.other = .h from rfl, hi.priority_eq, hi.priority_eq, hi.baseH,
      hi.baseL] at hle
    by_contra hlow
    rw [if_neg hlow] at hle
    omega
  have hbody := hi.inBody .h
  refine ⟨?_, fun hs hpc => hceiling (by simp [hs]) (by omega)⟩
  by_cases hsleep : s.status .h = .sleeping
  · exact .inl (hi.asleep hsleep)
  · have hmid := hceiling hsleep
    have hstart := hi.start
    have hthrough := hi.through
    omega

/-- `h` has the CPU only while `l` is before or behind its section. -/
theorem Inv.running_h (hi : Inv s) (hr : s.Running .h) : s.pc .l = 0 ∨ 14 ≤ s.pc .l := by
  have hlow : s.pc .l < 16 → ¬ (3 ≤ s.pc .l ∧ s.pc .l ≤ 13) := by
    intro hlt hmid
    have hle := hr.2 ⟨hi.readyL, hlt⟩
    rw [show Task.h.other = .l from rfl, hi.priority_eq, hi.priority_eq, hi.baseH, hi.baseL,
      if_pos hmid] at hle
    exact absurd hle (by decide)
  have hbody := hi.inBody .l
  have hlt : s.pc .h < 16 := hr.1.2
  have hstart := hi.start
  have hwoken := hi.woken hr.1.1
  have hthrough := hi.through
  omega

/-- The task that has the CPU is the only one that holds anything. -/
theorem Inv.other_holds_nothing (hi : Inv s) (hr : s.Running t) (m : Mutex) :
    ¬ Held t.other (s.pc t.other) m := by
  intro hheld
  cases t with
  | l =>
      have hrange := held_h (hi.inBody .h) hheld
      have hpc := (hi.running_l hr).1
      omega
  | h =>
      have hrange := held_l (hi.inBody .l) hheld
      have hpc := hi.running_h hr
      omega

/-! ## One call -/

/-- What a call does while nobody waits and every acquire finds its mutex free. -/
structure Executed (s : State) (t : Task) (c : Call) (u : State) : Prop where
  pc : u.pc = Function.update s.pc t (s.pc t + 1)
  base : u.base = match c with
    | .setPriority prio => Function.update s.base t prio
    | _ => s.base
  status : u.status = match c with
    | .sleep => Function.update s.status t .sleeping
    | _ => s.status
  owners : Agrees u.owner fun t m => Held t (u.pc t) m

theorem Executed.base_eq (he : Executed s t c u) (hset : ∀ prio, c ≠ .setPriority prio) :
    u.base = s.base := by
  rw [he.base]
  cases c <;> first | rfl | exact absurd rfl (hset _)

theorem Executed.status_eq (he : Executed s t c u) (hsleep : c ≠ .sleep) :
    u.status = s.status := by
  rw [he.status]
  cases c <;> first | rfl | exact absurd rfl hsleep

/-- After the call the places of the tasks say who holds what. -/
theorem held_advance (hc : (body t)[s.pc t]? = some c) (v : Task) (m : Mutex) :
    Held v (Function.update s.pc t (s.pc t + 1) v) m ↔
      (v = t ∧ c = .acquire m) ∨ Held v (s.pc v) m ∧ ¬ (v = t ∧ c = .release m) := by
  by_cases hv : v = t
  · subst hv
    rw [Function.update_self, held_succ hc]
    by_cases hacquire : c = .acquire m
    · simp [hacquire]
    · simp [hacquire, and_comm]
  · simp [hv]

theorem Inv.executed (hi : Inv s) (hr : s.Running t) (hc : (body t)[s.pc t]? = some c) :
    Executed s t c (s.exec t c) := by
  have hheld := held_advance hc
  have hkeep : (∀ m, c ≠ .acquire m) → (∀ m, c ≠ .release m) →
      Agrees s.owner fun v m => Held v (Function.update s.pc t (s.pc t + 1) v) m := by
    intro hacquire hrelease
    refine hi.owners.congr fun v m => ?_
    simp [hheld, hacquire, hrelease]
  cases c with
  | acquire m =>
      have hfree : s.owner m = none := by
        cases howner : s.owner m with
        | none => rfl
        | some v =>
            have hv := (hi.owners v m).mp howner
            by_cases hvt : v = t
            · exact absurd (hvt ▸ hv) (not_held_of_acquire hc)
            · have hother : v = t.other := by cases v <;> cases t <;> simp_all [Task.other]
              exact absurd (hother ▸ hv) (hi.other_holds_nothing hr m)
      rw [State.exec, if_pos hfree]
      refine ⟨rfl, rfl, rfl, hi.owners.acquire hfree fun v k => ?_⟩
      have hvk := hheld v k
      simp only [State.advance, State.setOwner]
      rw [hvk]
      simp [or_comm, eq_comm]
  | release m =>
      rw [State.exec, if_neg (hi.nobodyWaits _ _)]
      refine ⟨rfl, rfl, rfl, hi.owners.release (held_of_release hc) fun v k => ?_⟩
      have hvk := hheld v k
      simp only [State.advance, State.setOwner]
      rw [hvk]
      simp [eq_comm]
  | setPriority prio => exact ⟨rfl, rfl, rfl, hkeep (by simp) (by simp)⟩
  | busyWait => exact ⟨rfl, rfl, rfl, hkeep (by simp) (by simp)⟩
  | sleep => exact ⟨rfl, rfl, rfl, hkeep (by simp) (by simp)⟩
  | printf => exact ⟨rfl, rfl, rfl, hkeep (by simp) (by simp)⟩

theorem Inv.call_l (hi : Inv s) (hr : s.Running .l) (hc : (body .l)[s.pc .l]? = some c)
    (he : Executed s .l c u) : Inv u := by
  obtain ⟨hsleep, hplace⟩ := PriorityCeiling.call_l hc
  obtain ⟨hpch, hmid⟩ := hi.running_l hr
  have hlt := pc_lt_of_call hc
  have hpcl' : u.pc .l = s.pc .l + 1 := by rw [he.pc, Function.update_self]
  have hpch' : u.pc .h = s.pc .h := by rw [he.pc, Function.update_of_ne (by decide)]
  have hstatus := he.status_eq hsleep
  have hbaseh : u.base .h = s.base .h := by
    rw [he.base]
    cases c <;> simp
  refine ⟨?_, he.owners, hstatus ▸ hi.nobodyWaits, ?_, hbaseh.trans hi.baseH,
    hstatus ▸ hi.readyL, ?_, ?_, ?_, ?_⟩
  · intro v
    cases v with
    | l => omega
    | h => exact hpch' ▸ hi.inBody .h
  · rw [hpcl']
    rcases hplace with ⟨hpc, rfl⟩ | ⟨hpc, rfl⟩ | ⟨htwo, hthirteen, hset⟩
    · simp [he.base, hpc]
    · simp [he.base, hpc]
    · rw [he.base_eq hset, hi.baseL]
      exact if_congr (by omega) rfl rfl
  · rw [hstatus, hpch']
    exact hi.asleep
  · omega
  · rw [hstatus, hpcl', hpch']
    intro hs hpc
    have := hmid hs hpc
    omega
  · omega

theorem Inv.call_h (hi : Inv s) (hr : s.Running .h) (hc : (body .h)[s.pc .h]? = some c)
    (he : Executed s .h c u) : Inv u := by
  obtain ⟨hsleep, hset⟩ := PriorityCeiling.call_h hc
  have hpcl := hi.running_h hr
  have hlt := pc_lt_of_call hc
  have hpcl' : u.pc .l = s.pc .l := by rw [he.pc, Function.update_of_ne (by decide)]
  have hpch' : u.pc .h = s.pc .h + 1 := by rw [he.pc, Function.update_self]
  have hbase := he.base_eq hset
  have hstatusl : u.status .l = s.status .l := by
    rw [he.status]
    cases c <;> simp
  have hstatush : u.status .h = if c = .sleep then .sleeping else .ready := by
    rw [he.status]
    cases c <;> simp [hr.1.1]
  refine ⟨?_, he.owners, ?_, by rw [hbase, hpcl', hi.baseL], by rw [hbase, hi.baseH],
    hstatusl.trans hi.readyL, ?_, ?_, ?_, ?_⟩
  · intro v
    cases v with
    | l => exact hpcl' ▸ hi.inBody .l
    | h => omega
  · intro v m
    cases v with
    | l => simp [hstatusl, hi.readyL]
    | h =>
        rw [hstatush]
        split <;> simp
  · intro hs
    rw [hstatush] at hs
    split at hs
    · rename_i hcall
      rw [hpch', hsleep.mp hcall]
    · cases hs
  · omega
  · intro hs hpc
    -- `h` is at place 1 only behind its sleep, and then it is not awake yet
    have hcall : c = .sleep := hsleep.mpr (by omega)
    rw [hstatush, if_pos hcall] at hs
    cases hs
  · omega

theorem Inv.wake (hi : Inv s) (hs : s.status t = .sleeping)
    (hwindow : OutsideWindow s (.wake t)) : Inv (s.setStatus t .ready) := by
  cases t with
  | l => rw [hi.readyL] at hs; cases hs
  | h =>
      have hpc := hi.asleep hs
      have hout : s.pc .l ≠ 1 ∧ s.pc .l ≠ 2 := by
        by_contra hin
        have hheld := (held_l_window (show s.pc .l = 1 ∨ s.pc .l = 2 by omega)).mpr rfl
        have hbase := hwindow ((hi.owners .l .A).mpr hheld)
        rw [hi.baseL, if_neg (by omega)] at hbase
        exact absurd hbase (by decide)
      refine ⟨hi.inBody, hi.owners, ?_, hi.baseL, hi.baseH, ?_, ?_, hi.start, fun _ _ => hout,
        hi.through⟩
      · intro v m
        cases v with
        | l => simp [State.setStatus, hi.readyL]
        | h => simp [State.setStatus]
      · simpa [State.setStatus] using hi.readyL
      · simp [State.setStatus]

theorem Inv.step {e : Event} (hi : Inv s) (hwindow : OutsideWindow s e) (hstep : Step s e u) :
    Inv u := by
  unfold Step PriorityCeiling.step at hstep
  cases e with
  | call t =>
      obtain ⟨c, hc, hexec⟩ := Option.bind_eq_some_iff.mp hstep
      split at hexec
      · rename_i hr
        obtain rfl := Option.some.inj hexec
        cases t with
        | l => exact hi.call_l hr hc (hi.executed hr hc)
        | h => exact hi.call_h hr hc (hi.executed hr hc)
      · cases hexec
  | spin t =>
      simp only at hstep
      split at hstep
      · exact Option.some.inj hstep ▸ hi
      · cases hstep
  | wake t =>
      simp only at hstep
      split at hstep
      · rename_i hs
        exact Option.some.inj hstep ▸ hi.wake hs hwindow
      · cases hstep

theorem Inv.not_deadlock (hi : Inv s) : ¬ Deadlock s := by
  intro hdead
  exact hi.nobodyWaits .l .B hdead.2.1

/-! ## In the window -/

/-- `h` sleeps, and `l` holds `A` at its old priority, at place `k`. -/
def inWindow (k : ℕ) : State where
  pc
    | .l => k
    | .h => 1
  base := init.base
  status
    | .l => .ready
    | .h => .sleeping
  owner
    | .A => some .l
    | .B => none

/-- A wake that is not outside the window finds one of two states. -/
theorem Inv.eq_inWindow (hi : Inv s) (hs : s.status .h = .sleeping)
    (hwindow : ¬ OutsideWindow s (.wake .h)) : s = inWindow 1 ∨ s = inWindow 2 := by
  obtain ⟨howner, hlow⟩ : s.owner .A = some .l ∧ s.base .l ≠ A_PRIO :=
    Classical.not_imp.mp hwindow
  have hrange := held_l (hi.inBody .l) ((hi.owners .l .A).mp howner)
  have hout : ¬ (3 ≤ s.pc .l ∧ s.pc .l ≤ 13) := fun hmid => hlow (hi.baseL.trans (if_pos hmid))
  have hbase : s.base .l = 1 := hi.baseL.trans (if_neg hout)
  have hpcl : s.pc .l = 1 ∨ s.pc .l = 2 := by omega
  have hpch := hi.asleep hs
  have hB : s.owner .B = none := by
    cases hv : s.owner .B with
    | none => rfl
    | some v =>
        have hheld := (hi.owners v .B).mp hv
        cases v with
        | l => exact absurd ((held_l_window hpcl).mp hheld) (by decide)
        | h =>
            have := held_h (hi.inBody .h) hheld
            omega
  have heq : ∀ k, s.pc .l = k → s = inWindow k := by
    intro k hk
    obtain ⟨pc, base, status, owner⟩ := s
    simp only [inWindow, State.mk.injEq]
    refine ⟨?_, ?_, ?_, ?_⟩
    · funext v
      cases v with
      | l => exact hk
      | h => exact hpch
    · funext v
      cases v with
      | l => exact hbase
      | h => exact hi.baseH
    · funext v
      cases v with
      | l => exact hi.readyL
      | h => exact hs
    · funext m
      cases m with
      | A => exact howner
      | B => exact hB
  exact hpcl.imp (heq 1) (heq 2)

/-- From the wake on: `h` overtakes `l`, takes `B` and waits for `A`; `l` goes on and waits
for `B`. -/
theorem Inv.deadlock_of_window (hi : Inv s) (hs : s.status .h = .sleeping)
    (hwindow : ¬ OutsideWindow s (.wake .h)) :
    ∃ events u, Runs Step s (.wake .h :: events) u ∧ Deadlock u := by
  cases hi.eq_inWindow hs hwindow with
  | inl h =>
      subst h
      refine ⟨List.replicate 6 (.call .h) ++ List.replicate 5 (.call .l), ?_⟩
      exact Runs.exists_of_foldlM (by decide)
  | inr h =>
      subst h
      refine ⟨List.replicate 6 (.call .h) ++ List.replicate 4 (.call .l), ?_⟩
      exact Runs.exists_of_foldlM (by decide)

/-! ## All runs -/

/-- In a run in which no sleep ends while `l` holds `A` below the ceiling there is no
deadlock, for waits of any length. From each of its states, a sleep that does end there can
lead to one. -/
theorem deadlock_free_along {events : List Event} (hruns : Runs Step init events s)
    (hwindow : Along Step OutsideWindow init events) :
    ¬ Deadlock s ∧ (s.status .h = .sleeping → ¬ OutsideWindow s (.wake .h) →
      ∃ more u, Runs Step s (.wake .h :: more) u ∧ Deadlock u) := by
  have hi : Inv s :=
    hruns.invariant_of_along (fun _ _ _ hi hc hstep => hi.step hc hstep) hwindow inv_init
  exact ⟨hi.not_deadlock, hi.deadlock_of_window⟩

/-- `h` wakes up while `l` waits at its ceiling priority. -/
theorem deadlock_free_along_of_late_wake :
    ∃ s, Runs Step init [.call .h, .call .l, .call .l, .call .l, .spin .l, .wake .h, .call .l] s ∧
      ¬ Deadlock s ∧ (s.status .h = .sleeping → ¬ OutsideWindow s (.wake .h) →
        ∃ more u, Runs Step s (.wake .h :: more) u ∧ Deadlock u) := by
  obtain ⟨s, hruns, -⟩ : ∃ s, Runs Step init [.call .h, .call .l, .call .l, .call .l, .spin .l,
      .wake .h, .call .l] s ∧ s.pc .l = 4 := Runs.exists_of_foldlM (by decide)
  have hwindow : Along (fun s e t => PriorityCeiling.step s e = some t) OutsideWindow init
      [.call .h, .call .l, .call .l, .call .l, .spin .l, .wake .h, .call .l] := by decide
  exact ⟨s, hruns, deadlock_free_along hruns hwindow⟩

/-- `h` wakes up between the acquire of `A` and the raise of the priority. -/
theorem early_wake_deadlocks :
    ∃ s, Runs Step init [.call .h, .call .l, .wake .h, .call .h, .call .h, .call .h, .call .h,
        .call .h, .call .h, .call .l, .call .l, .call .l, .call .l, .call .l] s ∧
      Deadlock s :=
  Runs.exists_of_foldlM (by decide)

end RealTime.PriorityCeiling
