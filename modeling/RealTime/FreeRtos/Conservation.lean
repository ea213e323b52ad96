import RealTime.FreeRtos.ScheduleEffects
import RealTime.FreeRtos.ScheduleSteps
import Mathlib.Algebra.BigOperators.Fin

/-! # No task is lost

Every task that has been created stands in one place of one list. -/

namespace RealTime.FreeRtos

open Wraparound

variable {T : Type} [DecidableEq T] {s₀ s s' : Schedule T} {t u : T}

namespace Schedule

/-- How often a task stands in the lists. -/
def places (s : Schedule T) (t : T) : ℕ :=
  ∑ p, (s.ready p).count t + s.sleeping.count t + s.suspended.count t

structure Tidy (s : Schedule T) : Prop where
  nodup : s.created.Nodup
  once : ∀ t, s.places t = s.created.count t

theorem placed_iff : s.placed t ↔ 0 < s.places t := by
  rw [placed, places, Nat.pos_iff_ne_zero, ne_eq, Nat.add_eq_zero_iff, Nat.add_eq_zero_iff,
    Finset.sum_eq_zero_iff]
  simp only [List.count_eq_zero, Finset.mem_univ, true_imp_iff, not_and_or, not_forall, not_not]
  exact or_assoc.symm

theorem places_enqueue (s : Schedule T) (t u : T) :
    (s.enqueue t).places u = s.places u + [t].count u := by
  have hready (p : Priority) : ((s.enqueue t).ready p).count u =
      (s.ready p).count u + if p = s.priority t then [t].count u else 0 := by
    rw [ready_enqueue]
    split <;> simp [List.count_append]
  have hsum : ∑ p, ((s.enqueue t).ready p).count u =
      ∑ p, (s.ready p).count u + [t].count u := by
    rw [Finset.sum_congr rfl fun p _ => hready p, Finset.sum_add_distrib]
    simp
  simp only [places, hsum]
  simp only [enqueue]
  omega

theorem count_filter_eq (q : T → Bool) (l : List T) (u : T) :
    (l.filter q).count u = if q u then l.count u else 0 := by
  split
  · exact List.count_filter ‹_›
  · exact List.count_eq_zero_of_not_mem fun hu => ‹¬ _› (List.of_mem_filter hu)

/-- A task that wakes is ready at its priority only. -/
theorem places_wake (s : Schedule T) (u : T) : s.wake.places u = s.places u := by
  have hsplit : s.sleeping.count u = (s.sleeping.takeWhile (due s.wakeAt s.now)).count u +
      (s.sleeping.dropWhile (due s.wakeAt s.now)).count u := by
    rw [← List.count_append, List.takeWhile_append_dropWhile]
  have hready (p : Priority) : (s.wake.ready p).count u = (s.ready p).count u +
      if s.priority u = p then (s.sleeping.takeWhile (due s.wakeAt s.now)).count u else 0 := by
    have hfilter := count_filter_eq (fun t => decide (s.priority t = p))
      (s.sleeping.takeWhile (due s.wakeAt s.now)) u
    simp only [decide_eq_true_eq] at hfilter
    rw [← hfilter]
    exact List.count_append
  have hsum : ∑ p, (s.wake.ready p).count u =
      ∑ p, (s.ready p).count u + (s.sleeping.takeWhile (due s.wakeAt s.now)).count u := by
    rw [Finset.sum_congr rfl fun p _ => hready p, Finset.sum_add_distrib]
    simp
  simp only [places, hsum, hsplit]
  simp only [wake]
  omega

theorem places_without (s : Schedule T) (t u : T) :
    (s.without t).places u = if u = t then 0 else s.places u := by
  have hcount (l : List T) : (l.filter (· ≠ t)).count u = if u = t then 0 else l.count u := by
    rw [count_filter_eq]
    by_cases hu : u = t <;> simp [hu]
  simp only [places, without, hcount]
  split <;> simp

theorem places_sleep (s : Schedule T) (t : T) (wakeAt : ℕ) (u : T) :
    (s.sleep t wakeAt).places u = s.places u + [t].count u := by
  have hcount : (s.sleep t wakeAt).sleeping.count u = (t :: s.sleeping).count u :=
    (List.perm_orderedInsert _ t s.sleeping).count_eq u
  rw [← List.singleton_append, List.count_append] at hcount
  simp only [places, hcount]
  simp only [sleep]
  omega

theorem places_dispatch (hs : s.dispatch = some s') (u : T) : s'.places u = s.places u := by
  obtain ⟨p, t, rest, hp, -, rfl⟩ := dispatch_eq hs
  have hready (q : Priority) :
      (Function.update s.ready p (rest ++ [t]) q).count u = (s.ready q).count u := by
    by_cases hq : q = p
    · subst hq
      rw [Function.update_self, hp]
      exact (List.perm_append_singleton t rest).count_eq u
    · rw [Function.update_of_ne hq]
  simp only [places, hready]

namespace Tidy

theorem powerOn (priority : T → Priority) (lastWake : T → ℕ) : (powerOn priority lastWake).Tidy :=
  ⟨List.nodup_nil, fun t => by simp [Schedule.powerOn, places]⟩

theorem places_eq_one (h : s.Tidy) (ht : s.placed t) : s.places t = 1 := by
  have hpos := placed_iff.mp ht
  have hle := List.nodup_iff_count_le_one.mp h.nodup t
  rw [h.once] at hpos ⊢
  omega

/-- A task that is taken out of its place and put into another stands in one. -/
theorem moved (h : s.Tidy) (ht : s.placed t) {s₁ : Schedule T}
    (hplaces : ∀ u, s₁.places u = (s.without t).places u + [t].count u)
    (hcreated : s₁.created = s.created) : s₁.Tidy := by
  refine ⟨hcreated ▸ h.nodup, fun u => ?_⟩
  rw [hplaces, hcreated, places_without, ← h.once]
  by_cases hu : u = t
  · subst hu
    simp [h.places_eq_one ht]
  · rw [if_neg hu, List.count_eq_zero_of_not_mem (by simpa using hu)]
    rfl

theorem introduce (h : s.Tidy) (ht : ¬ s.placed t) (n : ℕ) : (s.introduce t n).Tidy := by
  have hzero : s.created.count t = 0 := by
    rw [← h.once]
    exact Nat.eq_zero_of_not_pos fun hpos => ht (placed_iff.mpr hpos)
  have hplaces (u : T) : (s.introduce t n).places u = s.places u + [t].count u :=
    places_enqueue _ t u
  refine ⟨List.nodup_cons.mpr ⟨List.count_eq_zero.mp hzero, h.nodup⟩, fun u => ?_⟩
  rw [hplaces, h.once, Nat.add_comm, ← List.count_append]
  rfl

/-- No effect loses a task, or puts it in two places. -/
theorem effect {action : Action T} (h : s.Tidy) (he : Effect s₀ action s s') : s'.Tidy := by
  cases he with
  | note | look | late | prioritise => exact ⟨h.nodup, h.once⟩
  | advance ticks => exact ⟨h.nodup, fun u => (places_wake _ u).trans (h.once u)⟩
  | dispatch hs =>
      have hplaces := places_dispatch hs
      obtain ⟨p, t, rest, -, -, rfl⟩ := dispatch_eq hs
      exact ⟨h.nodup, fun u => (hplaces u).trans (h.once u)⟩
  | delay _ hplaced => exact h.moved hplaced (fun u => places_sleep _ _ _ u) rfl
  | delayUntil _ hplaced =>
      exact h.moved hplaced (fun u => places_sleep (s₀.without _) _ (s₀.lastWake _ + _) u) rfl
  | suspend _ hplaced =>
      refine h.moved hplaced (fun u => ?_) rfl
      simp only [places, List.count_append]
      omega
  | resume _ _ ht => exact h.moved (.inr (.inr ht)) (fun u => places_enqueue _ _ u) rfl
  | requeue _ _ _ hready => exact h.moved (.inl ⟨_, hready⟩) (fun u => places_enqueue _ _ u) rfl
  | introduce _ ht n => exact h.introduce ht n

theorem step {action : Action T} (h : s.Tidy) (hs : s.step action = some s') : s'.Tidy :=
  (Effects.of_step hs).keep (fun _ _ he h => h.effect he) h

theorem run (h : s.Tidy) {actions : List (Action T)} (hs : s.run actions = some s') : s'.Tidy :=
  (Transition.Runs.of_foldlM hs).invariant (P := Tidy) (fun _ _ _ h hs => h.step hs) h

theorem roster_perm (h : s.Tidy) :
    ((List.finRange configMAX_PRIORITIES).flatMap s.ready ++ s.sleeping ++ s.suspended).Perm
      s.created := by
  refine List.perm_iff_count.mpr fun t => ?_
  rw [← h.once, places, List.count_append, List.count_append, List.count_flatMap,
    ← Fin.sum_univ_def]
  rfl

end Tidy

end Schedule

/-! ## The lists in memory -/

namespace Schedule

/-- The tasks that a run adds to the lists, in that order. -/
def creations : Schedule T → List (Action T) → List T
  | _, [] => []
  | s, action :: actions =>
    (s.creates action).toList ++
      match s.step action with
      | some s => creations s actions
      | none => []

omit [DecidableEq T] in
/-- While the scheduler runs a task is added where the current one goes on. -/
theorem creates_running {action : Action T} (hrunning : s.running = true)
    (hcreates : s.creates action = some t) : action = .proceed ∧
      ∃ c n, s.current = some c ∧ s.stage c = .create (.addTask t n) := by
  unfold creates at hcreates
  rw [if_pos hrunning] at hcreates
  cases action with
  | proceed =>
      obtain ⟨c, hc, hadds⟩ := Option.bind_eq_some_iff.mp hcreates
      refine ⟨rfl, c, ?_⟩
      cases hstage : s.stage c with
      | create next =>
          cases next with
          | addTask u n =>
              rw [hstage] at hadds
              obtain rfl := Option.some.inj hadds
              exact ⟨n, hc, rfl⟩
          | _ => simp [hstage, Stage.adds] at hadds
      | _ => simp [hstage, Stage.adds] at hadds
  | _ => cases hcreates

/-- No task comes into being but by `xTaskGenericCreate`. -/
theorem created_step {action : Action T} (hs : s.step action = some s') :
    s'.created = (s.creates action).toList ++ s.created := by
  cases hcreates : s.creates action with
  | none =>
      refine (Effects.of_step hs).keep (P := fun u => u.created = s.created) ?_ rfl
      intro u u' he h
      cases he with
      | dispatch hs =>
          obtain ⟨p, t, rest, -, -, rfl⟩ := dispatch_eq hs
          exact h
      | introduce haction => exact absurd (haction.symm.trans hcreates) (by simp)
      | _ => exact h
  | some t =>
      by_cases hrunning : s.running = true
      · obtain ⟨rfl, c, n, hc, hstage⟩ := creates_running hrunning hcreates
        obtain ⟨-, hs⟩ := Option.ite_none_right_eq_some.mp hs
        rw [proceed, hc] at hs
        simp only [Option.bind_eq_bind, Option.bind_some, hstage] at hs
        obtain ⟨s₁, hs₁, hs⟩ := Option.bind_eq_some_iff.mp hs
        obtain ⟨-, rfl⟩ := add_eq hs₁
        obtain ⟨d, -, rfl⟩ := atStage_eq hs
        rfl
      · unfold creates at hcreates
        rw [if_neg hrunning] at hcreates
        cases action with
        | xTaskCreate u n =>
            obtain rfl := Option.some.inj hcreates
            obtain ⟨-, hs⟩ := Option.ite_none_right_eq_some.mp hs
            obtain ⟨-, hs⟩ := (create_eq hs).resolve_left fun hyes => hrunning hyes.1
            obtain ⟨-, rfl⟩ := add_eq hs
            rfl
        | vTaskStartScheduler u =>
            obtain rfl := Option.some.inj hcreates
            obtain ⟨s₁, hs₁, hs⟩ :=
              Option.bind_eq_some_iff.mp (Option.ite_none_right_eq_some.mp hs).2
            obtain rfl := Option.some.inj hs
            obtain ⟨-, rfl⟩ := add_eq hs₁
            rfl
        | _ => cases hcreates

theorem created_run {actions : List (Action T)} (hs : s.run actions = some s') :
    s'.created = (creations s actions).reverse ++ s.created := by
  induction actions generalizing s with
  | nil =>
      obtain rfl := Option.some.inj hs
      rfl
  | cons action actions ih =>
      obtain ⟨s₁, hs₁, hs⟩ := Option.bind_eq_some_iff.mp hs
      simp only [creations, hs₁]
      rw [ih hs, created_step hs₁]
      cases s.creates action <;> simp

end Schedule

namespace Core

variable {k : Kernel (Lists ListId T) T}

omit [DecidableEq T] in
/-- The lists hold the tasks that the schedule holds. -/
theorem items_perm (h : Core k s) : (Kernel.allLists.flatMap fun l => (k.lists.list l).items).Perm
    ((List.finRange configMAX_PRIORITIES).flatMap s.ready ++ s.sleeping ++ s.suspended) := by
  have hready : ((List.finRange configMAX_PRIORITIES).flatMap fun p =>
      (k.lists.list (.pxReadyTasksLists p)).items).Perm
        ((List.finRange configMAX_PRIORITIES).flatMap s.ready) := by
    refine List.Perm.flatMap_left _ fun p _ => ?_
    rw [← h.ready p]
    exact (Cursor.perm_queue _).symm
  have hsleeping : ((k.lists.list .xDelayedTaskList1).items ++
      (k.lists.list .xDelayedTaskList2).items).Perm s.sleeping := by
    rw [← h.sleeping]
    rcases h.delayed with ⟨hd, ho⟩ | ⟨hd, ho⟩ <;> rw [hd, ho]
    exact List.perm_append_comm
  have hsuspended : (k.lists.list .xSuspendedTaskList).items.Perm s.suspended := by
    rw [← h.suspended]
    exact (Cursor.perm_queue _).symm
  have hall : (Kernel.allLists.flatMap fun l => (k.lists.list l).items) =
      ((List.finRange configMAX_PRIORITIES).flatMap fun p =>
        (k.lists.list (.pxReadyTasksLists p)).items) ++
      ((k.lists.list .xDelayedTaskList1).items ++ (k.lists.list .xDelayedTaskList2).items) ++
      (k.lists.list .xSuspendedTaskList).items := by
    rw [Kernel.allLists, List.flatMap_append, List.flatMap_map]
    simp [h.unused]
  rw [hall]
  exact (hready.append hsleeping).append hsuspended

end Core

/-- Once there is a task, the lists in memory are those of the schedule. -/
theorem Follows.agree {k : Kernel (Memory ListId T) T} (h : Follows k s) (hs : s.created ≠ []) :
    ∃ v m a, k = ⟨v, m⟩ ∧ Represents m a ∧ Matches ⟨v, a⟩ s := by
  obtain ⟨k', himplements, hmatches⟩ := h
  cases himplements with
  | off v hcurrent hnumber =>
      have hlength := hmatches.number
      rw [hnumber] at hlength
      exact absurd (List.length_eq_zero_iff.mp hlength.symm) hs
  | on hagree =>
      obtain ⟨v, hrep⟩ := hagree
      exact ⟨v, _, _, rfl, hrep, hmatches⟩

/-- At every moment the lists in memory, with their links both ways and their counts, hold each
task that has been created, once. -/
theorem lists_hold_tasks (m : Memory ListId T) (uxPriority : T → Priority)
    (xPreviousWakeTime : T → PortTickType) (actions : List (Action T)) (created : List T)
    (h : (Schedule.powerOn uxPriority fun t => (xPreviousWakeTime t).toNat).run actions = some s)
    (hcreations : Schedule.creations (.powerOn uxPriority fun t => (xPreviousWakeTime t).toNat)
      actions = created) (hcreated : created ≠ []) :
    ∃ (k : Kernel (Memory ListId T) T) (rings : ListId → List T),
      (Kernel.powerOn m uxPriority xPreviousWakeTime).run actions = some k ∧
      (∀ l, Circle k.lists.pxNext k.lists.pxPrevious (.xListEnd l) ((rings l).map .item)) ∧
      (∀ l, k.lists.uxNumberOfItems l = (rings l).length) ∧
      (∀ l, ∀ t ∈ rings l, k.lists.pvContainer t = some l) ∧
      (Kernel.allLists.flatMap rings).Perm created ∧ created.Nodup ∧
      k.uxCurrentNumberOfTasks = created.length := by
  have htidy := (Schedule.Tidy.powerOn uxPriority fun t => (xPreviousWakeTime t).toNat).run h
  have hlist : s.created = created.reverse := by
    rw [Schedule.created_run h, hcreations]
    exact List.append_nil _
  obtain ⟨k, hk, hfollows, -⟩ := run_powerOn m uxPriority xPreviousWakeTime actions h
  obtain ⟨v, m', a, rfl, hrep, hmatches⟩ := hfollows.agree (by simpa [hlist] using hcreated)
  refine ⟨_, fun l => (a.list l).items, hk, hrep.circle, hrep.number, fun l t ht => ?_, ?_, ?_, ?_⟩
  · exact hrep.container t l ((a.mem_iff l t).mp ht)
  · refine (hmatches.core.items_perm.trans htidy.roster_perm).trans ?_
    rw [hlist]
    exact List.reverse_perm _
  · rw [← List.nodup_reverse, ← hlist]
    exact htidy.nodup
  · rw [← List.length_reverse, ← hlist]
    exact hmatches.number

/-- A task that is created while the scheduler runs sleeps until behind the overflow of the tick
count, two are ready. -/
theorem lists_hold_tasks_stale : ∃ (k : Kernel (Memory ListId (Fin 3)) (Fin 3))
    (rings : ListId → List (Fin 3)),
    (Kernel.powerOn stale (fun _ => 7) fun _ => 3).run
      [.xTaskCreate 1 2, .vTaskStartScheduler 0, .vTick, .xTaskCreate 2 5, .proceed, .proceed,
        .proceed, .proceed, .proceed, .proceed, .vTaskDelay 0xFFFFFFFF, .proceed, .proceed] =
          some k ∧
    (∀ l, Circle k.lists.pxNext k.lists.pxPrevious (.xListEnd l) ((rings l).map .item)) ∧
    (Kernel.allLists.flatMap rings).Perm [1, 0, 2] ∧ k.uxCurrentNumberOfTasks = 3 := by
  have hrun : ((Schedule.powerOn (fun _ => 7) fun t : Fin 3 => (3 : PortTickType).toNat).run
      [.xTaskCreate 1 2, .vTaskStartScheduler 0, .vTick, .xTaskCreate 2 5, .proceed, .proceed,
        .proceed, .proceed, .proceed, .proceed, .vTaskDelay 0xFFFFFFFF, .proceed,
        .proceed]).isSome = true := by decide
  obtain ⟨s, hs⟩ := Option.isSome_iff_exists.mp hrun
  obtain ⟨k, rings, hk, hcircle, -, -, hperm, -, hnumber⟩ :=
    lists_hold_tasks stale (fun _ => 7) (fun _ => 3) _ [1, 0, 2] hs (by decide) (by decide)
  exact ⟨k, rings, hk, hcircle, hperm, hnumber⟩

end RealTime.FreeRtos
