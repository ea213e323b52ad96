import RealTime.FreeRtos.Conservation

/-! # Who gets the processor

The task that runs is of the highest priority, and those of one priority take turns. -/

namespace RealTime.FreeRtos

variable {T : Type} [DecidableEq T] {k : Kernel (Memory ListId T) T} {s₀ s s' : Schedule T}
  {t u : T}

namespace Reached

theorem tidy (h : Reached k s) : s.Tidy := by
  obtain ⟨m, uxPriority, xPreviousWakeTime, actions, -, hs⟩ := h
  exact (Schedule.Tidy.powerOn _ _).run hs

/-- What the memory holds once there is a current task. -/
theorem agree (h : Reached k s) (hs : s.current ≠ none) :
    ∃ v m a, k = ⟨v, m⟩ ∧ Represents m a ∧ Matches ⟨v, a⟩ s :=
  h.follows.agree fun hnil => hs (h.good.created.mp hnil)

theorem currentTCB (h : Reached k s) : k.pxCurrentTCB = s.current := by
  obtain ⟨k', hk', hcore⟩ := h.follows.core
  rw [hk', hcore.current]

theorem uxPriority (h : Reached k s) : k.uxPriority = s.priority := by
  obtain ⟨k', hk', hcore⟩ := h.follows.core
  rw [hk', hcore.priority]

theorem switchedIn (h : Reached k s) : k.switchedIn = s.switchedIn := by
  obtain ⟨k', hk', hcore⟩ := h.follows.core
  rw [hk', hcore.switchedIn]

theorem tickCount (h : Reached k s) : k.xTickCount = Wraparound.shown 32 s.now := by
  obtain ⟨k', hk', hcore⟩ := h.follows.core
  rw [hk', hcore.tickCount]

theorem previousWakeTime (h : Reached k s) (t : T) :
    k.xPreviousWakeTime t = Wraparound.shown 32 (s.lastWake t) := by
  obtain ⟨k', hk', hcore⟩ := h.follows.core
  rw [hk', hcore.lastWake]

theorem schedulerSuspended (h : Reached k s) :
    k.uxSchedulerSuspended = if s.held then 1 else 0 := by
  obtain ⟨k', himplements, hmatches⟩ := h.follows
  rw [himplements.toVariables_eq, hmatches.held]

theorem ownCode_iff (h : Reached k s) : k.ownCode ↔ s.ownCode := by
  obtain ⟨k', himplements, hmatches⟩ := h.follows
  rw [himplements.toVariables_eq, hmatches.ownCode_iff]

theorem agree_of_placed (h : Reached k s) (ht : s.placed t) :
    ∃ v m a, k = ⟨v, m⟩ ∧ Represents m a ∧ Matches ⟨v, a⟩ s :=
  h.agree fun hnone => (h.good.fresh hnone).1 t ht

/-- A ready task finds its list in its item. -/
theorem container_ready (h : Reached k s) {p : Priority} (ht : t ∈ s.ready p) :
    k.lists.pvContainer t = some (.pxReadyTasksLists p) := by
  obtain ⟨v, m, a, rfl, hrep, hmatches⟩ := h.agree_of_placed (.inl ⟨p, ht⟩)
  exact hrep.container t _ ((hmatches.core.mem_ready p).mp ht)

theorem container_sleeping (h : Reached k s) (ht : t ∈ s.sleeping) :
    k.lists.pvContainer t = some k.pxDelayedTaskList ∨
      k.lists.pvContainer t = some k.pxOverflowDelayedTaskList := by
  obtain ⟨v, m, a, rfl, hrep, hmatches⟩ := h.agree_of_placed (.inr (.inl ht))
  exact (hmatches.core.mem_sleeping.mp ht).imp (hrep.container t _) (hrep.container t _)

theorem number_ready (h : Reached k s) (hs : s.current ≠ none) (p : Priority) :
    k.lists.uxNumberOfItems (.pxReadyTasksLists p) = (s.ready p).length := by
  obtain ⟨v, m, a, rfl, hrep, hmatches⟩ := h.agree hs
  rw [← hmatches.core.ready, (Cursor.perm_queue _).length_eq]
  exact hrep.number _

end Reached

namespace Schedule

theorem idxOf_filter_le {l : List T} {q : T → Bool} (hq : q t) :
    (l.filter q).idxOf t ≤ l.idxOf t := by
  induction l with
  | nil => rfl
  | cons u l ih =>
      by_cases hut : u = t
      · subst hut
        simp [hq]
      · rw [List.idxOf_cons_ne _ hut]
        by_cases hu : q u
        · rw [List.filter_cons_of_pos hu, List.idxOf_cons_ne _ hut]
          exact Nat.succ_le_succ ih
        · rw [List.filter_cons_of_neg hu]
          exact ih.trans (Nat.le_succ _)

/-- A ready task of priority `p` waits for the processor. -/
structure Waits (s : Schedule T) (t : T) (p : Priority) : Prop where
  other : s.current ≠ some t
  priority : s.priority t = p
  ready : t ∈ s.ready p

/-- Since the log was `log` the task has had its turn, or it still waits, behind fewer tasks by
the turns that others of its priority have had. -/
def InTurn (s : Schedule T) (t : T) (p : Priority) (n : ℕ) (log : List (T × Priority)) : Prop :=
  ∃ new, s.switchedIn = new ++ log ∧ ((∃ q, (t, q) ∈ new) ∨
    s.Waits t p ∧ (new.filter (·.2 = p)).length + (s.ready p).idxOf t ≤ n)

/-- The task is not suspended, and keeps its priority. -/
def Spares (t : T) (action : Action T) : Prop :=
  action ≠ .vTaskSuspend (some t) ∧ ∀ n, action ≠ .vTaskPrioritySet (some t) n

variable {p : Priority} {n : ℕ} {action : Action T}

theorem switchedIn_effect (he : Effect s₀ action s s') :
    ∃ new, s'.switchedIn = new ++ s.switchedIn := by
  cases he with
  | dispatch hs =>
      obtain ⟨p, t, rest, -, -, rfl⟩ := dispatch_eq hs
      exact ⟨[(t, s.priority t)], rfl⟩
  | _ => exact ⟨[], rfl⟩

/-- A ready task is in no other place. -/
theorem Tidy.not_ready (h : s.Tidy) (ht : t ∈ s.sleeping ∨ t ∈ s.suspended) : t ∉ s.ready p := by
  intro hready
  have hone := h.places_eq_one (.inl ⟨p, hready⟩)
  have hpos : ∑ q, (s.ready q).count t ≠ 0 := fun hzero =>
    List.count_eq_zero.mp (Finset.sum_eq_zero_iff.mp hzero p (Finset.mem_univ p)) hready
  rcases ht with ht | ht <;>
  · have hcount := List.count_pos_iff.mpr ht
    simp only [places] at hone
    omega

theorem Waits.without {p : Priority} (h : s.Waits t p) (hut : u ≠ t) : (s.without u).Waits t p ∧
    ((s.without u).ready p).idxOf t ≤ (s.ready p).idxOf t := by
  have htu : decide (t ≠ u) = true := by simpa using Ne.symm hut
  exact ⟨⟨h.other, h.priority, List.mem_filter.mpr ⟨h.ready, htu⟩⟩, idxOf_filter_le htu⟩

theorem Waits.enqueue {p : Priority} (h : s.Waits t p) (u : T) : (s.enqueue u).Waits t p ∧
    ((s.enqueue u).ready p).idxOf t = (s.ready p).idxOf t := by
  rw [ready_enqueue]
  refine ⟨⟨h.other, h.priority, ?_⟩, ?_⟩ <;> try rw [ready_enqueue]
  · split
    · exact List.mem_append_left _ h.ready
    · exact h.ready
  · split
    · exact List.idxOf_append_of_mem h.ready
    · rfl

omit [DecidableEq T] in
theorem currentWith_eq (s : Schedule T) (t : T) (n : ℕ) :
    s.currentWith t n = t ∨ s.current = some (s.currentWith t n) := by
  unfold currentWith
  cases s.current with
  | none => exact .inl rfl
  | some c => by_cases hlate : s.running = false ∧ s.priority c ≤ n <;> simp [hlate]

theorem InTurn.effect {log : List (T × Priority)} (h : s.InTurn t p n log) (htidy : s.Tidy)
    (horderly : s.Orderly) (hspares : Spares t action)
    (he : Effect s₀ action s s') : s'.InTurn t p n log := by
  obtain ⟨new, hlog, ⟨q, hq⟩ | ⟨hwaits, hturns⟩⟩ := h
  · obtain ⟨more, hmore⟩ := switchedIn_effect he
    exact ⟨more ++ new, by rw [hmore, hlog, List.append_assoc],
      .inl ⟨q, List.mem_append_right _ hq⟩⟩
  have hplaced : s.placed t := .inl ⟨p, hwaits.ready⟩
  have hcurrent {u : T} (hu : s.current = some u) : u ≠ t := fun hut => hwaits.other (hut ▸ hu)
  have hother {handle : Option T} {u : T} (hu : (handle <|> s.current) = some u)
      (hne : handle ≠ some t) : u ≠ t := by
    rintro rfl
    cases handle with
    | none => exact hwaits.other hu
    | some v => exact hne hu
  have hpriority' {u : T} (hut : u ≠ t) (q : Priority) :
      Waits { s with priority := Function.update s.priority u q } t p :=
    ⟨hwaits.other, (Function.update_of_ne (Ne.symm hut) _ _).trans hwaits.priority, hwaits.ready⟩
  have hkeep {s' : Schedule T} (hsame : s'.switchedIn = s.switchedIn)
      (h' : s'.Waits t p ∧ (s'.ready p).idxOf t ≤ (s.ready p).idxOf t) : s'.InTurn t p n log :=
    ⟨new, hsame.trans hlog, .inr ⟨h'.1, (Nat.add_le_add_left h'.2 _).trans hturns⟩⟩
  cases he with
  | note | look | late =>
      exact hkeep rfl ⟨⟨hwaits.other, hwaits.priority, hwaits.ready⟩, le_rfl⟩
  | advance ticks =>
      refine hkeep rfl ⟨⟨hwaits.other, hwaits.priority, List.mem_append_left _ hwaits.ready⟩, ?_⟩
      exact (List.idxOf_append_of_mem hwaits.ready).le
  | dispatch hs =>
      obtain ⟨q, u, rest, hq, -, rfl⟩ := dispatch_eq hs
      have huq : s.priority u = q := horderly.ready q u (by simp [hq])
      refine ⟨(u, s.priority u) :: new, by simp [hlog], ?_⟩
      by_cases hut : u = t
      · exact .inl ⟨s.priority u, by simp [hut]⟩
      · refine .inr ⟨⟨by simpa using hut, hwaits.priority, ?_⟩, ?_⟩
        · by_cases hpq : p = q
          · subst hpq
            have hready := hwaits.ready
            rw [hq] at hready
            simpa [or_comm] using hready
          · simpa [hpq] using hwaits.ready
        · by_cases hpq : p = q
          · subst hpq
            have hready := hwaits.ready
            rw [hq, List.mem_cons, or_iff_right (Ne.symm hut)] at hready
            rw [hq, List.idxOf_cons_ne _ hut] at hturns
            simp only [huq, List.filter_cons, decide_true, if_true, List.length_cons,
              Function.update_self, List.idxOf_append_of_mem hready]
            omega
          · simp only [huq, List.filter_cons, Ne.symm hpq, decide_false, Function.update_of_ne hpq]
            exact hturns
  | delay hc =>
      obtain ⟨h', hle⟩ := hwaits.without (hcurrent hc)
      exact hkeep rfl ⟨⟨h'.other, h'.priority, h'.ready⟩, hle⟩
  | delayUntil hc =>
      obtain ⟨h', hle⟩ := hwaits.without (hcurrent hc)
      exact hkeep rfl ⟨⟨h'.other, h'.priority, h'.ready⟩, hle⟩
  | suspend _ _ haction hu =>
      obtain ⟨h', hle⟩ := hwaits.without (hother hu fun hsome => hspares.1 (hsome ▸ haction))
      exact hkeep rfl ⟨⟨h'.other, h'.priority, h'.ready⟩, hle⟩
  | @resume u _ _ hu =>
      have hut : u ≠ t := fun hut => htidy.not_ready (.inr (hut ▸ hu)) hwaits.ready
      obtain ⟨h', hle⟩ := hwaits.without hut
      obtain ⟨h'', heq⟩ := h'.enqueue u
      exact hkeep rfl ⟨h'', heq.trans_le hle⟩
  | requeue _ haction hu _ q =>
      have hut := hother hu fun hsome => hspares.2 _ (hsome ▸ haction)
      obtain ⟨h', hle⟩ := (hpriority' hut q).without hut
      obtain ⟨h'', heq⟩ := h'.enqueue _
      exact hkeep rfl ⟨h'', heq.trans_le hle⟩
  | prioritise _ haction hu _ q =>
      have hut := hother hu fun hsome => hspares.2 _ (hsome ▸ haction)
      exact hkeep rfl ⟨hpriority' hut q, le_rfl⟩
  | @introduce u _ hu m =>
      have hut : u ≠ t := fun hut => hu (hut ▸ hplaced)
      have h' : Waits { s₀ with
          current := some (s₀.currentWith u m)
          priority := Function.update s₀.priority u (Kernel.cappedPriority m)
          stage := Function.update s₀.stage u .own
          created := u :: s₀.created } t p := by
        refine ⟨fun hcurrent => ?_, (hpriority' hut _).priority, hwaits.ready⟩
        rcases currentWith_eq s₀ u m with hnew | hold
        · exact hut (hnew.symm.trans (Option.some.inj hcurrent))
        · exact hwaits.other (hold.trans hcurrent)
      obtain ⟨h'', heq⟩ := h'.enqueue u
      exact hkeep rfl ⟨h'', heq.le⟩

theorem InTurn.step {log : List (T × Priority)} (h : s.InTurn t p n log) (htidy : s.Tidy)
    (hg : s.Good) (hspares : Spares t action) (hs : s.step action = some s') :
    s'.InTurn t p n log := by
  have hkeep := (Effects.of_step hs).keep
    (P := fun s => s.Tidy ∧ s.Orderly ∧ s.InTurn t p n log)
    fun _ _ he h => ⟨h.1.effect he, h.2.1.effect hg.staged.delay he,
      h.2.2.effect h.1 h.2.1 hspares he⟩
  exact (hkeep ⟨htidy, hg.orderly, h⟩).2.2

theorem InTurn.run {log : List (T × Priority)} (h : s.InTurn t p n log) (htidy : s.Tidy)
    (hg : s.Good) {actions : List (Action T)} (hspares : ∀ action ∈ actions, Spares t action)
    (hs : s.run actions = some s') : s'.InTurn t p n log := by
  induction actions generalizing s with
  | nil =>
      obtain rfl := Option.some.inj hs
      exact h
  | cons action actions ih =>
      obtain ⟨s₁, hs₁, hs⟩ := Option.bind_eq_some_iff.mp hs
      have hhead := hspares action List.mem_cons_self
      exact ih (h.step htidy hg hhead hs₁) (htidy.step hs₁) (hg.step hs₁)
        (fun a ha => hspares a (List.mem_cons_of_mem _ ha)) hs

end Schedule

/-- A ready task gets the processor after the tasks in front of it, one turn each. -/
theorem switchedIn_in_turn (h : Reached k s) (ht : t ∈ s.ready (s.priority t))
    (hcurrent : s.current ≠ some t) {actions : List (Action T)}
    (hspares : ∀ action ∈ actions, Schedule.Spares t action) (hs : s.run actions = some s') :
    ∃ k' new, k.run actions = some k' ∧ k'.switchedIn = new ++ k.switchedIn ∧
      ((∃ p, (t, p) ∈ new) ∨
        (new.filter (·.2 = k.uxPriority t)).length ≤ (s.ready (s.priority t)).idxOf t ∧
          (s.ready (s.priority t)).idxOf t <
            k.lists.uxNumberOfItems (.pxReadyTasksLists (k.uxPriority t))) := by
  obtain ⟨k', hk', h'⟩ := h.run actions s' hs
  have hfirst : s.InTurn t (s.priority t) ((s.ready (s.priority t)).idxOf t) s.switchedIn :=
    ⟨[], rfl, .inr ⟨⟨hcurrent, rfl, ht⟩, by simp⟩⟩
  obtain ⟨new, hlog, hturn⟩ := hfirst.run h.tidy h.good hspares hs
  have hnone : s.current ≠ none := fun hnone =>
    (h.good.fresh hnone).1 t (.inl ⟨_, ht⟩)
  rw [h.switchedIn, h.uxPriority, h.number_ready hnone]
  refine ⟨k', new, hk', h'.switchedIn.trans hlog,
    hturn.imp_right fun hwaits => ⟨?_, List.idxOf_lt_length_of_mem ht⟩⟩
  exact (Nat.le_add_right _ _).trans hwaits.2

/-- Task 2 waits while task 1 runs, and is next: it is switched in when task 1 sleeps. -/
theorem switchedIn_in_turn_stale : ∃ (k k' : Kernel (Memory ListId (Fin 3)) (Fin 3)) (new : _),
    (Kernel.powerOn stale (fun _ => 7) fun _ => 3).run
      [.xTaskCreate 1 2, .xTaskCreate 2 2, .vTaskStartScheduler 0, .vTick] = some k ∧
    k.run [.vTaskDelay 3, .vTick, .proceed, .proceed] = some k' ∧
      k'.switchedIn = new ++ k.switchedIn ∧ new.length = 1 ∧
        ((∃ p, (2, p) ∈ new) ∨ (new.filter (·.2 = k.uxPriority 2)).length ≤ 0) := by
  have hrun : ((Schedule.powerOn (fun _ => 7) fun t : Fin 3 => (3 : PortTickType).toNat).run
      [.xTaskCreate 1 2, .xTaskCreate 2 2, .vTaskStartScheduler 0, .vTick]).any (fun s =>
        decide (s.current ≠ some 2 ∧ s.ready (s.priority 2) = [2, 1]) &&
          (s.run [.vTaskDelay 3, .vTick, .proceed, .proceed]).any fun s' =>
            decide (s'.switchedIn.length = 1 + s.switchedIn.length)) = true := by decide
  obtain ⟨s, hs, hdecide⟩ := (Option.any_eq_true _ _).mp hrun
  obtain ⟨hwaits, hafter⟩ := Bool.and_eq_true_iff.mp hdecide
  obtain ⟨hcurrent, hready⟩ := of_decide_eq_true hwaits
  obtain ⟨s', hs', hlength⟩ := (Option.any_eq_true _ _).mp hafter
  obtain ⟨k, hk, hreached⟩ := Reached.of_run stale hs
  obtain ⟨k', new, hk', hlog, hturn⟩ :=
    switchedIn_in_turn hreached (by simp [hready]) hcurrent (by simp [Schedule.Spares]) hs'
  obtain ⟨k₁, hk₁, h₁⟩ := hreached.run _ s' hs'
  obtain rfl := Option.some.inj (hk'.symm.trans hk₁)
  refine ⟨k, k', new, hk, hk', hlog, ?_, hturn.imp_right fun h => h.1.trans (by simp [hready])⟩
  have hnumber := congrArg List.length hlog
  rw [List.length_append, h₁.switchedIn, hreached.switchedIn, of_decide_eq_true hlength] at hnumber
  omega

end RealTime.FreeRtos
