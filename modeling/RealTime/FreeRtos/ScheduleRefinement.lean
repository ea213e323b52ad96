import RealTime.FreeRtos.ScheduleInvariants
import RealTime.FreeRtos.TasksRefinement
import RealTime.Library.Wraparound

/-! # The kernel follows the schedule -/

namespace RealTime.FreeRtos

open Wraparound

variable {T : Type}

/-- The list of a task, and in it the place, is that of the schedule; the times are what the
tick count shows of those of the schedule. -/
structure Core (k : Kernel (Lists ListId T) T) (s : Schedule T) : Prop where
  priority : k.uxPriority = s.priority
  current : k.pxCurrentTCB = s.current
  running : k.xSchedulerRunning = s.running
  stage : k.stage = s.stage
  switchedIn : k.switchedIn = s.switchedIn
  lastWake : ∀ t, k.xPreviousWakeTime t = shown 32 (s.lastWake t)
  tickCount : k.xTickCount = shown 32 s.now
  overflows : k.xNumOfOverflows = shown 32 (turn 32 s.now)
  ready : ∀ p, (k.lists.list (.pxReadyTasksLists p)).queue = s.ready p
  suspended : (k.lists.list .xSuspendedTaskList).queue = s.suspended
  sleeping : (k.lists.list k.pxDelayedTaskList).items ++
    (k.lists.list k.pxOverflowDelayedTaskList).items = s.sleeping
  delayed : (k.pxDelayedTaskList = .xDelayedTaskList1 ∧
      k.pxOverflowDelayedTaskList = .xDelayedTaskList2) ∨
    (k.pxDelayedTaskList = .xDelayedTaskList2 ∧
      k.pxOverflowDelayedTaskList = .xDelayedTaskList1)
  unused : (k.lists.list .xPendingReadyList).items = [] ∧
    (k.lists.list .xTasksWaitingTermination).items = []
  early : ∀ t ∈ (k.lists.list k.pxDelayedTaskList).items,
    turn 32 (s.wakeAt t) = turn 32 s.now
  late : ∀ t ∈ (k.lists.list k.pxOverflowDelayedTaskList).items,
    turn 32 (s.wakeAt t) = turn 32 s.now + 1
  value : ∀ t ∈ s.sleeping, k.lists.value t = shown 32 (s.wakeAt t)
  top : ∀ p, s.ready p ≠ [] → p ≤ k.uxTopReadyPriority

/-- Nobody on the delayed list wakes before `xNextTaskUnblockTime`. -/
def Unblocked (k : Kernel (Lists ListId T) T) : Prop :=
  ∀ t ∈ (k.lists.list k.pxDelayedTaskList).items, k.xNextTaskUnblockTime ≤ k.lists.value t

/-- What a change to the lists leaves alone. -/
structure Rest (k k' : Kernel (Lists ListId T) T) : Prop where
  number : k'.uxCurrentNumberOfTasks = k.uxCurrentNumberOfTasks
  held : k'.uxSchedulerSuspended = k.uxSchedulerSuspended
  missed : k'.uxMissedTicks = k.uxMissedTicks
  missedYield : k'.xMissedYield = k.xMissedYield

structure SameDelays (k k' : Kernel (Lists ListId T) T) : Prop where
  delayed : k'.pxDelayedTaskList = k.pxDelayedTaskList
  items : (k'.lists.list k'.pxDelayedTaskList).items = (k.lists.list k.pxDelayedTaskList).items
  value : k'.lists.value = k.lists.value
  unblock : k'.xNextTaskUnblockTime = k.xNextTaskUnblockTime

/-- The state of the kernel stands for the state of the schedule. -/
structure Matches (k : Kernel (Lists ListId T) T) (s : Schedule T) : Prop where
  core : Core k s
  unblocked : Unblocked k
  number : k.uxCurrentNumberOfTasks = s.created.length
  held : k.uxSchedulerSuspended = if s.held then 1 else 0
  missed : k.uxMissedTicks = s.missed
  missedYield : k.xMissedYield = s.ticked

variable {k k' : Kernel (Lists ListId T) T} {s s' : Schedule T} {t : T}

namespace Core

theorem mem_ready (h : Core k s) (p : Priority) :
    t ∈ s.ready p ↔ k.lists.container t = some (.pxReadyTasksLists p) := by
  rw [← h.ready, Cursor.mem_queue, k.lists.mem_iff]

theorem mem_suspended (h : Core k s) :
    t ∈ s.suspended ↔ k.lists.container t = some .xSuspendedTaskList := by
  rw [← h.suspended, Cursor.mem_queue, k.lists.mem_iff]

theorem mem_sleeping (h : Core k s) :
    t ∈ s.sleeping ↔ k.lists.container t = some k.pxDelayedTaskList ∨
      k.lists.container t = some k.pxOverflowDelayedTaskList := by
  rw [← h.sleeping, List.mem_append, k.lists.mem_iff, k.lists.mem_iff]

/-- A task is on a list when it has been created. -/
theorem placed_iff (h : Core k s) : s.placed t ↔ k.lists.container t ≠ none := by
  unfold Schedule.placed
  simp only [h.mem_sleeping, h.mem_suspended, h.mem_ready]
  constructor
  · rintro (⟨p, hp⟩ | (ht | ht) | ht) <;> simp_all
  · intro ht
    obtain ⟨l, hl⟩ := Option.ne_none_iff_exists'.mp ht
    have hmem := (k.lists.mem_iff l t).mpr hl
    cases l with
    | pxReadyTasksLists p => exact .inl ⟨p, hl⟩
    | xDelayedTaskList1 =>
        rcases h.delayed with ⟨hd, ho⟩ | ⟨hd, ho⟩ <;> simp [hd, ho, hl]
    | xDelayedTaskList2 =>
        rcases h.delayed with ⟨hd, ho⟩ | ⟨hd, ho⟩ <;> simp [hd, ho, hl]
    | xPendingReadyList => simp [h.unused.1] at hmem
    | xTasksWaitingTermination => simp [h.unused.2] at hmem
    | xSuspendedTaskList => exact .inr (.inr hl)

variable [DecidableEq T]

/-! ## One item moves -/

omit [DecidableEq T] in
theorem delayed_ne (h : Core k s) : k.pxDelayedTaskList ≠ k.pxOverflowDelayedTaskList := by
  rcases h.delayed with ⟨hd, ho⟩ | ⟨hd, ho⟩ <;> simp [hd, ho]

omit [DecidableEq T] in
theorem container_eq_none (h : Core k s) (ht : ¬ s.placed t) : k.lists.container t = none := by
  rwa [h.placed_iff, ne_eq, not_not] at ht

/-- A task leaves its list. -/
theorem remove (h : Core k s) (ht : s.placed t) : ∃ lists, k.lists.remove t = some lists ∧
    lists.container t = none ∧ lists.value = k.lists.value ∧
      Core { k with lists := lists } (s.without t) ∧
        ∀ l, (lists.list l).items = (k.lists.list l).items.filter (· ≠ t) := by
  obtain ⟨l, hl⟩ := Option.ne_none_iff_exists'.mp (h.placed_iff.mp ht)
  refine ⟨k.lists.drop l t hl, ?_, by simp [Lists.drop], rfl, ?_, k.lists.items_drop hl⟩
  · unfold Lists.remove
    split
    · rename_i l' hl'
      obtain rfl := Option.some.inj (hl.symm.trans hl')
      rfl
    · rename_i hnone
      rw [hl] at hnone
      cases hnone
  · refine { h with
      ready := fun p => ?_, suspended := ?_, sleeping := ?_, unused := ?_, early := ?_
      late := ?_, value := ?_, top := ?_ }
    · rw [k.lists.queue_drop hl, h.ready]
      rfl
    · rw [k.lists.queue_drop hl, h.suspended]
      rfl
    · rw [k.lists.items_drop hl, k.lists.items_drop hl, ← List.filter_append, h.sleeping]
      rfl
    · rw [k.lists.items_drop hl, k.lists.items_drop hl, h.unused.1, h.unused.2]
      exact ⟨rfl, rfl⟩
    · rw [k.lists.items_drop hl]
      exact fun u hu => h.early u (List.mem_of_mem_filter hu)
    · rw [k.lists.items_drop hl]
      exact fun u hu => h.late u (List.mem_of_mem_filter hu)
    · exact fun u hu => h.value u (List.mem_of_mem_filter hu)
    · exact fun p hp => h.top p fun hnil => hp (List.filter_eq_nil_iff.mpr (by simp [hnil]))

/-- A task that is on no list is made ready. -/
theorem enqueue (h : Core k s) (ht : k.lists.container t = none) :
    ∃ k', k.prvAddTaskToReadyQueue t = some k' ∧ Core k' (s.enqueue t) ∧ Rest k k' ∧
      SameDelays k k' := by
  have hother {l : ListId} (hl : l ≠ .pxReadyTasksLists (k.uxPriority t)) (c hc) :
      (k.lists.put (.pxReadyTasksLists (k.uxPriority t)) t c ht hc).list l = k.lists.list l := by
    simp [Lists.put, hl]
  have hdelayed : k.pxDelayedTaskList ≠ .pxReadyTasksLists (k.uxPriority t) ∧
      k.pxOverflowDelayedTaskList ≠ .pxReadyTasksLists (k.uxPriority t) := by
    rcases h.delayed with ⟨hd, ho⟩ | ⟨hd, ho⟩ <;> simp [hd, ho]
  refine ⟨{ k with
    uxTopReadyPriority :=
      if k.uxPriority t > k.uxTopReadyPriority then k.uxPriority t else k.uxTopReadyPriority
    lists := k.lists.put (.pxReadyTasksLists (k.uxPriority t)) t
      ((k.lists.list (.pxReadyTasksLists (k.uxPriority t))).insertHere t) ht
      (Cursor.items_insertHere _ _) }, ?_, ?_, ⟨rfl, rfl, rfl, rfl⟩, ?_⟩
  · simp [Kernel.prvAddTaskToReadyQueue, ListStore.insertEnd, Lists.insertEnd, ht]
  · refine { h with
      ready := fun p => ?_, suspended := ?_, sleeping := ?_, unused := ?_, early := ?_
      late := ?_, value := h.value, top := ?_ }
    · rw [Schedule.ready_enqueue, ← h.priority]
      by_cases hp : p = k.uxPriority t
      · subst hp
        simp [Lists.put, Cursor.queue_insertHere, h.ready]
      · rw [hother (by simpa using hp), if_neg hp, h.ready]
    · rw [hother (by simp)]
      exact h.suspended
    · rw [hother hdelayed.1, hother hdelayed.2]
      exact h.sleeping
    · rw [hother (by simp), hother (by simp)]
      exact h.unused
    · rw [hother hdelayed.1]
      exact h.early
    · rw [hother hdelayed.2]
      exact h.late
    · intro p hp
      rw [Schedule.ready_enqueue, ← h.priority] at hp
      by_cases hpt : p = k.uxPriority t
      · subst hpt
        split
        · exact le_rfl
        · exact not_lt.mp ‹_›
      · have hle := h.top p (by simpa [hpt] using hp)
        split
        · exact hle.trans (le_of_lt ‹_›)
        · exact hle
  · exact ⟨rfl, congrArg Cursor.items (hother hdelayed.1 _ (Cursor.items_insertHere _ _)), rfl, rfl⟩

/-- On a list of one turn the order of the values is that of the times. -/
theorem earlier_iff_sooner (h : Core k s) (ht : k.lists.container t = none) {wakeAt : ℕ} {u : T}
    (hu : u ∈ s.sleeping) (hturn : turn 32 wakeAt = turn 32 (s.wakeAt u)) :
    (k.lists.setValue t (shown 32 wakeAt)).earlier t u ↔
      Schedule.sooner (Function.update s.wakeAt t wakeAt) t u := by
  have hut : u ≠ t := by
    rintro rfl
    rw [h.mem_sleeping, ht] at hu
    simp at hu
  simp only [Lists.earlier, Lists.setValue, Schedule.sooner, Function.update_self,
    Function.update_of_ne hut, h.value u hu]
  exact shown_lt_shown hturn

omit [DecidableEq T] in
theorem mem_delayed (h : Core k s) {u : T}
    (hu : u ∈ (k.lists.list k.pxDelayedTaskList).items) : u ∈ s.sleeping := by
  rw [← h.sleeping]
  exact List.mem_append_left _ hu

omit [DecidableEq T] in
theorem mem_overflow (h : Core k s) {u : T}
    (hu : u ∈ (k.lists.list k.pxOverflowDelayedTaskList).items) : u ∈ s.sleeping := by
  rw [← h.sleeping]
  exact List.mem_append_right _ hu

/-- The tasks of the next turn come behind one of this turn. -/
theorem sleeping_insert_delayed (h : Core k s) (ht : k.lists.container t = none) {wakeAt : ℕ}
    (hturn : turn 32 wakeAt = turn 32 s.now) :
    (k.lists.list k.pxDelayedTaskList).items.orderedInsert
        (k.lists.setValue t (shown 32 wakeAt)).earlier t ++
      (k.lists.list k.pxOverflowDelayedTaskList).items = (s.sleep t wakeAt).sleeping := by
  have hsame : ∀ u ∈ (k.lists.list k.pxDelayedTaskList).items,
      (k.lists.setValue t (shown 32 wakeAt)).earlier t u ↔
        Schedule.sooner (Function.update s.wakeAt t wakeAt) t u := fun u hu =>
    h.earlier_iff_sooner ht (h.mem_delayed hu) (hturn.trans (h.early u hu).symm)
  have hlate : ∀ u ∈ (k.lists.list k.pxOverflowDelayedTaskList).items,
      Schedule.sooner (Function.update s.wakeAt t wakeAt) t u := by
    intro u hu
    have hut : u ≠ t := by
      rintro rfl
      exact k.lists.notMem ht _ hu
    simp only [Schedule.sooner, Function.update_self, Function.update_of_ne hut]
    exact lt_of_turn_lt (w := 32) (by rw [hturn, h.late u hu]; exact Nat.lt_succ_self _)
  rw [orderedInsert_congr hsame]
  show _ = s.sleeping.orderedInsert _ t
  rw [← h.sleeping, Cursor.orderedInsert_append]
  split
  · rfl
  · rename_i hnone
    rw [orderedInsert_first hlate, orderedInsert_last fun u hu hsooner => hnone ⟨u, hu, hsooner⟩,
      List.append_assoc, List.singleton_append]

/-- One of the next turn comes behind the tasks of this turn. -/
theorem sleeping_insert_overflow (h : Core k s) (ht : k.lists.container t = none) {wakeAt : ℕ}
    (hturn : turn 32 wakeAt = turn 32 s.now + 1) :
    (k.lists.list k.pxDelayedTaskList).items ++
      (k.lists.list k.pxOverflowDelayedTaskList).items.orderedInsert
        (k.lists.setValue t (shown 32 wakeAt)).earlier t = (s.sleep t wakeAt).sleeping := by
  have hsame : ∀ u ∈ (k.lists.list k.pxOverflowDelayedTaskList).items,
      (k.lists.setValue t (shown 32 wakeAt)).earlier t u ↔
        Schedule.sooner (Function.update s.wakeAt t wakeAt) t u := fun u hu =>
    h.earlier_iff_sooner ht (h.mem_overflow hu) (hturn.trans (h.late u hu).symm)
  have hearly : ¬ ∃ u ∈ (k.lists.list k.pxDelayedTaskList).items,
      Schedule.sooner (Function.update s.wakeAt t wakeAt) t u := by
    rintro ⟨u, hu, hsooner⟩
    have hut : u ≠ t := by
      rintro rfl
      exact k.lists.notMem ht _ hu
    simp only [Schedule.sooner, Function.update_self, Function.update_of_ne hut] at hsooner
    have hle := turn_le_turn (w := 32) hsooner.le
    rw [hturn, h.early u hu] at hle
    omega
  rw [orderedInsert_congr hsame]
  show _ = s.sleeping.orderedInsert _ t
  rw [← h.sleeping, Cursor.orderedInsert_append, if_neg hearly]

/-- A task with a new value is put on one of the delayed lists. -/
theorem insertDelayed (h : Core k s) (ht : k.lists.container t = none) (wakeAt : ℕ) {l : ListId}
    (hl : (l = k.pxDelayedTaskList ∧ turn 32 wakeAt = turn 32 s.now) ∨
      (l = k.pxOverflowDelayedTaskList ∧ turn 32 wakeAt = turn 32 s.now + 1)) :
    ∃ lists, (k.lists.setValue t (shown 32 wakeAt)).insert l t = some lists ∧
      Core { k with lists := lists } (s.sleep t wakeAt) ∧
        lists.value = Function.update k.lists.value t (shown 32 wakeAt) ∧
          ∀ j, ∀ u ∈ (lists.list j).items, u = t ∧ j = l ∨ u ≠ t ∧ u ∈ (k.lists.list j).items := by
  have hne : ∀ j, ∀ u ∈ (k.lists.list j).items, u ≠ t := by
    rintro j u hu rfl
    exact k.lists.notMem ht j hu
  have hplace := Cursor.items_insertSorted (k.lists.setValue t (shown 32 wakeAt)).earlier
    (k.lists.list l) t
  have hperm : ((k.lists.list l).insertSorted (k.lists.setValue t (shown 32 wakeAt)).earlier
      t).items.Perm (t :: (k.lists.list l).items) := by
    rw [hplace]
    exact List.perm_orderedInsert _ _ _
  have hself : (((k.lists.setValue t (shown 32 wakeAt)).put l t _ ht hperm).list l).items =
      (k.lists.list l).items.orderedInsert (k.lists.setValue t (shown 32 wakeAt)).earlier t := by
    simpa [Lists.put] using hplace
  have hother {j : ListId} (hj : j ≠ l) :
      ((k.lists.setValue t (shown 32 wakeAt)).put l t _ ht hperm).list j = k.lists.list j := by
    simp [Lists.put, hj, Lists.setValue]
  have hmem : ∀ j, ∀ u ∈ (((k.lists.setValue t (shown 32 wakeAt)).put l t _ ht hperm).list j).items,
      u = t ∧ j = l ∨ u ≠ t ∧ u ∈ (k.lists.list j).items := by
    intro j u hu
    by_cases hj : j = l
    · subst hj
      rw [hself, List.mem_orderedInsert] at hu
      rcases hu with rfl | hu
      · exact .inl ⟨rfl, rfl⟩
      · exact .inr ⟨hne j u hu, hu⟩
    · rw [hother hj] at hu
      exact .inr ⟨hne j u hu, hu⟩
  refine ⟨(k.lists.setValue t (shown 32 wakeAt)).put l t _ ht hperm, ?_, ?_, rfl, hmem⟩
  · simp [Lists.insert, Lists.setValue, ht]
  · have hD : ∀ p, ListId.pxReadyTasksLists p ≠ l ∧ ListId.xSuspendedTaskList ≠ l ∧
        ListId.xPendingReadyList ≠ l ∧ ListId.xTasksWaitingTermination ≠ l := by
      intro p
      rcases hl with ⟨rfl, -⟩ | ⟨rfl, -⟩ <;> rcases h.delayed with ⟨hd, ho⟩ | ⟨hd, ho⟩ <;>
        simp [hd, ho]
    have hold : ∀ u ∈ s.sleeping, u ≠ t := by
      intro u hu
      rw [← h.sleeping, List.mem_append] at hu
      exact hu.elim (hne _ u) (hne _ u)
    refine { h with
      ready := fun p => ?_, suspended := ?_, sleeping := ?_, unused := ?_, early := ?_
      late := ?_, value := ?_ }
    · rw [hother (hD p).1]
      exact h.ready p
    · rw [hother (hD 0).2.1]
      exact h.suspended
    · rcases hl with ⟨rfl, hturn⟩ | ⟨rfl, hturn⟩
      · rw [hself, hother h.delayed_ne.symm]
        exact h.sleeping_insert_delayed ht hturn
      · rw [hself, hother h.delayed_ne]
        exact h.sleeping_insert_overflow ht hturn
    · rw [hother (hD 0).2.2.1, hother (hD 0).2.2.2]
      exact h.unused
    · intro u hu
      rcases hmem _ u hu with ⟨rfl, hl'⟩ | ⟨hut, hu⟩
      · rcases hl with ⟨-, hturn⟩ | ⟨hl, -⟩
        · simpa [Schedule.sleep] using hturn
        · exact absurd (hl'.trans hl) h.delayed_ne
      · simpa [Schedule.sleep, hut] using h.early u hu
    · intro u hu
      rcases hmem _ u hu with ⟨rfl, hl'⟩ | ⟨hut, hu⟩
      · rcases hl with ⟨hl, -⟩ | ⟨-, hturn⟩
        · exact absurd (hl'.trans hl).symm h.delayed_ne
        · simpa [Schedule.sleep] using hturn
      · simpa [Schedule.sleep, hut] using h.late u hu
    · intro u hu
      rcases (List.mem_orderedInsert _).mp hu with rfl | hu
      · simp [Lists.put, Lists.setValue, Schedule.sleep]
      · simpa [Lists.put, Lists.setValue, Schedule.sleep, hold u hu] using h.value u hu

/-- A task that is on no list goes to sleep until a time less than a turn away. -/
theorem sleep (h : Core k s) (ht : k.lists.container t = none) (hcurrent : s.current = some t)
    {wakeAt : ℕ} (hnow : s.now ≤ wakeAt) (hturn : wakeAt < s.now + 2 ^ 32) :
    ∃ k', k.prvAddCurrentTaskToDelayedList (shown 32 wakeAt) = some k' ∧
      Core k' (s.sleep t wakeAt) ∧ Rest k k' ∧ (Unblocked k → Unblocked k') := by
  have hwrap := shown_lt_iff hnow hturn
  have hk : k.pxCurrentTCB = some t := h.current.trans hcurrent
  rw [← h.tickCount] at hwrap
  by_cases hlt : shown 32 wakeAt < k.xTickCount
  · obtain ⟨lists, hinsert, hcore, hvalue, hmem⟩ := h.insertDelayed ht wakeAt
      (.inr ⟨rfl, hwrap.mp hlt⟩)
    refine ⟨{ k with lists := lists }, ?_, hcore, ⟨rfl, rfl, rfl, rfl⟩, fun hun u hu => ?_⟩
    · simp [Kernel.prvAddCurrentTaskToDelayedList, hk, hlt, ListStore.setValue, ListStore.insert,
        hinsert]
    · rcases hmem _ u hu with ⟨-, hl⟩ | ⟨hut, hu⟩
      · exact absurd hl h.delayed_ne
      · simpa [hvalue, hut] using hun u hu
  · have hsame := (turn_cases hnow hturn).resolve_right fun hnext => hlt (hwrap.mpr hnext)
    obtain ⟨lists, hinsert, hcore, hvalue, hmem⟩ := h.insertDelayed ht wakeAt
      (.inl ⟨rfl, hsame⟩)
    refine ⟨{ k with
      lists := lists
      xNextTaskUnblockTime := if shown 32 wakeAt < k.xNextTaskUnblockTime then shown 32 wakeAt
        else k.xNextTaskUnblockTime }, ?_, { hcore with }, ⟨rfl, rfl, rfl, rfl⟩, fun hun u hu => ?_⟩
    · simp [Kernel.prvAddCurrentTaskToDelayedList, hk, hlt, ListStore.setValue, ListStore.insert,
        hinsert]
    · have hle : (if shown 32 wakeAt < k.xNextTaskUnblockTime then shown 32 wakeAt
          else k.xNextTaskUnblockTime) ≤ shown 32 wakeAt ∧
          (if shown 32 wakeAt < k.xNextTaskUnblockTime then shown 32 wakeAt
            else k.xNextTaskUnblockTime) ≤ k.xNextTaskUnblockTime := by
        simp only [BitVec.le_def, BitVec.lt_def]
        split <;> omega
      rcases hmem _ u hu with ⟨rfl, -⟩ | ⟨hut, hu⟩
      · simpa [hvalue] using hle.1
      · simpa [hvalue, hut] using BitVec.le_trans hle.2 (hun u hu)

end Core

/-! ## The tick -/

namespace Schedule

theorem wake_of_not_due (h : ∀ t ∈ s.sleeping.head?, ¬ due s.wakeAt s.now t) : s.wake = s := by
  have hnone : s.sleeping.takeWhile (due s.wakeAt s.now) = [] ∧
      s.sleeping.dropWhile (due s.wakeAt s.now) = s.sleeping := by
    cases hs : s.sleeping with
    | nil => exact ⟨rfl, rfl⟩
    | cons t ts =>
        have ht : ¬ due s.wakeAt s.now t := h t (by simp [hs])
        exact ⟨List.takeWhile_cons_of_neg ht, List.dropWhile_cons_of_neg ht⟩
  rw [wake, hnone.1, hnone.2]
  simp

/-- Waking the tasks one by one. -/
theorem wake_cons [DecidableEq T] {ts : List T} (hs : s.sleeping = t :: ts)
    (ht : due s.wakeAt s.now t) (hts : t ∉ ts) (hready : ∀ p, t ∉ s.ready p)
    (hsuspended : t ∉ s.suspended) :
    ((s.without t).enqueue t).wake = s.wake := by
  have hfilter {l : List T} (hl : t ∉ l) : l.filter (· ≠ t) = l :=
    List.filter_eq_self.mpr fun u hu => by simpa using fun hut : u = t => hl (hut ▸ hu)
  have hwithout : s.without t = { s with sleeping := ts } := by
    have hsame : (fun p => (s.ready p).filter (· ≠ t)) = s.ready :=
      funext fun p => hfilter (hready p)
    rw [without, hsame, hfilter hsuspended, hs, List.filter_cons_of_neg (by simp), hfilter hts]
  have htake : s.sleeping.takeWhile (due s.wakeAt s.now) =
      t :: ts.takeWhile (due s.wakeAt s.now) := by
    rw [hs, List.takeWhile_cons_of_pos ht]
  have hdrop : s.sleeping.dropWhile (due s.wakeAt s.now) = ts.dropWhile (due s.wakeAt s.now) := by
    rw [hs, List.dropWhile_cons_of_pos ht]
  have hready' (p : Priority) : (({ s with sleeping := ts }).enqueue t).ready p ++
      (ts.takeWhile (due s.wakeAt s.now)).filter (fun u => s.priority u = p) =
        s.ready p ++ (t :: ts.takeWhile (due s.wakeAt s.now)).filter fun u => s.priority u = p := by
    rw [ready_enqueue]
    by_cases hp : p = s.priority t
    · simp [hp]
    · simp [hp, Ne.symm hp]
  rw [hwithout, wake, wake, htake, hdrop]
  have hasleep := funext hready'
  exact congrArg
    (fun ready => { s with ready := ready, sleeping := ts.dropWhile (due s.wakeAt s.now) }) hasleep

end Schedule

namespace Rest

variable {k'' : Kernel (Lists ListId T) T}

theorem refl (k : Kernel (Lists ListId T) T) : Rest k k := ⟨rfl, rfl, rfl, rfl⟩

theorem trans (h : Rest k k') (h' : Rest k' k'') : Rest k k'' :=
  ⟨h'.number.trans h.number, h'.held.trans h.held, h'.missed.trans h.missed,
    h'.missedYield.trans h.missedYield⟩

end Rest

namespace Core

theorem sorted_delayed (h : Core k s) (hsorted : SortedByKey s.wakeAt s.sleeping) :
    SortedByKey s.wakeAt (k.lists.list k.pxDelayedTaskList).items := by
  rw [← h.sleeping] at hsorted
  exact (List.pairwise_append.mp hsorted).1

/-- Among the tasks that wake in this turn, and the present time, the values tell the order. -/
theorem due_iff (h : Core k s) (ht : t ∈ (k.lists.list k.pxDelayedTaskList).items) :
    Schedule.due s.wakeAt s.now t ↔ ¬ k.xTickCount < k.lists.value t := by
  have hlt := shown_lt_shown (w := 32) (h.early t ht).symm
  rw [h.tickCount, h.value t (h.mem_delayed ht), hlt, Schedule.due]
  simp

theorem value_le (h : Core k s) (ht : t ∈ (k.lists.list k.pxDelayedTaskList).items) {u : T}
    (hu : u ∈ (k.lists.list k.pxDelayedTaskList).items) :
    k.lists.value t ≤ k.lists.value u ↔ s.wakeAt t ≤ s.wakeAt u := by
  rw [h.value t (h.mem_delayed ht), h.value u (h.mem_delayed hu)]
  exact shown_le_shown ((h.early t ht).trans (h.early u hu).symm)

/-- The tasks of the next turn are not due. -/
theorem not_due_overflow (h : Core k s)
    (ht : t ∈ (k.lists.list k.pxOverflowDelayedTaskList).items) :
    ¬ Schedule.due s.wakeAt s.now t := by
  have hlt := lt_of_turn_lt (w := 32) (m := s.now) (n := s.wakeAt t)
    (by rw [h.late t ht]; exact Nat.lt_succ_self _)
  simpa [Schedule.due] using hlt

theorem notMem_of_delayed (h : Core k s) (ht : t ∈ (k.lists.list k.pxDelayedTaskList).items) :
    t ∉ (k.lists.list k.pxOverflowDelayedTaskList).items ∧ (∀ p, t ∉ s.ready p) ∧
      t ∉ s.suspended := by
  rw [k.lists.mem_iff] at ht
  simp only [k.lists.mem_iff, h.mem_ready, h.mem_suspended, ht]
  rcases h.delayed with ⟨hd, ho⟩ | ⟨hd, ho⟩ <;> simp [hd, ho]

variable [DecidableEq T]

/-- The loop of `prvCheckDelayedTasks` wakes the tasks whose time has come. -/
theorem unblockTasks (h : Core k s) (hsorted : SortedByKey s.wakeAt s.sleeping) (fuel : ℕ)
    (hfuel : (k.lists.list k.pxDelayedTaskList).items.length < fuel) :
    ∃ k', k.unblockTasks fuel = some k' ∧ Core k' s.wake ∧ Rest k k' ∧ Unblocked k' := by
  induction fuel generalizing k s with
  | zero => omega
  | succ fuel ih =>
      cases hitems : (k.lists.list k.pxDelayedTaskList).items with
      | nil =>
          have hwake : s.wake = s := by
            refine Schedule.wake_of_not_due fun t ht => ?_
            have hmem := List.mem_of_mem_head? ht
            rw [← h.sleeping, hitems, List.nil_append] at hmem
            exact h.not_due_overflow hmem
          refine ⟨{ k with xNextTaskUnblockTime := portMAX_DELAY }, ?_, ?_,
            ⟨rfl, rfl, rfl, rfl⟩, ?_⟩
          · simp [Kernel.unblockTasks, ListStore.isEmpty, hitems]
          · rw [hwake]
            exact { h with }
          · intro u hu
            rw [hitems] at hu
            cases hu
      | cons t ts =>
          have ht : t ∈ (k.lists.list k.pxDelayedTaskList).items := by simp [hitems]
          have hsleeping :
              s.sleeping = t :: (ts ++ (k.lists.list k.pxOverflowDelayedTaskList).items) := by
            rw [← h.sleeping, hitems, List.cons_append]
          by_cases hlt : k.xTickCount < k.lists.value t
          · have hwake : s.wake = s := by
              refine Schedule.wake_of_not_due fun u hu => ?_
              rw [hsleeping] at hu
              obtain rfl := Option.some.inj hu
              rw [h.due_iff ht, not_not]
              exact hlt
            refine ⟨{ k with xNextTaskUnblockTime := k.lists.value t }, ?_, ?_,
              ⟨rfl, rfl, rfl, rfl⟩, ?_⟩
            · simp [Kernel.unblockTasks, ListStore.isEmpty, ListStore.headEntry, Lists.headEntry,
                ListStore.value, hitems, hlt]
            · rw [hwake]
              exact { h with }
            · intro u hu
              refine (h.value_le ht hu).mpr ?_
              have hfirst := h.sorted_delayed hsorted
              rw [hitems] at hfirst hu
              rcases List.mem_cons.mp hu with rfl | hu
              · exact le_rfl
              · exact (List.pairwise_cons.mp hfirst).1 u hu
          · have hdue : Schedule.due s.wakeAt s.now t := (h.due_iff ht).mpr hlt
            obtain ⟨lists, hremove, hnone, -, hcore, hleft⟩ :=
              h.remove (.inr (.inl (h.mem_delayed ht)))
            obtain ⟨k₁, hadd, hcore₁, hrest₁, hdelays⟩ := hcore.enqueue hnone
            have hlength : (k₁.lists.list k₁.pxDelayedTaskList).items.length < fuel := by
              rw [hdelays.items, hleft, hitems, List.filter_cons_of_neg (by simp)]
              rw [hitems, List.length_cons] at hfuel
              exact (List.length_filter_le _ _).trans_lt (by omega)
            obtain ⟨k₂, hloop, hcore₂, hrest₂, hun⟩ := ih hcore₁ (hsorted.filter _) hlength
            have hout := h.notMem_of_delayed ht
            have hts : t ∉ ts ++ (k.lists.list k.pxOverflowDelayedTaskList).items := by
              have hnodup := k.lists.nodup k.pxDelayedTaskList
              rw [hitems] at hnodup
              exact List.not_mem_append (List.nodup_cons.mp hnodup).1 hout.1
            rw [Schedule.wake_cons hsleeping hdue hts hout.2.1 hout.2.2] at hcore₂
            have hrest : Rest k k₁ :=
              ⟨hrest₁.number, hrest₁.held, hrest₁.missed, hrest₁.missedYield⟩
            refine ⟨k₂, ?_, hcore₂, hrest.trans hrest₂, hun⟩
            simp [Kernel.unblockTasks, ListStore.isEmpty, ListStore.headEntry, Lists.headEntry,
              ListStore.value, ListStore.remove, hitems, hlt, hremove, hadd, hloop]

/-- Without `xNextTaskUnblockTime` the list would be walked at every tick. -/
theorem prvCheckDelayedTasks (h : Core k s) (hsorted : SortedByKey s.wakeAt s.sleeping)
    (hun : Unblocked k) :
    ∃ k', k.prvCheckDelayedTasks = some k' ∧ Core k' s.wake ∧ Rest k k' ∧ Unblocked k' := by
  by_cases htime : k.xTickCount ≥ k.xNextTaskUnblockTime
  · obtain ⟨k', hloop, hcore, hrest, hun'⟩ := h.unblockTasks hsorted _ (Nat.lt_succ_self _)
    refine ⟨k', ?_, hcore, hrest, hun'⟩
    rw [Kernel.prvCheckDelayedTasks, if_pos htime]
    exact hloop
  · have hwake : s.wake = s := by
      refine Schedule.wake_of_not_due fun t ht => ?_
      have hmem := List.mem_of_mem_head? ht
      rw [← h.sleeping, List.mem_append] at hmem
      rcases hmem with hmem | hmem
      · rw [h.due_iff hmem, not_not]
        have hle := hun t hmem
        bv_omega
      · exact h.not_due_overflow hmem
    refine ⟨k, ?_, ?_, Rest.refl k, hun⟩
    · rw [Kernel.prvCheckDelayedTasks, if_neg htime]
    · rw [hwake]
      exact h

omit [DecidableEq T] in
/-- At an overflow nobody is left on the delayed list. -/
theorem delayed_eq_nil (h : Core k s) (hs : s.Orderly)
    (hwrap : turn 32 (s.now + 1) = turn 32 s.now + 1) :
    (k.lists.list k.pxDelayedTaskList).items = [] := by
  refine List.eq_nil_iff_forall_not_mem.mpr fun t ht => ?_
  have hle := turn_le_turn (w := 32) (hs.future t (h.mem_delayed ht))
  rw [Nat.succ_eq_add_one, hwrap, h.early t ht] at hle
  omega

theorem incrementTickCount (h : Core k s) (hs : s.Orderly) (hun : Unblocked k) :
    ∃ k', k.incrementTickCount = some k' ∧ Core k' { s with now := s.now + 1 } ∧ Rest k k' ∧
      Unblocked k' := by
  have htick : k.xTickCount + 1 = shown 32 (s.now + 1) := by
    rw [h.tickCount]
    exact (BitVec.ofNat_add s.now 1).symm
  have hturn := turn_succ 32 s.now
  rw [← htick] at hturn
  by_cases hzero : k.xTickCount + 1 = 0
  · rw [if_pos hzero] at hturn
    have hnil := h.delayed_eq_nil hs hturn
    have hcore (v : PortTickType) : Core { k with
        xTickCount := k.xTickCount + 1
        pxDelayedTaskList := k.pxOverflowDelayedTaskList
        pxOverflowDelayedTaskList := k.pxDelayedTaskList
        xNumOfOverflows := k.xNumOfOverflows + 1
        xNextTaskUnblockTime := v } { s with now := s.now + 1 } := by
      refine { h with
        tickCount := htick, overflows := ?_, sleeping := ?_,
        delayed := ?_, early := ?_, late := ?_ }
      · rw [hturn, h.overflows]
        exact (BitVec.ofNat_add _ 1).symm
      · have hsleeping := h.sleeping
        rw [hnil, List.nil_append] at hsleeping
        rw [hnil, List.append_nil]
        exact hsleeping
      · exact h.delayed.elim (fun hd => .inr ⟨hd.2, hd.1⟩) fun hd => .inl ⟨hd.2, hd.1⟩
      · exact fun t ht => (h.late t ht).trans hturn.symm
      · intro t ht
        rw [hnil] at ht
        cases ht
    cases hitems : (k.lists.list k.pxOverflowDelayedTaskList).items with
    | nil =>
        refine ⟨_, ?_, hcore portMAX_DELAY, ⟨rfl, rfl, rfl, rfl⟩, fun t ht => ?_⟩
        · refine (if_pos hzero).trans ?_
          simp [Kernel.switchDelayedLists, ListStore.isEmpty, hitems]
        · rw [hitems] at ht
          cases ht
    | cons t ts =>
        refine ⟨_, ?_, hcore (k.lists.value t), ⟨rfl, rfl, rfl, rfl⟩, fun u hu => ?_⟩
        · refine (if_pos hzero).trans ?_
          simp [Kernel.switchDelayedLists, ListStore.isEmpty, ListStore.headEntry,
            Lists.headEntry, ListStore.value, hitems]
        · refine ((hcore 0).value_le (by simp [hitems]) hu).mpr ?_
          have hfirst := (hcore 0).sorted_delayed hs.sorted
          simp only [hitems] at hfirst hu
          rcases List.mem_cons.mp hu with rfl | hu
          · exact le_rfl
          · exact (List.pairwise_cons.mp hfirst).1 u hu
  · rw [if_neg hzero] at hturn
    refine ⟨{ k with xTickCount := k.xTickCount + 1 }, ?_, ?_, ⟨rfl, rfl, rfl, rfl⟩, hun⟩
    · exact if_neg hzero
    · refine { h with tickCount := htick, overflows := ?_, early := ?_, late := ?_ }
      · rw [hturn]
        exact h.overflows
      · exact fun t ht => (h.early t ht).trans hturn.symm
      · exact fun t ht => (h.late t ht).trans (by rw [hturn])

/-- A tick while the scheduler is not suspended. -/
theorem vTaskIncrementTick (h : Core k s) (hs : s.Orderly) (hun : Unblocked k)
    (hheld : k.uxSchedulerSuspended = 0) :
    ∃ k', k.vTaskIncrementTick = some k' ∧ Core k' (s.advance 1) ∧ Rest k k' ∧ Unblocked k' := by
  obtain ⟨k₁, hcount, hcore₁, hrest₁, hun₁⟩ := h.incrementTickCount hs hun
  obtain ⟨k₂, hcheck, hcore₂, hrest₂, hun₂⟩ := hcore₁.prvCheckDelayedTasks hs.sorted hun₁
  refine ⟨k₂, ?_, hcore₂, hrest₁.trans hrest₂, hun₂⟩
  rw [Kernel.vTaskIncrementTick, if_pos hheld, hcount]
  exact hcheck

end Core

namespace Schedule

/-- Ticks one after the other, and ticks made up for at once. -/
theorem advance_advance (s : Schedule T) (m n : ℕ) :
    (s.advance m).advance n = s.advance (m + n) := by
  have hnow : s.now + m + n = s.now + (m + n) := Nat.add_assoc _ _ _
  have hle : s.now + m ≤ s.now + m + n := Nat.le_add_right _ _
  have htake : s.sleeping.takeWhile (due s.wakeAt (s.now + m)) ++
      (s.sleeping.dropWhile (due s.wakeAt (s.now + m))).takeWhile (due s.wakeAt (s.now + m + n)) =
        s.sleeping.takeWhile (due s.wakeAt (s.now + m + n)) := SortedByKey.takeWhile_append hle _
  have hready (p : Priority) : ((s.advance m).advance n).ready p = (s.advance (m + n)).ready p := by
    simp only [advance, wake, ← hnow, ← htake, List.filter_append, List.append_assoc]
    rfl
  have hsleeping : ((s.advance m).advance n).sleeping = (s.advance (m + n)).sleeping := by
    simp only [advance, wake, ← hnow]
    exact SortedByKey.dropWhile_dropWhile hle _
  exact Schedule.ext hnow rfl rfl rfl (funext hready) hsleeping rfl rfl rfl rfl rfl rfl rfl rfl
    rfl

theorem advance_zero (h : s.Orderly) : s.advance 0 = s := by
  refine wake_of_not_due fun t ht => ?_
  have hfuture := h.future t (List.mem_of_mem_head? ht)
  simpa [due] using hfuture

end Schedule

namespace Core

variable [DecidableEq T]

/-- The ticks that were missed. -/
theorem missedTicks (h : Core k s) (hs : s.Orderly) (hun : Unblocked k)
    (hheld : k.uxSchedulerSuspended = 0) (n : ℕ) :
    ∃ k', k.missedTicks n = some k' ∧ Core k' (s.advance n) ∧ Unblocked k' ∧
      Rest { k with uxMissedTicks := k.uxMissedTicks - BitVec.ofNat 32 n } k' := by
  induction n generalizing k s with
  | zero =>
      rw [Schedule.advance_zero hs]
      exact ⟨k, rfl, h, hun, rfl, rfl, (BitVec.sub_zero _).symm, rfl⟩
  | succ n ih =>
      obtain ⟨k₁, htick, hcore₁, hrest₁, hun₁⟩ := h.vTaskIncrementTick hs hun hheld
      obtain ⟨k₂, hmore, hcore₂, hun₂, hrest₂⟩ :=
        ih (k := { k₁ with uxMissedTicks := k₁.uxMissedTicks - 1 }) { hcore₁ with }
          (hs.advance 1) hun₁ (hrest₁.held.trans hheld)
      rw [Schedule.advance_advance, Nat.add_comm] at hcore₂
      refine ⟨k₂, ?_, hcore₂, hun₂, ?_⟩
      · rw [Kernel.missedTicks, htick]
        exact hmore
      · refine ⟨hrest₂.number.trans hrest₁.number, hrest₂.held.trans hrest₁.held, ?_,
          hrest₂.missedYield.trans hrest₁.missedYield⟩
        rw [hrest₂.missed]
        simp only [hrest₁.missed]
        bv_omega

/-! ## The processor is given to a task -/

theorem highestReady_eq {lists : Lists ListId T} {p : Priority}
    (hp : (lists.list (.pxReadyTasksLists p)).items ≠ [])
    (htop : ∀ q, p < q → (lists.list (.pxReadyTasksLists q)).items = []) (n : ℕ)
    (hn : n < configMAX_PRIORITIES) (hpn : (p : ℕ) ≤ n) :
    Kernel.highestReady lists n hn = some p := by
  induction n with
  | zero =>
      obtain rfl : p = ⟨0, hn⟩ := Fin.ext (Nat.le_zero.mp hpn)
      simpa [Kernel.highestReady, ListStore.isEmpty] using hp
  | succ n ih =>
      rcases Nat.lt_or_eq_of_le hpn with hlt | heq
      · have hempty := htop ⟨n + 1, hn⟩ hlt
        simp only [Kernel.highestReady, ListStore.isEmpty, hempty, List.isEmpty_nil, if_true]
        exact ih _ (Nat.le_of_lt_succ hlt)
      · obtain rfl : p = ⟨n + 1, hn⟩ := Fin.ext heq
        simp [Kernel.highestReady, ListStore.isEmpty, hp]

theorem vTaskSwitchContext (h : Core k s) (hun : Unblocked k) (hheld : k.uxSchedulerSuspended = 0) :
    Refines (fun k' s' => Core k' s' ∧ Rest k k' ∧ Unblocked k') k.vTaskSwitchContext
      s.dispatch := by
  intro s' hs
  obtain ⟨p, t, rest, hp, htop, rfl⟩ := Schedule.dispatch_eq hs
  have hitems (q : Priority) :
      (k.lists.list (.pxReadyTasksLists q)).items = [] ↔ s.ready q = [] := by
    rw [← h.ready q]
    exact ⟨fun hnil => by simpa [hnil] using (k.lists.list (.pxReadyTasksLists q)).perm_queue,
      fun hnil => by simpa [hnil] using (k.lists.list (.pxReadyTasksLists q)).perm_queue.symm⟩
  have hhighest : Kernel.highestReady k.lists k.uxTopReadyPriority k.uxTopReadyPriority.isLt =
      some p := by
    refine highestReady_eq ?_ (fun q hq => (hitems q).mpr (htop q hq)) _ _ (h.top p ?_)
    · rw [Ne, hitems, hp]
      simp
    · simp [hp]
  obtain ⟨c, hnext, hc⟩ := Cursor.next?_of_queue ((h.ready p).trans hp)
  have hentry : k.lists.nextEntry (.pxReadyTasksLists p) =
      some (t, k.lists.move _ c (Cursor.items_next hnext)) := by
    unfold Lists.nextEntry
    split
    · rename_i i d hd
      obtain ⟨rfl, rfl⟩ := Prod.mk.inj (Option.some.inj (hnext.symm.trans hd))
      rfl
    · rename_i hd
      rw [hnext] at hd
      cases hd
  have hother {l : ListId} (hl : l ≠ .pxReadyTasksLists p) :
      (k.lists.move _ c (Cursor.items_next hnext)).list l = k.lists.list l := by
    simp [Lists.move, hl]
  refine ⟨{ k with
    uxTopReadyPriority := p
    lists := k.lists.move _ c (Cursor.items_next hnext)
    pxCurrentTCB := some t
    switchedIn := (t, k.uxPriority t) :: k.switchedIn }, ?_, ?_, ⟨rfl, rfl, rfl, rfl⟩, ?_⟩
  · simp [Kernel.vTaskSwitchContext, hheld, hhighest, ListStore.nextEntry, hentry]
  · refine { h with
      current := rfl, switchedIn := ?_, ready := fun q => ?_, suspended := ?_, sleeping := ?_
      unused := ?_, early := ?_, late := ?_, value := h.value, top := ?_ }
    · rw [h.priority, h.switchedIn]
    · by_cases hq : q = p
      · subst hq
        simp [Lists.move, hc]
      · rw [hother (by simpa using hq)]
        exact (h.ready q).trans (Function.update_of_ne hq _ _).symm
    · rw [hother (by simp)]
      exact h.suspended
    · simp only [Lists.items_move]
      exact h.sleeping
    · simp only [Lists.items_move]
      exact h.unused
    · simp only [Lists.items_move]
      exact h.early
    · simp only [Lists.items_move]
      exact h.late
    · intro q hq
      by_contra hlt
      have hpq : p < q := not_le.mp hlt
      exact hq (by simpa [hpq.ne'] using htop q hpq)
  · intro u hu
    rw [Lists.items_move] at hu
    exact hun u hu

end Core

end RealTime.FreeRtos
