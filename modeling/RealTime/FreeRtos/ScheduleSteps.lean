import RealTime.FreeRtos.ScheduleRefinement

/-! # Every run of the kernel follows the schedule -/

namespace RealTime.FreeRtos

open Wraparound

variable {T : Type} [DecidableEq T] {k k' : Kernel (Lists ListId T) T} {s s' : Schedule T} {t : T}

theorem bind_of_eq_some {α β : Type} {x : Option α} {a : α} (h : x = some a) (f : α → Option β) :
    (x >>= f) = f a := by
  rw [h]
  rfl

/-- The lists have changed, but not what the scheduler is suspended for. -/
def Moved (k k' : Kernel (Lists ListId T) T) (s' : Schedule T) : Prop :=
  Core k' s' ∧ Rest k k' ∧ Unblocked k'

namespace Core

theorem withStage (h : Core k s) (t : T) (stage : Stage T) :
    Core { k with stage := Function.update k.stage t stage }
      { s with stage := Function.update s.stage t stage } :=
  { h with stage := by rw [h.stage] }

/-- The current task sleeps. -/
theorem delayCurrent (h : Core k s) (hun : Unblocked k) {wakeAt : ℕ} (hnow : s.now ≤ wakeAt)
    (hturn : wakeAt < s.now + 2 ^ 32) :
    Refines (Moved k) (k.delayCurrent (shown 32 wakeAt)) (s.sleepUntil wakeAt) := by
  intro s' hs
  obtain ⟨t, ht, hs⟩ := Option.bind_eq_some_iff.mp hs
  obtain ⟨s₁, hs₁, hs⟩ := Option.bind_eq_some_iff.mp hs
  obtain ⟨hplaced, rfl⟩ := Schedule.leave_eq hs₁
  obtain rfl := Option.some.inj hs
  obtain ⟨lists, hremove, hnone, hvalue, hcore, hleft⟩ := h.remove hplaced
  obtain ⟨k', hadd, hcore', hrest, hun'⟩ := hcore.sleep hnone ht hnow hturn
  refine ⟨k', ?_, hcore', ⟨hrest.number, hrest.held, hrest.missed, hrest.missedYield⟩,
    hun' fun u hu => ?_⟩
  · simp only [Kernel.delayCurrent, h.current, ht, ListStore.remove, Option.bind_eq_bind,
      Option.bind_some, hremove]
    exact hadd
  · rw [hleft] at hu
    rw [hvalue]
    exact hun u (List.mem_filter.mp hu).1

/-- A task that is on no list is suspended. -/
theorem suspend (h : Core k s) (ht : k.lists.container t = none) :
    ∃ lists, k.lists.insertEnd .xSuspendedTaskList t = some lists ∧
      Core { k with lists := lists } { s with suspended := s.suspended ++ [t] } ∧
        (lists.list k.pxDelayedTaskList).items = (k.lists.list k.pxDelayedTaskList).items ∧
          lists.value = k.lists.value := by
  have hother {l : ListId} (hl : l ≠ .xSuspendedTaskList) (c hc) :
      (k.lists.put .xSuspendedTaskList t c ht hc).list l = k.lists.list l := by
    simp [Lists.put, hl]
  have hdelayed : k.pxDelayedTaskList ≠ .xSuspendedTaskList ∧
      k.pxOverflowDelayedTaskList ≠ .xSuspendedTaskList := by
    rcases h.delayed with ⟨hd, ho⟩ | ⟨hd, ho⟩ <;> simp [hd, ho]
  refine ⟨k.lists.put .xSuspendedTaskList t ((k.lists.list .xSuspendedTaskList).insertHere t) ht
    (Cursor.items_insertHere _ _), ?_, ?_, ?_, rfl⟩
  · simp [Lists.insertEnd, ht]
  · refine { h with
      ready := fun p => ?_, suspended := ?_, sleeping := ?_, unused := ?_, early := ?_
      late := ?_, value := h.value }
    · rw [hother (by simp)]
      exact h.ready p
    · simp [Lists.put, Cursor.queue_insertHere, h.suspended]
    · rw [hother hdelayed.1, hother hdelayed.2]
      exact h.sleeping
    · rw [hother (by simp), hother (by simp)]
      exact h.unused
    · rw [hother hdelayed.1]
      exact h.early
    · rw [hother hdelayed.2]
      exact h.late
  · rw [hother hdelayed.1]

end Core

namespace Matches

omit [DecidableEq T] in
/-- The state of the scheduler has not changed with the lists. -/
theorem of_moved (h : Matches k s) (hk : Moved k k' s') (hcreated : s'.created = s.created)
    (hheld : s'.held = s.held) (hmissed : s'.missed = s.missed) (hticked : s'.ticked = s.ticked) :
    Matches k' s' := by
  obtain ⟨hcore, hrest, hun⟩ := hk
  refine ⟨hcore, hun, ?_, ?_, ?_, ?_⟩
  · rw [hrest.number, h.number, hcreated]
  · rw [hrest.held, h.held, hheld]
  · rw [hrest.missed, h.missed, hmissed]
  · rw [hrest.missedYield, h.missedYield, hticked]

theorem enterStage (h : Matches k s) (stage : Stage T) :
    Refines Matches (k.enterStage stage) (s.atStage stage) := by
  intro s' hs
  obtain ⟨t, ht, hs⟩ := Option.bind_eq_some_iff.mp hs
  obtain rfl := Option.some.inj hs
  refine ⟨_, Option.bind_eq_some_iff.mpr ⟨t, h.core.current.trans ht, rfl⟩, ?_⟩
  exact ⟨h.core.withStage t stage, h.unblocked, h.number, h.held, h.missed, h.missedYield⟩

theorem switchContext (h : Matches k s) (hheld : s.held = false) :
    Refines Matches k.vTaskSwitchContext s.dispatch := by
  intro s' hs
  have hk : k.uxSchedulerSuspended = 0 := by simp [h.held, hheld]
  obtain ⟨k', hk', hmoved⟩ := h.core.vTaskSwitchContext h.unblocked hk s' hs
  obtain ⟨p, t, rest, hp, -, rfl⟩ := Schedule.dispatch_eq hs
  exact ⟨k', hk', h.of_moved hmoved rfl rfl rfl rfl⟩

theorem vTick (h : Matches k s) (hg : s.Good) : Refines Matches k.vTick s.tick := by
  by_cases hheld : s.held
  · intro s' hs
    rw [Schedule.tick, if_pos hheld] at hs
    obtain rfl := Option.some.inj hs
    have hk : k.uxSchedulerSuspended = 1 := by simp [h.held, hheld]
    refine ⟨{ k with uxMissedTicks := k.uxMissedTicks + 1, xMissedYield := true }, ?_,
      { h.core with }, h.unblocked, h.number, h.held, ?_, ?_⟩
    · simp [Kernel.vTick, Kernel.vTaskIncrementTick, Kernel.vTaskSwitchContext, hk]
    · exact congrArg (· + 1) h.missed
    · rfl
  · have hheld : s.held = false := by simpa using hheld
    have hk : k.uxSchedulerSuspended = 0 := by simp [h.held, hheld]
    obtain ⟨k₁, htick, hmoved⟩ := h.core.vTaskIncrementTick hg.orderly h.unblocked hk
    have h₁ : Matches k₁ (s.advance 1) := h.of_moved hmoved rfl rfl rfl rfl
    rw [Schedule.tick, if_neg (by simp [hheld]), Kernel.vTick, htick]
    exact h₁.switchContext hheld

/-- A task goes on inside `vTaskDelay` or `vTaskDelayUntil`, and sleeps. -/
theorem sleepUntil (h : Matches k s) {wakeAt : ℕ} (hnow : s.now ≤ wakeAt)
    (hturn : wakeAt < s.now + 2 ^ 32) :
    Refines Matches (k.delayCurrent (shown 32 wakeAt) >>= fun k => k.enterStage .resume)
      (s.sleepUntil wakeAt >>= fun s => s.atStage .resume) := by
  refine Refines.bind (R := Matches) ?_ fun _ _ h => h.enterStage _
  intro s' hs
  obtain ⟨k', hk', hmoved⟩ := h.core.delayCurrent h.unblocked hnow hturn s' hs
  obtain ⟨t, ht, hs⟩ := Option.bind_eq_some_iff.mp hs
  obtain ⟨s₁, hs₁, hs⟩ := Option.bind_eq_some_iff.mp hs
  obtain ⟨-, rfl⟩ := Schedule.leave_eq hs₁
  obtain rfl := Option.some.inj hs
  exact ⟨k', hk', h.of_moved hmoved rfl rfl rfl rfl⟩

theorem delaySuspended (h : Matches k s) (n : PortTickType) :
    Refines Matches (k.delaySuspended n)
      (s.sleepUntil (s.now + n.toNat) >>= fun s => s.atStage .resume) := by
  have hwake : k.xTickCount + n = shown 32 (s.now + n.toNat) := by
    rw [h.core.tickCount, shown, shown, BitVec.ofNat_add, BitVec.ofNat_toNat, BitVec.setWidth_eq]
  rw [Kernel.delaySuspended, hwake]
  exact h.sleepUntil (Nat.le_add_right _ _) (Nat.add_lt_add_left n.isLt _)

theorem setLastWake (h : Matches k s) (t : T) (n : ℕ) :
    Matches { k with xPreviousWakeTime := Function.update k.xPreviousWakeTime t (shown 32 n) }
      { s with lastWake := Function.update s.lastWake t n } := by
  refine ⟨{ h.core with lastWake := fun u => ?_ }, h.unblocked, h.number, h.held, h.missed,
    h.missedYield⟩
  by_cases hu : u = t
  · simp [hu]
  · simpa [hu] using h.core.lastWake u

/-- The comparisons of the counters tell whether the time to wake is still to come. -/
theorem xShouldDelay_iff {m n d : ℕ} (hmn : m ≤ n) (hn : n < m + 2 ^ 32) (hd : d < 2 ^ 32) :
    Kernel.xShouldDelay (shown 32 n) (shown 32 m) (shown 32 (m + d)) = true ↔ n < m + d := by
  rw [← still_to_come hmn hn hd, Kernel.xShouldDelay]
  split <;> simp

theorem delayUntilSuspended (h : Matches k s) (n : PortTickType) :
    Refines Matches (k.delayUntilSuspended n) (s.delayUntil n.toNat) := by
  intro s' hs
  obtain ⟨t, ht, hs⟩ := Option.bind_eq_some_iff.mp hs
  simp only at hs
  split at hs
  · rename_i hpunctual
    have hwake : k.xPreviousWakeTime t + n = shown 32 (s.lastWake t + n.toNat) := by
      rw [h.core.lastWake, shown, shown, BitVec.ofNat_add, BitVec.ofNat_toNat, BitVec.setWidth_eq]
    have hshould := xShouldDelay_iff hpunctual.1 hpunctual.2 n.isLt
    rw [← h.core.tickCount, ← h.core.lastWake, ← hwake] at hshould
    have h' := h.setLastWake t (s.lastWake t + n.toNat)
    have hk : k.pxCurrentTCB = some t := h.core.current.trans ht
    rw [Kernel.delayUntilSuspended, bind_of_eq_some hk]
    simp only
    by_cases hnow : s.now < s.lastWake t + n.toNat
    · rw [if_pos hnow] at hs
      rw [if_pos (hshould.mpr hnow), hwake]
      refine h'.sleepUntil (Nat.le_of_lt hnow) ?_ s' hs
      exact Nat.add_lt_add_of_le_of_lt hpunctual.1 n.isLt
    · rw [if_neg hnow] at hs
      rw [if_neg (fun hyes => hnow (hshould.mp hyes)), hwake]
      exact h'.enterStage .resume s' hs
  · cases hs

/-- The scheduler is resumed. -/
theorem xTaskResumeAll (h : Matches k s) (hg : s.Good) (hcreated : s.created ≠ [])
    (hheld : s.held = true) :
    Refines (fun p q => p.1 = q.1 ∧ Matches p.2 q.2) k.xTaskResumeAll s.release := by
  have hk : k.uxSchedulerSuspended = 1 := by simp [h.held, hheld]
  have hnumber : 0 < k.uxCurrentNumberOfTasks := by
    rw [h.number]
    exact List.length_pos_of_ne_nil hcreated
  have hg' : Schedule.Orderly { s with held := false, missed := 0, ticked := false } :=
    ⟨hg.orderly.ready, hg.orderly.sorted, hg.orderly.future⟩
  have hcore : Core { k with uxSchedulerSuspended := 0 }
      { s with held := false, missed := 0, ticked := false } := { h.core with }
  obtain ⟨k₁, hticks, hcore₁, hun₁, hrest₁⟩ :=
    hcore.missedTicks hg' h.unblocked rfl k.uxMissedTicks.toNat
  have hyield : k₁.xMissedYield = s.ticked := hrest₁.missedYield.trans h.missedYield
  have hmissed : k₁.uxMissedTicks = 0 := by
    rw [hrest₁.missed]
    simp
  have h₁ : Matches { k₁ with xMissedYield := false }
      (Schedule.advance { s with held := false, missed := 0, ticked := false } s.missed.toNat) := by
    rw [h.missed] at hcore₁
    exact ⟨{ hcore₁ with }, hun₁, hrest₁.number.trans h.number, hrest₁.held, hmissed, rfl⟩
  have hrequired : (decide (0 < k.uxMissedTicks) || k₁.xMissedYield) = s.ticked := by
    rw [hyield, h.missed]
    cases hticked : s.ticked with
    | false => simp [hg.staged.missed hticked]
    | true => simp
  have hresume : k.xTaskResumeAll =
      if s.ticked then
        (Kernel.vTaskSwitchContext { k₁ with xMissedYield := false }).map (true, ·)
      else some (false, k₁) := by
    rw [← hrequired, Kernel.xTaskResumeAll]
    simp only [hk]
    rw [if_pos ⟨trivial, hnumber⟩]
    refine (bind_of_eq_some hticks _).trans ?_
    rw [Option.map_eq_bind]
    rfl
  rw [hresume, Schedule.release]
  by_cases hticked : s.ticked
  · rw [if_pos hticked, if_pos hticked]
    exact (h₁.switchContext rfl).map fun _ _ h => ⟨rfl, h⟩
  · rw [if_neg hticked, if_neg hticked]
    have hfalse : s.ticked = false := by simpa using hticked
    have hzero : s.missed.toNat = 0 := by rw [hg.staged.missed hfalse]; rfl
    rw [hzero, Schedule.advance_zero hg'] at h₁
    exact Refines.some ⟨rfl, { h₁ with
      core := { h₁.core with }
      missedYield := hyield.trans hfalse }⟩

theorem resumeSuspended (h : Matches k s) (hg : s.Good) (hheld : s.held = true)
    (next : Bool → Stage T) : Refines Matches (k.resumeSuspended next) (s.resumed next) := by
  intro s' hs
  obtain ⟨t, ht, hs⟩ := Option.bind_eq_some_iff.mp hs
  have hk : k.pxCurrentTCB = some t := h.core.current.trans ht
  have hcreated : s.created ≠ [] := fun hnil =>
    absurd (ht.symm.trans (hg.created.mp hnil)) (by simp)
  have hresume := h.xTaskResumeAll hg hcreated hheld
  rw [Kernel.resumeSuspended, bind_of_eq_some hk]
  refine Refines.bind hresume ?_ s' hs
  rintro ⟨_, k₁⟩ ⟨yielded, s₁⟩ ⟨rfl, h₁⟩
  exact Refines.some ⟨h₁.core.withStage t _, h₁.unblocked, h₁.number, h₁.held, h₁.missed,
    h₁.missedYield⟩

/-- A task leaves its list, and is on none. -/
theorem remove (h : Matches k s) (hs : s.leave t = some s') : ∃ lists,
    k.lists.remove t = some lists ∧ lists.container t = none ∧
      Matches { k with lists := lists } s' := by
  obtain ⟨hplaced, rfl⟩ := Schedule.leave_eq hs
  obtain ⟨lists, hremove, hnone, hvalue, hcore, hleft⟩ := h.core.remove hplaced
  refine ⟨lists, hremove, hnone, hcore, fun u hu => ?_, h.number, h.held, h.missed, h.missedYield⟩
  rw [hleft] at hu
  rw [hvalue]
  exact h.unblocked u (List.mem_filter.mp hu).1

theorem enqueue (h : Matches k s) (ht : k.lists.container t = none) :
    ∃ k', k.prvAddTaskToReadyQueue t = some k' ∧ Matches k' (s.enqueue t) := by
  obtain ⟨k', hadd, hcore, hrest, hdelays⟩ := h.core.enqueue ht
  refine ⟨k', hadd, h.of_moved ⟨hcore, hrest, fun u hu => ?_⟩ rfl rfl rfl rfl⟩
  rw [hdelays.items] at hu
  rw [hdelays.unblock, hdelays.value]
  exact h.unblocked u hu

theorem vTaskSuspend (h : Matches k s) (handle : Option T) :
    Refines Matches (k.vTaskSuspend handle) (s.suspend handle) := by
  intro s' hs
  obtain ⟨t, ht, hs⟩ := Option.bind_eq_some_iff.mp hs
  obtain ⟨s₁, hs₁, hs⟩ := Option.bind_eq_some_iff.mp hs
  obtain ⟨lists, hremove, hnone, h₁⟩ := h.remove hs₁
  obtain ⟨lists', hinsert, hcore, hitems, hvalue⟩ := h₁.core.suspend hnone
  have h₂ : Matches { k with lists := lists' } { s₁ with suspended := s₁.suspended ++ [t] } := by
    refine ⟨hcore, fun u hu => ?_, h₁.number, h₁.held, h₁.missed, h₁.missedYield⟩
    rw [hitems] at hu
    rw [hvalue]
    exact h₁.unblocked u hu
  have hk : k.prvGetTCBFromHandle handle = some t := by
    rw [Kernel.prvGetTCBFromHandle, h.core.current]
    exact ht
  have hcurrent : k.pxCurrentTCB = s₁.current := h₁.core.current
  obtain ⟨k', hk', h'⟩ := Refines.ite (h₂.enterStage .yield) (Refines.some h₂) s' hs
  refine ⟨k', ?_, h'⟩
  rw [← hcurrent] at hk'
  rw [Kernel.vTaskSuspend, bind_of_eq_some hk]
  exact (bind_of_eq_some hremove _).trans ((bind_of_eq_some hinsert _).trans hk')

theorem vTaskResume (h : Matches k s) (hg : s.Good) (hown : s.ownCode) (t : T) :
    Refines Matches (k.vTaskResume t) (s.resume t) := by
  intro s' hs
  obtain ⟨c, hc, hs⟩ := Option.bind_eq_some_iff.mp hs
  have hk : k.pxCurrentTCB = some c := h.core.current.trans hc
  rw [Kernel.vTaskResume, bind_of_eq_some hk]
  split at hs
  · rename_i hplaced
    by_cases htc : t = c
    · rw [if_neg (by simp [htc])] at hs ⊢
      exact Refines.some h s' hs
    · obtain ⟨l, hl⟩ := Option.ne_none_iff_exists'.mp (h.core.placed_iff.mp hplaced)
      have hcontained : ListStore.contained k.lists .xSuspendedTaskList t =
          some (decide (t ∈ s.suspended)) := by
        simp [ListStore.contained, Lists.contained, h.core.mem_suspended, hl]
      rw [if_pos htc, bind_of_eq_some hcontained]
      by_cases hsuspended : t ∈ s.suspended
      · rw [if_pos ⟨htc, hsuspended⟩] at hs
        rw [if_pos (by simpa using hsuspended)]
        obtain ⟨s₁, hs₁, hs⟩ := Option.bind_eq_some_iff.mp hs
        obtain ⟨lists, hremove, hnone, h₁⟩ := h.remove hs₁
        obtain ⟨k₂, hadd, h₂⟩ := h₁.enqueue hnone
        obtain ⟨-, rfl⟩ := Schedule.leave_eq hs₁
        have hfree := (hg.own hown).1.held
        have hpriority : k₂.uxPriority = s.priority := h₂.core.priority
        obtain ⟨k', hk', h'⟩ := Refines.ite_iff (c := k₂.uxPriority t ≥ k₂.uxPriority c)
          (by rw [hpriority]; rfl) (h₂.switchContext hfree) (Refines.some h₂) s' hs
        exact ⟨k', (bind_of_eq_some hremove _).trans ((bind_of_eq_some hadd _).trans hk'), h'⟩
      · rw [if_neg (by simp [hsuspended])] at hs ⊢
        exact Refines.some h s' hs
  · cases hs

theorem setPriority (h : Matches k s) (t : T) (p : Priority) :
    Matches { k with uxPriority := Function.update k.uxPriority t p }
      { s with priority := Function.update s.priority t p } :=
  ⟨{ h.core with priority := by rw [h.core.priority] }, h.unblocked, h.number, h.held, h.missed,
    h.missedYield⟩

theorem changePriority (h : Matches k s) (t : T) (p : Priority) :
    Refines Matches (k.changePriority t p) (s.prioritise t p) := by
  intro s' hs
  have h' := h.setPriority t p
  have hprio : k.uxPriority t = s.priority t := by rw [h.core.priority]
  have hcontained (hplaced : s.placed t) : ListStore.contained k.lists
      (.pxReadyTasksLists (k.uxPriority t)) t = some (decide (t ∈ s.ready (s.priority t))) := by
    obtain ⟨l, hl⟩ := Option.ne_none_iff_exists'.mp (h.core.placed_iff.mp hplaced)
    simp [ListStore.contained, Lists.contained, h.core.mem_ready, hl, hprio]
  unfold Schedule.prioritise at hs
  simp only at hs
  split at hs
  · rename_i ht
    obtain ⟨s₁, hs₁, rfl⟩ := Option.map_eq_some_iff.mp hs
    obtain ⟨lists, hremove, hnone, h₁⟩ := h'.remove hs₁
    obtain ⟨k₂, hadd, h₂⟩ := h₁.enqueue hnone
    refine ⟨k₂, ?_, h₂⟩
    rw [Kernel.changePriority]
    refine (bind_of_eq_some (hcontained (.inl ⟨_, ht⟩)) _).trans ?_
    rw [if_pos (by simpa using ht)]
    exact (bind_of_eq_some hremove _).trans hadd
  · rename_i ht
    split at hs
    · rename_i hplaced
      obtain rfl := Option.some.inj hs
      refine ⟨_, ?_, h'⟩
      rw [Kernel.changePriority]
      refine (bind_of_eq_some (hcontained hplaced) _).trans ?_
      rw [if_neg (by simpa using ht)]
      rfl
    · cases hs

theorem vTaskPrioritySet (h : Matches k s) (hg : s.Good) (hown : s.ownCode) (handle : Option T)
    (n : ℕ) : Refines Matches (k.vTaskPrioritySet handle n) (s.setPriority handle n) := by
  intro s' hs
  obtain ⟨t, ht, hs⟩ := Option.bind_eq_some_iff.mp hs
  have hk : k.prvGetTCBFromHandle handle = some t := by
    rw [Kernel.prvGetTCBFromHandle, h.core.current]
    exact ht
  have hprio : k.uxPriority t = s.priority t := by rw [h.core.priority]
  rw [Kernel.vTaskPrioritySet, bind_of_eq_some hk]
  simp only [hprio, h.core.current] at hs ⊢
  split at hs
  · rename_i hne
    rw [if_pos hne]
    obtain ⟨s₁, hs₁, hs⟩ := Option.bind_eq_some_iff.mp hs
    obtain ⟨k₁, hk₁, h₁⟩ := h.changePriority t _ s₁ hs₁
    have hheld₁ : s₁.held = s.held := by
      rcases Schedule.prioritise_eq hs₁ with ⟨-, rfl⟩ | ⟨-, rfl⟩ <;> rfl
    have hyield : (if s.priority t < Kernel.cappedPriority n then
        (if some t = s.current then none else handle).isSome
          else (if some t = s.current then none else handle).isNone) =
        (decide (some t = s.current) != decide (s.priority t < Kernel.cappedPriority n)) := by
      by_cases htc : some t = s.current
      · by_cases hlt : s.priority t < Kernel.cappedPriority n <;> simp [htc, hlt]
      · have hhandle : handle = some t := by
          cases handle with
          | none => exact absurd ht.symm htc
          | some u => exact ht
        by_cases hlt : s.priority t < Kernel.cappedPriority n <;> simp [htc, hlt, hhandle]
    rw [hyield]
    have hfree := hheld₁.trans (hg.own hown).1.held
    obtain ⟨k', hk', h'⟩ := Refines.ite (h₁.switchContext hfree) (Refines.some h₁) s' hs
    exact ⟨k', (bind_of_eq_some hk₁ _).trans hk', h'⟩
  · rename_i hne
    rw [if_neg hne]
    exact Refines.some h s' hs

theorem hold (h : Matches k s) (hheld : s.held = false) (stage : Stage T) :
    Refines Matches (k.vTaskSuspendAll.enterStage stage) (s.hold stage) := by
  have hk : k.uxSchedulerSuspended = 0 := by simp [h.held, hheld]
  have h' : Matches k.vTaskSuspendAll { s with held := true } :=
    ⟨{ h.core with }, h.unblocked, h.number, by simp [Kernel.vTaskSuspendAll, hk], h.missed,
      h.missedYield⟩
  rw [Schedule.hold, if_neg (by simp [hheld])]
  exact h'.enterStage stage

end Matches

/-! ## New tasks -/

namespace Core

theorem addNewTask (h : Core k s) (hun : Unblocked k) (n : ℕ) :
    Refines (Moved k) (k.addNewTask t n) (s.add t n) := by
  intro s' hs
  obtain ⟨ht, rfl⟩ := Schedule.add_eq hs
  have hnone : k.lists.container t = none := h.container_eq_none ht
  have hitem : ListStore.initialiseItem k.lists t =
      some { k.lists with cleared := Function.update k.lists.cleared t true } := if_pos hnone
  have hcurrent : k.currentWith t n = s.currentWith t n := by
    cases hc : s.current <;>
      simp [Kernel.currentWith, Schedule.currentWith, h.current, h.running, h.priority, hc]
  have h' : Core
      { k with
        uxPriority := Function.update k.uxPriority t (Kernel.cappedPriority n)
        stage := Function.update k.stage t .own
        pxCurrentTCB := some (s.currentWith t n)
        lists := { k.lists with cleared := Function.update k.lists.cleared t true } }
      { s with
        current := some (s.currentWith t n)
        priority := Function.update s.priority t (Kernel.cappedPriority n)
        stage := Function.update s.stage t .own
        created := t :: s.created } :=
    { h with current := rfl, priority := by rw [h.priority], stage := by rw [h.stage] }
  obtain ⟨k₁, hadd, hcore, hrest, hdelays⟩ := h'.enqueue hnone
  refine ⟨k₁, ?_, hcore, ⟨hrest.number, hrest.held, hrest.missed, hrest.missedYield⟩,
    fun u hu => ?_⟩
  · rw [Kernel.addNewTask, hcurrent, bind_of_eq_some hitem]
    exact hadd
  · rw [hdelays.items] at hu
    rw [hdelays.unblock, hdelays.value]
    exact hun u hu

/-- As long as there is no task, the lists may be initialised. -/
theorem prvInitialiseTaskLists (h : Core k s) (hfresh : ∀ t, ¬ s.placed t) :
    Core k.prvInitialiseTaskLists s ∧ Unblocked k.prvInitialiseTaskLists := by
  have hready (p : Priority) : s.ready p = [] :=
    List.eq_nil_iff_forall_not_mem.mpr fun t ht => hfresh t (.inl ⟨p, ht⟩)
  have hsleeping : s.sleeping = [] :=
    List.eq_nil_iff_forall_not_mem.mpr fun t ht => hfresh t (.inr (.inl ht))
  have hsuspended : s.suspended = [] :=
    List.eq_nil_iff_forall_not_mem.mpr fun t ht => hfresh t (.inr (.inr ht))
  have hitems (l : ListId) : (k.prvInitialiseTaskLists.lists.list l).items = [] := rfl
  have hqueue (l : ListId) : (k.prvInitialiseTaskLists.lists.list l).queue = [] := rfl
  refine ⟨{ h with
    ready := fun p => (hqueue _).trans (hready p).symm
    suspended := (hqueue _).trans hsuspended.symm
    sleeping := hsleeping.symm
    delayed := .inl ⟨rfl, rfl⟩
    unused := ⟨rfl, rfl⟩
    early := fun t ht => ?_, late := fun t ht => ?_, value := fun t ht => ?_
    top := fun p hp => absurd (hready p) hp }, fun t ht => ?_⟩
  · simp [hitems] at ht
  · simp [hitems] at ht
  · simp [hsleeping] at ht
  · simp [hitems] at ht

end Core

namespace Matches

theorem addTask (h : Matches k s) (hg : s.Good) (t : T) (n : ℕ) :
    Refines Matches (k.addTask t n) (s.add t n) := by
  intro s' hs
  obtain ⟨-, rfl⟩ := Schedule.add_eq hs
  have hcreated {k₁ : Kernel (Lists ListId T) T} (hcore : Core k₁ s) (hun : Unblocked k₁)
      (hrest : Rest { k with uxCurrentNumberOfTasks := k.uxCurrentNumberOfTasks + 1 } k₁) :
      ∃ k', k₁.addNewTask t n = some k' ∧ Matches k' (s.introduce t n) := by
    obtain ⟨k', hk', hcore', hrest', hun'⟩ := hcore.addNewTask hun n _ hs
    refine ⟨k', hk', hcore', hun', ?_, ?_, ?_, ?_⟩
    · rw [hrest'.number, hrest.number]
      exact congrArg (· + 1) h.number
    · exact hrest'.held.trans (hrest.held.trans h.held)
    · exact hrest'.missed.trans (hrest.missed.trans h.missed)
    · exact hrest'.missedYield.trans (hrest.missedYield.trans h.missedYield)
  have hcore : Core { k with uxCurrentNumberOfTasks := k.uxCurrentNumberOfTasks + 1 } s :=
    { h.core with }
  have hnumber : (k.pxCurrentTCB = none ∧ k.uxCurrentNumberOfTasks + 1 = 1) ↔ s.current = none := by
    rw [h.core.current, h.number, ← hg.created]
    simp
  by_cases hfirst : s.current = none
  · rw [Kernel.addTask, if_pos (hnumber.mpr hfirst)]
    obtain ⟨hcore₁, hun₁⟩ := hcore.prvInitialiseTaskLists (hg.fresh hfirst).1
    exact hcreated hcore₁ hun₁ ⟨rfl, rfl, rfl, rfl⟩
  · rw [Kernel.addTask, if_neg fun hyes => hfirst (hnumber.mp hyes)]
    exact hcreated hcore h.unblocked (Rest.refl _)

/-- Before the scheduler runs nothing is missed while memory is allocated. -/
theorem pvPortMalloc (h : Matches k s) (hg : s.Good) (hstopped : s.running = false) :
    k.pvPortMalloc = some k := by
  have hticked := hg.staged.ticked (hg.stopped hstopped).2.1
  refine k.pvPortMalloc_eq (.inr ⟨?_, h.missedYield.trans hticked⟩)
  exact h.missed.trans (hg.staged.missed hticked)

theorem xTaskGenericCreate_stopped (h : Matches k s) (hg : s.Good) (hstopped : s.running = false)
    (t : T) (n : ℕ) : k.xTaskGenericCreate t n = k.addTask t n := by
  have hk : ¬ k.xSchedulerRunning = true := by simp [h.core.running, hstopped]
  have hmalloc := h.pvPortMalloc hg hstopped
  rw [Kernel.xTaskGenericCreate, if_neg hk, bind_of_eq_some hmalloc, bind_of_eq_some hmalloc]

theorem xTaskGenericCreate (h : Matches k s) (hg : s.Good) (hok : s.running = false ∨ s.ownCode)
    (t : T) (n : ℕ) : Refines Matches (k.xTaskGenericCreate t n) (s.create t n) := by
  by_cases hrunning : s.running
  · have hheld := (hg.own (hok.resolve_left (by simp [hrunning]))).1.held
    rw [Kernel.xTaskGenericCreate, if_pos (h.core.running.trans hrunning), Schedule.create,
      if_pos hrunning]
    exact h.hold hheld _
  · rw [h.xTaskGenericCreate_stopped hg (by simpa using hrunning), Schedule.create,
      if_neg hrunning]
    exact h.addTask hg t n

theorem createWithoutMemory (h : Matches k s) (hg : s.Good) (hok : s.running = false ∨ s.ownCode)
    (tcb : Bool) : Refines Matches (k.createWithoutMemory tcb) (s.createWithoutMemory tcb) := by
  by_cases hrunning : s.running
  · have hheld := (hg.own (hok.resolve_left (by simp [hrunning]))).1.held
    rw [Kernel.createWithoutMemory, if_pos (h.core.running.trans hrunning),
      Schedule.createWithoutMemory, if_pos hrunning]
    exact h.hold hheld _
  · have hk : ¬ k.xSchedulerRunning = true := by simpa [h.core.running] using hrunning
    have hmalloc := h.pvPortMalloc hg (by simpa using hrunning)
    have hsame : k.createWithoutMemory tcb = some k := by
      rw [Kernel.createWithoutMemory, if_neg hk]
      cases tcb with
      | false => exact hmalloc
      | true => exact (bind_of_eq_some hmalloc _).trans ((bind_of_eq_some hmalloc _).trans hmalloc)
    rw [hsame, Schedule.createWithoutMemory, if_neg hrunning]
    exact Refines.some h

/-- A task goes on with the creation of another. -/
theorem createSuspended (h : Matches k s) (hg : s.Good) (hheld : s.held = false)
    (next : Creation T) : Refines Matches (k.createSuspended next) (s.goOn next) := by
  cases next with
  | mallocStack | noStack | freeTCB => exact h.hold hheld _
  | addTask t n => exact Refines.bind (h.addTask hg t n) fun _ _ h => h.enterStage _
  | testPriority n =>
      intro s' hs
      obtain ⟨c, hc, hs⟩ := Option.bind_eq_some_iff.mp hs
      have hk : k.pxCurrentTCB = some c := h.core.current.trans hc
      rw [Kernel.createSuspended, bind_of_eq_some hk, h.core.priority]
      exact h.enterStage _ s' hs
  | done => exact h.enterStage .own

theorem proceed (h : Matches k s) (hg : s.Good) : Refines Matches k.proceed s.proceed := by
  intro s' hs
  obtain ⟨t, ht, hs⟩ := Option.bind_eq_some_iff.mp hs
  have hk : k.currentStage = some (s.stage t) := by
    rw [Variables.currentStage, h.core.current, ht, h.core.stage]
    rfl
  have hheld {stage : Stage T} (hstage : s.stage t = stage) (hinside : stage.inside) :
      s.held = true := (hg.staged.inside t (hstage ▸ hinside)).2
  rw [Kernel.proceed, bind_of_eq_some hk]
  cases hstage : s.stage t with
  | own =>
      rw [hstage] at hs
      cases hs
  | delay n =>
      rw [hstage] at hs
      exact h.delaySuspended n s' hs
  | delayUntil n =>
      rw [hstage] at hs
      exact h.delayUntilSuspended n s' hs
  | resume =>
      rw [hstage] at hs
      exact h.resumeSuspended hg (hheld hstage rfl) _ s' hs
  | yield =>
      rw [hstage] at hs
      obtain ⟨s₁, hs₁, hs⟩ := Option.bind_eq_some_iff.mp hs
      obtain ⟨k₁, hk₁, h₁⟩ := h.enterStage .own s₁ hs₁
      have hfree := hg.staged.held_eq_false ht (by rw [hstage]; rfl)
      obtain ⟨u, hu, hs₁⟩ := Option.bind_eq_some_iff.mp hs₁
      obtain rfl := Option.some.inj hs₁
      obtain ⟨k', hk', h'⟩ := h₁.switchContext hfree s' hs
      exact ⟨k', (bind_of_eq_some hk₁ _).trans hk', h'⟩
  | malloc next =>
      rw [hstage] at hs
      exact h.resumeSuspended hg (hheld hstage rfl) _ s' hs
  | create next =>
      rw [hstage] at hs
      exact h.createSuspended hg (hg.staged.held_eq_false ht (by rw [hstage]; rfl)) next s' hs

theorem vTaskStartScheduler (h : Matches k s) (hg : s.Good) (hstopped : s.running = false)
    (idle : T) : Refines Matches (k.vTaskStartScheduler idle) (s.start idle) := by
  intro s' hs
  obtain ⟨s₁, hs₁, hs⟩ := Option.bind_eq_some_iff.mp hs
  obtain rfl := Option.some.inj hs
  obtain ⟨k₁, hk₁, h₁⟩ := h.addTask hg idle _ s₁ hs₁
  rw [← h.xTaskGenericCreate_stopped hg hstopped] at hk₁
  -- The tick count has not moved yet.
  have hnow : s₁.now = 0 := by
    obtain ⟨-, rfl⟩ := Schedule.add_eq hs₁
    exact (hg.stopped hstopped).1
  have htick : (0 : PortTickType) = shown 32 s₁.now := by rw [hnow]; rfl
  exact ⟨_, bind_of_eq_some hk₁ _, { h₁.core with running := rfl, tickCount := htick },
    h₁.unblocked, h₁.number, h₁.held, h₁.missed, h₁.missedYield⟩

omit [DecidableEq T] in
theorem ownCode_iff (h : Matches k s) : k.ownCode ↔ s.ownCode := by
  rw [Variables.ownCode, Variables.currentStage, Schedule.ownCode, h.core.running,
    h.core.current, h.core.stage]

/-- Whatever happens to the schedule happens to the kernel. -/
theorem step (h : Matches k s) (hg : s.Good) (action : Action T) :
    Refines Matches (k.step action) (s.step action) := by
  have hif {c d : Prop} [Decidable c] [Decidable d] {x : Option (Kernel (Lists ListId T) T)}
      {y : Option (Schedule T)} (hcd : c ↔ d) (hxy : d → Refines Matches x y) :
      Refines Matches (if c then x else none) (if d then y else none) := by
    by_cases hd : d
    · exact Refines.ite_iff hcd (hxy hd) (Refines.none _)
    · rw [if_neg hd]
      exact Refines.none _
  have hrunning : k.xSchedulerRunning = s.running := h.core.running
  have hfree (hown : s.ownCode) : s.held = false := (hg.own hown).1.held
  cases action with
  | xTaskCreate t n =>
      exact hif (by rw [hrunning, h.ownCode_iff]) fun hok => h.xTaskGenericCreate hg hok t n
  | xTaskCreateFails tcb =>
      exact hif (by rw [hrunning, h.ownCode_iff]) fun hok => h.createWithoutMemory hg hok tcb
  | vTaskStartScheduler t =>
      exact hif (by rw [hrunning]) fun hstopped => h.vTaskStartScheduler hg hstopped t
  | vTick => exact hif (by rw [hrunning]) fun _ => h.vTick hg
  | proceed => exact hif (by rw [hrunning]) fun _ => h.proceed hg
  | taskYIELD =>
      exact hif h.ownCode_iff fun hown => h.switchContext (hfree hown)
  | vTaskDelay n =>
      exact hif h.ownCode_iff fun hown => Refines.ite (h.hold (hfree hown) _) (h.enterStage _)
  | vTaskDelayUntil n => exact hif h.ownCode_iff fun hown => h.hold (hfree hown) _
  | xTaskGetTickCount =>
      refine hif h.ownCode_iff fun _ s' hs => ?_
      obtain ⟨c, hc, rfl⟩ := Option.map_eq_some_iff.mp hs
      have hk : k.pxCurrentTCB = some c := h.core.current.trans hc
      refine ⟨_, ?_, h.setLastWake c s.now⟩
      rw [← h.core.tickCount]
      exact bind_of_eq_some hk _
  | vTaskSuspend t => exact hif h.ownCode_iff fun _ => h.vTaskSuspend t
  | vTaskResume t => exact hif h.ownCode_iff fun hown => h.vTaskResume hg hown t
  | vTaskPrioritySet t n => exact hif h.ownCode_iff fun hown => h.vTaskPrioritySet hg hown t n

omit [DecidableEq T] in
theorem powerOn (priority : T → Priority) (lastWake : T → PortTickType) (value : T → PortTickType) :
    Matches (Kernel.powerOn (Lists.empty value) priority lastWake)
      (Schedule.powerOn priority fun t => (lastWake t).toNat) := by
  refine ⟨⟨rfl, rfl, rfl, rfl, rfl, fun t => ?_, rfl, ?_, fun _ => rfl, rfl, rfl, .inl ⟨rfl, rfl⟩,
    ⟨rfl, rfl⟩, nofun, nofun, nofun, fun _ h => absurd rfl h⟩, nofun, ?_, rfl, rfl, rfl⟩
  · simp [Kernel.powerOn, Schedule.powerOn, shown]
  · simp [Kernel.powerOn, Schedule.powerOn, shown, turn]
  · simp [Kernel.powerOn, Schedule.powerOn]

theorem run (h : Matches k s) (hg : s.Good) (actions : List (Action T)) :
    Refines Matches (k.run actions) (s.run actions) := by
  induction actions generalizing k s with
  | nil => exact Refines.some h
  | cons action actions ih =>
      intro s' hs
      obtain ⟨s₁, hs₁, hs⟩ := Option.bind_eq_some_iff.mp hs
      obtain ⟨k₁, hk₁, h₁⟩ := h.step hg action s₁ hs₁
      obtain ⟨k', hk', h'⟩ := ih h₁ (hg.step hs₁) s' hs
      exact ⟨k', (bind_of_eq_some hk₁ _).trans hk', h'⟩

end Matches

/-! ## The kernel in its memory -/

/-- The kernel with its pointers stands for the state of the schedule. -/
def Follows (k : Kernel (Memory ListId T) T) (s : Schedule T) : Prop :=
  ∃ k' : Kernel (Lists ListId T) T, Implements Represents k k' ∧ Matches k' s

namespace Follows

variable {k : Kernel (Memory ListId T) T}

theorem core (h : Follows k s) : ∃ k' : Kernel (Lists ListId T) T,
    k.toVariables = k'.toVariables ∧ Core k' s := by
  obtain ⟨k', himplements, hmatches⟩ := h
  exact ⟨k', himplements.toVariables_eq, hmatches.core⟩

theorem powerOn (m : Memory ListId T) (priority : T → Priority) (lastWake : T → PortTickType) :
    Follows (Kernel.powerOn m priority lastWake)
      (Schedule.powerOn priority fun t => (lastWake t).toNat) :=
  ⟨Kernel.powerOn (Lists.empty fun t => m.xItemValue (.item t)) priority lastWake,
    .off _ rfl rfl rfl fun _ => rfl, Matches.powerOn _ _ _⟩

theorem run (h : Follows k s) (hg : s.Good) (actions : List (Action T)) :
    Refines Follows (k.run actions) (s.run actions) := by
  obtain ⟨k', himplements, hmatches⟩ := h
  intro s' hs
  obtain ⟨k₁', hk₁', hmatches₁⟩ := hmatches.run hg actions s' hs
  obtain ⟨k₁, hk₁, himplements₁⟩ := himplements.run represents_refines actions k₁' hk₁'
  exact ⟨k₁, hk₁, k₁', himplements₁, hmatches₁⟩

end Follows

/-- From memory that holds anything, the kernel does what the schedule says. -/
theorem run_powerOn (m : Memory ListId T) (uxPriority : T → Priority)
    (xPreviousWakeTime : T → PortTickType) (actions : List (Action T))
    (h : (Schedule.powerOn uxPriority fun t => (xPreviousWakeTime t).toNat).run actions = some s) :
    ∃ k, (Kernel.powerOn m uxPriority xPreviousWakeTime).run actions = some k ∧ Follows k s ∧
      k.pxCurrentTCB = s.current ∧ k.xTickCount = shown 32 s.now ∧
        k.xNumOfOverflows = shown 32 (turn 32 s.now) ∧ k.uxPriority = s.priority ∧
          k.uxCurrentNumberOfTasks = s.created.length ∧ k.switchedIn = s.switchedIn := by
  obtain ⟨k, hk, k', himplements, hmatches⟩ :=
    (Follows.powerOn m uxPriority xPreviousWakeTime).run (Schedule.good_powerOn _ _) actions s h
  have hcore := hmatches.core
  refine ⟨k, hk, ⟨k', himplements, hmatches⟩, ?_⟩
  rw [himplements.toVariables_eq]
  exact ⟨hcore.current, hcore.tickCount, hcore.overflows, hcore.priority, hmatches.number,
    hcore.switchedIn⟩

/-- Memory that has been used for something else. -/
def stale : Memory ListId (Fin 3) :=
  ⟨fun _ => 9, fun _ => .item 2, fun _ => .item 1, fun _ => none, fun _ => 5, fun _ => .item 2⟩

/-- Of two tasks the higher one sleeps for a tick, while the lower one runs. -/
theorem run_powerOn_stale : ∃ k,
    (Kernel.powerOn stale (fun _ => 7) fun _ => 3).run
        [.xTaskCreate 1 2, .xTaskCreate 2 9, .vTaskStartScheduler 0, .vTick, .vTaskDelay 1,
          .proceed, .proceed, .proceed, .vTick, .vTick] = some k ∧
      k.switchedIn.map Prod.fst = [2, 2, 1, 2] ∧ k.xTickCount = 3 := by
  have hrun : ((Schedule.powerOn (fun _ => 7) fun t : Fin 3 => (3 : PortTickType).toNat).run
      [.xTaskCreate 1 2, .xTaskCreate 2 9, .vTaskStartScheduler 0, .vTick, .vTaskDelay 1,
        .proceed, .proceed, .proceed, .vTick, .vTick]).map
          (fun s => (s.switchedIn.map Prod.fst, s.now)) = some ([2, 2, 1, 2], 3) := by decide
  obtain ⟨s, hs, hshown⟩ := Option.map_eq_some_iff.mp hrun
  obtain ⟨k, hk, -, -, htick, -, -, -, hswitched⟩ :=
    run_powerOn stale (fun _ => 7) (fun _ => 3) _ hs
  obtain ⟨hlog, hnow⟩ := Prod.mk.inj hshown
  exact ⟨k, hk, hswitched ▸ hlog, by rw [htick, hnow]; rfl⟩

/-- A run from memory that holds anything leads to the state of the kernel, and to that of the
schedule. -/
def Reached (k : Kernel (Memory ListId T) T) (s : Schedule T) : Prop :=
  ∃ m uxPriority xPreviousWakeTime actions,
    (Kernel.powerOn m uxPriority xPreviousWakeTime).run actions = some k ∧
      (Schedule.powerOn uxPriority fun t => (xPreviousWakeTime t).toNat).run actions = some s

namespace Reached

variable {k : Kernel (Memory ListId T) T}

theorem of_run (m : Memory ListId T) {uxPriority : T → Priority}
    {xPreviousWakeTime : T → PortTickType} {actions : List (Action T)}
    (h : (Schedule.powerOn uxPriority fun t => (xPreviousWakeTime t).toNat).run actions = some s) :
    ∃ k, (Kernel.powerOn m uxPriority xPreviousWakeTime).run actions = some k ∧ Reached k s := by
  obtain ⟨k, hk, -⟩ := run_powerOn m uxPriority xPreviousWakeTime actions h
  exact ⟨k, hk, m, uxPriority, xPreviousWakeTime, actions, hk, h⟩

theorem good (h : Reached k s) : s.Good := by
  obtain ⟨m, uxPriority, xPreviousWakeTime, actions, -, hs⟩ := h
  exact (Schedule.good_powerOn _ _).run hs

theorem follows (h : Reached k s) : Follows k s := by
  obtain ⟨m, uxPriority, xPreviousWakeTime, actions, hk, hs⟩ := h
  obtain ⟨k₁, hk₁, hfollows, -⟩ := run_powerOn m uxPriority xPreviousWakeTime actions hs
  obtain rfl := Option.some.inj (hk.symm.trans hk₁)
  exact hfollows

/-- The kernel goes on as long as the schedule does. -/
theorem run (h : Reached k s) (actions : List (Action T)) :
    Refines Reached (k.run actions) (s.run actions) := by
  intro s' hs'
  obtain ⟨k', hk', -⟩ := h.follows.run h.good actions s' hs'
  refine ⟨k', hk', ?_⟩
  obtain ⟨m, uxPriority, xPreviousWakeTime, before, hk, hs⟩ := h
  refine ⟨m, uxPriority, xPreviousWakeTime, before ++ actions, ?_, ?_⟩
  · rw [Kernel.run, List.foldlM_append]
    exact (bind_of_eq_some hk _).trans hk'
  · rw [Schedule.run, List.foldlM_append]
    exact (bind_of_eq_some hs _).trans hs'

end Reached

end RealTime.FreeRtos
