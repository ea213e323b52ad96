import RealTime.FreeRtos.ScheduleInvariants
import Mathlib.Logic.Relation

/-! # What a step does to the tasks

Each step is a few effects one after the other, and what every effect keeps, every run keeps. -/

namespace RealTime.FreeRtos

variable {T : Type}

/-- The task that a call creates before the scheduler runs. -/
def Action.creates : Action T → Option T
  | .xTaskCreate t _ => some t
  | .vTaskStartScheduler t => some t
  | _ => none

/-- The call is one of `xTaskGenericCreate`. -/
def Action.startsCreation : Action T → Bool
  | .xTaskCreate _ _ | .xTaskCreateFails _ => true
  | _ => false

/-- The task is inside `xTaskGenericCreate`. -/
def Stage.creation : Stage T → Bool
  | .malloc _ | .create _ => true
  | .own | .delay _ | .delayUntil _ | .resume | .yield => false

/-- The task that is added next. -/
def Stage.adds : Stage T → Option T
  | .create (.addTask t _) => some t
  | _ => none

/-- The task that an action adds to the lists. -/
def Schedule.creates (s : Schedule T) (action : Action T) : Option T :=
  if s.running then
    match action with
    | .proceed => s.current.bind fun c => (s.stage c).adds
    | _ => none
  else action.creates

variable [DecidableEq T]

/-- A task of its own accord comes to a stage of the kernel's code. -/
def Calls (s : Schedule T) (action : Action T) (t : T) (stage : Stage T) : Prop :=
  s.ownCode ∧ s.current = some t ∧ ((∃ n, action = .vTaskDelay n ∧ stage = .delay n) ∨
    ∃ n, action = .vTaskDelayUntil n ∧ stage = .delayUntil n)

/-- How a task comes to a stage. -/
inductive Enters (s : Schedule T) (action : Action T) (t : T) (stage : Stage T) : Prop where
  | back (hstage : stage ∈ [.own, .yield, .resume])
  | call (hcall : Calls s action t stage)
  | create (hstage : stage.creation)
    (hbefore : action.startsCreation ∨ (s.stage t).creation)

/-- One effect of an action that is taken in the state `s`. All but the last three come first. -/
inductive Effect (s : Schedule T) (action : Action T) : Schedule T → Schedule T → Prop where
  | look {t} (hown : s.ownCode) (hcurrent : s.current = some t)
      (haction : action = .xTaskGetTickCount) :
      Effect s action s { s with lastWake := Function.update s.lastWake t s.now }
  | delay {t n} (hcurrent : s.current = some t) (hplaced : s.placed t)
      (haction : action = .proceed) (hstage : s.stage t = .delay n) :
      Effect s action s ((s.without t).sleep t (s.now + n.toNat))
  | delayUntil {t n} (hcurrent : s.current = some t) (hplaced : s.placed t)
      (haction : action = .proceed) (hstage : s.stage t = .delayUntil n)
      (hnow : s.now < s.lastWake t + n.toNat) :
      Effect s action s { (s.without t).sleep t (s.lastWake t + n.toNat) with
        lastWake := Function.update s.lastWake t (s.lastWake t + n.toNat) }
  | late {t n} (hcurrent : s.current = some t) (haction : action = .proceed)
      (hstage : s.stage t = .delayUntil n) (hnow : s.lastWake t + n.toNat ≤ s.now) :
      Effect s action s { s with
        lastWake := Function.update s.lastWake t (s.lastWake t + n.toNat) }
  | suspend {t handle} (hown : s.ownCode) (hplaced : s.placed t)
      (haction : action = .vTaskSuspend handle) (ht : (handle <|> s.current) = some t) :
      Effect s action s { s.without t with suspended := (s.without t).suspended ++ [t] }
  | resume {t} (hown : s.ownCode) (haction : action = .vTaskResume t) (ht : t ∈ s.suspended) :
      Effect s action s ((s.without t).enqueue t)
  | requeue {t handle n} (hown : s.ownCode) (haction : action = .vTaskPrioritySet handle n)
      (ht : (handle <|> s.current) = some t) (hready : t ∈ s.ready (s.priority t))
      (p : Priority) : Effect s action s
        (({ s with priority := Function.update s.priority t p }.without t).enqueue t)
  | prioritise {t handle n} (hown : s.ownCode) (haction : action = .vTaskPrioritySet handle n)
      (ht : (handle <|> s.current) = some t) (hready : t ∉ s.ready (s.priority t))
      (p : Priority) : Effect s action s { s with priority := Function.update s.priority t p }
  | introduce {t} (haction : s.creates action = some t) (ht : ¬ s.placed t) (n : ℕ) :
      Effect s action s (s.introduce t n)
  | note {u} (stage : T → Stage T) (running held ticked : Bool) (missed : BitVec 32)
      (hrunning : u.running = true → running = true)
      (hstage : ∀ t, stage t = u.stage t ∨ Enters s action t (stage t)) :
      Effect s action u { u with
        stage := stage, running := running, held := held, missed := missed, ticked := ticked }
  | advance {u} (ticks : ℕ) : Effect s action u (u.advance ticks)
  | dispatch {u u'} (hs : u.dispatch = some u') : Effect s action u u'

/-- The effects of a step from one state to the other. -/
abbrev Effects (s : Schedule T) (action : Action T) (s' : Schedule T) : Prop :=
  Relation.ReflTransGen (Effect s action) s s'

namespace Effects

variable {s s' u u' : Schedule T} {t : T} {action : Action T}

theorem one (h : Effect s action s s') : Effects s action s' := .single h

theorem two (h : Effect s action s u) (h' : Effect s action u s') : Effects s action s' :=
  (one h).tail h'

/-- The stage of one task changes. -/
theorem stage_update {stage : Stage T} (h : Enters s action t stage) (v : T) :
    Function.update u.stage t stage v = u.stage v ∨
      Enters s action v (Function.update u.stage t stage v) := by
  by_cases hv : v = t
  · subst hv
    rw [Function.update_self]
    exact .inr h
  · exact .inl (Function.update_of_ne hv _ _)

theorem note (t : T) {stage : Stage T} (h : Enters s action t stage) (held ticked : Bool)
    (missed : BitVec 32) : Effect s action u { u with
      stage := Function.update u.stage t stage
      held := held, missed := missed, ticked := ticked } :=
  .note _ u.running held ticked missed id (stage_update h)

/-- The scheduler is resumed. -/
theorem resumed {next : Bool → Stage T} {c : T} (hc : s.current = some c)
    (hnext : ∀ yielded, Enters s action c (next yielded)) (hs : s.resumed next = some s') :
    Effects s action s' := by
  obtain ⟨d, hd, hs⟩ := Schedule.resumed_eq hs
  obtain rfl := Option.some.inj (hc.symm.trans hd)
  rcases hs with ⟨-, hs⟩ | ⟨-, rfl⟩
  · exact (two (note c (hnext true) false false 0) (.advance s.missed.toNat)).tail (.dispatch hs)
  · exact one (note c (hnext false) _ _ _)

/-- The creation of a task goes on. -/
theorem goOn {c : T} (hrunning : s.running = true) (hc : s.current = some c) {next : Creation T}
    (hstage : s.stage c = .create next) (hs : s.goOn next = some s') : Effects s .proceed s' := by
  have hcreation : (s.stage c).creation = true := by rw [hstage]; rfl
  rcases Schedule.goOn_eq hs with ⟨-, behind, hs⟩ | ⟨t, n, rfl, ht, rfl⟩ | hs | ⟨hs, -⟩
  · obtain ⟨d, hd, rfl⟩ := Schedule.hold_eq hs
    obtain rfl := Option.some.inj (hc.symm.trans hd)
    exact one (note c (.create rfl (.inr hcreation)) _ _ _)
  · have hcurrent : s.currentWith t n = c := by simp [Schedule.currentWith, hc, hrunning]
    have hadds : s.creates .proceed = some t := by
      simp [Schedule.creates, hrunning, hc, hstage, Stage.adds]
    rw [hcurrent]
    exact two (.introduce hadds ht n) (note c (.create rfl (.inr hcreation)) _ _ _)
  · obtain ⟨d, -, rfl⟩ := Schedule.atStage_eq hs
    exact one (note d (.back (by simp)) _ _ _)
  · obtain ⟨d, -, rfl⟩ := Schedule.atStage_eq hs
    exact one (note d (.back (by simp)) _ _ _)

theorem proceed (hrunning : s.running = true) (hs : s.proceed = some s') :
    Effects s .proceed s' := by
  obtain ⟨c, hc, hs⟩ := Option.bind_eq_some_iff.mp hs
  cases hstage : s.stage c with
  | own => simp [hstage] at hs
  | delay n =>
      rw [hstage] at hs
      obtain ⟨d, hd, hplaced, rfl⟩ := Schedule.sleepUntil_eq hs
      obtain rfl := Option.some.inj (hc.symm.trans hd)
      exact two (.delay hc hplaced rfl hstage) (note c (.back (by simp)) _ _ _)
  | delayUntil n =>
      rw [hstage] at hs
      obtain ⟨d, hd, -, hs⟩ := Schedule.delayUntil_eq hs
      obtain rfl := Option.some.inj (hc.symm.trans hd)
      rcases hs with ⟨hnow, hplaced, rfl⟩ | ⟨hnow, rfl⟩
      · exact two (.delayUntil hc hplaced rfl hstage hnow) (note c (.back (by simp)) _ _ _)
      · exact two (.late hc rfl hstage hnow) (note c (.back (by simp)) _ _ _)
  | resume =>
      rw [hstage] at hs
      exact resumed hc (fun yielded => .back (by cases yielded <;> simp)) hs
  | yield =>
      rw [hstage] at hs
      obtain ⟨s₁, hs₁, hs⟩ := Option.bind_eq_some_iff.mp hs
      obtain ⟨d, hd, rfl⟩ := Schedule.atStage_eq hs₁
      exact two (note d (.back (by simp)) _ _ _) (.dispatch hs)
  | malloc next =>
      rw [hstage] at hs
      exact resumed hc (fun _ => .create rfl (.inr (by rw [hstage]; rfl))) hs
  | create next =>
      rw [hstage] at hs
      exact goOn hrunning hc hstage hs

/-- The current task begins to create another. -/
theorem hold_malloc {next : Creation T} (haction : action.startsCreation)
    (hs : s.hold (.malloc next) = some s') : Effects s action s' := by
  obtain ⟨c, -, rfl⟩ := Schedule.hold_eq hs
  exact one (note c (.create rfl (.inl haction)) _ _ _)

/-- Every step comes to its effects. -/
theorem of_step (hs : s.step action = some s') : Effects s action s' := by
  cases action with
  | xTaskCreate t n =>
      obtain ⟨-, hs⟩ := Option.ite_none_right_eq_some.mp hs
      rcases Schedule.create_eq hs with ⟨-, hs⟩ | ⟨hstopped, hs⟩
      · exact hold_malloc rfl hs
      · obtain ⟨ht, rfl⟩ := Schedule.add_eq hs
        exact one (.introduce (by simp [Schedule.creates, hstopped, Action.creates]) ht n)
  | xTaskCreateFails tcb =>
      obtain ⟨-, hs⟩ := Option.ite_none_right_eq_some.mp hs
      rcases Schedule.createWithoutMemory_eq hs with ⟨-, next, hs⟩ | ⟨-, rfl⟩
      · exact hold_malloc rfl hs
      · exact .refl
  | vTaskStartScheduler t =>
      obtain ⟨hstopped, hs⟩ := Option.ite_none_right_eq_some.mp hs
      obtain ⟨s₁, hs₁, hs⟩ := Option.bind_eq_some_iff.mp hs
      obtain rfl := Option.some.inj hs
      obtain ⟨ht, rfl⟩ := Schedule.add_eq hs₁
      refine two (.introduce ?_ ht _) (.note _ true _ _ _ (fun _ => rfl) fun u => .inl rfl)
      simp [Schedule.creates, hstopped, Action.creates]
  | vTick =>
      rcases Schedule.tick_eq (Option.ite_none_right_eq_some.mp hs).2 with ⟨-, rfl⟩ | ⟨-, hs⟩
      · exact one (.note _ _ _ _ _ id fun _ => .inl rfl)
      · exact two (.advance 1) (.dispatch hs)
  | proceed =>
      obtain ⟨hrunning, hs⟩ := Option.ite_none_right_eq_some.mp hs
      exact proceed hrunning hs
  | taskYIELD => exact one (.dispatch (Option.ite_none_right_eq_some.mp hs).2)
  | vTaskDelay n =>
      obtain ⟨hown, hs⟩ := Option.ite_none_right_eq_some.mp hs
      split at hs
      · obtain ⟨c, hc, rfl⟩ := Schedule.hold_eq hs
        exact one (note c (.call ⟨hown, hc, .inl ⟨n, rfl, rfl⟩⟩) _ _ _)
      · obtain ⟨c, hc, rfl⟩ := Schedule.atStage_eq hs
        exact one (note c (.back (by simp)) _ _ _)
  | vTaskDelayUntil n =>
      obtain ⟨hown, hs⟩ := Option.ite_none_right_eq_some.mp hs
      obtain ⟨c, hc, rfl⟩ := Schedule.hold_eq hs
      exact one (note c (.call ⟨hown, hc, .inr ⟨n, rfl, rfl⟩⟩) _ _ _)
  | xTaskGetTickCount =>
      obtain ⟨hown, hs⟩ := Option.ite_none_right_eq_some.mp hs
      obtain ⟨c, hc, rfl⟩ := Option.map_eq_some_iff.mp hs
      exact one (.look hown hc rfl)
  | vTaskSuspend handle =>
      obtain ⟨hown, hs⟩ := Option.ite_none_right_eq_some.mp hs
      obtain ⟨t, ht, hplaced, hs⟩ := Schedule.suspend_eq hs
      rcases hs with ⟨-, rfl⟩ | ⟨-, rfl⟩
      · exact two (.suspend hown hplaced rfl ht) (note t (.back (by simp)) _ _ _)
      · exact one (.suspend hown hplaced rfl ht)
  | vTaskResume t =>
      obtain ⟨hown, hs⟩ := Option.ite_none_right_eq_some.mp hs
      obtain ⟨-, c, -, ⟨-, ht, -, hs⟩ | ⟨-, ht, -, rfl⟩ | hsame⟩ := Schedule.resume_eq hs
      · exact two (.resume hown rfl ht) (.dispatch hs)
      · exact one (.resume hown rfl ht)
      · exact hsame ▸ .refl
  | vTaskPrioritySet handle n =>
      obtain ⟨hown, hs⟩ := Option.ite_none_right_eq_some.mp hs
      obtain ⟨t, ht, ⟨-, s₁, hs₁, hs⟩ | hsame⟩ := Schedule.setPriority_eq hs
      · have hone : Effect s (.vTaskPrioritySet handle n) s s₁ := by
          rcases Schedule.prioritise_eq hs₁ with ⟨hready, rfl⟩ | ⟨hready, rfl⟩
          · exact .requeue hown rfl ht hready _
          · exact .prioritise hown rfl ht hready _
        rcases hs with hs | ⟨-, rfl⟩
        · exact two hone (.dispatch hs)
        · exact one hone
      · exact hsame ▸ .refl

/-- What every effect keeps, a step keeps. -/
theorem keep {P : Schedule T → Prop} (hkeep : ∀ u u', Effect s action u u' → P u → P u')
    (h : Effects s action s') (hs : P s) : P s' := by
  induction h with
  | refl => exact hs
  | tail _ he ih => exact hkeep _ _ he ih

end Effects

/-- A task is at the stage it was at, or has come to another. -/
theorem Effect.stage {s u u' : Schedule T} {action : Action T} {t : T} {Q : Stage T → Prop}
    (henters : ∀ stage, Enters s action t stage → Q stage) (h : Q (u.stage t))
    (he : Effect s action u u') : Q (u'.stage t) := by
  cases he with
  | note stage _ _ _ _ _ hstage =>
      rcases hstage t with hsame | henter
      · exact (congrArg Q hsame).mpr h
      · exact henters _ henter
  | introduce => exact Schedule.stage_introduce (henters _ (.back (by simp))) h _ _
  | dispatch hs =>
      obtain ⟨p, v, rest, -, -, rfl⟩ := Schedule.dispatch_eq hs
      exact h
  | _ => exact h

/-- Every effect leaves the tasks where they belong. -/
theorem Schedule.Orderly.effect {s u u' : Schedule T} {action : Action T} (h : u.Orderly)
    (hdelay : ∀ t n, s.stage t = .delay n → 0 < n) (he : Effect s action u u') : u'.Orderly := by
  cases he with
  | look | note | late => exact ⟨h.ready, h.sorted, h.future⟩
  | @delay t n _ _ _ hstage =>
      have hn : 0 < n.toNat := by simpa [BitVec.lt_def] using hdelay t n hstage
      exact (h.without t).sleep (by simp [Schedule.without]) (Nat.lt_add_of_pos_right hn)
  | @delayUntil t n _ _ _ _ hnow =>
      have hslept := (h.without t).sleep (t := t) (by simp [Schedule.without]) hnow
      exact ⟨hslept.ready, hslept.sorted, hslept.future⟩
  | @suspend t =>
      have hleft := h.without t
      exact ⟨hleft.ready, hleft.sorted, hleft.future⟩
  | resume => exact (h.without _).enqueue _
  | @requeue t _ _ _ _ _ _ p =>
      have horderly := (h.without t).withPriority (t := t) (by simp [Schedule.without]) p
      exact Orderly.enqueue ⟨horderly.ready, horderly.sorted, horderly.future⟩ t
  | prioritise _ _ _ hready p =>
      exact h.withPriority (fun q hq => hready (by rwa [h.ready q _ hq])) p
  | introduce _ ht n => exact h.introduce ht n
  | advance ticks => exact h.advance ticks
  | dispatch hs => exact h.dispatch hs

end RealTime.FreeRtos
