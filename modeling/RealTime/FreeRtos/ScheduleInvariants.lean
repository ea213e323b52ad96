import RealTime.FreeRtos.Schedule
import RealTime.Library.SortedByKey
import RealTime.Library.Transition

/-! # What holds at every moment of a schedule -/

namespace RealTime.FreeRtos

variable {T : Type}

/-- The priority of a task that has been created, and is still to be compared with the current
one. -/
def Creation.newcomer : Creation T → ℕ
  | .testPriority uxPriority => uxPriority
  | _ => 0

def Stage.newcomer : Stage T → ℕ
  | .create next => next.newcomer
  | _ => 0

namespace Schedule

variable {s s' : Schedule T} {t u : T} {p q : Priority}

/-! ## What the operations do -/

theorem highest_lt (h : s.highest = some p) (hpq : p < q) : s.ready q = [] := by
  obtain ⟨-, as, bs, hsplit, has⟩ := List.find?_eq_some_iff_append.mp h
  have hsorted : (List.finRange configMAX_PRIORITIES).reverse.Pairwise (· > ·) :=
    List.pairwise_reverse.mpr (List.pairwise_lt_finRange _)
  have hq : q ∈ as ++ p :: bs := by
    rw [← hsplit, List.mem_reverse]
    exact List.mem_finRange q
  rw [hsplit] at hsorted
  have hbs := (List.pairwise_cons.mp (List.pairwise_append.mp hsorted).2.1).1
  rcases List.mem_append.mp hq with hq | hq
  · simpa using has q hq
  · rcases List.mem_cons.mp hq with rfl | hq
    · exact absurd hpq (lt_irrefl _)
    · exact absurd hpq (lt_asymm (hbs q hq))

theorem dispatch_eq (h : s.dispatch = some s') : ∃ p t rest, s.ready p = t :: rest ∧
    (∀ q, p < q → s.ready q = []) ∧ s' = { s with
      current := some t
      ready := Function.update s.ready p (rest ++ [t])
      switchedIn := (t, s.priority t) :: s.switchedIn } := by
  obtain ⟨p, hp, h⟩ := Option.bind_eq_some_iff.mp h
  obtain ⟨t, ht, h⟩ := Option.bind_eq_some_iff.mp h
  obtain ⟨rest, hrest⟩ := List.head?_eq_some_iff.mp ht
  refine ⟨p, t, rest, hrest, fun q hq => highest_lt hp hq, ?_⟩
  rw [← Option.some.inj h, hrest, List.tail_cons]

/-- The stage of a task plays no part in who gets the processor. -/
theorem dispatch_withStage (s : Schedule T) (f : T → Stage T) :
    ({ s with stage := f }).dispatch = s.dispatch.map fun s' => { s' with stage := f } := by
  have hhighest : ({ s with stage := f }).highest = s.highest := rfl
  unfold Schedule.dispatch
  rw [hhighest]
  cases s.highest with
  | none => rfl
  | some p => cases hp : (s.ready p).head? <;> simp [hp]

section
variable [DecidableEq T]

theorem atStage_eq {stage : Stage T} (hs : s.atStage stage = some s') : ∃ c, s.current = some c ∧
    s' = { s with stage := Function.update s.stage c stage } := by
  obtain ⟨c, hc, hs⟩ := Option.bind_eq_some_iff.mp hs
  exact ⟨c, hc, (Option.some.inj hs).symm⟩

theorem hold_eq {stage : Stage T} (hs : s.hold stage = some s') : ∃ c, s.current = some c ∧
    s' = { s with held := true, stage := Function.update s.stage c stage } := by
  unfold hold at hs
  split at hs
  · cases hs
  · exact atStage_eq hs

theorem leave_eq (hs : s.leave t = some s') : s.placed t ∧ s' = s.without t := by
  unfold Schedule.leave at hs
  split at hs
  · exact ⟨‹_›, (Option.some.inj hs).symm⟩
  · cases hs

/-- The current task goes to sleep, and is then about to resume the scheduler. -/
theorem sleepUntil_eq {wakeAt : ℕ}
    (hs : (s.sleepUntil wakeAt >>= fun s' => s'.atStage .resume) = some s') :
    ∃ c, s.current = some c ∧ s.placed c ∧ s' = { (s.without c).sleep c wakeAt with
      stage := Function.update s.stage c .resume } := by
  obtain ⟨s₁, hs₁, hs⟩ := Option.bind_eq_some_iff.mp hs
  obtain ⟨c, hc, hs₁⟩ := Option.bind_eq_some_iff.mp hs₁
  obtain ⟨s₂, hs₂, hs₁⟩ := Option.bind_eq_some_iff.mp hs₁
  obtain ⟨hplaced, rfl⟩ := leave_eq hs₂
  obtain rfl := Option.some.inj hs₁
  obtain ⟨d, hd, rfl⟩ := atStage_eq hs
  obtain rfl := Option.some.inj (hc.symm.trans hd)
  exact ⟨c, hc, hplaced, rfl⟩

theorem delayUntil_eq {n : ℕ} (hs : s.delayUntil n = some s') : ∃ c, s.current = some c ∧
    s.punctual c ∧
    ((s.now < s.lastWake c + n ∧ s.placed c ∧ s' = { (s.without c).sleep c (s.lastWake c + n) with
        lastWake := Function.update s.lastWake c (s.lastWake c + n)
        stage := Function.update s.stage c .resume }) ∨
      (s.lastWake c + n ≤ s.now ∧ s' = { s with
        lastWake := Function.update s.lastWake c (s.lastWake c + n)
        stage := Function.update s.stage c .resume })) := by
  obtain ⟨c, hc, hs⟩ := Option.bind_eq_some_iff.mp hs
  simp only at hs
  split at hs
  · rename_i hpunctual
    split at hs
    · rename_i hnow
      obtain ⟨d, hd, hplaced, rfl⟩ := sleepUntil_eq hs
      obtain rfl := Option.some.inj (hc.symm.trans hd)
      exact ⟨c, hc, hpunctual, .inl ⟨hnow, hplaced, rfl⟩⟩
    · rename_i hnow
      obtain ⟨d, hd, rfl⟩ := atStage_eq hs
      obtain rfl := Option.some.inj (hc.symm.trans hd)
      exact ⟨c, hc, hpunctual, .inr ⟨not_lt.mp hnow, rfl⟩⟩
  · cases hs

/-- The ticks that were missed decide whether the task has yielded already. -/
theorem resumed_eq {next : Bool → Stage T} (hs : s.resumed next = some s') :
    ∃ c, s.current = some c ∧
    ((s.ticked = true ∧ (advance { s with
        held := false, missed := 0, ticked := false
        stage := Function.update s.stage c (next true) } s.missed.toNat).dispatch = some s') ∨
      (s.ticked = false ∧ s' = { s with
        held := false, missed := 0, ticked := false
        stage := Function.update s.stage c (next false) })) := by
  obtain ⟨c, hc, hs⟩ := Option.bind_eq_some_iff.mp hs
  obtain ⟨⟨yielded, s₁⟩, hs₁, hs⟩ := Option.bind_eq_some_iff.mp hs
  obtain rfl := Option.some.inj hs
  simp only [release] at hs₁
  split at hs₁
  · obtain ⟨s₂, hs₂, heq⟩ := Option.map_eq_some_iff.mp hs₁
    obtain ⟨rfl, rfl⟩ := Prod.mk.inj heq
    have hstage : s₂.stage = s.stage := by
      obtain ⟨p, t, rest, -, -, rfl⟩ := dispatch_eq hs₂
      rfl
    have hs' := dispatch_withStage
      (advance { s with held := false, missed := 0, ticked := false } s.missed.toNat)
      (Function.update s.stage c (next true))
    rw [hs₂, ← hstage] at hs'
    rw [← hstage]
    exact ⟨c, hc, .inl ⟨‹_›, hs'⟩⟩
  · obtain ⟨rfl, rfl⟩ := Prod.mk.inj (Option.some.inj hs₁)
    exact ⟨c, hc, .inr ⟨by simpa using ‹¬ s.ticked = true›, rfl⟩⟩

theorem suspend_eq {h : Option T} (hs : s.suspend h = some s') : ∃ t,
    (h <|> s.current) = some t ∧ s.placed t ∧
    ((s.current = some t ∧ s' = { s.without t with
        suspended := (s.without t).suspended ++ [t]
        stage := Function.update s.stage t .yield }) ∨
      (s.current ≠ some t ∧ s' = { s.without t with
        suspended := (s.without t).suspended ++ [t] })) := by
  obtain ⟨t, ht, hs⟩ := Option.bind_eq_some_iff.mp hs
  obtain ⟨s₁, hs₁, hs⟩ := Option.bind_eq_some_iff.mp hs
  obtain ⟨hplaced, rfl⟩ := leave_eq hs₁
  refine ⟨t, ht, hplaced, ?_⟩
  simp only at hs
  split at hs
  · rename_i htc
    obtain ⟨d, hd, rfl⟩ := atStage_eq hs
    obtain rfl := Option.some.inj (htc.trans hd)
    exact .inl ⟨htc.symm, rfl⟩
  · rename_i htc
    exact .inr ⟨Ne.symm htc, (Option.some.inj hs).symm⟩

theorem resume_eq (hs : s.resume t = some s') : s.placed t ∧ ∃ c, s.current = some c ∧
    ((t ≠ c ∧ t ∈ s.suspended ∧ s.priority c ≤ s.priority t ∧
        ((s.without t).enqueue t).dispatch = some s') ∨
      (t ≠ c ∧ t ∈ s.suspended ∧ s.priority t < s.priority c ∧ s' = (s.without t).enqueue t) ∨
      s' = s) := by
  obtain ⟨c, hc, hs⟩ := Option.bind_eq_some_iff.mp hs
  split at hs
  · refine ⟨‹_›, c, hc, ?_⟩
    split at hs
    · rename_i ht
      obtain ⟨s₁, hs₁, hs⟩ := Option.bind_eq_some_iff.mp hs
      obtain ⟨-, rfl⟩ := leave_eq hs₁
      split at hs
      · exact .inl ⟨ht.1, ht.2, ‹_›, hs⟩
      · exact .inr (.inl ⟨ht.1, ht.2, not_le.mp ‹_›, (Option.some.inj hs).symm⟩)
    · exact .inr (.inr (Option.some.inj hs).symm)
  · cases hs

/-- What a change of priority makes of the schedule. -/
theorem prioritise_eq {p : Priority} (hs : s.prioritise t p = some s') :
    (t ∈ s.ready (s.priority t) ∧
      s' = ({ s with priority := Function.update s.priority t p }.without t).enqueue t) ∨
    (t ∉ s.ready (s.priority t) ∧
      s' = { s with priority := Function.update s.priority t p }) := by
  unfold Schedule.prioritise at hs
  simp only at hs
  split at hs
  · obtain ⟨s₁, hs₁, rfl⟩ := Option.map_eq_some_iff.mp hs
    obtain ⟨-, rfl⟩ := leave_eq hs₁
    exact .inl ⟨‹_›, rfl⟩
  · split at hs
    · exact .inr ⟨‹_›, (Option.some.inj hs).symm⟩
    · cases hs

theorem setPriority_eq {h : Option T} {n : ℕ} (hs : s.setPriority h n = some s') : ∃ t,
    (h <|> s.current) = some t ∧
    ((s.priority t ≠ Kernel.cappedPriority n ∧ ∃ s₁,
        s.prioritise t (Kernel.cappedPriority n) = some s₁ ∧
        (s₁.dispatch = some s' ∨
          ((s.current = some t ↔ s.priority t < Kernel.cappedPriority n) ∧ s' = s₁))) ∨
      s' = s) := by
  obtain ⟨t, ht, hs⟩ := Option.bind_eq_some_iff.mp hs
  refine ⟨t, ht, ?_⟩
  simp only at hs
  split at hs
  · obtain ⟨s₁, hs₁, hs⟩ := Option.bind_eq_some_iff.mp hs
    refine .inl ⟨‹_›, s₁, hs₁, ?_⟩
    split at hs
    · exact .inl hs
    · rename_i hstay
      have hsame : some t = s.current ↔ s.priority t < Kernel.cappedPriority n := by
        simpa using hstay
      exact .inr ⟨eq_comm.trans hsame, (Option.some.inj hs).symm⟩
  · exact .inr (Option.some.inj hs).symm

theorem add_eq {n : ℕ} (hs : s.add t n = some s') : ¬ s.placed t ∧ s' = s.introduce t n := by
  unfold add at hs
  split at hs
  · cases hs
  · exact ⟨‹_›, (Option.some.inj hs).symm⟩

/-- A task is created at once, or the scheduler is suspended for it. -/
theorem create_eq {n : ℕ} (hs : s.create t n = some s') :
    (s.running = true ∧ s.hold (.malloc (.mallocStack t n)) = some s') ∨
      (s.running = false ∧ s.add t n = some s') := by
  unfold create at hs
  split at hs
  · exact .inl ⟨‹_›, hs⟩
  · exact .inr ⟨by simpa using ‹¬ s.running = true›, hs⟩

theorem createWithoutMemory_eq {tcb : Bool} (hs : s.createWithoutMemory tcb = some s') :
    (s.running = true ∧ ∃ next, s.hold (.malloc next) = some s') ∨
      (s.running = false ∧ s' = s) := by
  unfold createWithoutMemory at hs
  split at hs
  · exact .inl ⟨‹_›, _, hs⟩
  · exact .inr ⟨by simpa using ‹¬ s.running = true›, (Option.some.inj hs).symm⟩

/-- The creation of a task goes on with the next piece of memory, with the task itself, or to an
end. -/
theorem goOn_eq {next : Creation T} (hs : s.goOn next = some s') :
    (next.newcomer = 0 ∧ ∃ behind, s.hold (.malloc behind) = some s') ∨
      (∃ t n, next = .addTask t n ∧ ¬ s.placed t ∧ s' = { s.introduce t n with
        stage := Function.update (s.introduce t n).stage (s.currentWith t n)
          (.create (.testPriority n)) }) ∨
      s.atStage .yield = some s' ∨
      (s.atStage .own = some s' ∧ ∀ c, s.current = some c → next.newcomer ≤ s.priority c) := by
  cases next with
  | mallocStack | noStack | freeTCB => exact .inl ⟨rfl, _, hs⟩
  | addTask t n =>
      obtain ⟨s₁, hs₁, hs⟩ := Option.bind_eq_some_iff.mp hs
      obtain ⟨ht, rfl⟩ := add_eq hs₁
      obtain ⟨c, hc, rfl⟩ := atStage_eq hs
      obtain rfl := Option.some.inj hc
      exact .inr (.inl ⟨t, n, rfl, ht, rfl⟩)
  | testPriority n =>
      obtain ⟨c, hc, hs⟩ := Option.bind_eq_some_iff.mp hs
      split at hs
      · exact .inr (.inr (.inl hs))
      · refine .inr (.inr (.inr ⟨hs, fun d hd => ?_⟩))
        obtain rfl := Option.some.inj (hc.symm.trans hd)
        exact Nat.le_of_not_lt ‹_›
  | done => exact .inr (.inr (.inr ⟨hs, fun c _ => Nat.zero_le _⟩))

end

theorem tick_eq (hs : s.tick = some s') :
    (s.held = true ∧ s' = { s with missed := s.missed + 1, ticked := true }) ∨
      (s.held = false ∧ (s.advance 1).dispatch = some s') := by
  unfold tick at hs
  split at hs
  · exact .inl ⟨‹_›, (Option.some.inj hs).symm⟩
  · exact .inr ⟨by simpa using ‹¬ s.held = true›, hs⟩

/-- The tasks are in the places where they belong. -/
structure Orderly (s : Schedule T) : Prop where
  ready : ∀ p, ∀ t ∈ s.ready p, s.priority t = p
  sorted : SortedByKey s.wakeAt s.sleeping
  future : ∀ t ∈ s.sleeping, s.now < s.wakeAt t

namespace Orderly

theorem enqueue (h : s.Orderly) (t : T) : (s.enqueue t).Orderly := by
  refine ⟨fun p u hu => ?_, h.sorted, h.future⟩
  by_cases hp : p = s.priority t
  · subst hp
    have hu' : u ∈ s.ready (s.priority t) ∨ u = t := by simpa [Schedule.enqueue] using hu
    rcases hu' with hu | rfl
    · exact h.ready _ u hu
    · rfl
  · exact h.ready p u (by simpa [Schedule.enqueue, hp] using hu)

theorem dispatch (h : s.Orderly) (hs : s.dispatch = some s') : s'.Orderly := by
  obtain ⟨p, t, rest, hp, -, rfl⟩ := dispatch_eq hs
  refine ⟨fun q u hu => h.ready q u ?_, h.sorted, h.future⟩
  by_cases hq : q = p
  · subst hq
    rw [hp]
    simpa [or_comm] using hu
  · simpa [hq] using hu

theorem advance (h : s.Orderly) (n : ℕ) : (s.advance n).Orderly := by
  refine ⟨fun p u hu => ?_, h.sorted.dropWhile _, fun u hu => h.sorted.lt_of_mem_dropWhile hu⟩
  rcases List.mem_append.mp hu with hu | hu
  · exact h.ready p u hu
  · exact of_decide_eq_true (List.mem_filter.mp hu).2

variable [DecidableEq T]

theorem without (h : s.Orderly) (t : T) : (s.without t).Orderly :=
  ⟨fun p u hu => h.ready p u (List.mem_filter.mp hu).1, h.sorted.filter _,
    fun u hu => h.future u (List.mem_filter.mp hu).1⟩

theorem sleep (h : s.Orderly) (ht : t ∉ s.sleeping) {wakeAt : ℕ} (hnow : s.now < wakeAt) :
    (s.sleep t wakeAt).Orderly := by
  have hold : ∀ u ∈ s.sleeping, Function.update s.wakeAt t wakeAt u = s.wakeAt u := by
    intro u hu
    have hut : u ≠ t := fun hut => ht (hut ▸ hu)
    exact Function.update_of_ne hut _ _
  refine ⟨h.ready, (h.sorted.congr hold).orderedInsert t, fun u hu => ?_⟩
  rcases (List.mem_orderedInsert _).mp hu with rfl | hu
  · simpa [Schedule.sleep] using hnow
  · exact (h.future u hu).trans_eq (hold u hu).symm

/-- A task that is not ready may change its priority. -/
theorem withPriority (h : s.Orderly) (ht : ∀ p, t ∉ s.ready p) (p : Priority) :
    Orderly { s with priority := Function.update s.priority t p } := by
  refine ⟨fun q u hu => ?_, h.sorted, h.future⟩
  have hut : u ≠ t := fun hut => ht q (hut ▸ hu)
  exact (Function.update_of_ne hut _ _).trans (h.ready q u hu)

end Orderly

/-! ## The invariant -/

/-- Only the current task is inside a section with the scheduler suspended. -/
structure Staged (s : Schedule T) : Prop where
  inside : ∀ t, (s.stage t).inside → s.current = some t ∧ s.held = true
  held : s.held = true → ∃ t, s.current = some t ∧ (s.stage t).inside
  delay : ∀ t n, s.stage t = .delay n → 0 < n
  ticked : s.held = false → s.ticked = false
  missed : s.ticked = false → s.missed = 0

/-- The current task is ready, and no ready task is of a higher priority, unless the current one is
about to find that out. -/
structure Ranked (s : Schedule T) : Prop where
  here : ∀ t, s.current = some t → (s.stage t).awake → t ∈ s.ready (s.priority t)
  top : ∀ t, s.current = some t → s.stage t ≠ .yield →
    ∀ q, s.priority t < q → (s.stage t).newcomer < (q : ℕ) → s.ready q = []

structure Good (s : Schedule T) : Prop where
  orderly : s.Orderly
  staged : s.Staged
  ranked : s.Ranked
  fresh : s.current = none → (∀ t, ¬ s.placed t) ∧ s.running = false
  created : s.created = [] ↔ s.current = none
  stopped : s.running = false → s.now = 0 ∧ s.held = false ∧ ∀ t, s.stage t = .own

theorem good_powerOn (priority : T → Priority) (lastWake : T → ℕ) :
    (powerOn priority lastWake).Good := by
  refine ⟨⟨?_, List.Pairwise.nil, ?_⟩, ⟨?_, ?_, ?_, ?_, ?_⟩, ⟨?_, ?_⟩, ?_, ?_, ?_⟩ <;>
    simp [powerOn, Stage.inside, placed]

theorem Ranked.higher (h : s.Ranked) (hc : s.current = some t) (hyield : s.stage t ≠ .yield)
    (hnew : (s.stage t).newcomer = 0) (hq : s.priority t < q) : s.ready q = [] := by
  refine h.top t hc hyield q hq ?_
  rw [hnew]
  exact Nat.lt_of_le_of_lt (Nat.zero_le _) hq

theorem Staged.inside_eq_false (h : s.Staged) (hheld : s.held = false) (t : T) :
    (s.stage t).inside = false := by
  by_contra hinside
  have hheld' := (h.inside t (by simpa using hinside)).2
  rw [hheld] at hheld'
  cases hheld'

/-- The scheduler is not suspended while the current task is elsewhere. -/
theorem Staged.held_eq_false (h : s.Staged) (hc : s.current = some t)
    (hstage : (s.stage t).inside = false) : s.held = false := by
  by_contra hheld
  obtain ⟨u, hu, hinside⟩ := h.held (by simpa using hheld)
  obtain rfl := Option.some.inj (hc.symm.trans hu)
  rw [hstage] at hinside
  cases hinside

theorem staged_of_not_held (hheld : s.held = false) (hticked : s.ticked = false)
    (hmissed : s.missed = 0) (hinside : ∀ t, (s.stage t).inside = false) : s.Staged := by
  refine ⟨fun t ht => ?_, fun hheld' => ?_, fun t n ht => ?_, fun _ => hticked, fun _ => hmissed⟩
  · rw [hinside t] at ht
    cases ht
  · rw [hheld] at hheld'
    cases hheld'
  · have hin := hinside t
    rw [ht] at hin
    cases hin

/-- Nobody is inside a section with the scheduler suspended. -/
structure Quiet (s : Schedule T) : Prop where
  orderly : s.Orderly
  running : s.running = true
  held : s.held = false
  ticked : s.ticked = false
  missed : s.missed = 0
  inside : ∀ t, (s.stage t).inside = false
  created : s.created ≠ []

theorem Good.quiet (h : s.Good) (hrunning : s.running = true) (hheld : s.held = false) :
    s.Quiet := by
  have hticked := h.staged.ticked hheld
  refine ⟨h.orderly, hrunning, hheld, hticked, h.staged.missed hticked,
    h.staged.inside_eq_false hheld, fun hnil => ?_⟩
  have hstopped := (h.fresh (h.created.mp hnil)).2
  exact absurd (hrunning.symm.trans hstopped) (by simp)

namespace Quiet

theorem staged (h : s.Quiet) : s.Staged := staged_of_not_held h.held h.ticked h.missed h.inside

theorem dispatch (h : s.Quiet) (hs : s.dispatch = some s') : s'.Quiet := by
  have horderly := h.orderly.dispatch hs
  obtain ⟨p, t, rest, -, -, rfl⟩ := dispatch_eq hs
  exact ⟨horderly, h.running, h.held, h.ticked, h.missed, h.inside, h.created⟩

theorem ranked_dispatch (h : s.Quiet) (hs : s.dispatch = some s') : s'.Ranked := by
  obtain ⟨p, t, rest, hp, htop, rfl⟩ := dispatch_eq hs
  have hpriority : s.priority t = p := h.orderly.ready p t (by simp [hp])
  refine ⟨fun u hu _ => ?_, fun u hu _ q hq _ => ?_⟩
  · obtain rfl := Option.some.inj hu
    simp [hpriority]
  · obtain rfl := Option.some.inj hu
    rw [hpriority] at hq
    simpa [hq.ne'] using htop q hq

theorem good (h : s.Quiet) (hranked : s.Ranked) (hcurrent : s.current ≠ none) : s.Good := by
  refine ⟨h.orderly, h.staged, hranked, fun hnone => absurd hnone hcurrent,
    ⟨fun hnil => absurd hnil h.created, fun hnone => absurd hnone hcurrent⟩, fun hstopped => ?_⟩
  have hrunning := h.running
  rw [hstopped] at hrunning
  cases hrunning

/-- After the processor has been given to a task all is well. -/
theorem good_dispatch (h : s.Quiet) (hs : s.dispatch = some s') : s'.Good := by
  refine (h.dispatch hs).good (h.ranked_dispatch hs) ?_
  obtain ⟨p, t, rest, -, -, rfl⟩ := dispatch_eq hs
  simp

theorem enqueue (h : s.Quiet) (t : T) : (s.enqueue t).Quiet :=
  ⟨h.orderly.enqueue t, h.running, h.held, h.ticked, h.missed, h.inside, h.created⟩

theorem advance (h : s.Quiet) (n : ℕ) : (s.advance n).Quiet :=
  ⟨h.orderly.advance n, h.running, h.held, h.ticked, h.missed, h.inside, h.created⟩

theorem withStage [DecidableEq T] (h : s.Quiet) (t : T) {stage : Stage T}
    (hstage : stage.inside = false) :
    Quiet { s with stage := Function.update s.stage t stage } := by
  refine ⟨⟨h.orderly.ready, h.orderly.sorted, h.orderly.future⟩, h.running, h.held, h.ticked,
    h.missed, fun u => ?_, h.created⟩
  by_cases hu : u = t
  · simpa [hu] using hstage
  · simpa [hu] using h.inside u

theorem without [DecidableEq T] (h : s.Quiet) (t : T) : (s.without t).Quiet :=
  ⟨h.orderly.without t, h.running, h.held, h.ticked, h.missed, h.inside, h.created⟩

end Quiet

/-! ## Every step keeps the invariant -/

theorem ready_enqueue (s : Schedule T) (t : T) (q : Priority) :
    (s.enqueue t).ready q = if q = s.priority t then s.ready q ++ [t] else s.ready q := by
  by_cases hq : q = s.priority t
  · subst hq
    simp [enqueue]
  · simp [enqueue, hq]

namespace Ranked

theorem enqueue (h : s.Ranked)
    (ht : ∀ c, s.current = some c → s.stage c ≠ .yield → s.priority t ≤ s.priority c) :
    (s.enqueue t).Ranked := by
  refine ⟨fun c hc hawake => ?_, fun c hc hyield q hq hnew => ?_⟩
  · rw [ready_enqueue]
    split
    · exact List.mem_append_left _ (h.here c hc hawake)
    · exact h.here c hc hawake
  · rw [ready_enqueue, if_neg ((ht c hc hyield).trans_lt hq).ne']
    exact h.top c hc hyield q hq hnew

theorem without [DecidableEq T] (h : s.Ranked)
    (ht : ∀ c, s.current = some c → (s.stage c).awake → c ≠ t) : (s.without t).Ranked := by
  refine ⟨fun c hc hawake => ?_, fun c hc hyield q hq hnew => ?_⟩
  · exact List.mem_filter.mpr ⟨h.here c hc hawake, by simpa using ht c hc hawake⟩
  · exact List.filter_eq_nil_iff.mpr (by simp [h.top c hc hyield q hq hnew])

/-- A task that is about to yield may be of any priority. -/
theorem of_yield {c : T} (hc : s.current = some c) (hstage : s.stage c = .yield) : s.Ranked := by
  refine ⟨fun u hu hawake => ?_, fun u hu hyield _ _ _ => ?_⟩
  · obtain rfl := Option.some.inj (hc.symm.trans hu)
    simp [hstage, Stage.awake] at hawake
  · obtain rfl := Option.some.inj (hc.symm.trans hu)
    exact absurd hstage hyield

end Ranked

theorem capped_le (p : ℕ) : (Kernel.cappedPriority p : ℕ) ≤ p := by
  unfold Kernel.cappedPriority
  split
  · exact Nat.le_of_lt (Nat.lt_of_succ_le ‹_›)
  · exact le_rfl

theorem le_capped {p : ℕ} (h : (q : ℕ) ≤ p) : q ≤ Kernel.cappedPriority p := by
  rw [Fin.le_def]
  unfold Kernel.cappedPriority
  split
  · exact Nat.le_of_lt_succ q.isLt
  · exact h

theorem ready_introduce [DecidableEq T] (s : Schedule T) (t : T) (n : ℕ) (q : Priority) :
    (s.introduce t n).ready q =
      if q = Kernel.cappedPriority n then s.ready q ++ [t] else s.ready q := by
  rw [introduce, ready_enqueue]
  simp

theorem priority_introduce [DecidableEq T] (s : Schedule T) (t : T) (n : ℕ) :
    (s.introduce t n).priority = Function.update s.priority t (Kernel.cappedPriority n) := rfl

/-- A new task runs its own code first, and the others are where they were. -/
theorem stage_introduce [DecidableEq T] {Q : Stage T → Prop} {u : T} (hown : Q .own)
    (h : Q (s.stage u)) (t : T) (n : ℕ) : Q ((s.introduce t n).stage u) := by
  show Q (Function.update s.stage t .own u)
  by_cases hu : u = t
  · rwa [hu, Function.update_self]
  · rwa [Function.update_of_ne hu]

theorem inside_introduce [DecidableEq T] {n : ℕ} (h : ∀ u, (s.stage u).inside = false) (u : T) :
    ((s.introduce t n).stage u).inside = false :=
  stage_introduce (Q := fun stage => stage.inside = false) rfl (h u) t n

theorem Orderly.introduce [DecidableEq T] (h : s.Orderly) (ht : ¬ s.placed t) (n : ℕ) :
    (s.introduce t n).Orderly := by
  have hready : ∀ q, t ∉ s.ready q := fun q hq => ht (.inl ⟨q, hq⟩)
  have horderly := (h.withPriority hready (Kernel.cappedPriority n)).enqueue t
  exact ⟨horderly.ready, horderly.sorted, horderly.future⟩

namespace Good

theorem own (h : s.Good) (hown : s.ownCode) :
    s.Quiet ∧ ∃ c, s.current = some c ∧ s.stage c = .own := by
  obtain ⟨hrunning, hstage⟩ := hown
  obtain ⟨c, hc, hcstage⟩ := Option.map_eq_some_iff.mp hstage
  exact ⟨h.quiet hrunning (h.staged.held_eq_false hc (by rw [hcstage]; rfl)), c, hc, hcstage⟩

/-- Who is current once a task has been introduced before the scheduler runs. -/
theorem currentWith_spec (h : s.Good) (hstopped : s.running = false) (ht : ¬ s.placed t) (n : ℕ) :
    (s.currentWith t n = t ∧ ∀ q, Kernel.cappedPriority n < q → s.ready q = []) ∨
      s.currentWith t n ≠ t ∧ s.current = some (s.currentWith t n) ∧
        n ≤ s.priority (s.currentWith t n) := by
  unfold currentWith
  cases hc : s.current with
  | none =>
      refine .inl ⟨rfl, fun q _ => List.eq_nil_iff_forall_not_mem.mpr fun u hu => ?_⟩
      exact (h.fresh hc).1 u (.inl ⟨q, hu⟩)
  | some c =>
      have hstage : s.stage c = .own := (h.stopped hstopped).2.2 c
      have hct : c ≠ t := by
        rintro rfl
        exact ht (.inl ⟨_, h.ranked.here c hc (by rw [hstage]; rfl)⟩)
      by_cases hlate : s.priority c ≤ n
      · simp only [hstopped, hlate, and_self, if_true]
        refine .inl ⟨trivial, fun q hq => ?_⟩
        exact h.ranked.higher hc (by simp [hstage]) (by rw [hstage]; rfl)
          ((le_capped hlate).trans_lt hq)
      · simp only [hstopped, hlate, and_false, if_false]
        exact .inr ⟨hct, trivial, Nat.le_of_not_le hlate⟩

/-- A task that runs stays current. -/
theorem currentWith_running (h : s.Good) (hrunning : s.running = true) (ht : ¬ s.placed t) {c : T}
    (hc : s.current = some c) (hawake : (s.stage c).awake) (n : ℕ) :
    s.currentWith t n = c ∧ c ≠ t := by
  refine ⟨by simp [currentWith, hc, hrunning], ?_⟩
  rintro rfl
  exact ht (.inl ⟨_, h.ranked.here c hc hawake⟩)

variable [DecidableEq T]

theorem introduce (h : s.Good) (hstopped : s.running = false) (ht : ¬ s.placed t) (n : ℕ) :
    (s.introduce t n).Good := by
  obtain ⟨hnow, hheld, hstage⟩ := h.stopped hstopped
  have hticked := h.staged.ticked hheld
  have hstage' (u : T) : (s.introduce t n).stage u = .own :=
    stage_introduce (Q := fun stage => stage = .own) rfl (hstage u) t n
  refine ⟨h.orderly.introduce ht n, staged_of_not_held hheld hticked (h.staged.missed hticked)
    (inside_introduce (h.staged.inside_eq_false hheld)), ⟨?_, ?_⟩, nofun,
    by simp [Schedule.introduce, enqueue], fun _ => ⟨hnow, hheld, hstage'⟩⟩
  · intro c hc _
    obtain rfl := Option.some.inj hc
    rw [ready_introduce, priority_introduce]
    rcases h.currentWith_spec hstopped ht n with ⟨hnew, -⟩ | ⟨hne, hc, -⟩
    · simp [hnew]
    · have hmem := h.ranked.here _ hc (by rw [hstage]; rfl)
      rw [Function.update_of_ne hne]
      split
      · exact List.mem_append_left _ hmem
      · exact hmem
  · intro c hc hyield q hq _
    obtain rfl := Option.some.inj hc
    rw [priority_introduce] at hq
    rw [ready_introduce]
    rcases h.currentWith_spec hstopped ht n with ⟨hnew, htop⟩ | ⟨hne, hc, hle⟩
    · rw [hnew, Function.update_self] at hq
      rw [if_neg hq.ne', htop q hq]
    · rw [Function.update_of_ne hne] at hq
      have hcapped : Kernel.cappedPriority n < q := lt_of_le_of_lt ((capped_le n).trans hle) hq
      rw [if_neg hcapped.ne', h.ranked.higher hc (by simp [hstage]) (by rw [hstage]; rfl) hq]

/-- The task that is created may be of a higher priority than the current one. -/
theorem addTask (h : s.Good) (hquiet : s.Quiet) (ht : ¬ s.placed t) {c : T}
    (hc : s.current = some c) {n : ℕ} (hstage : s.stage c = .create (.addTask t n)) :
    Good { s.introduce t n with
      stage := Function.update (s.introduce t n).stage (s.currentWith t n)
        (.create (.testPriority n)) } := by
  have hmem := h.ranked.here c hc (by rw [hstage]; rfl)
  obtain ⟨hcurrent, hct⟩ :=
    h.currentWith_running hquiet.running ht hc (by rw [hstage]; rfl) n
  have hquiet' : (s.introduce t n).Quiet :=
    ⟨h.orderly.introduce ht n, hquiet.running, hquiet.held, hquiet.ticked, hquiet.missed,
      inside_introduce hquiet.inside, by simp [Schedule.introduce, enqueue]⟩
  refine (hquiet'.withStage _ rfl).good ⟨?_, ?_⟩ nofun
  · intro d hd _
    obtain rfl := Option.some.inj hd
    show s.currentWith t n ∈ (s.introduce t n).ready ((s.introduce t n).priority _)
    rw [ready_introduce, priority_introduce, hcurrent, Function.update_of_ne hct]
    split
    · exact List.mem_append_left _ hmem
    · exact hmem
  · intro d hd _ q hq hnew
    obtain rfl := Option.some.inj hd
    have hlt : s.priority c < q := by
      simpa [hcurrent, hct, priority_introduce] using hq
    have hn : n < (q : ℕ) := by simpa [Stage.newcomer, Creation.newcomer] using hnew
    have hcapped : Kernel.cappedPriority n < q :=
      Fin.lt_def.mpr (Nat.lt_of_le_of_lt (capped_le n) hn)
    show (s.introduce t n).ready q = []
    rw [ready_introduce, if_neg hcapped.ne']
    exact h.ranked.higher hc (by simp [hstage]) (by rw [hstage]; rfl) hlt

theorem start (h : s.Good) (hstopped : s.running = false) (hs : s.start t = some s') :
    s'.Good := by
  obtain ⟨s₁, hs₁, hs⟩ := Option.bind_eq_some_iff.mp hs
  obtain rfl := Option.some.inj hs
  obtain ⟨ht, rfl⟩ := add_eq hs₁
  have h₁ := h.introduce hstopped ht tskIDLE_PRIORITY
  exact ⟨⟨h₁.orderly.ready, h₁.orderly.sorted, h₁.orderly.future⟩,
    ⟨h₁.staged.inside, h₁.staged.held, h₁.staged.delay, h₁.staged.ticked, h₁.staged.missed⟩,
    ⟨h₁.ranked.here, h₁.ranked.top⟩, nofun, h₁.created, nofun⟩

omit [DecidableEq T] in
theorem tick (h : s.Good) (hrunning : s.running = true) (hs : s.tick = some s') : s'.Good := by
  rcases tick_eq hs with ⟨hheld, rfl⟩ | ⟨hheld, hs⟩
  · refine ⟨⟨h.orderly.ready, h.orderly.sorted, h.orderly.future⟩,
      ⟨h.staged.inside, h.staged.held, h.staged.delay, fun hfree => ?_, nofun⟩,
      ⟨h.ranked.here, h.ranked.top⟩, h.fresh, h.created, fun hstopped => ?_⟩
    · exact absurd (hheld.symm.trans hfree) (by simp)
    · exact absurd (hrunning.symm.trans hstopped) (by simp)
  · exact ((h.quiet hrunning hheld).advance 1).good_dispatch hs

/-- The current task suspends the scheduler. -/
theorem hold (h : s.Good) (hquiet : s.Quiet) {c : T} (hc : s.current = some c)
    (hawake : (s.stage c).awake) (hnew : (s.stage c).newcomer = 0) {stage : Stage T}
    (hinside : stage.inside) (hdelay : ∀ n, stage = .delay n → 0 < n)
    (hs : s.hold stage = some s') : s'.Good := by
  obtain ⟨d, hd, rfl⟩ := hold_eq hs
  obtain rfl := Option.some.inj (hc.symm.trans hd)
  refine ⟨⟨h.orderly.ready, h.orderly.sorted, h.orderly.future⟩, ⟨fun u hu => ?_, fun _ => ?_,
    fun u n hu => ?_, nofun, fun _ => hquiet.missed⟩, ⟨fun u hu _ => ?_, fun u hu _ q hq _ => ?_⟩,
      fun hnone => ?_, h.created, fun hstopped => ?_⟩
  · by_cases huc : u = c
    · exact ⟨huc ▸ hc, rfl⟩
    · simp [huc, hquiet.inside u] at hu
  · exact ⟨c, hc, by simpa using hinside⟩
  · by_cases huc : u = c
    · subst huc
      exact hdelay n (by simpa using hu)
    · exact h.staged.delay u n (by simpa [huc] using hu)
  · obtain rfl := Option.some.inj (hc.symm.trans hu)
    exact h.ranked.here c hc hawake
  · obtain rfl := Option.some.inj (hc.symm.trans hu)
    exact h.ranked.higher hc (fun hyield => by simp [hyield, Stage.awake] at hawake) hnew hq
  · exact absurd (hc.symm.trans hnone) (by simp)
  · exact absurd (hquiet.running.symm.trans hstopped) (by simp)

/-- The current task suspends the scheduler from its own code. -/
theorem hold_own (h : s.Good) (hown : s.ownCode) {stage : Stage T} (hinside : stage.inside)
    (hdelay : ∀ n, stage = .delay n → 0 < n) (hs : s.hold stage = some s') : s'.Good := by
  obtain ⟨hquiet, c, hc, hstage⟩ := h.own hown
  exact h.hold hquiet hc (by rw [hstage]; rfl) (by rw [hstage]; rfl) hinside hdelay hs

theorem create (h : s.Good) (hok : s.running = false ∨ s.ownCode) {n : ℕ}
    (hs : s.create t n = some s') : s'.Good := by
  rcases create_eq hs with ⟨hrunning, hs⟩ | ⟨hstopped, hs⟩
  · exact h.hold_own (hok.resolve_left (by simp [hrunning])) rfl (by simp) hs
  · obtain ⟨ht, rfl⟩ := add_eq hs
    exact h.introduce hstopped ht n

theorem createWithoutMemory (h : s.Good) (hok : s.running = false ∨ s.ownCode) {tcb : Bool}
    (hs : s.createWithoutMemory tcb = some s') : s'.Good := by
  rcases createWithoutMemory_eq hs with ⟨hrunning, next, hs⟩ | ⟨-, rfl⟩
  · exact h.hold_own (hok.resolve_left (by simp [hrunning])) rfl (by simp) hs
  · exact h

/-- The current task is about to yield. -/
theorem yield (h : s.Quiet) (hs : s.atStage .yield = some s') : s'.Good := by
  obtain ⟨c, hc, rfl⟩ := atStage_eq hs
  exact (h.withStage c rfl).good (Ranked.of_yield hc (by simp)) fun hnone =>
    absurd (hc.symm.trans hnone) (by simp)

omit [DecidableEq T] in
theorem newcomer_of_inside {stage : Stage T} (h : stage.inside) : stage.newcomer = 0 := by
  cases stage with
  | create next => cases h
  | _ => rfl

/-- The current task is about to resume the scheduler. -/
theorem toResume (h : s.Good) {c : T} (hc : s.current = some c) (hinside : (s.stage c).inside) :
    Good { s with stage := Function.update s.stage c .resume } := by
  obtain ⟨-, hheld⟩ := h.staged.inside c hinside
  refine ⟨⟨h.orderly.ready, h.orderly.sorted, h.orderly.future⟩, ⟨fun u hu => ?_, fun _ => ?_,
    fun u n hu => ?_, fun hfree => ?_, h.staged.missed⟩,
      ⟨fun u hu hawake => ?_, fun u hu _ q hq _ => ?_⟩, h.fresh, h.created, fun hstopped => ?_⟩
  · by_cases huc : u = c
    · exact ⟨huc ▸ hc, hheld⟩
    · exact h.staged.inside u (by simpa [huc] using hu)
  · exact ⟨c, hc, by simp [Stage.inside]⟩
  · by_cases huc : u = c
    · simp [huc] at hu
    · exact h.staged.delay u n (by simpa [huc] using hu)
  · exact absurd (hheld.symm.trans hfree) (by simp)
  · obtain rfl := Option.some.inj (hc.symm.trans hu)
    simp [Stage.awake] at hawake
  · obtain rfl := Option.some.inj (hc.symm.trans hu)
    exact h.ranked.higher hc (fun hyield => by simp [hyield, Stage.inside] at hinside)
      (newcomer_of_inside hinside) hq
  · exact absurd (hheld.symm.trans (h.stopped hstopped).2.1) (by simp)

/-- The current task goes to sleep. -/
theorem sleep (h : s.Good) {c : T} (hc : s.current = some c) (hstage : s.stage c = .resume)
    {wakeAt : ℕ} (hnow : s.now < wakeAt) : ((s.without c).sleep c wakeAt).Good := by
  have horderly := (h.orderly.without c).sleep (t := c) (by simp [Schedule.without]) hnow
  have hranked := h.ranked.without (t := c) fun d hd hawake => ?_
  · refine ⟨horderly,
      ⟨h.staged.inside, h.staged.held, h.staged.delay, h.staged.ticked, h.staged.missed⟩,
      ⟨hranked.here, hranked.top⟩, fun hnone => ?_, h.created, h.stopped⟩
    exact absurd (hc.symm.trans hnone) (by simp)
  · obtain rfl := Option.some.inj (hc.symm.trans hd)
    simp [hstage, Stage.awake] at hawake

/-- The current task sleeps, and is then about to resume the scheduler. -/
theorem sleepUntil (h : s.Good) {c : T} (hc : s.current = some c) (hinside : (s.stage c).inside)
    {wakeAt : ℕ} (hnow : s.now < wakeAt)
    (hs : (s.sleepUntil wakeAt >>= fun s' => s'.atStage .resume) = some s') : s'.Good := by
  obtain ⟨d, hd, -, rfl⟩ := sleepUntil_eq hs
  obtain rfl := Option.some.inj (hc.symm.trans hd)
  exact (h.toResume hc hinside).sleep hc (by simp) hnow

theorem delayUntil (h : s.Good) {c : T} (hc : s.current = some c) (hinside : (s.stage c).inside)
    {n : ℕ} (hs : s.delayUntil n = some s') : s'.Good := by
  obtain ⟨d, hd, -, hs⟩ := delayUntil_eq hs
  obtain rfl := Option.some.inj (hc.symm.trans hd)
  have h' : Good { s with lastWake := Function.update s.lastWake c (s.lastWake c + n) } :=
    ⟨⟨h.orderly.ready, h.orderly.sorted, h.orderly.future⟩,
      ⟨h.staged.inside, h.staged.held, h.staged.delay, h.staged.ticked, h.staged.missed⟩,
      ⟨h.ranked.here, h.ranked.top⟩, h.fresh, h.created, h.stopped⟩
  rcases hs with ⟨hnow, -, rfl⟩ | ⟨-, rfl⟩
  · exact (h'.toResume hc hinside).sleep hc (by simp) hnow
  · exact h'.toResume hc hinside

theorem resumed (h : s.Good) {c : T} (hc : s.current = some c) (hrunning : s.running = true)
    {next : Bool → Stage T} (hnext : ∀ yielded, (next yielded).inside = false)
    (hstay : next false = .yield ∨ (s.stage c).awake ∧ (s.stage c).newcomer = 0)
    (hs : s.resumed next = some s') : s'.Good := by
  obtain ⟨d, hd, hs⟩ := resumed_eq hs
  obtain rfl := Option.some.inj (hc.symm.trans hd)
  have hquiet (yielded : Bool) : Quiet { s with
      held := false, missed := 0, ticked := false
      stage := Function.update s.stage c (next yielded) } := by
    refine ⟨⟨h.orderly.ready, h.orderly.sorted, h.orderly.future⟩, hrunning, rfl, rfl, rfl,
      fun u => ?_, fun hnil => absurd (h.created.mp hnil) (by simp [hc])⟩
    by_cases hu : u = c
    · simpa [hu] using hnext yielded
    · by_contra hinside
      have hcurrent := (h.staged.inside u (by simpa [hu] using hinside)).1
      exact hu (Option.some.inj (hcurrent.symm.trans hc))
  rcases hs with ⟨-, hs⟩ | ⟨-, rfl⟩
  · exact ((hquiet true).advance s.missed.toNat).good_dispatch hs
  · refine (hquiet false).good ?_ fun hnone => absurd (hc.symm.trans hnone) (by simp)
    rcases hstay with hyield | ⟨hawake, hnew⟩
    · exact Ranked.of_yield hc (by simp [hyield])
    · refine ⟨fun u hu _ => ?_, fun u hu _ q hq _ => ?_⟩
      · obtain rfl := Option.some.inj (hc.symm.trans hu)
        exact h.ranked.here c hc hawake
      · obtain rfl := Option.some.inj (hc.symm.trans hu)
        exact h.ranked.higher hc (fun hyield => by simp [hyield, Stage.awake] at hawake) hnew hq

/-- The current task goes on with the creation of a task. -/
theorem goOn (h : s.Good) (hquiet : s.Quiet) {c : T} (hc : s.current = some c) {next : Creation T}
    (hstage : s.stage c = .create next) (hs : s.goOn next = some s') : s'.Good := by
  have hnew : (s.stage c).newcomer = next.newcomer := by rw [hstage]; rfl
  rcases goOn_eq hs with ⟨hnone, behind, hs⟩ | ⟨t, n, rfl, ht, rfl⟩ | hs | ⟨hs, htest⟩
  · exact h.hold hquiet hc (by rw [hstage]; rfl) (hnew.trans hnone) rfl (by simp) hs
  · exact h.addTask hquiet ht hc hstage
  · exact yield hquiet hs
  · obtain ⟨d, hd, rfl⟩ := atStage_eq hs
    obtain rfl := Option.some.inj (hc.symm.trans hd)
    refine (hquiet.withStage c rfl).good ⟨fun u hu _ => ?_, fun u hu _ q hq _ => ?_⟩ fun hnone =>
      absurd (hc.symm.trans hnone) (by simp)
    · obtain rfl := Option.some.inj (hc.symm.trans hu)
      exact h.ranked.here c hc (by rw [hstage]; rfl)
    · obtain rfl := Option.some.inj (hc.symm.trans hu)
      refine h.ranked.top c hc (by simp [hstage]) q hq ?_
      exact hnew ▸ (htest c hc).trans_lt hq

theorem proceed (h : s.Good) (hrunning : s.running = true) (hs : s.proceed = some s') :
    s'.Good := by
  obtain ⟨c, hc, hs⟩ := Option.bind_eq_some_iff.mp hs
  have hquiet (hinside : (s.stage c).inside = false) : s.Quiet :=
    h.quiet hrunning (h.staged.held_eq_false hc hinside)
  cases hstage : s.stage c with
  | own => simp [hstage] at hs
  | delay n =>
      rw [hstage] at hs
      have hn : 0 < n.toNat := by
        have hpos := h.staged.delay c n hstage
        simpa [BitVec.lt_def] using hpos
      exact h.sleepUntil hc (by simp [hstage, Stage.inside]) (Nat.lt_add_of_pos_right hn) hs
  | delayUntil n =>
      rw [hstage] at hs
      exact h.delayUntil hc (by simp [hstage, Stage.inside]) hs
  | resume =>
      rw [hstage] at hs
      exact h.resumed hc hrunning (fun yielded => by cases yielded <;> rfl) (.inl rfl) hs
  | yield =>
      rw [hstage] at hs
      obtain ⟨s₁, hs₁, hs⟩ := Option.bind_eq_some_iff.mp hs
      obtain ⟨d, hd, rfl⟩ := atStage_eq hs₁
      exact ((hquiet (by rw [hstage]; rfl)).withStage d rfl).good_dispatch hs
  | malloc next =>
      rw [hstage] at hs
      have hstay : (s.stage c).awake ∧ (s.stage c).newcomer = 0 := by
        rw [hstage]
        exact ⟨rfl, rfl⟩
      exact h.resumed hc hrunning (fun _ => rfl) (.inr hstay) hs
  | create next =>
      rw [hstage] at hs
      exact h.goOn (hquiet (by rw [hstage]; rfl)) hc hstage hs

theorem suspend (h : s.Good) (hown : s.ownCode) {t : Option T} (hs : s.suspend t = some s') :
    s'.Good := by
  obtain ⟨hquiet, c, hc, hstage⟩ := h.own hown
  obtain ⟨u, -, -, hs⟩ := suspend_eq hs
  have hquiet' : Quiet { s.without u with suspended := (s.without u).suspended ++ [u] } :=
    have hleft := hquiet.without u
    ⟨⟨hleft.orderly.ready, hleft.orderly.sorted, hleft.orderly.future⟩, hleft.running, hleft.held,
      hleft.ticked, hleft.missed, hleft.inside, hleft.created⟩
  rcases hs with ⟨hu, rfl⟩ | ⟨hu, rfl⟩
  · exact (hquiet'.withStage u rfl).good (Ranked.of_yield hu (by simp)) fun hnone =>
      absurd (hu.symm.trans hnone) (by simp)
  · have hranked := h.ranked.without (t := u) fun d hd _ hdu => hu (by rw [← hdu]; exact hd)
    exact hquiet'.good ⟨hranked.here, hranked.top⟩ fun hnone =>
      absurd (hc.symm.trans hnone) (by simp)

theorem resume (h : s.Good) (hown : s.ownCode) {t : T} (hs : s.resume t = some s') :
    s'.Good := by
  obtain ⟨hquiet, c, hc, hstage⟩ := h.own hown
  obtain ⟨-, d, hd, hs⟩ := resume_eq hs
  obtain rfl := Option.some.inj (hc.symm.trans hd)
  have hquiet' := (hquiet.without t).enqueue t
  rcases hs with ⟨-, -, -, hs⟩ | ⟨htc, -, hlt, rfl⟩ | rfl
  · exact hquiet'.good_dispatch hs
  · have hranked := h.ranked.without (t := t) fun e he _ het =>
      htc (het ▸ Option.some.inj (he.symm.trans hc))
    refine hquiet'.good (hranked.enqueue fun e he _ => ?_) fun hnone =>
      absurd (hc.symm.trans hnone) (by simp)
    obtain rfl := Option.some.inj (hc.symm.trans he)
    exact hlt.le
  · exact h

theorem quiet_prioritise (h : s.Quiet) {p : Priority} (hs : s.prioritise t p = some s') :
    s'.Quiet := by
  rcases prioritise_eq hs with ⟨-, rfl⟩ | ⟨ht, rfl⟩
  · have horderly := (h.orderly.without t).withPriority (t := t) (by simp [Schedule.without]) p
    exact Quiet.enqueue ⟨⟨horderly.ready, horderly.sorted, horderly.future⟩, h.running, h.held,
      h.ticked, h.missed, h.inside, h.created⟩ t
  · have hready : ∀ q, t ∉ s.ready q := by
      intro q hq
      rw [h.orderly.ready q t hq] at ht
      exact ht hq
    exact ⟨h.orderly.withPriority hready p, h.running, h.held, h.ticked, h.missed, h.inside,
      h.created⟩

/-- Without a need to yield, the current task stays the highest. -/
theorem ranked_prioritise (h : s.Good) {c : T} (hc : s.current = some c) (hstage : s.stage c = .own)
    {p : Priority} (hp : s.priority t ≠ p) (hstay : t = c ↔ s.priority t < p)
    (hs : s.prioritise t p = some s') : s'.Ranked := by
  have hmem := h.ranked.here c hc (by simp [hstage, Stage.awake])
  have htop (q : Priority) (hq : s.priority c < q) : s.ready q = [] :=
    h.ranked.higher hc (by simp [hstage]) (by rw [hstage]; rfl) hq
  by_cases htc : t = c
  · subst htc
    rcases prioritise_eq hs with ⟨-, rfl⟩ | ⟨ht, -⟩
    · refine ⟨fun d hd _ => ?_, fun d hd _ q hq _ => ?_⟩
      · obtain rfl := Option.some.inj (hc.symm.trans hd)
        rw [ready_enqueue]
        simp [Schedule.enqueue, Schedule.without]
      · obtain rfl := Option.some.inj (hc.symm.trans hd)
        have hpq : p < q := by simpa [Schedule.enqueue, Schedule.without] using hq
        have hqp : q ≠ p := hpq.ne'
        rw [ready_enqueue]
        simp [Schedule.without, hqp, htop q ((hstay.mp rfl).trans hpq)]
    · exact absurd hmem ht
  · have hlt : p < s.priority t :=
      lt_of_le_of_ne (not_lt.mp fun hlt => htc (hstay.mpr hlt)) hp.symm
    have hranked : Ranked { s with priority := Function.update s.priority t p } := by
      refine ⟨fun d hd _ => ?_, fun d hd _ q hq _ => ?_⟩
      · obtain rfl := Option.some.inj (hc.symm.trans hd)
        simpa [Ne.symm htc] using hmem
      · obtain rfl := Option.some.inj (hc.symm.trans hd)
        exact htop q (by simpa [Ne.symm htc] using hq)
    rcases prioritise_eq hs with ⟨ht, rfl⟩ | ⟨-, rfl⟩
    · have hle : s.priority t ≤ s.priority c := by
        by_contra hgt
        rw [htop _ (not_le.mp hgt)] at ht
        cases ht
      refine (hranked.without (t := t) fun d hd _ hdt => htc ?_).enqueue fun d hd _ => ?_
      · exact hdt ▸ Option.some.inj (hd.symm.trans hc)
      · obtain rfl := Option.some.inj (hc.symm.trans hd)
        simpa [Schedule.without, Ne.symm htc] using (hlt.trans_le hle).le
    · exact hranked

theorem setPriority (h : s.Good) (hown : s.ownCode) {u : Option T} {n : ℕ}
    (hs : s.setPriority u n = some s') : s'.Good := by
  obtain ⟨hquiet, c, hc, hstage⟩ := h.own hown
  obtain ⟨t, -, ⟨hp, s₁, hs₁, hs | ⟨hstay, rfl⟩⟩ | rfl⟩ := setPriority_eq hs
  · exact (quiet_prioritise hquiet hs₁).good_dispatch hs
  · have hcurrent : s'.current = some c := by
      rcases prioritise_eq hs₁ with ⟨-, rfl⟩ | ⟨-, rfl⟩ <;> exact hc
    refine (quiet_prioritise hquiet hs₁).good (h.ranked_prioritise hc hstage hp ?_ hs₁)
      fun hnone => absurd (hcurrent.symm.trans hnone) (by simp)
    simpa [hc, eq_comm] using hstay
  · exact h

/-- Whatever happens, the invariant is kept. -/
theorem step (h : s.Good) {action : Action T} (hs : s.step action = some s') : s'.Good := by
  cases action with
  | xTaskCreate t n =>
      obtain ⟨hguard, hs⟩ := Option.ite_none_right_eq_some.mp hs
      exact h.create hguard hs
  | xTaskCreateFails tcb =>
      obtain ⟨hguard, hs⟩ := Option.ite_none_right_eq_some.mp hs
      exact h.createWithoutMemory hguard hs
  | vTaskStartScheduler t =>
      obtain ⟨hguard, hs⟩ := Option.ite_none_right_eq_some.mp hs
      exact h.start hguard hs
  | vTick =>
      obtain ⟨hguard, hs⟩ := Option.ite_none_right_eq_some.mp hs
      exact h.tick hguard hs
  | proceed =>
      obtain ⟨hguard, hs⟩ := Option.ite_none_right_eq_some.mp hs
      exact h.proceed hguard hs
  | taskYIELD =>
      obtain ⟨hguard, hs⟩ := Option.ite_none_right_eq_some.mp hs
      exact (h.own hguard).1.good_dispatch hs
  | vTaskDelay n =>
      obtain ⟨hown, hs⟩ := Option.ite_none_right_eq_some.mp hs
      split at hs
      · rename_i hn
        refine h.hold_own hown rfl (fun m hm => ?_) hs
        obtain rfl := Stage.delay.inj hm
        exact hn
      · exact yield (h.own hown).1 hs
  | vTaskDelayUntil n =>
      obtain ⟨hguard, hs⟩ := Option.ite_none_right_eq_some.mp hs
      exact h.hold_own hguard rfl (by simp) hs
  | xTaskGetTickCount =>
      obtain ⟨c, -, rfl⟩ := Option.map_eq_some_iff.mp (Option.ite_none_right_eq_some.mp hs).2
      exact ⟨⟨h.orderly.ready, h.orderly.sorted, h.orderly.future⟩,
        ⟨h.staged.inside, h.staged.held, h.staged.delay, h.staged.ticked, h.staged.missed⟩,
        ⟨h.ranked.here, h.ranked.top⟩, h.fresh, h.created, h.stopped⟩
  | vTaskSuspend t =>
      obtain ⟨hguard, hs⟩ := Option.ite_none_right_eq_some.mp hs
      exact h.suspend hguard hs
  | vTaskResume t =>
      obtain ⟨hguard, hs⟩ := Option.ite_none_right_eq_some.mp hs
      exact h.resume hguard hs
  | vTaskPrioritySet t n =>
      obtain ⟨hguard, hs⟩ := Option.ite_none_right_eq_some.mp hs
      exact h.setPriority hguard hs

theorem run (h : s.Good) {actions : List (Action T)} (hs : s.run actions = some s') : s'.Good :=
  (Transition.Runs.of_foldlM hs).invariant (P := Good) (fun _ _ _ h hs => h.step hs) h

end Good

end Schedule

end RealTime.FreeRtos
