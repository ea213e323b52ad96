import RealTime.Butterfly.Model
import RealTime.FreeRtos.Clients

/-! # What the pins and the LEDs do

A LED is toggled only while all three responses are low, and every pulse lasts for a tick. -/

namespace RealTime.Butterfly

open FreeRtos

/-- The priority given in `mainCalls`. -/
def Task.uxPriority : Task → Priority
  | .prvIdleTask => Kernel.cappedPriority tskIDLE_PRIORITY
  | .toggleLed _ => Kernel.cappedPriority (tskIDLE_PRIORITY + 1)
  | .reactToButterfly _ => Kernel.cappedPriority (tskIDLE_PRIORITY + 3)

def workload : Workload Task := ⟨.prvIdleTask, Task.uxPriority, Task.xDelay⟩

variable {b b' : Board (Memory ListId Task)} {s : Schedule Task} {config : PinPair} {led : Led}
  {o o' : Output} {outputs : List Output}

namespace Board

/-- The ticks since the output before the call of `vTaskDelay` that a task is in. -/
def pause (b : Board (Memory ListId Task)) : Task → Option ℕ
  | .prvIdleTask => none
  | .toggleLed led =>
    if b.led led = .toggle ∧ .toggle led ∈ b.outputs then
      some (ticksSince (.toggle led) b.outputs)
    else none
  | .reactToButterfly config =>
    if b.react config = .setPinHigh then some (ticksSince (.setPinLow config) b.outputs) else none

end Board

/-! ## Outputs -/

@[simp] theorem ticksSince_cons_self : ticksSince o (o :: outputs) = 0 := by
  simp [ticksSince]

theorem ticksSince_cons (h : o' ≠ o) : ticksSince o (o' :: outputs) =
    ticksSince o outputs + if o' = .tick then 1 else 0 := by
  simp [ticksSince, h, List.count_cons]

theorem isLow_cons : isLow config (o :: outputs) ↔
    o = .setPinLow config ∨ o ≠ .setPinHigh config ∧ isLow config outputs := by
  by_cases hlow : o = .setPinLow config
  · simp [isLow, hlow]
  · by_cases hhigh : o = .setPinHigh config <;> simp [isLow, hlow, hhigh]

/-- What may be put out after `before`. -/
def Allowed (before : List Output) : Output → Prop
  | .toggle led => (∀ config, isLow config before) ∧ (.toggle led ∈ before →
      (Task.toggleLed led).xDelay.toNat ≤ ticksSince (.toggle led) before)
  | .setPinLow config => ¬ isLow config before
  | .setPinHigh config => isLow config before ∧ 1 ≤ ticksSince (.setPinLow config) before
  | .tick => True

/-- Every output was allowed when it came. -/
def Lawful (outputs : List Output) : Prop :=
  ∀ newer o older, outputs = newer ++ o :: older → Allowed older o

theorem Lawful.cons (h : Lawful outputs) (ho : Allowed outputs o) : Lawful (o :: outputs) := by
  intro newer o' older heq
  cases newer with
  | nil =>
      obtain ⟨rfl, rfl⟩ := List.cons.inj heq
      exact ho
  | cons _ newer => exact h newer o' older (List.cons.inj heq).2

/-! ## Before the scheduler runs -/

/-- The tasks that `main` has created with its first calls. -/
def createdBy (calls : ℕ) : List Task := ((mainCalls.take calls).filterMap Action.creates).reverse

theorem drop_mainCalls {calls : ℕ} (h : calls < 5) : ∃ t n,
    mainCalls.drop calls = .xTaskCreate t n :: mainCalls.drop (calls + 1) ∧
      createdBy (calls + 1) = t :: createdBy calls ∧ t ∉ createdBy calls ∧
        Kernel.cappedPriority n = t.uxPriority := by
  obtain rfl | rfl | rfl | rfl | rfl :
      calls = 0 ∨ calls = 1 ∨ calls = 2 ∨ calls = 3 ∨ calls = 4 := by omega
  all_goals exact ⟨_, _, rfl, rfl, by decide, rfl⟩

/-- `main` has made `calls` of its calls. -/
structure Booting (b : Board (Memory ListId Task)) (s : Schedule Task) (calls : ℕ) : Prop where
  le : calls ≤ 5
  main : b.main = mainCalls.drop calls
  setup : Setup workload b.kernel s
  created : s.created = createdBy calls
  led : ∀ led, b.led led = .toggle
  react : ∀ config, b.react config = .getTickCount
  outputs : b.outputs = []

/-- All tasks have been created, and `main` does not come back. -/
structure Running (b : Board (Memory ListId Task)) (s : Schedule Task) : Prop where
  main : b.main = []
  clients : Clients workload b.kernel s b.pause
  low : ∀ config, isLow config b.outputs ↔
    b.react config = .delay ∨ b.react config = .setPinHigh
  toggled : ∀ led, b.led led = .delay → .toggle led ∈ b.outputs
  lawful : Lawful b.outputs

def Inv (b : Board (Memory ListId Task)) : Prop :=
  (∃ s calls, Booting b s calls) ∨ ∃ s, Running b s

namespace Booting

variable {calls : ℕ}

theorem boot (m : Memory ListId Task) (uxPriority : Task → Priority)
    (xPreviousWakeTime : Task → PortTickType) (input : PinPair → Bool) :
    Booting (.boot (Kernel.powerOn m uxPriority xPreviousWakeTime) input)
      (Schedule.powerOn uxPriority fun t => (xPreviousWakeTime t).toNat) 0 :=
  ⟨Nat.zero_le _, rfl, Setup.powerOn _ _ _ _, rfl, fun _ => rfl, fun _ => rfl, rfl⟩

theorem create (h : Booting b s calls) (hcalls : calls < 5) :
    ∃ b' s', b.turn = some b' ∧ Booting b' s' (calls + 1) := by
  obtain ⟨t, n, hdrop, hcreated, ht, hn⟩ := drop_mainCalls hcalls
  obtain ⟨k', s', hk', hsetup, hs'⟩ := h.setup.create (h.created ▸ ht) hn
  refine ⟨{ b with kernel := k', main := mainCalls.drop (calls + 1) }, s', ?_, hcalls, rfl, hsetup,
    by rw [hs', h.created, hcreated], h.led, h.react, h.outputs⟩
  simp [Board.turn, h.main, hdrop, Board.call, hk']

theorem start (h : Booting b s 5) : ∃ b' s', b.turn = some b' ∧ Running b' s' := by
  obtain ⟨k', s', hk', hclients⟩ := h.setup.start (by rw [h.created]; decide) rfl fun t => by
    rw [h.created]
    cases t with
    | prvIdleTask => exact .inl rfl
    | toggleLed led => cases led <;> decide
    | reactToButterfly config => cases config <;> decide
  have hpause : Board.pause { b with kernel := k', main := [] } = fun _ => none := by
    funext t
    cases t <;> simp [Board.pause, h.react, h.outputs]
  refine ⟨{ b with kernel := k', main := [] }, s', ?_, rfl, hpause ▸ hclients, fun config => ?_,
    fun led hled => ?_, fun newer o older heq => ?_⟩
  · have hmain : b.main = [.vTaskStartScheduler .prvIdleTask] := h.main
    have hstep : b.kernel.step (.vTaskStartScheduler .prvIdleTask) = some k' := hk'
    simp [Board.turn, hmain, Board.call, hstep]
  · simp [h.outputs, h.react, isLow]
  · exact absurd ((h.led led).symm.trans hled) (by simp)
  · exact absurd (h.outputs.symm.trans heq) (by simp)

end Booting

namespace Running

variable {c : Task}

/-- While a LED task runs its own code, the tasks of the pins wait for a tick. -/
theorem paused (h : Running b s) (hown : b.kernel.ownCode)
    (hcurrent : b.kernel.pxCurrentTCB = some (.toggleLed led)) :
    b.react config = .setPinHigh := by
  have hlt : workload.uxPriority (.toggleLed led) <
      workload.uxPriority (.reactToButterfly config) := by
    show (1 : Priority) < 3
    decide
  have hpaused := h.clients.paused_of_higher hown hcurrent hlt
  by_contra hne
  simp [Board.pause, hne] at hpaused

theorem toggle (h : Running b s) (hown : b.kernel.ownCode)
    (hcurrent : b.kernel.pxCurrentTCB = some (.toggleLed led)) (hled : b.led led = .toggle) :
    Running ((b.output (.toggle led)).setLed led .delay) s := by
  obtain ⟨hback, hclients⟩ := h.clients.back hown hcurrent
  have hpause : Function.update b.pause (.toggleLed led) none =
      ((b.output (.toggle led)).setLed led .delay).pause := by
    funext t
    cases t with
    | prvIdleTask => rfl
    | toggleLed l =>
        by_cases hl : l = led
        · simp [hl, Board.pause, Board.setLed]
        · simp [hl, Board.pause, Board.setLed, Board.output, ticksSince_cons, Ne.symm hl]
    | reactToButterfly config =>
        simp [Board.pause, Board.setLed, Board.output, ticksSince_cons]
  refine ⟨h.main, hpause ▸ hclients, fun config => ?_, fun l hl => ?_, h.lawful.cons ⟨?_, ?_⟩⟩
  · simpa [isLow_cons, Board.output, Board.setLed] using h.low config
  · by_cases hll : l = led
    · simp [hll, Board.output, Board.setLed]
    · have hled : b.led l = .delay := by simpa [Board.output, Board.setLed, hll] using hl
      exact List.mem_cons_of_mem _ (h.toggled l hled)
  · intro config
    exact (h.low config).mpr (.inr (h.paused hown hcurrent))
  · exact fun hmem => hback _ (by simp [Board.pause, hled, hmem])

/-- A LED task goes into `vTaskDelay`. -/
theorem delayLed (h : Running b s) (hown : b.kernel.ownCode)
    (hcurrent : b.kernel.pxCurrentTCB = some (.toggleLed led)) (hled : b.led led = .delay) :
    ∃ k' s', b.kernel.step (.vTaskDelay (Task.toggleLed led).xDelay) = some k' ∧
      Running ({ b with kernel := k' }.setLed led .toggle) s' := by
  obtain ⟨k', s', hk', hclients⟩ := h.clients.delay hown hcurrent (by simp [workload])
    (by cases led <;> decide) (by simp [Board.pause, hled]) (ticksSince (.toggle led) b.outputs)
  have hpause : Function.update b.pause (.toggleLed led)
      (some (ticksSince (.toggle led) b.outputs)) =
        ({ b with kernel := k' }.setLed led .toggle).pause := by
    funext t
    cases t with
    | prvIdleTask => rfl
    | toggleLed l =>
        by_cases hl : l = led
        · subst hl
          simp [Board.pause, Board.setLed, h.toggled l hled]
        · simp [hl, Board.pause, Board.setLed]
    | reactToButterfly config => exact Function.update_of_ne (by simp) _ _
  refine ⟨k', s', hk', h.main, hpause ▸ hclients, h.low, fun l hl => h.toggled l ?_, h.lawful⟩
  by_cases hll : l = led
  · simp [hll, Board.setLed] at hl
  · simpa [hll, Board.setLed] using hl

/-- The task of a pin goes into `vTaskDelay`. -/
theorem delayReact (h : Running b s) (hown : b.kernel.ownCode)
    (hcurrent : b.kernel.pxCurrentTCB = some (.reactToButterfly config))
    (hreact : b.react config = .delay) :
    ∃ k' s', b.kernel.step (.vTaskDelay (Task.reactToButterfly config).xDelay) = some k' ∧
      Running ({ b with kernel := k' }.setReact config .setPinHigh) s' := by
  obtain ⟨k', s', hk', hclients⟩ := h.clients.delay hown hcurrent (by simp [workload])
    (show (0 : PortTickType) < 1 by decide) (by simp [Board.pause, hreact])
    (ticksSince (.setPinLow config) b.outputs)
  have hpause : Function.update b.pause (.reactToButterfly config)
      (some (ticksSince (.setPinLow config) b.outputs)) =
        ({ b with kernel := k' }.setReact config .setPinHigh).pause := by
    funext t
    cases t with
    | prvIdleTask => rfl
    | toggleLed l => exact Function.update_of_ne (by simp) _ _
    | reactToButterfly other =>
        by_cases ho : other = config <;> simp [ho, Board.pause, Board.setReact]
  refine ⟨k', s', hk', h.main, hpause ▸ hclients, fun other => ?_, h.toggled, h.lawful⟩
  by_cases ho : other = config
  · subst ho
    simpa [Board.setReact, hreact] using h.low other
  · simpa [Board.setReact, ho] using h.low other

/-- The task of a pin goes on to a statement before the next output. -/
theorem goOn (h : Running b s) (config : PinPair) (statement : ReactStatement)
    (hreact : b.react config ≠ .delay ∧ b.react config ≠ .setPinHigh)
    (hnext : statement ≠ .delay ∧ statement ≠ .setPinHigh) :
    Running (b.setReact config statement) s := by
  have hsame : b.pause = (b.setReact config statement).pause := by
    funext t
    cases t with
    | prvIdleTask => rfl
    | toggleLed l => rfl
    | reactToButterfly other =>
        by_cases ho : other = config <;>
          simp [ho, Board.pause, Board.setReact, hreact.2, hnext.2]
  refine ⟨h.main, hsame ▸ h.clients, fun other => ?_, h.toggled, h.lawful⟩
  by_cases ho : other = config
  · subst ho
    simpa [Board.setReact, hreact, hnext] using h.low other
  · simpa [Board.setReact, ho] using h.low other

/-- The response pin is set low before the task goes into `vTaskDelay`, and high behind it. -/
theorem respond (h : Running b s) (hown : b.kernel.ownCode)
    (hcurrent : b.kernel.pxCurrentTCB = some (.reactToButterfly config))
    (ho : (o, b.react config) = (.setPinLow config, .setPinLow) ∨
      (o, b.react config) = (.setPinHigh config, .setPinHigh)) :
    Running ((b.output o).setReact config (if b.react config = .setPinLow then .delay else .test))
      s := by
  obtain ⟨hback, hclients⟩ := h.clients.back hown hcurrent
  have hne (l : Led) : o ≠ .toggle l ∧ o ≠ .tick := by
    rcases ho with ho | ho <;> simp [(Prod.mk.inj ho).1]
  have hother {other : PinPair} (hc : other ≠ config) :
      o ≠ .setPinLow other ∧ o ≠ .setPinHigh other := by
    rcases ho with ho | ho <;> simp [(Prod.mk.inj ho).1, Ne.symm hc]
  have hpause : Function.update b.pause (.reactToButterfly config) none =
      ((b.output o).setReact config
        (if b.react config = .setPinLow then .delay else .test)).pause := by
    funext t
    cases t with
    | prvIdleTask => rfl
    | toggleLed l =>
        simp [Board.pause, Board.setReact, Board.output, ticksSince_cons (hne l).1, (hne l).2,
          Ne.symm (hne l).1]
    | reactToButterfly other =>
        by_cases hc : other = config
        · subst hc
          have hmid : (if b.react other = .setPinLow then ReactStatement.delay else .test) ≠
              .setPinHigh := by split <;> simp
          simp [Board.pause, Board.setReact, hmid]
        · simp [hc, Board.pause, Board.setReact, Board.output, ticksSince_cons (hother hc).1,
            (hne .LED0).2]
  refine ⟨h.main, hpause ▸ hclients, fun other => ?_,
    fun l hl => List.mem_cons_of_mem _ (h.toggled l hl), h.lawful.cons ?_⟩
  · by_cases hc : other = config
    · subst hc
      rcases ho with ho | ho <;> obtain ⟨rfl, hreact⟩ := Prod.mk.inj ho <;>
        simp [isLow_cons, Board.output, Board.setReact, hreact]
    · simpa [isLow_cons, Board.output, Board.setReact, hc, hother hc] using h.low other
  · rcases ho with ho | ho <;> obtain ⟨rfl, hreact⟩ := Prod.mk.inj ho
    · simp [Allowed, h.low, hreact]
    · exact ⟨(h.low config).mpr (.inr hreact), hback _ (by simp [Board.pause, hreact])⟩

/-- The current task goes on in its own code. -/
theorem execute (h : Running b s) (hown : b.kernel.ownCode)
    (hcurrent : b.kernel.pxCurrentTCB = some c) :
    ∃ b' s', b.execute c = some b' ∧ Running b' s' := by
  cases c with
  | prvIdleTask =>
      have hidle (statement : IdleStatement) : Running (b.setIdle statement) s :=
        ⟨h.main, h.clients, h.low, h.toggled, h.lawful⟩
      cases hstatement : b.idle with
      | checkReady =>
          simp only [Board.execute, Board.prvIdleTask, hstatement]
          split
          · exact ⟨_, s, rfl, hidle .yield⟩
          · exact ⟨_, s, rfl, h⟩
      | yield =>
          obtain ⟨k', s', hk', hclients⟩ := h.clients.call hown hcurrent rfl (.inl rfl)
          refine ⟨{ b with kernel := k', idle := .checkReady }, s', ?_,
            h.main, hclients, h.low, h.toggled, h.lawful⟩
          simp [Board.execute, Board.prvIdleTask, hstatement, Board.call, hk', Board.setIdle]
  | toggleLed led =>
      cases hled : b.led led with
      | toggle =>
          refine ⟨_, s, ?_, h.toggle hown hcurrent hled⟩
          simp only [Board.execute, Board.toggleLed, hled]
      | delay =>
          obtain ⟨k', s', hk', h'⟩ := h.delayLed hown hcurrent hled
          refine ⟨_, s', ?_, h'⟩
          simp [Board.execute, Board.toggleLed, hled, Board.call, hk']
  | reactToButterfly config =>
      cases hreact : b.react config with
      | getTickCount =>
          obtain ⟨k', s', hk', hclients⟩ := h.clients.call hown hcurrent
            (by simp [Board.pause, hreact]) (.inr rfl)
          have h' : Running { b with kernel := k' } s' :=
            ⟨h.main, hclients, h.low, h.toggled, h.lawful⟩
          refine ⟨_, s', ?_, h'.goOn config .test (by simp [hreact]) (by simp)⟩
          simp [Board.execute, Board.reactToButterfly, hreact, Board.call, hk']
      | test =>
          refine ⟨_, s, ?_, h.goOn config (if b.input config then .test else .setPinLow)
            (by simp [hreact]) (by split <;> simp)⟩
          simp only [Board.execute, Board.reactToButterfly, hreact]
      | setPinLow =>
          have h' := h.respond hown hcurrent (.inl (by rw [hreact]))
          rw [if_pos hreact] at h'
          refine ⟨_, s, ?_, h'⟩
          simp only [Board.execute, Board.reactToButterfly, hreact]
      | delay =>
          obtain ⟨k', s', hk', h'⟩ := h.delayReact hown hcurrent hreact
          refine ⟨_, s', ?_, h'⟩
          simp [Board.execute, Board.reactToButterfly, hreact, Board.call, hk']
      | setPinHigh =>
          have h' := h.respond hown hcurrent (.inr (by rw [hreact]))
          rw [if_neg (by simp [hreact])] at h'
          refine ⟨_, s, ?_, h'⟩
          simp only [Board.execute, Board.reactToButterfly, hreact]

theorem turn (h : Running b s) : ∃ b' s', b.turn = some b' ∧ Running b' s' := by
  simp only [Board.turn, h.main]
  split
  · rename_i hown
    obtain ⟨c, hc⟩ := h.clients.alive.current
    have hcurrent := h.clients.reached.currentTCB.trans hc
    obtain ⟨b', s', hb', h'⟩ := h.execute hown hcurrent
    exact ⟨b', s', by simp [hcurrent, hb'], h'⟩
  · rename_i hown
    obtain ⟨k', s', hk', hclients⟩ := h.clients.proceed hown
    exact ⟨{ b with kernel := k' }, s', by simp [Board.call, hk'],
      h.main, hclients, h.low, h.toggled, h.lawful⟩

theorem tick (h : Running b s) :
    ∃ b' s', b.step .tick = some b' ∧ Running b' s' := by
  obtain ⟨k', s', hk', hclients⟩ := h.clients.tick
  have hpause : (fun t => (b.pause t).map (· + 1)) =
      ({ b with kernel := k' }.output .tick).pause := by
    funext t
    cases t with
    | prvIdleTask => rfl
    | toggleLed led =>
        simp [Board.pause, Board.output, ticksSince_cons, apply_ite]
    | reactToButterfly config =>
        simp [Board.pause, Board.output, ticksSince_cons, apply_ite]
  have hrunning : b.kernel.xSchedulerRunning = true :=
    h.clients.reached.schedulerRunning.trans h.clients.alive.running
  refine ⟨{ b with kernel := k' }.output .tick, s', ?_, h.main, hpause ▸ hclients, fun config => ?_,
    fun led hled => List.mem_cons_of_mem _ (h.toggled led hled), h.lawful.cons (o := .tick) trivial⟩
  · simp [Board.step, hrunning, Board.call, hk']
  · simpa [isLow_cons, Board.output] using h.low config

theorem step (h : Running b s) (event : Event) :
    ∃ b' s', b.step event = some b' ∧ Running b' s' := by
  cases event with
  | turn => exact h.turn
  | tick => exact h.tick
  | edge config level =>
      exact ⟨_, s, rfl, h.main, h.clients, h.low, h.toggled, h.lawful⟩

end Running

theorem Booting.step {calls : ℕ} (h : Booting b s calls) (event : Event) :
    ∃ b', b.step event = some b' ∧ Inv b' := by
  cases event with
  | turn =>
      rcases Nat.lt_or_eq_of_le h.le with hlt | rfl
      · obtain ⟨b', s', hb', h'⟩ := h.create hlt
        exact ⟨b', hb', .inl ⟨s', _, h'⟩⟩
      · obtain ⟨b', s', hb', h'⟩ := h.start
        exact ⟨b', hb', .inr ⟨s', h'⟩⟩
  | tick =>
      have hstopped : b.kernel.xSchedulerRunning = false :=
        h.setup.reached.schedulerRunning.trans h.setup.stopped
      exact ⟨b, by simp [Board.step, hstopped], .inl ⟨s, calls, h⟩⟩
  | edge config level =>
      exact ⟨_, rfl, .inl ⟨s, calls, h.le, h.main, h.setup, h.created, h.led, h.react, h.outputs⟩⟩

namespace Inv

theorem step (h : Inv b) (event : Event) : ∃ b', b.step event = some b' ∧ Inv b' := by
  rcases h with ⟨s, calls, h⟩ | ⟨s, h⟩
  · exact h.step event
  · obtain ⟨b', s', hb', h'⟩ := h.step event
    exact ⟨b', hb', .inr ⟨s', h'⟩⟩

theorem run (h : Inv b) (events : List Event) : ∃ b', b.run events = some b' ∧ Inv b' := by
  induction events generalizing b with
  | nil => exact ⟨b, rfl, h⟩
  | cons event events ih =>
      obtain ⟨b₁, hb₁, h₁⟩ := h.step event
      obtain ⟨b', hb', h'⟩ := ih h₁
      exact ⟨b', by simpa [Board.run, hb₁] using hb', h'⟩

theorem lawful (h : Inv b) : Lawful b.outputs := by
  rcases h with ⟨s, calls, h⟩ | ⟨s, h⟩
  · intro newer o older heq
    exact absurd (h.outputs.symm.trans heq) (by simp)
  · exact h.lawful

end Inv

/-- From memory that holds anything, whatever happens: the program never gets stuck, and a LED is
toggled only while all three response pins are low. -/
theorem leds_wait_for_the_pins (m : Memory ListId Task) (uxPriority : Task → Priority)
    (xPreviousWakeTime : Task → PortTickType) (input : PinPair → Bool) (events : List Event) :
    ∃ b, (Board.boot (Kernel.powerOn m uxPriority xPreviousWakeTime) input).run events = some b ∧
      ∀ newer led older, b.outputs = newer ++ .toggle led :: older →
        ∀ config, isLow config older := by
  obtain ⟨b, hb, h⟩ := Inv.run (.inl ⟨_, 0, .boot m uxPriority xPreviousWakeTime input⟩) events
  exact ⟨b, hb, fun newer led older heq => (h.lawful newer _ older heq).1⟩

/-- A pulse lasts for a tick at least, and a LED is toggled no more often than its task asks
for. -/
theorem pulses_last (m : Memory ListId Task) (uxPriority : Task → Priority)
    (xPreviousWakeTime : Task → PortTickType) (input : PinPair → Bool) (events : List Event) :
    ∃ b, (Board.boot (Kernel.powerOn m uxPriority xPreviousWakeTime) input).run events = some b ∧
      (∀ newer config older, b.outputs = newer ++ .setPinLow config :: older →
        ¬ isLow config older) ∧
      (∀ newer config older, b.outputs = newer ++ .setPinHigh config :: older →
        isLow config older ∧ 1 ≤ ticksSince (.setPinLow config) older) ∧
      ∀ newer led older, b.outputs = newer ++ .toggle led :: older → .toggle led ∈ older →
        (Task.toggleLed led).xDelay.toNat ≤ ticksSince (.toggle led) older := by
  obtain ⟨b, hb, h⟩ := Inv.run (.inl ⟨_, 0, .boot m uxPriority xPreviousWakeTime input⟩) events
  exact ⟨b, hb, fun newer config older heq => h.lawful newer _ older heq,
    fun newer config older heq => h.lawful newer _ older heq,
    fun newer led older heq => (h.lawful newer _ older heq).2⟩

end RealTime.Butterfly
