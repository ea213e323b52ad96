import RealTime.Butterfly.Pulses

/-! # Who gets no processor

A task that polls its test pin never blocks, and the LED tasks wait for as long as it polls. -/

namespace RealTime.Butterfly

open FreeRtos

variable {b b' : Board (Memory ListId Task)} {s : Schedule Task} {config : PinPair} {led : Led}
  {event : Event}

/-- What has been put out since, if the task of the pin still polls it. -/
structure Polls (b₀ b : Board (Memory ListId Task)) (config : PinPair) : Prop where
  react : b.react config = .test
  input : b.input config = true
  outputs : ∃ new, b.outputs = new ++ b₀.outputs ∧ ∀ led, Output.toggle led ∉ new

namespace Polls

variable {b₀ : Board (Memory ListId Task)}

theorem withKernel (h : Polls b₀ b config) (kernel : Kernel (Memory ListId Task) Task) :
    Polls b₀ { b with kernel := kernel } config :=
  ⟨h.react, h.input, h.outputs⟩

theorem output (h : Polls b₀ b config) {o : Output} (ho : ∀ led, o ≠ .toggle led) :
    Polls b₀ (b.output o) config := by
  obtain ⟨new, hnew, htoggle⟩ := h.outputs
  refine ⟨h.react, h.input, o :: new, congrArg (o :: ·) hnew, fun led hmem => ?_⟩
  rcases List.mem_cons.mp hmem with heq | hmem
  · exact ho led heq.symm
  · exact htoggle led hmem

theorem setReact (h : Polls b₀ b config) (other : PinPair) (statement : ReactStatement)
    (hother : other = config → statement = .test) :
    Polls b₀ (b.setReact other statement) config := by
  refine ⟨?_, h.input, h.outputs⟩
  by_cases hc : config = other
  · subst hc
    exact (Function.update_self _ _ _).trans (hother rfl)
  · exact (Function.update_of_ne hc _ _).trans h.react

theorem call (h : Polls b₀ b config) {action : Action Task} (hs : b.call action = some b') :
    Polls b₀ b' config := by
  obtain ⟨kernel, -, hb'⟩ := Option.bind_eq_some_iff.mp hs
  obtain rfl := Option.some.inj hb'
  exact h.withKernel kernel

/-- A LED task does not get the processor. -/
theorem execute (h : Polls b₀ b config) {c : Task} (hled : ∀ led, c ≠ .toggleLed led)
    (hs : b.execute c = some b') : Polls b₀ b' config := by
  cases c with
  | prvIdleTask =>
      have hidle {b : Board (Memory ListId Task)} (h : Polls b₀ b config)
          (statement : IdleStatement) : Polls b₀ (b.setIdle statement) config :=
        ⟨h.react, h.input, h.outputs⟩
      simp only [Board.execute, Board.prvIdleTask] at hs
      split at hs
      · split at hs <;> obtain rfl := Option.some.inj hs
        · exact hidle h _
        · exact h
      · obtain ⟨b₁, hb₁, hb'⟩ := Option.bind_eq_some_iff.mp hs
        obtain rfl := Option.some.inj hb'
        exact hidle (h.call hb₁) _
  | toggleLed led => exact absurd rfl (hled led)
  | reactToButterfly other =>
      have hne : other = config → b.react other = .test := by
        rintro rfl
        exact h.react
      simp only [Board.execute, Board.reactToButterfly] at hs
      cases hreact : b.react other with
      | test =>
          simp only [hreact] at hs
          obtain rfl := Option.some.inj hs
          refine h.setReact other _ ?_
          rintro rfl
          rw [h.input]
          rfl
      | setPinLow | setPinHigh =>
          simp only [hreact] at hs
          obtain rfl := Option.some.inj hs
          refine (h.output (by simp)).setReact other _ fun heq => ?_
          exact absurd ((hne heq).symm.trans hreact) (by simp)
      | getTickCount | delay =>
          simp only [hreact] at hs
          obtain ⟨b₁, hb₁, hb'⟩ := Option.bind_eq_some_iff.mp hs
          obtain rfl := Option.some.inj hb'
          refine (h.call hb₁).setReact other _ fun heq => ?_
          exact absurd ((hne heq).symm.trans hreact) (by simp)

theorem step (h : Polls b₀ b config) (hrunning : Running b s) (hedge : event ≠ .edge config false)
    (hs : b.step event = some b') : Polls b₀ b' config := by
  cases event with
  | turn =>
      simp only [Board.step, Board.turn, hrunning.main] at hs
      split at hs
      · rename_i hown
        obtain ⟨c, hcurrent, hs⟩ := Option.bind_eq_some_iff.mp hs
        refine h.execute (fun led hc => ?_) hs
        -- A LED task would have to find the task of the pin asleep.
        have hpaused : b.react config = .setPinHigh :=
          hrunning.paused hown (hcurrent.trans (congrArg some hc))
        exact absurd (h.react.symm.trans hpaused) (by simp)
      · exact h.call hs
  | tick =>
      simp only [Board.step] at hs
      split at hs
      · obtain ⟨b₁, hb₁, hb'⟩ := Option.bind_eq_some_iff.mp hs
        obtain rfl := Option.some.inj hb'
        exact (h.call hb₁).output (by simp)
      · obtain rfl := Option.some.inj hs
        exact h
  | edge other level =>
      obtain rfl := Option.some.inj hs
      refine ⟨h.react, ?_, h.outputs⟩
      by_cases hc : config = other
      · subst hc
        cases level with
        | false => exact absurd rfl hedge
        | true => simp
      · simpa [hc] using h.input

theorem run (h : Polls b₀ b config) (hrunning : Running b s) {events : List Event}
    (hedge : .edge config false ∉ events) :
    ∃ b', b.run events = some b' ∧ Polls b₀ b' config := by
  induction events generalizing b s with
  | nil => exact ⟨b, rfl, h⟩
  | cons event events ih =>
      obtain ⟨b₁, s₁, hb₁, hrunning₁⟩ := hrunning.step event
      obtain ⟨hevent, hevents⟩ := not_or.mp (mt List.mem_cons.mpr hedge)
      obtain ⟨b', hb', h'⟩ := ih (h.step hrunning (Ne.symm hevent) hb₁) hrunning₁ hevents
      exact ⟨b', by simpa [Board.run, hb₁] using hb', h'⟩

end Polls

/-- As long as a polled pin stays high no LED is toggled. -/
theorem leds_starve (m : Memory ListId Task) (uxPriority : Task → Priority)
    (xPreviousWakeTime : Task → PortTickType) (input : PinPair → Bool) {before after : List Event}
    (hb : (Board.boot (Kernel.powerOn m uxPriority xPreviousWakeTime) input).run before = some b)
    (hreact : b.react config = .test) (hinput : b.input config = true)
    (hedge : .edge config false ∉ after) :
    ∃ b' new, b.run after = some b' ∧ b'.outputs = new ++ b.outputs ∧
      ∀ led, Output.toggle led ∉ new := by
  obtain ⟨b₁, hb₁, h⟩ := Inv.run (.inl ⟨_, 0, .boot m uxPriority xPreviousWakeTime input⟩) before
  obtain rfl := Option.some.inj (hb.symm.trans hb₁)
  rcases h with ⟨s, calls, h⟩ | ⟨s, h⟩
  · exact absurd (hreact.symm.trans (h.react config)) (by simp)
  · have hpolls : Polls b b config := ⟨hreact, hinput, [], rfl, by simp⟩
    obtain ⟨b', hb', h'⟩ := hpolls.run h hedge
    obtain ⟨new, hnew, htoggle⟩ := h'.outputs
    exact ⟨b', new, hb', hnew, htoggle⟩

def stale : Memory ListId Task where
  xItemValue _ := 9
  pxNext _ := .item .prvIdleTask
  pxPrevious _ := .item (.toggleLed .LED0)
  pvContainer _ := none
  uxNumberOfItems _ := 5
  pxIndex _ := .item .prvIdleTask

/-- The task of the last pin polls, while the other ones answer a low level. -/
theorem leds_starve_stale : ∃ b b' new,
    (Board.boot (Kernel.powerOn stale (fun _ => 7) fun _ => 3) fun config => config = .C).run
        (List.replicate 7 .turn) = some b ∧
      b.run [.turn, .tick, .turn, .turn, .turn, .edge .A true, .tick, .turn] = some b' ∧
        b'.outputs = new ++ b.outputs ∧ ∀ led, Output.toggle led ∉ new := by
  have hrun : ((Board.boot (Kernel.powerOn stale (fun _ => 7) fun _ => 3)
      fun config => config = .C).run (List.replicate 7 .turn)).any
        (fun b => b.react .C = .test && b.input .C) = true := by decide
  obtain ⟨b, hb, hpolls⟩ := (Option.any_eq_true _ _).mp hrun
  obtain ⟨hreact, hinput⟩ := Bool.and_eq_true_iff.mp hpolls
  have hedge : Event.edge .C false ∉
      [.turn, .tick, .turn, .turn, .turn, .edge .A true, .tick, .turn] := by decide
  obtain ⟨b', new, hb', hnew, htoggle⟩ := leds_starve stale (fun _ => 7) (fun _ => 3)
    (fun config => config = .C) hb (of_decide_eq_true hreact) hinput hedge
  exact ⟨b, b', new, hb, hb', hnew, htoggle⟩

end RealTime.Butterfly
