import RealTime.Interrupts.Model
import RealTime.Library.History
import RealTime.Library.Transition

/-! # Edges and pulses

An edge is remembered in the hardware flag of its pin, then in the variable of the pin,
until a pulse is started. The loop clears the variable only after the pulse, so that an
edge which comes during the pulse and is taken by the interrupt routine is lost. -/

namespace RealTime.Interrupts

open History Transition

def Step (b : Board) (a : Action) (c : Board) : Prop := act b a = c

/-- A pulse has been started after every edge on `p`. -/
def Pulsed (b : Board) (p : Pin) : Prop := Answered (.edge p) (.pulse p) b.history

/-- At the top of an iteration, a pin without any flag has had all its pulses. -/
def EdgesPulsed (b : Board) : Prop :=
  b.statement = top → ∀ p, b.interruptFlag p = false → b.flag p = false → Pulsed b p

/-- When the variable of a pin is cleared, no edge has come since the response pin was set
low, unless the hardware flag is still set. -/
def NotTaken (b : Board) (a : Action) : Prop :=
  a = .loop → ∀ p, b.statement = .clear p → b.interruptFlag p = true ∨ Pulsed b p

/-- An edge without a pulse is remembered in one of the flags. -/
def Remembered (b : Board) : Prop :=
  ∀ p, Pulsed b p ∨ b.interruptFlag p = true ∨ b.flag p = true

variable {b c : Board} {p q : Pin}

theorem remembered_init : Remembered init := by
  intro p
  exact .inl (answered_nil _ _)

theorem Remembered.edgesPulsed (h : Remembered b) : EdgesPulsed b := by
  intro _ p hinterrupt hflag
  rcases h p with hp | hp | hp
  · exact hp
  · cases hinterrupt.symm.trans hp
  · cases hflag.symm.trans hp

theorem Remembered.congr (h : Remembered b) (hhistory : c.history = b.history)
    (hinterrupt : c.interruptFlag = b.interruptFlag) (hflag : c.flag = b.flag) :
    Remembered c := by
  intro p
  unfold Pulsed
  rw [hhistory, hinterrupt, hflag]
  exact h p

theorem Remembered.edge (h : Remembered b) (q : Pin) : Remembered (edge b q) := by
  intro p
  by_cases hpq : p = q
  · exact .inr (.inl (by simp [Interrupts.edge, hpq]))
  · have hother : Pulsed (Interrupts.edge b q) p ↔ Pulsed b p :=
      answered_append_other (by simp [Ne.symm hpq]) (by simp)
    rcases h p with hp | hp | hp
    · exact .inl (hother.mpr hp)
    · exact .inr (.inl (by simpa [Interrupts.edge, hpq] using hp))
    · exact .inr (.inr hp)

theorem Remembered.take (h : Remembered b) (q : Pin) : Remembered (take b q) := by
  intro p
  by_cases hpq : p = q
  · exact .inr (.inr (by simp [Interrupts.take, hpq]))
  · simpa [Interrupts.take, hpq, Pulsed] using h p

theorem Remembered.interruptJ3 (h : Remembered b) : Remembered (interruptJ3 b) := by
  unfold Interrupts.interruptJ3
  split
  · exact h.take .A
  · split
    · exact h.take .B
    · split
      · exact h.take .C
      · exact h

theorem Remembered.bigwhile (h : Remembered b)
    (hclear : ∀ p, b.statement = .clear p → b.interruptFlag p = true ∨ Pulsed b p) :
    Remembered (bigwhile b) := by
  unfold Interrupts.bigwhile
  cases hs : b.statement with
  | test q => exact h.congr rfl rfl rfl
  | setPinLow q =>
      intro p
      by_cases hpq : p = q
      · subst hpq
        exact .inl (answered_append_response (by simp) _)
      · have hother : Answered (.edge p) (.pulse p) (b.history ++ [.pulse q]) ↔ Pulsed b p :=
          answered_append_other (by simp) (by simp [Ne.symm hpq])
        simpa [Pulsed, hother] using h p
  | busyDelay q => exact h.congr rfl rfl rfl
  | setPinHigh q => exact h.congr rfl rfl rfl
  | clear q =>
      intro p
      by_cases hpq : p = q
      · subst hpq
        rcases hclear p hs with hinterrupt | hpulsed
        · exact .inr (.inl hinterrupt)
        · exact .inl hpulsed
      · simpa [hpq, Pulsed] using h p

/-- An edge is forgotten only where a variable is cleared. -/
theorem Remembered.act (h : Remembered b) {a : Action} (ha : NotTaken b a) :
    Remembered (act b a) := by
  cases a with
  | edge q => exact h.edge q
  | interrupt => exact h.interruptJ3
  | loop => exact h.bigwhile (ha rfl)

/-- And it is lost there: the loop is at its top with both flags clear. -/
theorem not_edgesPulsed_of_taken {a : Action} (ha : ¬ NotTaken b a) :
    ¬ EdgesPulsed (act b a) := by
  intro hpulsed
  apply ha
  intro hloop p hs
  subst hloop
  by_contra hlost
  obtain ⟨hinterrupt, hlost⟩ := not_or.mp hlost
  have hinterrupt : b.interruptFlag p = false := by simpa using hinterrupt
  have htop : act b .loop =
      { b with flag := Function.update b.flag p false, statement := top } := by
    simp [act, bigwhile, hs]
  rw [htop] at hpulsed
  exact hlost (hpulsed rfl p hinterrupt (by simp))

/-- In every interleaving of edges, interrupts and statements of the loop, the edges of all
pins without a flag have had their pulses whenever an iteration starts, exactly when no
edge has been taken during its pin's pulse where the loop clears the variable. -/
theorem edges_pulsed_throughout_iff (as : List Action) :
    EdgesPulsed init ∧
      (Throughout Step (fun _ _ c => EdgesPulsed c) init as ↔ Along Step NotTaken init as) := by
  have hdet : ∀ (b : Board) a c d, Step b a c → Step b a d → c = d :=
    fun _ _ _ _ hc hd => hc.symm.trans hd
  have hgood : ∀ (b : Board) a, Remembered b → True → NotTaken b a →
      ∃ c, Step b a c ∧ Remembered c ∧ EdgesPulsed c := by
    intro b a h _ ha
    exact ⟨act b a, rfl, h.act ha, (h.act ha).edgesPulsed⟩
  have hbad : ∀ (b : Board) a c, Remembered b → True → ¬ NotTaken b a → Step b a c →
      ¬ EdgesPulsed c := by
    intro b a c _ _ ha hstep
    exact hstep ▸ not_edgesPulsed_of_taken ha
  exact ⟨remembered_init.edgesPulsed, throughout_iff_along hdet hgood hbad remembered_init
    (Along.of_forall (fun _ _ => trivial) _ as)⟩

/-- A second edge on `TEST_A` comes while `RESPONSE_A` is low, and is taken there. -/
theorem second_edge_lost :
    ∃ b : Board, Runs Step init
        [.edge .A, .interrupt, .loop, .loop, .edge .A, .interrupt, .loop, .loop, .loop] b ∧
      b.statement = top ∧ b.interruptFlag .A = false ∧ b.flag .A = false ∧
      b.history = [.edge .A, .pulse .A, .edge .A] ∧ ¬ Pulsed b .A := by
  refine ⟨_, .cons rfl (.cons rfl (.cons rfl (.cons rfl (.cons rfl (.cons rfl (.cons rfl
    (.cons rfl (.cons rfl (.nil _))))))))), rfl, rfl, rfl, rfl, ?_⟩
  exact not_answered_append_request (Event.edge .A) _ [.edge .A, .pulse .A]

end RealTime.Interrupts
