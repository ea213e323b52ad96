import RealTime.Library.Transition
import RealTime.ResourceManager.Rings

/-! # The queue as two bounded FIFOs

The calls of `fifo.c` in lockstep with two lists of at most `LENGTH` elements. -/

namespace RealTime.ResourceManager

open RingQueue Transition

/-- The calls on a queue. `fifo_add_blocked_id` is called with positive ids. -/
inductive Call where
  | addString (array : Buffer WIDTH)
  | remString (array : Buffer WIDTH)
  | status
  | addBlockedId (id : {id : ℤ // 0 < id})
  | remBlockedId

/-- What a call returns; `fifo_rem_string` returns in the caller's array. -/
inductive Result where
  | bool (added : Bool)
  | array (array : Buffer WIDTH)
  | int (n : ℤ)
deriving DecidableEq

def Call.exec {L : ℕ} [NeZero L] (q : Fifo L) : Call → Result × Fifo L
  | .addString array => ((fifoAddString q array).map .bool id)
  | .remString array => ((fifoRemString q array).map .array id)
  | .status => (.int (fifoStatus q), q)
  | .addBlockedId i => ((fifoAddBlockedId q i).map .bool id)
  | .remBlockedId => ((fifoRemBlockedId q).map .int id)

/-- The arrays and the ids in the two queues, oldest first. -/
structure Queues where
  rows : List (Buffer WIDTH)
  ids : List ℤ

/-- The calls on queues of capacity `L`. -/
def Call.apply (L : ℕ) (m : Queues) : Call → Result × Queues
  | .addString array =>
    if m.rows.length < L then (.bool true, { m with rows := m.rows ++ [array] })
    else (.bool false, m)
  | .remString array =>
    match m.rows with
    | [] => (.array array, m)
    | row :: rows => (.array row, { m with rows := rows })
  | .status => (.int (if m.rows = [] then 0 else 1), m)
  | .addBlockedId id =>
    if m.ids.length < L then (.bool true, { m with ids := m.ids ++ [id.val] })
    else (.bool false, m)
  | .remBlockedId =>
    match m.ids with
    | [] => (.int (-1), m)
    | id :: ids => (.int id, { m with ids := ids })

def Call.OnStrings : Call → Prop
  | .addString _ | .remString _ | .status => True
  | .addBlockedId _ | .remBlockedId => False

/-- The queues refuse an element or have none to give. -/
def Call.Idle (L : ℕ) (m : Queues) : Call → Prop
  | .addString _ => ¬ m.rows.length < L
  | .remString _ => m.rows = []
  | .status => True
  | .addBlockedId _ => ¬ m.ids.length < L
  | .remBlockedId => m.ids = []

def SameStrings {L : ℕ} (q q' : Fifo L) : Prop :=
  q'.fifo = q.fifo ∧ q'.status = q.status ∧ q'.fifoHead = q.fifoHead ∧ q'.fifoTail = q.fifoTail

def SameIds {L : ℕ} (q q' : Fifo L) : Prop :=
  q'.blockedId = q.blockedId ∧ q'.blockedHead = q.blockedHead ∧ q'.blockedTail = q.blockedTail

variable {L : ℕ} {q : Fifo L} {m : Queues}

/-! ## One call -/

/-- A call made on the rings and on the lists. -/
def Calls (L : ℕ) [NeZero L] (p : Fifo L × Queues) (c : Call) (p' : Fifo L × Queues) : Prop :=
  (c.exec p.1).2 = p'.1 ∧ (c.apply L p.2).2 = p'.2

/-- The rings hold the lists. An id cannot be taken for the answer that there is none. -/
structure Holds (q : Fifo L) (m : Queues) : Prop extends Queued q m.rows m.ids where
  ids_pos : ∀ id ∈ m.ids, 0 < id

theorem Call.apply_ids_pos (c : Call) (h : ∀ id ∈ m.ids, 0 < id) :
    ∀ id ∈ (c.apply L m).2.ids, 0 < id := by
  cases c with
  | addString array =>
      simp only [apply]
      split <;> exact h
  | remString array =>
      simp only [apply]
      split <;> exact h
  | status => exact h
  | addBlockedId i =>
      simp only [apply]
      split
      · intro id hid
        rcases List.mem_append.mp hid with hid | hid
        · exact h id hid
        · exact List.mem_singleton.mp hid ▸ i.property
      · exact h
  | remBlockedId =>
      simp only [apply]
      split
      · exact h
      · rename_i first ids hids
        intro id hid
        exact h id (hids ▸ List.mem_cons_of_mem first hid)

variable [NeZero L]

theorem holds_initFifo (q : Fifo L) : Holds (initFifo q) ⟨[], []⟩ where
  toQueued := queued_initFifo q
  ids_pos := by simp

/-- The rings return what the lists return, and hold afterwards what they hold. -/
theorem Call.exec_refines (c : Call) (h : Queued q m.rows m.ids) :
    (c.exec q).1 = (c.apply L m).1 ∧
      Queued (c.exec q).2 (c.apply L m).2.rows (c.apply L m).2.ids := by
  cases c with
  | addString array =>
      by_cases hroom : m.rows.length < L
      · obtain ⟨q', hadd, hq', -⟩ := h.addString hroom array
        simp [exec, apply, hadd, hroom, hq']
      · have hadd := h.addString_full hroom array
        simp [exec, apply, hadd, hroom, h]
  | remString array =>
      cases hrows : m.rows with
      | nil =>
          have hstatus : q.status q.fifoHead = 0 := by
            simpa [fifoStatus] using h.status.mpr hrows
          simp [exec, apply, fifoRemString, hstatus, hrows, hrows ▸ h]
      | cons row rows =>
          obtain ⟨q', hrem, hq', -⟩ := (hrows ▸ h).remString array
          simp [exec, apply, hrem, hrows, hq']
  | status =>
      have hstatus := h.status
      by_cases hrows : m.rows = []
      · simp [exec, apply, hrows, hstatus.mpr hrows, hrows ▸ h]
      · have hone : fifoStatus q = 1 := by
          have hne : fifoStatus q ≠ 0 := fun hz => hrows (hstatus.mp hz)
          unfold fifoStatus at hne ⊢
          split at hne
          · exact absurd rfl hne
          · simp [*]
        simp [exec, apply, hrows, hone, h]
  | addBlockedId i =>
      by_cases hroom : m.ids.length < L
      · obtain ⟨q', hadd, hq', -⟩ := h.addBlockedId hroom i.property
        simp [exec, apply, hadd, hroom, hq']
      · have hadd := h.addBlockedId_full hroom i
        simp [exec, apply, hadd, hroom, h]
  | remBlockedId =>
      cases hids : m.ids with
      | nil =>
          have hrem := (hids ▸ h).remBlockedId_none
          simp [exec, apply, hrem, hids, hids ▸ h]
      | cons i ids =>
          obtain ⟨q', hrem, hq', -⟩ := (hids ▸ h).remBlockedId
          simp [exec, apply, hrem, hids, hq']

theorem Call.exec_idle (c : Call) (h : Queued q m.rows m.ids) (hidle : c.Idle L m) :
    (c.exec q).2 = q := by
  cases c with
  | addString array => simp [exec, h.addString_full hidle array]
  | remString array =>
      have hstatus : q.status q.fifoHead = 0 := by
        simpa [fifoStatus] using h.status.mpr hidle
      simp [exec, fifoRemString, hstatus]
  | status => rfl
  | addBlockedId i => simp [exec, h.addBlockedId_full hidle i]
  | remBlockedId =>
      have hids : m.ids = [] := hidle
      simp [exec, (hids ▸ h).remBlockedId_none]

theorem Call.exec_eq_none (c : Call) (h : Holds q m) (hc : c = .remBlockedId) :
    (c.exec q).1 = .int (-1) ↔ m.ids = [] := by
  subst hc
  rw [(Call.exec_refines .remBlockedId h.toQueued).1]
  cases hids : m.ids with
  | nil => simp [apply, hids]
  | cons id ids =>
      have hpos := h.ids_pos id (by simp [hids])
      simp only [apply, hids, Result.int.injEq, reduceCtorEq, iff_false]
      omega

theorem Call.exec_sameIds (c : Call) (q : Fifo L) (hc : c.OnStrings) : SameIds q (c.exec q).2 := by
  cases c with
  | addString array =>
      simp only [exec, fifoAddString]
      split <;> exact ⟨rfl, rfl, rfl⟩
  | remString array =>
      simp only [exec, fifoRemString]
      split <;> exact ⟨rfl, rfl, rfl⟩
  | status => exact ⟨rfl, rfl, rfl⟩
  | addBlockedId i => cases hc
  | remBlockedId => cases hc

theorem Call.exec_sameStrings (c : Call) (q : Fifo L) (hc : ¬ c.OnStrings) :
    SameStrings q (c.exec q).2 := by
  cases c with
  | addString array => exact absurd trivial hc
  | remString array => exact absurd trivial hc
  | status => exact absurd trivial hc
  | addBlockedId i =>
      simp only [exec, fifoAddBlockedId]
      split <;> exact ⟨rfl, rfl, rfl, rfl⟩
  | remBlockedId =>
      simp only [exec, fifoRemBlockedId]
      split <;> exact ⟨rfl, rfl, rfl, rfl⟩

/-! ## Every sequence of calls -/

/-- What a call has done to the string ring, against the list of arrays. -/
structure BoundedStrings (p : Fifo L × Queues) (c : Call) (p' : Fifo L × Queues) : Prop where
  result : (c.exec p.1).1 = (c.apply L p.2).1
  contents : contents p'.1.strings p'.1.fifoHead = p'.2.rows
  idle : c.Idle L p.2 → p'.1 = p.1
  ids : SameIds p.1 p'.1

/-- The same for the ring of blocked ids. -/
structure BoundedIds (p : Fifo L × Queues) (c : Call) (p' : Fifo L × Queues) : Prop where
  result : (c.exec p.1).1 = (c.apply L p.2).1
  contents : contents p'.1.blocked p'.1.blockedHead = p'.2.ids
  none : c = .remBlockedId → ((c.exec p.1).1 = .int (-1) ↔ p.2.ids = [])
  idle : c.Idle L p.2 → p'.1 = p.1
  strings : SameStrings p.1 p'.1

/-- What holds of every call in a state that represents the lists holds along all calls. -/
theorem throughout_calls {o : Fifo L × Queues → Call → Fifo L × Queues → Prop}
    (ho : ∀ q m (c : Call), Holds q m → Holds (c.exec q).2 (c.apply L m).2 →
      o (q, m) c ((c.exec q).2, (c.apply L m).2))
    (cs : List Call) (h : Holds q m) : Throughout (Calls L) o (q, m) cs := by
  induction cs generalizing q m with
  | nil => trivial
  | cons c cs ih =>
      have hnext : Holds (c.exec q).2 (c.apply L m).2 :=
        ⟨(c.exec_refines h.toQueued).2, c.apply_ids_pos h.ids_pos⟩
      exact ⟨_, ⟨rfl, rfl⟩, ho q m c h hnext, ih hnext⟩

/-- From `init_fifo` on, whatever the calls, the string ring is a queue of at most `L`
arrays: its calls return what they return on the list of the arrays, which it holds
afterwards, they do nothing when it is full or empty, and never touch the blocked ids. -/
theorem string_ring_bounded_fifo (queue : Fifo L) (cs : List Call) :
    Throughout (Calls L) (fun p c p' => c.OnStrings → BoundedStrings p c p')
      (initFifo queue, ⟨[], []⟩) cs := by
  refine throughout_calls ?_ cs (holds_initFifo queue)
  intro q m c h hnext hc
  exact
    { result := (c.exec_refines h.toQueued).1
      contents := hnext.strings.contents_eq
      idle := c.exec_idle h.toQueued
      ids := c.exec_sameIds q hc }

/-- The array that goes through the ring is full of the letter x, without a NUL. -/
theorem string_ring_bounded_fifo_of_three_calls :
    Throughout (Calls LENGTH) (fun p c p' => c.OnStrings → BoundedStrings p c p')
      (initFifo .zero, ⟨[], []⟩)
      [.addString ⟨List.replicate WIDTH 120, List.length_replicate⟩, .status, .remString empty] :=
  string_ring_bounded_fifo .zero _

/-- The ring of blocked ids is a queue of at most `L` ids in the same way. -/
theorem blocked_ring_bounded_fifo (queue : Fifo L) (cs : List Call) :
    Throughout (Calls L) (fun p c p' => ¬ c.OnStrings → BoundedIds p c p')
      (initFifo queue, ⟨[], []⟩) cs := by
  refine throughout_calls ?_ cs (holds_initFifo queue)
  intro q m c h hnext hc
  exact
    { result := (c.exec_refines h.toQueued).1
      contents := hnext.ids.contents_eq
      none := c.exec_eq_none h
      idle := c.exec_idle h.toQueued
      strings := c.exec_sameStrings q hc }

theorem blocked_ring_bounded_fifo_of_two_calls :
    Throughout (Calls LENGTH) (fun p c p' => ¬ c.OnStrings → BoundedIds p c p')
      (initFifo .zero, ⟨[], []⟩) [.addBlockedId ⟨7, by decide⟩, .remBlockedId] :=
  blocked_ring_bounded_fifo .zero _

end RealTime.ResourceManager
