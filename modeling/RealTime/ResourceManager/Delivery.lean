import RealTime.Library.Transition
import RealTime.ResourceManager.Ledger
import RealTime.ResourceManager.Refinement

/-! # Runs of the queue server

Requests are handled one after the other from `init_fifo` on. Whatever the requests are,
messages are delivered once and in order. -/

namespace RealTime.ResourceManager

open RingQueue Service Transition

variable {L : ℕ}

structure Session (L : ℕ) where
  server : Server L
  ledger : Ledger

def start [NeZero L] (queue : Fifo L) : Session L := ⟨boot queue, .empty⟩

/-- The request is handled and entered into the ledger, unless there is a fault. -/
def Session.handle [NeZero L] (s : Session L) (r : Request) : Option (Session L) :=
  match (dispatch .fifo r).run s.server with
  | .ok (o, server) => some ⟨server, s.ledger.record r o⟩
  | .error _ => none

def Step [NeZero L] (s : Session L) (r : Request) (t : Session L) : Prop := s.handle r = some t

/-- The texts in the string ring, oldest first. -/
def Fifo.queuedTexts (q : Fifo L) : List (List UInt8) := texts (contents q.strings q.fifoHead)

/-- The ids in the blocked ring, oldest first. -/
def Fifo.recordedIds (q : Fifo L) : List ℤ := contents q.blocked q.blockedHead

/-! ## The state of the rings -/

variable {s t : Session L} {m m' : Service} {r : Request} {o : Outcome}

theorem Provides.queuedTexts {s : Server L} (h : Provides s m) :
    s.queue.queuedTexts = m.messages := by
  obtain ⟨rows, hq, hrows⟩ := h.queued
  rw [Fifo.queuedTexts, hq.strings.contents_eq, hrows]

theorem Provides.recordedIds {s : Server L} (h : Provides s m) :
    s.queue.recordedIds = m.waiting := by
  obtain ⟨rows, hq, -⟩ := h.queued
  exact hq.ids.contents_eq

theorem Provides.no_strings {s : Server L} (h : Provides s m) :
    (∀ i, s.queue.status i = 0) ↔ m.messages = [] := by
  obtain ⟨rows, hq, hrows⟩ := h.queued
  rw [← hrows, texts, List.map_eq_nil_iff, ← hq.strings.empty_iff]
  simp [Fifo.strings]

theorem Provides.mem_waiting {s : Server L} (h : Provides s m) {id : ℤ} (hid : 0 < id) :
    id ∈ m.waiting ↔ ∃ i, s.queue.blockedId i = id := by
  obtain ⟨rows, hq, -⟩ := h.queued
  rw [hq.ids.mem_iff]
  constructor
  · rintro ⟨i, hi⟩
    refine ⟨i, ?_⟩
    by_cases hzero : s.queue.blockedId i = 0
    · simp [Fifo.blocked, hzero] at hi
    · simpa [Fifo.blocked, hzero] using hi
  · rintro ⟨i, rfl⟩
    exact ⟨i, by simp [Fifo.blocked, hid.ne']⟩

theorem Provides.has_place {s : Server L} (h : Provides s m) :
    (∃ i, s.queue.blockedId i = 0) ↔ m.waiting.length < L := by
  obtain ⟨rows, hq, -⟩ := h.queued
  rw [← hq.ids.exists_free]
  simp [Fifo.blocked]

theorem Provides.no_ids {s : Server L} (h : Provides s m) :
    (∃ i, s.queue.blockedId i ≠ 0) ↔ m.waiting ≠ [] := by
  obtain ⟨rows, hq, -⟩ := h.queued
  rw [ne_eq, ← hq.ids.empty_iff]
  simp [Fifo.blocked]

/-! ## Every run -/

structure Tracks (s : Session L) (m : Service) : Prop where
  provides : Provides s.server m
  accounts : Accounts m s.ledger

variable [NeZero L]

theorem tracks_start (queue : Fifo L) : Tracks (start queue) .init :=
  ⟨provides_boot queue, accounts_init⟩

theorem step_deterministic (s : Session L) (r : Request) (t u : Session L) (ht : Step s r t)
    (hu : Step s r u) : t = u :=
  Option.some.inj (ht.symm.trans hu)

/-- What one request does to a session. -/
structure Answers (s : Session L) (m : Service) (r : Request) (t : Session L) (o : Outcome)
    (m' : Service) : Prop where
  step : Step s r t
  run : (dispatch .fifo r).run s.server = .ok (o, t.server)
  ledger : t.ledger = s.ledger.record r o
  serves : Serves L m r o m'
  tracks : Tracks t m'

theorem Tracks.answers (h : Tracks s m) (r : Request) : ∃ t o m', Answers s m r t o m' := by
  obtain ⟨o, server, m', hrun, hserves, hprovides⟩ := handled h.provides r
  refine ⟨⟨server, s.ledger.record r o⟩, o, m', ?_, hrun, rfl, hserves, hprovides,
    h.accounts.serves hserves⟩
  rw [Step, Session.handle, hrun]

theorem Tracks.answers_of_step (h : Tracks s m) (hstep : Step s r t) :
    ∃ o m', Answers s m r t o m' := by
  obtain ⟨u, o, m', ha⟩ := h.answers r
  obtain rfl := step_deterministic s r t u hstep ha.step
  exact ⟨o, m', ha⟩

/-- Whatever is requested, no handler faults, the texts handed out and those in the string
ring are the ones taken in, the clients answered and those in the blocked ring are the ones
recorded, all in order, and no client is recorded while there is a text. -/
theorem fifo_delivers_in_order (queue : Fifo L) (rs : List Request) :
    ∃ t : Session L, Runs Step (start queue) rs t ∧
      t.ledger.delivered ++ t.server.queue.queuedTexts = t.ledger.accepted ∧
      t.ledger.answered ++ t.server.queue.recordedIds = t.ledger.recorded ∧
      ((∃ i, t.server.queue.blockedId i ≠ 0) → ∀ i, t.server.queue.status i = 0) := by
  have hstep : ∀ (s : Session L) r, (∃ m, Tracks s m) → ∃ t, Step s r t ∧ ∃ m, Tracks t m := by
    rintro s r ⟨m, h⟩
    obtain ⟨t, o, m', ha⟩ := h.answers r
    exact ⟨t, ha.step, m', ha.tracks⟩
  obtain ⟨t, hruns, m, ht⟩ := Runs.exists_of_invariant hstep ⟨_, tracks_start queue⟩ rs
  refine ⟨t, hruns, ?_, ?_, ?_⟩
  · rw [ht.provides.queuedTexts, ht.accounts.delivered]
  · rw [ht.provides.recordedIds, ht.accounts.answered]
  · rw [ht.provides.no_ids, ht.provides.no_strings]
    exact ht.accounts.served

/-- A blocking read. -/
def Request.read (client ocb : ℕ) : Request where
  rcvid := client + 1
  ocb := ocb
  msg := .read EOK false
  rcvid_pos := by omega

def Request.write (client ocb : ℕ) (text : List Char) : Request where
  rcvid := client + 1
  ocb := ocb
  msg := .write (ascii text)
  rcvid_pos := by omega

theorem fifo_delivers_in_order_of_read_and_write :
    ∃ t : Session LENGTH, Runs Step (start .zero) [.read 1 1, .write 2 2 ['h', 'i']] t ∧
      t.ledger.delivered ++ t.server.queue.queuedTexts = t.ledger.accepted ∧
      t.ledger.answered ++ t.server.queue.recordedIds = t.ledger.recorded ∧
      ((∃ i, t.server.queue.blockedId i ≠ 0) → ∀ i, t.server.queue.status i = 0) :=
  fifo_delivers_in_order .zero _

end RealTime.ResourceManager
