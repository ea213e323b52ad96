import RealTime.ResourceManager.Delivery

/-! # Parked clients

A client that gets no reply is parked until a write answers it, which needs its id in the
blocked ring. The ring holds `LENGTH` ids; `io_read_fifo` parks clients beyond that too. -/

namespace RealTime.ResourceManager

open Service Transition

variable {L : ℕ} {s t : Session L} {m m' : Service} {r : Request} {o : Outcome} {l : Ledger}

/-- Every parked client is recorded, and none is parked while there is a string. -/
def Remembered (s : Session L) : Prop :=
  (∀ p ∈ s.ledger.parked, ∃ i, s.server.queue.blockedId i = p.1) ∧
  (s.ledger.parked ≠ [] → ∀ i, s.server.queue.status i = 0)

/-- A blocking read of an empty queue finds a free place in the blocked ring. -/
def RoomToRecord (s : Session L) (r : Request) : Prop :=
  r.msg = .read EOK false → s.server.offset r.ocb = 0 →
    (∀ i, s.server.queue.status i = 0) → ∃ i, s.server.queue.blockedId i = 0

/-- No client that is still parked makes a request. -/
def FreshClient (s : Session L) (r : Request) : Prop := ∀ p ∈ s.ledger.parked, p.1 ≠ r.rcvid

theorem unpark_cons {p : ℤ × ℕ} {ps : List (ℤ × ℕ)} : Ledger.unpark (p :: ps) p.1 = ps := by
  simp [Ledger.unpark]

/-- Unless a client is forgotten, parking and answering keep in step with the ring. -/
theorem Service.Serves.parked_eq (hs : Serves L m r o m')
    (hroom : r.msg = .read EOK false → m.atEnd r.ocb = false → m.messages = [] →
      m.waiting.length < L)
    (h : l.parked.map Prod.fst = m.waiting) :
    (l.record r o).parked.map Prod.fst = m'.waiting := by
  cases hs with
  | parked hopen hmsg hm hlt => simp [Ledger.record, Outcome.answered, h]
  | forgotten hopen hmsg hm hfull => exact absurd (hroom hmsg hopen hm) hfull
  | @passed bytes id rest text texts hopen hmsg hw hm =>
      rw [hw] at h
      cases hp : l.parked with
      | nil => simp [hp] at h
      | cons p ps =>
          obtain ⟨rfl, hps⟩ : p.1 = id ∧ ps.map Prod.fst = rest := by simpa [hp] using h
          simp [Ledger.record, Outcome.answered, hp, unpark_cons, hps]
  | _ => simpa [Ledger.record, Outcome.answered, close] using h

/-- The parked clients are those in the ring, in the same order. -/
def InStep (s : Session L) : Prop :=
  ∃ m, Tracks s m ∧ s.ledger.parked.map Prod.fst = m.waiting

theorem Tracks.remembered (h : Tracks s m) (hparked : s.ledger.parked.map Prod.fst = m.waiting) :
    Remembered s := by
  constructor
  · intro p hp
    have hw : p.1 ∈ m.waiting := hparked ▸ List.mem_map_of_mem hp
    exact (h.provides.mem_waiting (h.provides.waiting_pos p.1 hw)).mp hw
  · intro hne
    rw [h.provides.no_strings]
    apply h.accounts.served
    rw [← hparked]
    simpa using hne

theorem Tracks.room_iff (h : Tracks s m) :
    RoomToRecord s r ↔ (r.msg = .read EOK false → m.atEnd r.ocb = false → m.messages = [] →
      m.waiting.length < L) := by
  rw [RoomToRecord, h.provides.atEnd_iff, h.provides.no_strings, h.provides.has_place]

variable [NeZero L]

/-- A client that is parked without a place in the ring is not recorded. -/
theorem not_remembered_of_full (h : Tracks s m)
    (hparked : s.ledger.parked.map Prod.fst = m.waiting) (hfresh : FreshClient s r)
    (hroom : ¬ RoomToRecord s r) (hstep : Step s r t) : ¬ Remembered t := by
  obtain ⟨o, m', ha⟩ := h.answers_of_step hstep
  simp only [h.room_iff, not_forall] at hroom
  obtain ⟨hmsg, hopen, hm, hfull⟩ := hroom
  obtain ⟨rfl, rfl⟩ := ha.serves.unique (.forgotten hopen hmsg hm hfull)
  rintro ⟨hrecorded, -⟩
  have hlast : (r.rcvid, r.ocb) ∈ t.ledger.parked := by
    simp [ha.ledger, Ledger.record, Outcome.answered]
  have hw := (ha.tracks.provides.mem_waiting r.rcvid_pos).mpr (hrecorded _ hlast)
  rw [← hparked] at hw
  obtain ⟨p, hp, heq⟩ := List.mem_map.mp hw
  exact hfresh p hp heq

/-- A run of requests from clients that are not parked remembers its parked clients in
every state exactly when each blocking read of an empty queue finds a free place. -/
theorem remembered_throughout_iff (queue : Fifo L) (rs : List Request)
    (hfresh : Along Step FreshClient (start queue) rs) :
    Throughout Step (fun _ _ t => Remembered t) (start queue) rs ↔
      Along Step RoomToRecord (start queue) rs := by
  have hstart : InStep (start queue) := ⟨_, tracks_start queue, rfl⟩
  have hgood : ∀ (s : Session L) r, InStep s → FreshClient s r → RoomToRecord s r →
      ∃ t, Step s r t ∧ InStep t ∧ Remembered t := by
    rintro s r ⟨m, h, hparked⟩ - hroom
    obtain ⟨t, o, m', ha⟩ := h.answers r
    have hparked' := ha.serves.parked_eq (h.room_iff.mp hroom) hparked
    rw [← ha.ledger] at hparked'
    exact ⟨t, ha.step, ⟨m', ha.tracks, hparked'⟩, ha.tracks.remembered hparked'⟩
  have hbad : ∀ (s : Session L) r t, InStep s → FreshClient s r → ¬ RoomToRecord s r → Step s r t →
      ¬ Remembered t := by
    rintro s r t ⟨m, h, hparked⟩ hfresh hroom hstep
    exact not_remembered_of_full h hparked hfresh hroom hstep
  exact throughout_iff_along step_deterministic hgood hbad hstart hfresh

theorem remembered_throughout_iff_of_one_read :
    Throughout Step (fun _ _ t => Remembered t) (start (.zero : Fifo LENGTH)) [.read 1 1] ↔
      Along Step RoomToRecord (start (.zero : Fifo LENGTH)) [.read 1 1] :=
  remembered_throughout_iff .zero _ ⟨by simp [FreshClient, start, Ledger.empty], by simp [Along]⟩

/-- Five blocking reads of the empty queue. The fifth client is parked and not recorded. -/
theorem fifth_reader_forgotten :
    ∃ t : Session LENGTH,
      Runs Step (start .zero) [.read 1 1, .read 2 2, .read 3 3, .read 4 4, .read 5 5] t ∧
      (6, 5) ∈ t.ledger.parked ∧ (∀ i, t.server.queue.blockedId i ≠ 6) ∧ ¬ Remembered t := by
  obtain ⟨t, hruns, hparked, hlost⟩ : ∃ t : Session LENGTH,
      Runs Step (start .zero) [.read 1 1, .read 2 2, .read 3 3, .read 4 4, .read 5 5] t ∧
      (6, 5) ∈ t.ledger.parked ∧ ∀ i, t.server.queue.blockedId i ≠ 6 :=
    Runs.exists_of_foldlM (by decide)
  refine ⟨t, hruns, hparked, hlost, ?_⟩
  rintro ⟨hrecorded, -⟩
  obtain ⟨i, hi⟩ := hrecorded _ hparked
  exact hlost i hi

end RealTime.ResourceManager
