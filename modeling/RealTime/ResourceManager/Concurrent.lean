import RealTime.ResourceManager.Delivery

/-! # Concurrent FIFO handlers

Several invocations of `io_read_fifo` and `io_write_fifo` run at a time. The atomic steps
are their sections under `queue.resource_mutex`, the call of `fifo_add_blocked_id` outside
it, and the test and the setting of the offset of the open file. Each invocation has a
context of its own; `buf` is shared. -/

namespace RealTime.ResourceManager

open Exec Service Transition

variable {L : ℕ}

/-- The place of a handler between two of its steps. -/
inductive Loc where
  | test (msg : Msg)
  | critical (msg : Msg)
  | record
  | close (parts : ℕ)
deriving DecidableEq, Repr

/-- One step of a handler, to its next place or to its end. -/
def Loc.step [NeZero L] (ocb : ℕ) : Loc → HandlerM L (Loc ⊕ Return)
  | .test msg => do
    if (← get).offset ocb = 0 then
      match msg with
      | .read verify _ =>
        if verify ≠ EOK then
          return .inr (.status verify)
        return .inl (.critical msg)
      | .write _ => return .inl (.critical msg)
    else
      setNbytes 0
      return .inr (.nparts 0)
  | .critical (.read _ nonblock) => do
    if ← readSection then
      return .inl (.close 1)
    else if nonblock then
      setNbytes 0
      return .inr (.nparts 0)
    else
      return .inl .record
  | .critical (.write bytes) => do
    writeSection bytes
    return .inl (.close 0)
  -- the mutex has been given back by now
  | .record => do
    let _ ← addBlockedId (← get).ctp.rcvid
    return .inr .noreply
  | .close parts => do
    setOffset ocb 1
    return .inr (.nparts parts)

/-- At most `n` steps without an interruption. -/
def Loc.steps [NeZero L] (ocb : ℕ) : ℕ → Loc → HandlerM L (Loc ⊕ Return)
  | 0, loc => return .inl loc
  | n + 1, loc => do
    match ← loc.step ocb with
    | .inl next => next.steps ocb n
    | .inr ret => return .inr ret

structure Handler where
  ocb : ℕ
  ctp : Context
  loc : Loc
deriving DecidableEq, Repr

/-- The server and the handlers in progress. -/
structure Threads (L : ℕ) where
  server : Server L
  handlers : List Handler

inductive Move where
  | invoke (r : Request)
  | step (k : ℕ)

/-- The handler `h` at place `k` of the list has taken a step. -/
def Threads.resume (s : Threads L) (k : ℕ) (h : Handler) (server : Server L) :
    Loc ⊕ Return → Threads L
  | .inl loc => ⟨server, s.handlers.set k { h with ctp := server.ctp, loc := loc }⟩
  | .inr _ => ⟨server, s.handlers.eraseIdx k⟩

/-- A new handler starts, or one in progress takes a step. -/
def Threads.move [NeZero L] (s : Threads L) : Move → Option (Threads L)
  | .invoke r =>
    let ctp : Context := { rcvid := r.rcvid, iov := 0, nbytes := 0, offset := 0 }
    some { s with handlers := s.handlers ++ [⟨r.ocb, ctp, .test r.msg⟩] }
  | .step k => do
    let h ← s.handlers[k]?
    let (next, server) ← ((h.loc.step h.ocb).run { s.server with ctp := h.ctp }).toOption
    return s.resume k h server next

def Moves [NeZero L] (s : Threads L) (a : Move) (t : Threads L) : Prop := s.move a = some t

def idle [NeZero L] (queue : Fifo L) : Threads L := ⟨boot queue, []⟩

/-- If a client is recorded, there is no string. -/
def Woken (q : Fifo L) : Prop := (∃ i, q.blockedId i ≠ 0) → ∀ i, q.status i = 0

/-- A reader that records its client still finds the string ring empty. -/
def StillEmpty (s : Threads L) (a : Move) : Prop :=
  ∀ k h, a = .step k → s.handlers[k]? = some h → h.loc = .record →
    ∀ i, s.server.queue.status i = 0

instance (s : Threads L) (a : Move) : Decidable (StillEmpty s a) :=
  match a with
  | .invoke _ => isTrue fun _ _ h => Move.noConfusion h
  | .step k =>
    match hk : s.handlers[k]? with
    | none => isTrue fun _ h heq hh => by cases heq; simp [hk] at hh
    | some h => decidable_of_iff (h.loc = .record → ∀ i, s.server.queue.status i = 0)
        ⟨fun hc _ h' heq hh => by cases heq; cases hk.symm.trans hh; exact hc,
          fun hc => hc k h rfl hk⟩

/-! ## Handlers without an interruption -/

variable {s t : Server L} {m : Service} {ocb : ℕ} {loc : Loc}

/-- The steps of a handler make up the handler. -/
theorem handle_eq_steps [NeZero L] (ocb : ℕ) (msg : Msg) :
    Loc.steps ocb 3 (.test msg) = (Sum.inr <$> IoFuncs.fifo.handle ocb msg :
      HandlerM L (Loc ⊕ Return)) := by
  cases msg with
  | read verify nonblock =>
      simp only [IoFuncs.handle, ioReadFifo_eq, Loc.steps, Loc.step, map_bind, bind_assoc]
      congr 1
      funext s
      split
      · split
        · simp
        · simp only [pure_bind, bind_assoc, map_bind]
          congr 1
          funext found
          cases found <;> cases nonblock <;> simp
      · simp
  | write bytes =>
      simp only [IoFuncs.handle, ioWriteFifo_eq, Loc.steps, Loc.step, map_bind, bind_assoc]
      congr 1
      funext s
      split <;> simp

/-! ## One step of a handler -/

/-- Clients wait only for want of messages. -/
structure Settled (s : Server L) (m : Service) : Prop extends Provides s m where
  served : m.waiting ≠ [] → m.messages = []

/-- A step leads from a settled state to a settled one. -/
structure Steps [NeZero L] (ocb : ℕ) (loc : Loc) (s : Server L) (next : Loc ⊕ Return)
    (t : Server L) : Prop where
  run : (loc.step ocb).run s = .ok (next, t)
  rcvid : t.ctp.rcvid = s.ctp.rcvid
  settled : ∃ m, Settled t m

variable [NeZero L]

theorem Settled.test (h : Settled s m) (ocb : ℕ) (msg : Msg) :
    ∃ next t, Steps ocb (.test msg) s next t := by
  by_cases hopen : s.offset ocb = 0
  · cases msg with
    | read verify nonblock =>
        by_cases hverify : verify = EOK
        · refine ⟨.inl (.critical (.read verify nonblock)), s, ?_, rfl, m, h⟩
          simp [Loc.step, hopen, hverify]
          rfl
        · refine ⟨.inr (.status verify), s, ?_, rfl, m, h⟩
          simp [Loc.step, hopen, hverify]
          rfl
    | write bytes =>
        refine ⟨.inl (.critical (.write bytes)), s, ?_, rfl, m, h⟩
        simp [Loc.step, hopen]
        rfl
  · refine ⟨.inr (.nparts 0), { s with ctp := { s.ctp with nbytes := 0 } }, ?_, rfl, m,
      h.toProvides.of_eq rfl rfl rfl, h.served⟩
    simp [Loc.step, hopen, setNbytes_run]

theorem Settled.read (h : Settled s m) (ocb : ℕ) (verify : ℤ) (nonblock : Bool) :
    ∃ next t, Steps ocb (.critical (.read verify nonblock)) s next t := by
  cases hm : m.messages with
  | nil =>
      have hsection := readSection_empty h.toProvides hm
      cases nonblock with
      | true =>
          refine ⟨.inr (.nparts 0), { s with ctp := { s.ctp with nbytes := 0 } }, ?_, rfl, m,
            h.toProvides.of_eq rfl rfl rfl, h.served⟩
          simp [Loc.step, hsection, setNbytes_run]
      | false =>
          refine ⟨.inl .record, s, ?_, rfl, m, h⟩
          simp [Loc.step, hsection]
          rfl
  | cons text rest =>
      obtain ⟨t, hsection, ht, hsame, -⟩ := readSection_text h.toProvides hm
      have hnobody : m.waiting = [] := by
        by_contra hw
        cases hm.symm.trans (h.served hw)
      refine ⟨.inl (.close 1), t, ?_, hsame.rcvid, _, ht, fun hw => absurd hnobody hw⟩
      simp [Loc.step, hsection]
      rfl

theorem Settled.write (h : Settled s m) (ocb : ℕ) (bytes : List UInt8) :
    ∃ next t, Steps ocb (.critical (.write bytes)) s next t := by
  cases hw : m.waiting with
  | nil =>
      obtain ⟨t, hsection, ht, hsame, -⟩ := writeSection_stored h.toProvides bytes hw
      refine ⟨.inl (.close 0), t, ?_, hsame.rcvid, _, ht, fun hw' => absurd hw hw'⟩
      simp [Loc.step, hsection]
  | cons id later =>
      -- nobody waits beside a message, so that only the new one is there to be passed on
      have hnone : m.messages = [] := h.served (by simp [hw])
      obtain ⟨t, hsection, ht, hsame, -⟩ :=
        writeSection_passed h.toProvides bytes hw (offer_of_nil hnone _)
      refine ⟨.inl (.close 0), t, ?_, hsame.rcvid, _, ht, fun _ => rfl⟩
      simp [Loc.step, hsection]

theorem Settled.close (h : Settled s m) (ocb parts : ℕ) :
    ∃ next t, Steps ocb (.close parts) s next t := by
  refine ⟨.inr (.nparts parts), { s with offset := Function.update s.offset ocb 1 }, ?_, rfl,
    m.close ocb, h.toProvides.closed ocb, h.served⟩
  simp [Loc.step, setOffset_run]

theorem Settled.steps (h : Settled s m) (ocb : ℕ) (hloc : loc ≠ .record) :
    ∃ next t, Steps ocb loc s next t := by
  cases loc with
  | test msg => exact h.test ocb msg
  | critical msg =>
      cases msg with
      | read verify nonblock => exact h.read ocb verify nonblock
      | write bytes => exact h.write ocb bytes
  | record => exact absurd rfl hloc
  | close parts => exact h.close ocb parts

omit [NeZero L] in
theorem Provides.woken_iff (h : Provides s m) :
    Woken s.queue ↔ (m.waiting ≠ [] → m.messages = []) := by
  rw [Woken, h.no_ids, h.no_strings]

/-- Recording is the one step that can come too late. -/
theorem Settled.record (h : Settled s m) (hpos : 0 < s.ctp.rcvid) (ocb : ℕ) :
    ∃ t, (Loc.record.step ocb).run s = .ok (.inr .noreply, t) ∧
      (m.messages = [] → ∃ m', Settled t m') ∧ (Woken t.queue ↔ m.messages = []) := by
  by_cases hroom : m.waiting.length < L
  · obtain ⟨t, hadd, ht, -⟩ := addBlockedId_recorded h.toProvides hpos hroom
    refine ⟨t, by simp [Loc.step, hadd], fun hempty => ⟨_, ht, fun _ => hempty⟩, ?_⟩
    simp [ht.woken_iff]
  · -- the ring is full, so that somebody waits
    have hempty : m.messages = [] := by
      apply h.served
      intro hw
      exact hroom (by simpa [hw] using Nat.pos_of_neZero L)
    have ht : Settled { s with events := s.events ++ [.addBlockedId s.ctp.rcvid false] } m :=
      ⟨h.toProvides.of_eq rfl rfl rfl, h.served⟩
    refine ⟨_, ?_, fun _ => ⟨m, ht⟩, iff_of_true (ht.woken_iff.mpr h.served) hempty⟩
    simp [Loc.step, addBlockedId_forgotten h.toProvides s.ctp.rcvid hroom]

/-! ## Runs -/

variable {a : Move} {u v : Threads L} {k : ℕ} {hd : Handler} {next : Loc ⊕ Return}

/-- The state between the steps of a run. -/
structure Calm (u : Threads L) (m : Service) : Prop where
  settled : Settled u.server m
  rcvid_pos : ∀ hd ∈ u.handlers, 0 < hd.ctp.rcvid

omit [NeZero L] in
theorem Calm.settled_at (h : Calm u m) (c : Context) : Settled { u.server with ctp := c } m :=
  ⟨h.settled.toProvides.of_eq rfl rfl rfl, h.settled.served⟩

theorem move_step (hk : u.handlers[k]? = some hd)
    (hrun : (hd.loc.step hd.ocb).run { u.server with ctp := hd.ctp } = .ok (next, t)) :
    u.move (.step k) = some (u.resume k hd t next) := by
  simp [Threads.move, hk, hrun, Except.toOption]

omit [NeZero L] in
theorem Calm.invoke (h : Calm u m) (hpos : 0 < hd.ctp.rcvid) :
    Calm { u with handlers := u.handlers ++ [hd] } m := by
  refine ⟨h.settled, ?_⟩
  intro hd' hmem
  rcases List.mem_append.mp hmem with hmem | hmem
  · exact h.rcvid_pos hd' hmem
  · exact List.mem_singleton.mp hmem ▸ hpos

omit [NeZero L] in
theorem Calm.resume (h : Calm u m) {m' : Service} (ht : Settled t m')
    (hnext : ∀ loc, next = .inl loc → t.ctp.rcvid = hd.ctp.rcvid)
    (hk : u.handlers[k]? = some hd) : Calm (u.resume k hd t next) m' := by
  cases next with
  | inl loc =>
      refine ⟨ht, ?_⟩
      intro hd' hmem
      rcases List.mem_or_eq_of_mem_set hmem with hmem | rfl
      · exact h.rcvid_pos hd' hmem
      · exact hnext loc rfl ▸ h.rcvid_pos hd (List.mem_of_getElem? hk)
  | inr ret => exact ⟨ht, fun hd' hmem => h.rcvid_pos hd' (List.mem_of_mem_eraseIdx hmem)⟩

omit [NeZero L] in
theorem Calm.stillEmpty_iff (h : Calm u m) (hk : u.handlers[k]? = some hd) :
    StillEmpty u (.step k) ↔ (hd.loc = .record → m.messages = []) := by
  rw [← h.settled.no_strings]
  constructor
  · intro hstill hloc
    exact hstill k hd rfl hk hloc
  · intro hstill k' hd' heq hk' hloc
    cases heq
    cases hk.symm.trans hk'
    exact hstill hloc

/-- Every handler in progress can take its step. It keeps the property exactly when it does
not record a client beside a string. -/
theorem Calm.step (h : Calm u m) (hk : u.handlers[k]? = some hd) :
    ∃ v, Moves u (.step k) v ∧ (StillEmpty u (.step k) → ∃ m', Calm v m') ∧
      (Woken v.server.queue ↔ StillEmpty u (.step k)) := by
  have hs := h.settled_at hd.ctp
  have hpos : 0 < hd.ctp.rcvid := h.rcvid_pos hd (List.mem_of_getElem? hk)
  rw [h.stillEmpty_iff hk]
  by_cases hloc : hd.loc = .record
  · obtain ⟨t, hrun, hsettled, hwoken⟩ := hs.record hpos hd.ocb
    rw [← hloc] at hrun
    refine ⟨_, move_step hk hrun, ?_, ?_⟩
    · intro hempty
      obtain ⟨m', ht⟩ := hsettled (hempty hloc)
      exact ⟨m', h.resume ht (fun loc heq => by cases heq) hk⟩
    · rw [Threads.resume, hwoken]
      simp [hloc]
  · obtain ⟨next, t, hstep⟩ := hs.steps hd.ocb hloc
    obtain ⟨m', ht⟩ := hstep.settled
    have hcalm : Calm (u.resume k hd t next) m' := h.resume ht (fun loc _ => hstep.rcvid) hk
    refine ⟨_, move_step hk hstep.run, fun _ => ⟨m', hcalm⟩, ?_⟩
    exact iff_of_true (hcalm.settled.woken_iff.mpr hcalm.settled.served) fun h => absurd h hloc

theorem Calm.moves (h : Calm u m) (hmove : Moves u a v) :
    (StillEmpty u a → ∃ m', Calm v m') ∧ (Woken v.server.queue ↔ StillEmpty u a) := by
  cases a with
  | invoke r =>
      cases hmove
      have hstill : StillEmpty u (.invoke r) := fun k hd heq => by cases heq
      exact ⟨fun _ => ⟨m, h.invoke r.rcvid_pos⟩,
        iff_of_true (h.settled.woken_iff.mpr h.settled.served) hstill⟩
  | step k =>
      cases hk : u.handlers[k]? with
      | none =>
          have hnone : u.move (.step k) = none := by simp [Threads.move, hk]
          cases hnone.symm.trans hmove
      | some hd =>
          obtain ⟨w, hw, hcalm, hwoken⟩ := h.step hk
          cases hw.symm.trans hmove
          exact ⟨hcalm, hwoken⟩

theorem calm_idle (queue : Fifo L) : Calm (idle queue) .init :=
  ⟨⟨provides_boot queue, fun _ => rfl⟩, by simp [idle]⟩

/-- In every interleaving in which readers record their clients while the string ring is
still empty, no client is recorded beside a string, whether handlers are in progress or
not. The next step keeps it so exactly when it does not record a client too late, and all
handlers can go on. -/
theorem woken_while_still_empty (queue : Fifo L) {as : List Move} {s : Threads L}
    (h : Runs Moves (idle queue) as s) (hstill : Along Moves StillEmpty (idle queue) as) :
    Woken s.server.queue ∧ (∀ a t, Moves s a t → (Woken t.server.queue ↔ StillEmpty s a)) ∧
      ∀ k < s.handlers.length, ∃ t, Moves s (.step k) t := by
  have hstep : ∀ (u : Threads L) a v, (∃ m, Calm u m) → StillEmpty u a → Moves u a v →
      ∃ m, Calm v m :=
    fun _ _ _ hu hstill hmove => hu.elim fun _ hm => (hm.moves hmove).1 hstill
  obtain ⟨m, hs⟩ := h.invariant_of_along hstep hstill ⟨.init, calm_idle queue⟩
  refine ⟨hs.settled.woken_iff.mpr hs.settled.served, fun a t ht => (hs.moves ht).2, ?_⟩
  intro k hk
  obtain ⟨t, ht, -⟩ := hs.step (List.getElem?_eq_getElem hk)
  exact ⟨t, ht⟩

/-- A reader is recorded and answered by a writer that has started in the meantime. -/
theorem woken_while_still_empty_of_read_and_write :
    ∃ s : Threads LENGTH,
      Runs Moves (idle .zero) [.invoke (.read 1 1), .step 0, .invoke (.write 2 2 ['h', 'i']),
        .step 0, .step 1, .step 0, .step 0, .step 0] s ∧
      Woken s.server.queue ∧ (∀ a t, Moves s a t → (Woken t.server.queue ↔ StillEmpty s a)) ∧
      ∀ k < s.handlers.length, ∃ t, Moves s (.step k) t := by
  obtain ⟨s, hruns, -⟩ : ∃ s : Threads LENGTH,
      Runs Moves (idle .zero) [.invoke (.read 1 1), .step 0, .invoke (.write 2 2 ['h', 'i']),
        .step 0, .step 1, .step 0, .step 0, .step 0] s ∧ s.handlers.isEmpty = true :=
    Runs.exists_of_foldlM (by decide)
  have hstill : Along (fun (s : Threads LENGTH) a t => s.move a = some t) StillEmpty
      (idle .zero) [.invoke (.read 1 1), .step 0, .invoke (.write 2 2 ['h', 'i']), .step 0,
        .step 1, .step 0, .step 0, .step 0] := by decide
  exact ⟨s, hruns, woken_while_still_empty .zero hruns hstill⟩

/-- A reader finds the queue empty and gives the mutex back; before it records its client, a
writer adds a string and finds nobody to wake. -/
theorem reader_recorded_too_late :
    ∃ s : Threads LENGTH,
      Runs Moves (idle .zero) [.invoke (.read 1 1), .step 0, .step 0,
        .invoke (.write 2 2 ['h', 'i']), .step 1, .step 1, .step 1, .step 0] s ∧
      s.handlers = [] ∧ (∃ i, s.server.queue.blockedId i ≠ 0) ∧
      ¬ ∀ i, s.server.queue.status i = 0 :=
  Runs.exists_of_foldlM (by decide)

end RealTime.ResourceManager
