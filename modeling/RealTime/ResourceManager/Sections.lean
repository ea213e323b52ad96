import RealTime.ResourceManager.Calls
import RealTime.ResourceManager.Rings
import RealTime.ResourceManager.Service

/-! # The sections of the FIFO handlers under the mutex

Each FIFO handler has one section under `queue.resource_mutex`. What a section does is said
in terms of the service; the shared buffer always ends in a NUL, so that the texts in it are
those of the rows that pass through it, whatever stale bytes follow them. -/

namespace RealTime.ResourceManager

open Exec RingQueue Service

variable {L : ℕ} {s s' : Server L} {m m' : Service} {q : Fifo L}
  {rows : List (Buffer WIDTH)} {ids : List ℤ} {text : List UInt8} {rest : List (List UInt8)}

/-! ## The state between sections -/

/-- The texts in the rows of a queue. -/
def texts (rows : List (Buffer WIDTH)) : List (List UInt8) := rows.map fun row => cstr row.bytes

structure Provides (s : Server L) (m : Service) : Prop where
  terminated : s.buf.Terminated
  unlocked : s.queue.resourceMutex = false
  queued : ∃ rows, Queued s.queue rows m.waiting ∧ texts rows = m.messages
  waiting_pos : ∀ id ∈ m.waiting, 0 < id
  atEnd : ∀ ocb, m.atEnd ocb = true ↔ s.offset ocb ≠ 0

theorem Queued.withMutex (h : Queued q rows ids) (locked : Bool) :
    Queued { q with resourceMutex := locked } rows ids := ⟨h.strings, h.ids⟩

theorem Provides.of_eq (h : Provides s m) (hbuf : s'.buf = s.buf) (hqueue : s'.queue = s.queue)
    (hoffset : s'.offset = s.offset) : Provides s' m where
  terminated := hbuf ▸ h.terminated
  unlocked := hqueue ▸ h.unlocked
  queued := hqueue ▸ h.queued
  waiting_pos := h.waiting_pos
  atEnd := hoffset ▸ h.atEnd

theorem Provides.atEnd_iff (h : Provides s m) {ocb : ℕ} :
    m.atEnd ocb = false ↔ s.offset ocb = 0 := by
  rw [← Bool.not_eq_true, h.atEnd, not_not]

theorem Provides.close (h : Provides s m) (ocb ocb' : ℕ) :
    (m.close ocb).atEnd ocb' = true ↔ Function.update s.offset ocb 1 ocb' ≠ 0 := by
  by_cases heq : ocb' = ocb
  · simp [Service.close, heq]
  · simpa [Service.close, heq] using h.atEnd ocb'

theorem Provides.closed (h : Provides s m) (ocb : ℕ) :
    Provides { s with offset := Function.update s.offset ocb 1 } (m.close ocb) :=
  ⟨h.terminated, h.unlocked, h.queued, h.waiting_pos, h.close ocb⟩

/-- The message in the shared buffer, with its terminator. -/
theorem exists_message (h : s.buf.Terminated) (bytes : List UInt8) :
    ∃ b c, s.buf.copy (bytes.take (writeSize bytes)) = some b ∧
      b.store (writeSize bytes) 0 = some c ∧ c.Terminated ∧ cstr c.front.bytes = payload bytes := by
  have hsize : writeSize bytes = min WIDTH bytes.length := by
    unfold writeSize BUFFER_MAX_SIZE
    split <;> omega
  have hlength : (bytes.take (writeSize bytes)).length = writeSize bytes := by
    rw [List.length_take, hsize]
    omega
  have htake : bytes.take (writeSize bytes) = bytes.take WIDTH := by
    rw [hsize, ← List.take_eq_take_min]
  have hle : (bytes.take (writeSize bytes)).length ≤ WIDTH := by
    rw [hlength, hsize]
    exact Nat.min_le_left _ _
  obtain ⟨b, c, hcopy, hstore, hc, htext⟩ := h.copy_store hle
  rw [hlength] at hstore
  exact ⟨b, c, hcopy, hstore, hc, by rw [htext, htake, payload]⟩

variable [NeZero L]

/-- The attempt to add a text leaves some text in the queue in any case. -/
theorem Queued.offer (hq : Queued q rows m.waiting) (hrows : texts rows = m.messages)
    (array : Buffer WIDTH) :
    ∃ q' row rows', fifoAddString q array = (m.hasRoom L, q') ∧
      Queued q' (row :: rows') m.waiting ∧ q'.resourceMutex = q.resourceMutex ∧
      m.offer L (cstr array.bytes) = cstr row.bytes :: texts rows' := by
  have hlength : rows.length = m.messages.length := by rw [← hrows, texts, List.length_map]
  by_cases hroom : m.messages.length < L
  · obtain ⟨q', hadd, hq', hmutex⟩ := hq.addString (hlength ▸ hroom) array
    obtain ⟨row, rows', hcons⟩ : ∃ row rows', rows ++ [array] = row :: rows' :=
      List.exists_cons_of_ne_nil (by simp)
    have htexts : texts (rows ++ [array]) = texts (row :: rows') := congrArg texts hcons
    refine ⟨q', row, rows', by simpa [hasRoom, hroom] using hadd, hcons ▸ hq', hmutex, ?_⟩
    have hoffer : m.offer L (cstr array.bytes) = m.messages ++ [cstr array.bytes] := by
      simp [Service.offer, hasRoom, hroom]
    rw [hoffer, ← hrows]
    simpa [texts] using htexts
  · have hadd := hq.addString_full (by omega) array
    cases rows with
    | nil =>
        have hL := Nat.pos_of_neZero L
        simp at hlength
        omega
    | cons row rows' =>
        exact ⟨q, row, rows', by simpa [hasRoom, hroom] using hadd, hq, rfl, by
          simpa [Service.offer, hasRoom, hroom, texts] using hrows.symm⟩

/-- After an offer there is a text. -/
theorem exists_offer (L : ℕ) [NeZero L] (m : Service) (text : List UInt8) :
    ∃ first later, m.offer L text = first :: later := by
  apply List.exists_cons_of_ne_nil
  unfold Service.offer
  split
  · simp
  · rename_i hroom
    intro hnil
    have hL := Nat.pos_of_neZero L
    simp [hasRoom, hnil] at hroom
    omega

/-! ## The sections -/

/-- The section of `io_read_fifo`; the result says whether a text has been taken out. -/
def readSection : HandlerM L Bool := do
  lockQueue
  if fifoStatus (← get).queue = 0 then
    unlockQueue
    return false
  remString
  setIov (← strlenBuf)
  setNbytes (← strlenBuf)
  unlockQueue
  return true

/-- The section of `io_write_fifo`. -/
def writeSection (bytes : List UInt8) : HandlerM L Unit := do
  let size := writeSize bytes
  lockQueue
  msgread bytes size
  storeBuf size 0
  let _ ← addString
  setNbytes (← strlenBuf)
  respondToBlockedClient (← remBlockedId)
  unlockQueue

theorem ioReadFifo_eq (ocb : ℕ) (verify : ℤ) (nonblock : Bool) :
    (ioReadFifo ocb verify nonblock : HandlerM L Return) = do
      if (← get).offset ocb = 0 then
        if verify ≠ EOK then
          return .status verify
        if ← readSection then
          setOffset ocb 1
          return .nparts 1
        else if nonblock then
          setNbytes 0
          return .nparts 0
        else
          let _ ← addBlockedId (← get).ctp.rcvid
          return .noreply
      else
        setNbytes 0
        return .nparts 0 := by
  simp only [ioReadFifo, readSection]
  congr 1
  funext s
  split
  · split
    · rfl
    · simp only [bind_assoc]
      congr 1
      funext _
      congr 1
      funext t
      split <;> simp
  · rfl

theorem ioWriteFifo_eq (ocb : ℕ) (bytes : List UInt8) :
    (ioWriteFifo ocb bytes : HandlerM L Return) = do
      if (← get).offset ocb = 0 then
        writeSection bytes
        setOffset ocb 1
        return .nparts 0
      else
        setNbytes 0
        return .nparts 0 := by
  simp [ioWriteFifo, writeSection]

/-! ## What they do -/

/-- The parts of the server that no section touches, and the client of the context. -/
structure SameOutside (s s' : Server L) : Prop where
  offset : s'.offset = s.offset
  mutex : s'.mutex = s.mutex
  count : s'.count = s.count
  rcvid : s'.ctp.rcvid = s.ctp.rcvid

theorem readSection_empty (h : Provides s m) (hm : m.messages = []) :
    readSection.run s = .ok (false, s) := by
  obtain ⟨rows, hq, hrows⟩ := h.queued
  obtain rfl : rows = [] := List.map_eq_nil_iff.mp (hrows.trans hm)
  have hstatus : fifoStatus { s.queue with resourceMutex := true } = 0 := by
    simp [(hq.withMutex true).status]
  have hsame : { s with queue := { s.queue with resourceMutex := false } } = s := by
    rw [← h.unlocked]
  simp [readSection, lockQueue_run, h.unlocked, hstatus, unlockQueue_run, hsame]

/-- A text is moved from the queue to the buffer. -/
theorem readSection_text (h : Provides s m) (hm : m.messages = text :: rest) :
    ∃ s', readSection.run s = .ok (true, s') ∧ Provides s' { m with messages := rest } ∧
      SameOutside s s' ∧ s'.ctp.iov = text.length ∧ s'.ctp.nbytes = text.length ∧
      s'.buf.bytes.take text.length = text ∧ s'.events = s.events := by
  obtain ⟨rows, hq, hrows⟩ := h.queued
  cases rows with
  | nil => cases hrows.trans hm
  | cons row rows =>
      obtain ⟨rfl, rfl⟩ : cstr row.bytes = text ∧ texts rows = rest := by
        simpa [texts] using hrows.trans hm
      have hlocked := hq.withMutex true
      have hstatus : fifoStatus { s.queue with resourceMutex := true } ≠ 0 := by
        simp [hlocked.status]
      obtain ⟨q', hrem, hq', hmutex⟩ := hlocked.remString s.buf.front
      have hbuf := h.terminated.setFront row
      have hstrlen := hbuf.strlen
      have htake := hbuf.take_strlen
      rw [Buffer.front_setFront] at hstrlen htake
      refine ⟨{ s with
          buf := s.buf.setFront row
          queue := { q' with resourceMutex := false }
          ctp := { s.ctp with
            iov := (cstr row.bytes).length, nbytes := (cstr row.bytes).length } }, ?_,
        ⟨hbuf, rfl, ⟨rows, hq'.withMutex false, rfl⟩, h.waiting_pos, h.atEnd⟩,
        ⟨rfl, rfl, rfl, rfl⟩, rfl, rfl, htake, rfl⟩
      simp [readSection, lockQueue_run, h.unlocked, hstatus, remString_run, hrem,
        strlenBuf_run, hstrlen, inBounds_run, setIov_run, setNbytes_run, unlockQueue_run,
        hmutex]

/-- A message is stored, or refused, while nobody waits. -/
theorem writeSection_stored (h : Provides s m) (bytes : List UInt8) (hw : m.waiting = []) :
    ∃ s', (writeSection bytes).run s = .ok ((), s') ∧
      Provides s' { m with messages := m.offer L (payload bytes) } ∧ SameOutside s s' ∧
      s'.ctp.nbytes = (payload bytes).length ∧
      s'.events = s.events ++ [.addString (m.hasRoom L)] := by
  obtain ⟨rows, hq, hrows⟩ := h.queued
  obtain ⟨b, c, hcopy, hstore, hc, htext⟩ := exists_message h.terminated bytes
  have hstrlen := hc.strlen
  obtain ⟨q₁, row, rows₁, hadd, hq₁, hmutex₁, hoffer⟩ := (hq.withMutex true).offer hrows c.front
  rw [htext] at hstrlen hoffer
  have hnobody := (hw ▸ hq₁).remBlockedId_none
  refine ⟨{ s with
      buf := c
      queue := { q₁ with resourceMutex := false }
      ctp := { s.ctp with nbytes := (payload bytes).length }
      events := s.events ++ [.addString (m.hasRoom L)] }, ?_,
    ⟨hc, rfl, ⟨row :: rows₁, hq₁.withMutex false, hoffer.symm⟩, h.waiting_pos, h.atEnd⟩,
    ⟨rfl, rfl, rfl, rfl⟩, rfl, rfl⟩
  simp [writeSection, lockQueue_run, h.unlocked, msgread_run, hcopy, storeBuf_run, hstore,
    addString_run, hadd, strlenBuf_run, hstrlen, inBounds_run, setNbytes_run,
    remBlockedId_run, hnobody, respondToBlockedClient, unlockQueue_run, hmutex₁]

/-- While somebody waits, the oldest text is passed on to the one who has waited longest. -/
theorem writeSection_passed (h : Provides s m) (bytes : List UInt8) {id : ℤ} {later : List ℤ}
    (hw : m.waiting = id :: later) (hm : m.offer L (payload bytes) = text :: rest) :
    ∃ s', (writeSection bytes).run s = .ok ((), s') ∧
      Provides s' { m with messages := rest, waiting := later } ∧ SameOutside s s' ∧
      s'.ctp.nbytes = text.length ∧
      s'.events = s.events ++ [.addString (m.hasRoom L), .msgReply id text] := by
  obtain ⟨rows, hq, hrows⟩ := h.queued
  obtain ⟨b, c, hcopy, hstore, hc, htext⟩ := exists_message h.terminated bytes
  have hstrlen := hc.strlen
  obtain ⟨q₁, row, rows₁, hadd, hq₁, hmutex₁, hoffer⟩ := (hq.withMutex true).offer hrows c.front
  rw [htext] at hstrlen hoffer
  obtain ⟨rfl, rfl⟩ : cstr row.bytes = text ∧ texts rows₁ = rest := by
    simpa using hoffer.symm.trans hm
  have hid : id ≠ -1 := by
    have hpos := h.waiting_pos id (by simp [hw])
    omega
  obtain ⟨q₂, hrem, hq₂, hmutex₂⟩ := (hw ▸ hq₁).remBlockedId
  obtain ⟨q₃, hnext, hq₃, hmutex₃⟩ := hq₂.remString c.front
  have hreply := hc.setFront row
  have hlength := hreply.strlen
  have htake := hreply.take_strlen
  rw [Buffer.front_setFront] at hlength htake
  refine ⟨{ s with
      buf := c.setFront row
      queue := { q₃ with resourceMutex := false }
      ctp := { s.ctp with
        iov := (cstr row.bytes).length, nbytes := (cstr row.bytes).length, offset := 1 }
      events := s.events ++
        [.addString (m.hasRoom L), .msgReply id (cstr row.bytes)] }, ?_,
    ⟨hreply, rfl, ⟨rows₁, hq₃.withMutex false, rfl⟩, ?_, h.atEnd⟩, ⟨rfl, rfl, rfl, rfl⟩,
    rfl, rfl⟩
  · simp [writeSection, lockQueue_run, h.unlocked, msgread_run, hcopy, storeBuf_run, hstore,
      addString_run, hadd, strlenBuf_run, hstrlen, inBounds_run, setNbytes_run,
      remBlockedId_run, hrem, respondToBlockedClient, hid, remString_run, hnext, hlength,
      setIov_run, msgReply_run, htake, unlockQueue_run, hmutex₃, hmutex₂, hmutex₁]
  · exact fun i hi => h.waiting_pos i (by simp [hw, hi])

/-! ## Recording a client -/

theorem addBlockedId_recorded (h : Provides s m) {id : ℤ} (hid : 0 < id)
    (hroom : m.waiting.length < L) :
    ∃ s', (addBlockedId id).run s = .ok (true, s') ∧
      Provides s' { m with waiting := m.waiting ++ [id] } ∧ SameOutside s s' ∧
      s'.ctp = s.ctp ∧ s'.events = s.events ++ [.addBlockedId id true] := by
  obtain ⟨rows, hq, hrows⟩ := h.queued
  obtain ⟨q', hadd, hq', hmutex⟩ := hq.addBlockedId hroom hid
  refine ⟨{ s with
      queue := q'
      events := s.events ++ [.addBlockedId id true] }, ?_,
    ⟨h.terminated, hmutex.trans h.unlocked, ⟨rows, hq', hrows⟩, ?_, h.atEnd⟩,
    ⟨rfl, rfl, rfl, rfl⟩, rfl, rfl⟩
  · simp [addBlockedId_run, hadd]
  · intro i hi
    rcases List.mem_append.mp hi with hi | hi
    · exact h.waiting_pos i hi
    · exact List.mem_singleton.mp hi ▸ hid

/-- With `LENGTH` clients recorded, only the attempt is noted. -/
theorem addBlockedId_forgotten (h : Provides s m) (id : ℤ) (hfull : ¬ m.waiting.length < L) :
    (addBlockedId id).run s =
      .ok (false, { s with events := s.events ++ [.addBlockedId id false] }) := by
  obtain ⟨rows, hq, -⟩ := h.queued
  simp [addBlockedId_run, hq.addBlockedId_full hfull id]

end RealTime.ResourceManager
