import RealTime.ResourceManager.Delivery
import RealTime.ResourceManager.Frame

/-! # Printing the rows

`fifo_print` prints every row as a string. `io_write_fifo` puts a NUL behind the message in
the shared buffer, which is one byte longer than a row: a message that fills a row is
stored there without it. -/

namespace RealTime.ResourceManager

open RingQueue Service Transition

variable {L : ℕ} {s t : Session L} {m m' : Service} {r : Request} {o : Outcome} {q : Fifo L}

/-- Every row contains a NUL. -/
def Printable (q : Fifo L) : Prop := ∀ i, 0 ∈ (q.fifo i).bytes

/-- `fifo_print`; `%s` stays in a row only if it meets a NUL there. -/
def fifoPrint (q : Fifo L) : Option (List (List UInt8)) :=
  (List.finRange L).mapM fun i =>
    if 0 ∈ (q.fifo i).bytes then some (cstr (q.fifo i).bytes) else none

/-- A message that gets into an empty row and stays there leaves room for its NUL. -/
def FitsRow (s : Session L) (r : Request) : Prop :=
  ∀ bytes, r.msg = .write bytes → s.server.offset r.ocb = 0 →
    (∀ i, s.server.queue.blockedId i = 0) → (∃ i, s.server.queue.status i = 0) →
    bytes.length < WIDTH ∨ 0 ∈ bytes.take WIDTH

theorem isSome_mapM {α β : Type} (f : α → Option β) (xs : List α) :
    (xs.mapM f).isSome ↔ ∀ x ∈ xs, (f x).isSome := by
  induction xs with
  | nil => simp
  | cons x xs ih => cases hx : f x <;> cases hxs : xs.mapM f <;> simp_all

/-- `fifo_print` reads nothing beyond the rows exactly when all of them contain a NUL. -/
theorem fifoPrint_isSome (q : Fifo L) : (fifoPrint q).isSome ↔ Printable q := by
  rw [fifoPrint, isSome_mapM]
  have hrow : ∀ i, (if 0 ∈ (q.fifo i).bytes then some (cstr (q.fifo i).bytes) else none).isSome ↔
      0 ∈ (q.fifo i).bytes := by
    intro i
    split <;> simp_all
  simp only [hrow, List.mem_finRange, true_imp_iff]
  exact Iff.rfl

/-! ## Free rows -/

/-- The rows without a string contain a NUL. -/
def FreeRows (q : Fifo L) : Prop := ∀ i, q.status i = 0 → 0 ∈ (q.fifo i).bytes

theorem zero_mem_empty : 0 ∈ empty.bytes := by decide

theorem zero_mem_clearRow (row : Buffer WIDTH) : 0 ∈ (clearRow row).bytes := by
  have hpos : 0 < row.bytes.length := by
    rw [row.size]
    decide
  exact List.mem_of_getElem? (List.getElem?_set_self hpos)

variable [NeZero L]

theorem freeRows_initFifo (q : Fifo L) : FreeRows (initFifo q) :=
  fun i _ => zero_mem_clearRow (q.fifo i)

theorem FreeRows.call {q' : Fifo L} (h : FreeRows q) (hc : QueueCall q q') : FreeRows q' := by
  cases hc with
  | mutex locked => exact h
  | addString array =>
      unfold fifoAddString
      split
      · intro i hi
        by_cases heq : i = q.fifoTail
        · simp [heq] at hi
        · simpa [heq] using h i (by simpa [heq] using hi)
      · exact h
  | remString array =>
      unfold fifoRemString
      split
      · intro i hi
        by_cases heq : i = q.fifoHead
        · simpa [heq] using zero_mem_empty
        · simpa [heq] using h i (by simpa [heq] using hi)
      · exact h
  | addBlockedId id =>
      unfold fifoAddBlockedId
      split <;> exact h
  | remBlockedId =>
      unfold fifoRemBlockedId
      split <;> exact h

theorem stable_freeRows : Stable fun s : Server L => FreeRows s.queue where
  rest _ _ hqueue _ _ h := hqueue ▸ h
  queue _ _ hc h := h.call hc

/-! ## Rows and texts -/

/-- No text fills a row. -/
def ShortTexts (m : Service) : Prop := ∀ text ∈ m.messages, text.length < WIDTH

omit [NeZero L] in
theorem Provides.printable_iff {s : Server L} (h : Provides s m) (hfree : FreeRows s.queue) :
    Printable s.queue ↔ ShortTexts m := by
  obtain ⟨rows, hq, hrows⟩ := h.queued
  have hshort : ∀ row : Buffer WIDTH, (cstr row.bytes).length < WIDTH ↔ 0 ∈ row.bytes := by
    intro row
    rw [← length_cstr_lt_iff, row.size]
  rw [ShortTexts, ← hrows, texts, List.forall_mem_map]
  constructor
  · intro hprint row hrow
    obtain ⟨i, hi⟩ := hq.strings.mem_iff.mp hrow
    have hfifo : s.queue.fifo i = row := by
      unfold Fifo.strings at hi
      split at hi
      · cases hi
      · exact Option.some.inj hi
    exact (hshort row).mpr (hfifo ▸ hprint i)
  · intro hrows i
    by_cases hstatus : s.queue.status i = 0
    · exact hfree i hstatus
    · have hi : s.queue.strings i = some (s.queue.fifo i) := if_neg hstatus
      exact (hshort _).mp (hrows _ (hq.strings.mem_iff.mpr ⟨i, hi⟩))

omit [NeZero L] in
theorem Provides.has_row {s : Server L} (h : Provides s m) :
    (∃ i, s.queue.status i = 0) ↔ m.hasRoom L = true := by
  obtain ⟨rows, hq, hrows⟩ := h.queued
  have hlength : rows.length = m.messages.length := by rw [← hrows, texts, List.length_map]
  rw [hasRoom, ← hlength, decide_eq_true_iff, ← hq.strings.exists_free]
  simp [Fifo.strings]

theorem length_payload_lt_iff (bytes : List UInt8) :
    (payload bytes).length < WIDTH ↔ bytes.length < WIDTH ∨ 0 ∈ bytes.take WIDTH := by
  have hle := length_cstr_le (bytes.take WIDTH)
  rw [List.length_take] at hle
  constructor
  · intro hlt
    by_contra hlong
    obtain ⟨hlength, hzero⟩ := not_or.mp hlong
    rw [payload, cstr_eq_self hzero, List.length_take] at hlt
    omega
  · intro h
    rcases h with hlength | hzero
    · rw [payload]
      omega
    · have hlt := (length_cstr_lt_iff (bytes.take WIDTH)).mpr hzero
      rw [List.length_take] at hlt
      rw [payload]
      omega

/-! ## Requests -/

/-- The message that a write stores without passing it on is short. -/
def Fits (L : ℕ) (m : Service) (r : Request) : Prop :=
  ∀ bytes, r.msg = .write bytes → m.atEnd r.ocb = false → m.waiting = [] →
    m.hasRoom L = true → (payload bytes).length < WIDTH

omit [NeZero L] in
theorem Provides.fits_iff (h : Provides s.server m) : FitsRow s r ↔ Fits L m r := by
  have hids : (∀ i, s.server.queue.blockedId i = 0) ↔ m.waiting = [] := by
    rw [← not_iff_not, ← ne_eq (m.waiting), ← h.no_ids]
    simp
  simp only [FitsRow, Fits, hids, h.has_row, h.atEnd_iff, length_payload_lt_iff]

theorem Service.Serves.shortTexts (hs : Serves L m r o m') (hfits : Fits L m r)
    (hserved : m.waiting ≠ [] → m.messages = []) (h : ShortTexts m) : ShortTexts m' := by
  cases hs with
  | @text nonblock first rest hopen hmsg hm =>
      intro text ht
      exact h text (hm ▸ List.mem_cons_of_mem first ht)
  | @stored bytes hopen hmsg hw =>
      intro text ht
      cases hroom : m.hasRoom L with
      | false =>
          simp only [offer, hroom] at ht
          exact h text ht
      | true =>
          simp only [offer, hroom, if_true, List.mem_append, List.mem_singleton] at ht
          rcases ht with ht | ht
          · exact h text ht
          · exact ht ▸ hfits bytes hmsg hopen hw hroom
  | @passed bytes id rest first texts hopen hmsg hw hm =>
      -- nobody waits beside a text, so that the message is the only text and is passed on
      have hnone : m.messages = [] := hserved (by simp [hw])
      cases (offer_of_nil hnone _).symm.trans hm
      intro text ht
      cases ht
  | _ => exact h

omit [NeZero L] in
theorem Service.Serves.not_shortTexts (hs : Serves L m r o m') (hfits : ¬ Fits L m r) :
    ¬ ShortTexts m' := by
  simp only [Fits, not_forall] at hfits
  obtain ⟨bytes, hmsg, hopen, hw, hroom, hlong⟩ := hfits
  obtain ⟨-, rfl⟩ := hs.unique (.stored hopen hmsg hw)
  intro h
  exact hlong (h (payload bytes) (by simp [offer, hroom]))

/-- In a run, `fifo_print` finds a NUL in every row in every state exactly when no message
that fills a row gets into one. -/
theorem rows_printable_throughout_iff (queue : Fifo L) (rs : List Request) :
    Printable (start queue).server.queue ∧
      (Throughout Step (fun _ _ t => Printable t.server.queue) (start queue) rs ↔
        Along Step FitsRow (start queue) rs) := by
  let P : Session L → Prop := fun s =>
    ∃ m, Tracks s m ∧ FreeRows s.server.queue ∧ ShortTexts m
  have hgood : ∀ (s : Session L) r, P s → True → FitsRow s r →
      ∃ t, Step s r t ∧ P t ∧ Printable t.server.queue := by
    intro s r hs _ hfits
    obtain ⟨m, h, hfree, hshort⟩ := hs
    obtain ⟨t, o, m', ha⟩ := h.answers r
    have hfree' := stable_freeRows.dispatch hfree ha.run
    have hshort' := ha.serves.shortTexts (h.provides.fits_iff.mp hfits) h.accounts.served hshort
    exact ⟨t, ha.step, ⟨m', ha.tracks, hfree', hshort'⟩,
      (ha.tracks.provides.printable_iff hfree').mpr hshort'⟩
  have hbad : ∀ (s : Session L) r t, P s → True → ¬ FitsRow s r → Step s r t →
      ¬ Printable t.server.queue := by
    intro s r t hs _ hfits hrt hprint
    obtain ⟨m, h, hfree, -⟩ := hs
    obtain ⟨o, m', ha⟩ := h.answers_of_step hrt
    have hfree' := stable_freeRows.dispatch hfree ha.run
    have hlong := ha.serves.not_shortTexts (h.provides.fits_iff.not.mp hfits)
    exact hlong ((ha.tracks.provides.printable_iff hfree').mp hprint)
  have hstart : P (start queue) :=
    ⟨.init, tracks_start queue, freeRows_initFifo queue, by simp [ShortTexts, Service.init]⟩
  refine ⟨fun i => zero_mem_clearRow (queue.fifo i), ?_⟩
  exact throughout_iff_along step_deterministic hgood hbad hstart
    (Along.of_forall (fun _ _ => trivial) _ rs)

theorem rows_printable_throughout_iff_of_one_write :
    Printable (start (.zero : Fifo LENGTH)).server.queue ∧
      (Throughout Step (fun _ _ t => Printable t.server.queue) (start (.zero : Fifo LENGTH))
          [.write 1 1 ['h', 'i']] ↔
        Along Step FitsRow (start (.zero : Fifo LENGTH)) [.write 1 1 ['h', 'i']]) :=
  rows_printable_throughout_iff .zero _

/-- A message of `WIDTH` bytes without a NUL is written to the empty queue. -/
theorem full_row_not_printable :
    ∃ t : Session LENGTH,
      Runs Step (start .zero) [.write 1 1 (List.replicate WIDTH 'x')] t ∧
      ¬ Printable t.server.queue ∧ fifoPrint t.server.queue = none := by
  have h := tracks_start (.zero : Fifo LENGTH)
  obtain ⟨t, o, m', ha⟩ := h.answers (.write 1 1 (List.replicate WIDTH 'x'))
  have hfree := stable_freeRows.dispatch (freeRows_initFifo .zero) ha.run
  have hlong : ¬ Fits LENGTH .init (.write 1 1 (List.replicate WIDTH 'x')) := by
    intro hfits
    have hlt := hfits _ rfl rfl rfl rfl
    rw [length_payload_lt_iff] at hlt
    simp [ascii] at hlt
  have hprint : ¬ Printable t.server.queue := by
    rw [ha.tracks.provides.printable_iff hfree]
    exact ha.serves.not_shortTexts hlong
  refine ⟨t, .cons ha.step (.nil t), hprint, ?_⟩
  rw [← fifoPrint_isSome] at hprint
  simpa using hprint

end RealTime.ResourceManager
