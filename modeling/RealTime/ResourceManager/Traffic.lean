import RealTime.Library.Transition
import RealTime.ResourceManager.Frame
import RealTime.ResourceManager.PlainModes
import RealTime.ResourceManager.Refinement

/-! # Requests to all modes

Runs in which requests to the handlers of all three modes are mixed, with any values that
the worker thread leaves in `count` and any offsets of the open files in between. -/

namespace RealTime.ResourceManager

open Exec Service Transition

variable {L : ℕ}

/-- What reaches the server between two waits of the dispatch loop. -/
inductive Input where
  | count (n : Int32)
  | seek (ocb : ℕ) (offset : ℤ)
  | request (io : IoFuncs) (r : Request)

/-- The server when it waits again; there is none if a handler never returns. -/
def serve [NeZero L] (s : Server L) : Input → Option (Server L)
  | .count n => some { s with count := n.toInt }
  | .seek ocb offset => some { s with offset := Function.update s.offset ocb offset }
  | .request io r =>
    match (dispatch io r).run s with
    | .ok (_, t) => some t
    | .error _ => none

/-- The mutex of the string and counter modes is not held, or its lock is not waited for. -/
def Server.released (s : Server L) : Server L := { s with mutex := false }

/-- The steps of the server, whether the lock of a mutex that is already held waits forever
or returns with an error, which no handler looks at. -/
inductive Passes [NeZero L] (s : Server L) : Input → Server L → Prop where
  | served {i t} (h : serve s.released i = some t) : Passes s i t
  | relocked {r bytes u} (hmsg : r.msg = .write bytes) (hopen : s.offset r.ocb = 0)
      (h : (storeMessage bytes).run (s.released.received r) = .ok ((), u)) :
      Passes s (.request .str r) { u with offset := Function.update u.offset r.ocb 1 }

/-- A write through an open file in the string mode. -/
def Relocks (s : Server L) (i : Input) : Prop :=
  ∃ r bytes, i = .request .str r ∧ r.msg = .write bytes ∧ s.offset r.ocb = 0

/-! ## One request -/

/-- The state of the server between requests. -/
structure Ready (s : Server L) (m : Service) : Prop extends Provides s m where
  mutex : s.mutex = false
  count : InInt s.count

variable {s t u : Server L} {m : Service} {r : Request} {ocb : ℕ} {i : Input}
  {bytes : List UInt8}

theorem Ready.received (h : Ready s m) (r : Request) : Ready (s.received r) m :=
  ⟨h.toProvides.received r, h.mutex, h.count⟩

theorem Ready.released (h : Ready s m) : Ready s.released m :=
  ⟨h.toProvides.of_eq rfl rfl rfl, rfl, h.count⟩

theorem Done.ready (hd : Done s t ocb) (h : Ready s m) : Ready t (m.close ocb) where
  terminated := hd.terminated
  unlocked := hd.queue ▸ h.unlocked
  queued := hd.queue ▸ h.queued
  waiting_pos := h.waiting_pos
  atEnd ocb' := by rw [hd.offset, h.close ocb ocb']
  mutex := hd.mutex
  count := hd.count ▸ h.count

/-- The text of a read in the string and counter modes. -/
def plainText (s : Server L) : IoFuncs → List UInt8
  | .str => cstr s.buf.bytes
  | .count => countText s.count
  | .fifo => []

variable [NeZero L]

theorem ready_boot (queue : Fifo L) : Ready (boot queue) .init :=
  ⟨provides_boot queue, rfl, show InInt 0 by decide⟩

theorem dispatch_atEnd (io : IoFuncs) (hend : s.offset r.ocb ≠ 0) :
    (dispatch io r).run s = .ok (⟨.nparts 0, 0, [], []⟩, s.received r) :=
  dispatch_run (handle_atEnd io hend)

theorem dispatch_readPlain (h : Ready s m) (hopen : s.offset r.ocb = 0) {verify : ℤ}
    {nonblock : Bool} (hmsg : r.msg = .read verify nonblock) {io : IoFuncs} (hio : io ≠ .fifo) :
    ∃ t, (dispatch io r).run s =
        .ok (⟨.nparts 1, (plainText s io).length, plainText s io, []⟩, t) ∧
      Ready t (m.close r.ocb) := by
  have hr := h.received r
  have hhandle : ∃ t, (io.handle r.ocb r.msg).run (s.received r) = .ok (.nparts 1, t) ∧
      Done (s.received r) t r.ocb ∧ Gives t (plainText s io) := by
    rw [hmsg]
    cases io with
    | str => exact ioReadStr_run hr.terminated hr.mutex hopen
    | count => exact ioReadCount_run hr.terminated hr.mutex hr.count hopen
    | fifo => exact absurd rfl hio
  obtain ⟨t, hrun, hdone, hgives⟩ := hhandle
  refine ⟨t, dispatch_outcome hrun hgives.nbytes ?_ hdone.events, hdone.ready hr⟩
  rw [if_pos rfl, hgives.data]

theorem dispatch_writeCount (h : Ready s m) (hopen : s.offset r.ocb = 0)
    (hmsg : r.msg = .write bytes) :
    ∃ t, (dispatch .count r).run s = .ok (⟨.nparts 0, (payload bytes).length, [], []⟩, t) ∧
      Ready t (m.close r.ocb) := by
  have hr := h.received r
  obtain ⟨t, hrun, hdone, hnbytes⟩ := ioWriteCount_run hr.terminated hr.mutex hopen bytes
  exact ⟨t, dispatch_outcome (by rw [hmsg]; exact hrun) hnbytes rfl hdone.events, hdone.ready hr⟩

/-- The handler never returns: it waits for a mutex that it holds itself. -/
theorem dispatch_writeStr (h : Ready s m) (hopen : s.offset r.ocb = 0)
    (hmsg : r.msg = .write bytes) : (dispatch .str r).run s = .error .relock := by
  have hr := h.received r
  refine dispatch_run_error ?_
  rw [hmsg]
  exact ioWriteStr_relock hr.terminated hr.mutex hopen bytes

theorem stable_mutex_count (n : ℤ) :
    Stable fun s : Server L => s.mutex = false ∧ s.count = n where
  rest _ _ _ hmutex hcount h := ⟨hmutex.trans h.1, hcount.trans h.2⟩
  queue _ _ _ h := h

theorem dispatch_fifo (h : Ready s m) (r : Request) :
    ∃ o t m', (dispatch .fifo r).run s = .ok (o, t) ∧ Serves L m r o m' ∧ Ready t m' := by
  obtain ⟨o, t, m', hrun, hserves, hprovides⟩ := handled h.toProvides r
  obtain ⟨hmutex, hcount⟩ := (stable_mutex_count s.count).dispatch ⟨h.mutex, rfl⟩ hrun
  exact ⟨o, t, m', hrun, hserves, hprovides, hmutex, hcount ▸ h.count⟩

/-- Every request but the one kind is handled, and leaves the server ready. -/
theorem Ready.answered (h : Ready s m) {io : IoFuncs} (hi : ¬ Relocks s (.request io r)) :
    ∃ o t m', (dispatch io r).run s = .ok (o, t) ∧ Ready t m' := by
  by_cases hopen : s.offset r.ocb = 0
  · cases hmsg : r.msg with
    | read verify nonblock =>
        by_cases hio : io = .fifo
        · subst hio
          obtain ⟨o, t, m', hrun, -, ht⟩ := dispatch_fifo h r
          exact ⟨o, t, m', hrun, ht⟩
        · obtain ⟨t, hrun, ht⟩ := dispatch_readPlain h hopen hmsg hio
          exact ⟨_, t, _, hrun, ht⟩
    | write bytes =>
        cases io with
        | str => exact absurd ⟨r, bytes, rfl, hmsg, hopen⟩ hi
        | count =>
            obtain ⟨t, hrun, ht⟩ := dispatch_writeCount h hopen hmsg
            exact ⟨_, t, _, hrun, ht⟩
        | fifo =>
            obtain ⟨o, t, m', hrun, -, ht⟩ := dispatch_fifo h r
            exact ⟨o, t, m', hrun, ht⟩
  · exact ⟨_, _, m, dispatch_atEnd io hopen, h.received r⟩

theorem Ready.serves (h : Ready s m) (hi : ¬ Relocks s i) :
    ∃ t m', serve s i = some t ∧ Ready t m' := by
  cases i with
  | count n =>
      exact ⟨_, m, rfl, h.toProvides.of_eq rfl rfl rfl, h.mutex, inInt_toInt n⟩
  | seek ocb offset =>
      refine ⟨_, { m with atEnd := Function.update m.atEnd ocb (offset ≠ 0) }, rfl,
        ⟨h.terminated, h.unlocked, h.queued, h.waiting_pos, ?_⟩, h.mutex, h.count⟩
      intro ocb'
      by_cases heq : ocb' = ocb
      · simp [heq]
      · simpa [heq] using h.atEnd ocb'
  | request io r =>
      obtain ⟨o, t, m', hrun, ht⟩ := h.answered hi
      exact ⟨t, m', by rw [serve, hrun], ht⟩

theorem Ready.not_served (h : Ready s m) (hi : Relocks s i) : serve s i = none := by
  obtain ⟨r, bytes, rfl, hmsg, hopen⟩ := hi
  rw [serve, dispatch_writeStr h hopen hmsg]

end RealTime.ResourceManager
