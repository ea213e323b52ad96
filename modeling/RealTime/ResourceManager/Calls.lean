import RealTime.Library.Exec
import RealTime.ResourceManager.Handlers

/-! # What the calls of the handlers do

One lemma for each call that the handlers make, giving its result and the state it returns
in, and one for the dispatch of a request to its handler. The handlers are evaluated with
these lemmas. -/

namespace RealTime.ResourceManager

open Exec

variable {L : ℕ} {s : Server L} {n i size : ℕ} {x : UInt8} {bytes : List UInt8}

theorem inBounds_run {α : Type} (a : α) : (inBounds (some a)).run s = .ok (a, s) := rfl

theorem lockMutex_run (h : s.mutex = false) :
    lockMutex.run s = .ok ((), { s with mutex := true }) := by
  simp [lockMutex, h]
  rfl

theorem lockMutex_relock (h : s.mutex = true) : lockMutex.run s = .error .relock := by
  simp [lockMutex, h]
  rfl

theorem unlockMutex_run (h : s.mutex = true) :
    unlockMutex.run s = .ok ((), { s with mutex := false }) := by
  simp [unlockMutex, h]
  rfl

theorem lockQueue_run (h : s.queue.resourceMutex = false) :
    lockQueue.run s = .ok ((), { s with queue := { s.queue with resourceMutex := true } }) := by
  simp [lockQueue, h]
  rfl

theorem unlockQueue_run (h : s.queue.resourceMutex = true) :
    unlockQueue.run s = .ok ((), { s with queue := { s.queue with resourceMutex := false } }) := by
  simp [unlockQueue, h]
  rfl

theorem strlenBuf_run : strlenBuf.run s = (inBounds s.buf.strlen).run s := by
  simp [strlenBuf]

theorem setIov_run :
    (setIov n).run s = .ok ((), { s with ctp := { s.ctp with iov := n } }) := rfl

theorem setNbytes_run :
    (setNbytes n).run s = .ok ((), { s with ctp := { s.ctp with nbytes := n } }) := rfl

theorem setOffset_run {ocb : ℕ} {offset : ℤ} : (setOffset ocb offset).run s =
    .ok ((), { s with offset := Function.update s.offset ocb offset }) := rfl

theorem msgReply_run {client : ℤ} : (msgReply client n).run s =
    .ok ((), { s with events := s.events ++ [.msgReply client (s.buf.bytes.take n)] }) := rfl

theorem msgread_run {b : Buffer (BUFFER_MAX_SIZE + 1)}
    (h : s.buf.copy (bytes.take size) = some b) :
    (msgread bytes size).run s = .ok ((), { s with buf := b }) := by
  simp [msgread, h, inBounds]
  rfl

theorem storeBuf_run {b : Buffer (BUFFER_MAX_SIZE + 1)} (h : s.buf.store i x = some b) :
    (storeBuf i x).run s = .ok ((), { s with buf := b }) := by
  simp [storeBuf, h, inBounds]
  rfl

/-- The server when a handler starts on a request. -/
def Server.received (s : Server L) (r : Request) : Server L :=
  { s with ctp := { rcvid := r.rcvid, iov := 0, nbytes := 0, offset := 0 }, events := [] }

theorem received_run (s : Server L) (r : Request) :
    (modify fun s => s.received r : HandlerM L Unit).run s = .ok ((), s.received r) := rfl

variable [NeZero L]

theorem addString_run : addString.run s =
    .ok ((fifoAddString s.queue s.buf.front).1, { s with
      queue := (fifoAddString s.queue s.buf.front).2
      events := s.events ++ [.addString (fifoAddString s.queue s.buf.front).1] }) := rfl

theorem remString_run : remString.run s =
    .ok ((), { s with
      buf := s.buf.setFront (fifoRemString s.queue s.buf.front).1
      queue := (fifoRemString s.queue s.buf.front).2 }) := rfl

theorem addBlockedId_run {id : ℤ} : (addBlockedId id).run s =
    .ok ((fifoAddBlockedId s.queue id).1, { s with
      queue := (fifoAddBlockedId s.queue id).2
      events := s.events ++ [.addBlockedId id (fifoAddBlockedId s.queue id).1] }) := rfl

theorem remBlockedId_run : remBlockedId.run s =
    .ok ((fifoRemBlockedId s.queue).1, { s with queue := (fifoRemBlockedId s.queue).2 }) := rfl

/-! ## Dispatch -/

variable {io : IoFuncs} {r : Request} {ret : Return} {s' : Server L}

theorem dispatch_run (h : (io.handle r.ocb r.msg).run (s.received r) = .ok (ret, s')) :
    (dispatch io r).run s = .ok
      ({ ret := ret
         nbytes := s'.ctp.nbytes
         data := if ret = .nparts 1 then s'.buf.bytes.take s'.ctp.iov else []
         events := s'.events }, s') := by
  rw [dispatch]
  exact (run_bind (received_run s r)).trans (run_bind h)

/-- The outcome put together from the state in which the handler returns. -/
theorem dispatch_outcome {o : Outcome}
    (h : (io.handle r.ocb r.msg).run (s.received r) = .ok (o.ret, s'))
    (hnbytes : s'.ctp.nbytes = o.nbytes)
    (hdata : (if o.ret = .nparts 1 then s'.buf.bytes.take s'.ctp.iov else []) = o.data)
    (hevents : s'.events = o.events) : (dispatch io r).run s = .ok (o, s') := by
  rw [dispatch_run h, hnbytes, hdata, hevents]

theorem dispatch_run_error {e : Fault}
    (h : (io.handle r.ocb r.msg).run (s.received r) = .error e) :
    (dispatch io r).run s = .error e := by
  rw [dispatch]
  exact (run_bind (received_run s r)).trans (run_bind_error h)

/-- Every handler answers with zero bytes at the end of a file. -/
theorem handle_atEnd (io : IoFuncs) (hend : s.offset r.ocb ≠ 0) :
    (io.handle r.ocb r.msg).run (s.received r) = .ok (.nparts 0, s.received r) := by
  cases io <;> cases hmsg : r.msg <;>
    simp [IoFuncs.handle, ioReadStr, ioWriteStr, ioReadCount, ioWriteCount, ioReadFifo,
      ioWriteFifo, Server.received, hend, setNbytes_run]

end RealTime.ResourceManager
