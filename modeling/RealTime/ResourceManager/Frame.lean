import RealTime.ResourceManager.Calls

/-! # What the FIFO handlers leave alone

The FIFO handlers change the queue by its own calls only, and of the rest of the server
nothing but the buffer, the offsets and the context. A property that survives both is kept
by a request. -/

namespace RealTime.ResourceManager

open Exec

variable {L : ℕ}

/-- One call on a queue, or a change of its mutex. -/
inductive QueueCall [NeZero L] (q : Fifo L) : Fifo L → Prop where
  | mutex (locked : Bool) : QueueCall q { q with resourceMutex := locked }
  | addString (array : Buffer WIDTH) : QueueCall q (fifoAddString q array).2
  | remString (array : Buffer WIDTH) : QueueCall q (fifoRemString q array).2
  | addBlockedId (id : ℤ) : QueueCall q (fifoAddBlockedId q id).2
  | remBlockedId : QueueCall q (fifoRemBlockedId q).2

/-- The property does not depend on what the handlers change besides the queue, and
survives the calls on the queue. -/
structure Stable [NeZero L] (I : Server L → Prop) : Prop where
  rest : ∀ s s' : Server L, s'.queue = s.queue → s'.mutex = s.mutex → s'.count = s.count →
    I s → I s'
  queue : ∀ (s : Server L) q, QueueCall s.queue q → I s → I { s with queue := q }

theorem keeps_inBounds {α : Type} {I : Server L → Prop} (x : Option α) :
    Keeps I (inBounds x : HandlerM L α) := by
  cases x with
  | none => exact Keeps.throw _
  | some a => exact Keeps.pure a

variable [NeZero L]

namespace Stable

variable {I : Server L → Prop} (h : Stable I)

include h

theorem modify {g : Server L → Server L}
    (hg : ∀ s, (g s).queue = s.queue ∧ (g s).mutex = s.mutex ∧ (g s).count = s.count) :
    Keeps I (modify g : HandlerM L Unit) :=
  Keeps.modify fun s hs => h.rest s _ (hg s).1 (hg s).2.1 (hg s).2.2 hs

omit [NeZero L] h in
theorem strlenBuf : Keeps I (strlenBuf : HandlerM L ℕ) :=
  Keeps.get.bind fun _ => keeps_inBounds _

theorem setIov (n : ℕ) : Keeps I (setIov n : HandlerM L Unit) :=
  h.modify fun _ => ⟨rfl, rfl, rfl⟩

theorem setNbytes (n : ℕ) : Keeps I (setNbytes n : HandlerM L Unit) :=
  h.modify fun _ => ⟨rfl, rfl, rfl⟩

theorem setOffset (ocb : ℕ) (offset : ℤ) : Keeps I (setOffset ocb offset : HandlerM L Unit) :=
  h.modify fun _ => ⟨rfl, rfl, rfl⟩

theorem record (e : Event) : Keeps I (record e : HandlerM L Unit) :=
  h.modify fun _ => ⟨rfl, rfl, rfl⟩

theorem lockQueue : Keeps I (lockQueue : HandlerM L Unit) := by
  intro s a t hs hrun
  cases hlocked : s.queue.resourceMutex with
  | true =>
      simp [ResourceManager.lockQueue, hlocked] at hrun
      cases hrun
  | false =>
      rw [lockQueue_run hlocked] at hrun
      cases hrun
      exact h.queue s _ (.mutex true) hs

theorem unlockQueue : Keeps I (unlockQueue : HandlerM L Unit) := by
  intro s a t hs hrun
  cases hlocked : s.queue.resourceMutex with
  | true =>
      rw [unlockQueue_run hlocked] at hrun
      cases hrun
      exact h.queue s _ (.mutex false) hs
  | false =>
      simp [ResourceManager.unlockQueue, hlocked] at hrun
      cases hrun

theorem msgread (bytes : List UInt8) (size : ℕ) :
    Keeps I (msgread bytes size : HandlerM L Unit) :=
  Keeps.get.bind fun _ => (keeps_inBounds _).bind fun _ => h.modify fun _ => ⟨rfl, rfl, rfl⟩

theorem storeBuf (i : ℕ) (x : UInt8) : Keeps I (storeBuf i x : HandlerM L Unit) :=
  Keeps.get.bind fun _ => (keeps_inBounds _).bind fun _ => h.modify fun _ => ⟨rfl, rfl, rfl⟩

theorem msgReply (client : ℤ) (n : ℕ) : Keeps I (msgReply client n : HandlerM L Unit) :=
  Keeps.get.bind fun _ => h.record _

theorem addString : Keeps I (addString : HandlerM L Bool) := by
  intro s a t hs hrun
  rw [addString_run] at hrun
  cases hrun
  refine h.rest _ _ ?_ ?_ ?_ (h.queue s _ (.addString s.buf.front) hs) <;> rfl

theorem remString : Keeps I (remString : HandlerM L Unit) := by
  intro s a t hs hrun
  rw [remString_run] at hrun
  cases hrun
  refine h.rest _ _ ?_ ?_ ?_ (h.queue s _ (.remString s.buf.front) hs) <;> rfl

theorem addBlockedId (id : ℤ) : Keeps I (addBlockedId id : HandlerM L Bool) := by
  intro s a t hs hrun
  rw [addBlockedId_run] at hrun
  cases hrun
  refine h.rest _ _ ?_ ?_ ?_ (h.queue s _ (.addBlockedId id) hs) <;> rfl

theorem remBlockedId : Keeps I (remBlockedId : HandlerM L ℤ) := by
  intro s a t hs hrun
  rw [remBlockedId_run] at hrun
  cases hrun
  exact h.queue s _ .remBlockedId hs

theorem respondToBlockedClient (client : ℤ) :
    Keeps I (respondToBlockedClient client : HandlerM L Unit) := by
  unfold ResourceManager.respondToBlockedClient
  refine Keeps.ite (Keeps.pure _) ?_
  refine h.remString.bind fun _ => strlenBuf.bind fun _ => (h.setIov _).bind fun _ =>
    strlenBuf.bind fun _ => (h.setNbytes _).bind fun _ => ?_
  refine Keeps.bind ?_ fun _ => strlenBuf.bind fun _ => h.msgReply _ _
  exact h.modify fun _ => ⟨rfl, rfl, rfl⟩

theorem ioReadFifo (ocb : ℕ) (verify : ℤ) (nonblock : Bool) :
    Keeps I (ioReadFifo ocb verify nonblock : HandlerM L Return) := by
  unfold ResourceManager.ioReadFifo
  refine Keeps.get.bind fun _ => Keeps.ite ?_ ((h.setNbytes 0).bind fun _ => Keeps.pure _)
  refine Keeps.ite (Keeps.pure _) (h.lockQueue.bind fun _ => Keeps.get.bind fun _ => ?_)
  refine Keeps.ite (h.unlockQueue.bind fun _ => Keeps.ite ?_ ?_) ?_
  · exact (h.setNbytes 0).bind fun _ => Keeps.pure _
  · exact Keeps.get.bind fun _ => (h.addBlockedId _).bind fun _ => Keeps.pure _
  · exact h.remString.bind fun _ => strlenBuf.bind fun _ => (h.setIov _).bind fun _ =>
      strlenBuf.bind fun _ => (h.setNbytes _).bind fun _ => h.unlockQueue.bind fun _ =>
      (h.setOffset ocb 1).bind fun _ => Keeps.pure _

theorem ioWriteFifo (ocb : ℕ) (bytes : List UInt8) :
    Keeps I (ioWriteFifo ocb bytes : HandlerM L Return) := by
  unfold ResourceManager.ioWriteFifo
  refine Keeps.get.bind fun _ => Keeps.ite ?_ ((h.setNbytes 0).bind fun _ => Keeps.pure _)
  refine h.lockQueue.bind fun _ => (h.msgread _ _).bind fun _ => (h.storeBuf _ _).bind fun _ =>
    h.addString.bind fun _ => strlenBuf.bind fun _ => (h.setNbytes _).bind fun _ => ?_
  exact h.remBlockedId.bind fun _ => (h.respondToBlockedClient _).bind fun _ =>
    h.unlockQueue.bind fun _ => (h.setOffset ocb 1).bind fun _ => Keeps.pure _

/-- What survives the calls survives a request. -/
theorem dispatch {s t : Server L} {r : Request} {o : Outcome} (hs : I s)
    (hrun : (dispatch .fifo r).run s = .ok (o, t)) : I t := by
  have hhandle : Keeps I (IoFuncs.fifo.handle r.ocb r.msg : HandlerM L Return) := by
    cases hmsg : r.msg with
    | read verify nonblock => exact h.ioReadFifo r.ocb verify nonblock
    | write bytes => exact h.ioWriteFifo r.ocb bytes
  cases hret : (IoFuncs.fifo.handle r.ocb r.msg).run (s.received r) with
  | error e => cases (dispatch_run_error hret).symm.trans hrun
  | ok p =>
      cases (dispatch_run hret).symm.trans hrun
      have hreceived : I (s.received r) := h.rest s _ rfl rfl rfl hs
      exact hhandle _ _ _ hreceived hret

end Stable

end RealTime.ResourceManager
