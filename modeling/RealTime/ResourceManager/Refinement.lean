import RealTime.ResourceManager.Sections

/-! # The FIFO handlers refine the service

Every request is handled without a fault, in one of the ways the service allows. -/

namespace RealTime.ResourceManager

open Exec RingQueue Service

variable {L : ℕ} {s s' : Server L} {m m' : Service} {r : Request} {o : Outcome}

/-- The handlers do with a request what the service may do with it. -/
def Handled [NeZero L] (s : Server L) (m : Service) (r : Request) : Prop :=
  ∃ o s' m', (dispatch .fifo r).run s = .ok (o, s') ∧ Serves L m r o m' ∧ Provides s' m'

theorem Provides.received (h : Provides s m) (r : Request) : Provides (s.received r) m :=
  h.of_eq rfl rfl rfl

variable [NeZero L]

theorem provides_boot (queue : Fifo L) : Provides (boot queue) .init where
  terminated := by
    have hlength : helloWorld.length = 12 := rfl
    rw [Buffer.Terminated, boot, List.drop_append, List.drop_eq_nil_of_le (by
      rw [hlength]; decide), hlength, List.drop_replicate]
    rfl
  unlocked := rfl
  queued := ⟨[], queued_initFifo queue, rfl⟩
  waiting_pos := by simp [Service.init]
  atEnd := by simp [Service.init, boot]

theorem Handled.intro (hserves : Serves L m r o m')
    (hrun : (IoFuncs.fifo.handle r.ocb r.msg).run (s.received r) = .ok (o.ret, s'))
    (hnbytes : s'.ctp.nbytes = o.nbytes)
    (hdata : (if o.ret = .nparts 1 then s'.buf.bytes.take s'.ctp.iov else []) = o.data)
    (hevents : s'.events = o.events) (hs : Provides s' m') : Handled s m r :=
  ⟨o, s', m', dispatch_outcome hrun hnbytes hdata hevents, hserves, hs⟩

theorem handled_atEnd (h : Provides s m) (hend : s.offset r.ocb ≠ 0) : Handled s m r := by
  have hend' : m.atEnd r.ocb = true := (h.atEnd r.ocb).mpr hend
  exact Handled.intro (.atEnd hend') (handle_atEnd .fifo hend) rfl rfl rfl (h.received r)

/-! ## Reads -/

variable {verify : ℤ} {nonblock : Bool}

theorem handled_refused (h : Provides s m) (hopen : s.offset r.ocb = 0)
    (hmsg : r.msg = .read verify nonblock) (hverify : verify ≠ EOK) : Handled s m r := by
  have hrun : (IoFuncs.fifo.handle r.ocb r.msg).run (s.received r) =
      .ok (.status verify, s.received r) := by
    simp [IoFuncs.handle, hmsg, ioReadFifo_eq, Server.received, hopen, hverify]
    rfl
  exact Handled.intro (.refused (h.atEnd_iff.mpr hopen) hmsg hverify) hrun rfl rfl rfl
    (h.received r)

/-- A read for which there is a text. -/
theorem handled_text (h : Provides s m) (hopen : s.offset r.ocb = 0)
    (hmsg : r.msg = .read EOK nonblock) {text : List UInt8} {rest : List (List UInt8)}
    (hm : m.messages = text :: rest) : Handled s m r := by
  obtain ⟨s', hsection, hs', hsame, hiov, hnbytes, htake, hevents⟩ :=
    readSection_text (h.received r) hm
  have hrun : (IoFuncs.fifo.handle r.ocb r.msg).run (s.received r) =
      .ok (.nparts 1, { s' with offset := Function.update s'.offset r.ocb 1 }) := by
    have hopen' : (s.received r).offset r.ocb = 0 := hopen
    simp [IoFuncs.handle, hmsg, ioReadFifo_eq, hopen', hsection, setOffset_run]
  refine Handled.intro (.text (h.atEnd_iff.mpr hopen) hmsg hm) hrun hnbytes ?_ hevents
    (hs'.closed r.ocb)
  rw [if_pos rfl, hiov, htake]

/-- A read that finds the queue empty. -/
theorem handled_empty (h : Provides s m) (hopen : s.offset r.ocb = 0)
    (hmsg : r.msg = .read EOK nonblock) (hm : m.messages = []) : Handled s m r := by
  have hsection := readSection_empty (h.received r) hm
  have hopen' := h.atEnd_iff.mpr hopen
  have hopen'' : (s.received r).offset r.ocb = 0 := hopen
  have hclient : (s.received r).ctp.rcvid = r.rcvid := rfl
  cases nonblock with
  | true =>
      have hrun : (IoFuncs.fifo.handle r.ocb r.msg).run (s.received r) =
          .ok (.nparts 0, s.received r) := by
        simp [IoFuncs.handle, hmsg, ioReadFifo_eq, hopen'', hsection, setNbytes_run]
        rfl
      exact Handled.intro (.nothing hopen' hmsg hm) hrun rfl rfl rfl (h.received r)
  | false =>
      by_cases hroom : m.waiting.length < L
      · obtain ⟨s', hadd, hs', -, hctp, hevents⟩ :=
          addBlockedId_recorded (h.received r) r.rcvid_pos hroom
        have hrun : (IoFuncs.fifo.handle r.ocb r.msg).run (s.received r) =
            .ok (.noreply, s') := by
          simp [IoFuncs.handle, hmsg, ioReadFifo_eq, hopen'', hsection, hclient, hadd]
        exact Handled.intro (.parked hopen' hmsg hm hroom) hrun (by rw [hctp]; rfl) rfl hevents
          hs'
      · have hadd := addBlockedId_forgotten (h.received r) r.rcvid hroom
        have hrun : (IoFuncs.fifo.handle r.ocb r.msg).run (s.received r) =
            .ok (.noreply, { s.received r with events := [.addBlockedId r.rcvid false] }) := by
          simp [IoFuncs.handle, hmsg, ioReadFifo_eq, hopen'', hsection, hclient, hadd]
          rfl
        exact Handled.intro (.forgotten hopen' hmsg hm hroom) hrun rfl rfl rfl
          ((h.received r).of_eq rfl rfl rfl)

theorem handled_read (h : Provides s m) (hmsg : r.msg = .read verify nonblock) :
    Handled s m r := by
  by_cases hopen : s.offset r.ocb = 0
  · by_cases hverify : verify = EOK
    · subst hverify
      cases hm : m.messages with
      | nil => exact handled_empty h hopen hmsg hm
      | cons text rest => exact handled_text h hopen hmsg hm
    · exact handled_refused h hopen hmsg hverify
  · exact handled_atEnd h hopen

/-! ## Writes -/

theorem handled_write (h : Provides s m) {bytes : List UInt8} (hmsg : r.msg = .write bytes) :
    Handled s m r := by
  by_cases hopen : s.offset r.ocb = 0
  · have hopen' := h.atEnd_iff.mpr hopen
    have hopen'' : (s.received r).offset r.ocb = 0 := hopen
    cases hw : m.waiting with
    | nil =>
        obtain ⟨s', hsection, hs', -, hnbytes, hevents⟩ :=
          writeSection_stored (h.received r) bytes hw
        have hrun : (IoFuncs.fifo.handle r.ocb r.msg).run (s.received r) =
            .ok (.nparts 0, { s' with offset := Function.update s'.offset r.ocb 1 }) := by
          simp [IoFuncs.handle, hmsg, ioWriteFifo_eq, hopen'', hsection, setOffset_run]
        exact Handled.intro (.stored hopen' hmsg hw) hrun hnbytes rfl hevents (hs'.closed r.ocb)
    | cons id later =>
        obtain ⟨text, rest, hoffer⟩ := exists_offer L m (payload bytes)
        obtain ⟨s', hsection, hs', -, hnbytes, hevents⟩ :=
          writeSection_passed (h.received r) bytes hw hoffer
        have hrun : (IoFuncs.fifo.handle r.ocb r.msg).run (s.received r) =
            .ok (.nparts 0, { s' with offset := Function.update s'.offset r.ocb 1 }) := by
          simp [IoFuncs.handle, hmsg, ioWriteFifo_eq, hopen'', hsection, setOffset_run]
        exact Handled.intro (.passed hopen' hmsg hw hoffer) hrun hnbytes rfl hevents
          (hs'.closed r.ocb)
  · exact handled_atEnd h hopen

/-- The handlers refine the service, request by request. -/
theorem handled (h : Provides s m) (r : Request) : Handled s m r := by
  cases hmsg : r.msg with
  | read verify nonblock => exact handled_read h hmsg
  | write bytes => exact handled_write h hmsg

end RealTime.ResourceManager
