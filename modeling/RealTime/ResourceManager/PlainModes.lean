import Mathlib.Data.Nat.Digits.Defs
import RealTime.ResourceManager.Sections

/-! # The string and counter modes

What the handlers of the two modes without a queue do to a request through an open file
that is not at its end. -/

namespace RealTime.ResourceManager

open Exec

variable {L : ℕ} {s : Server L} {ocb : ℕ} {bytes : List UInt8}

/-! ## The text of the counter -/

/-- What `sprintf` writes for the counter, without its NUL. -/
def countText (n : ℤ) : List UInt8 := ascii (decimal n ++ ['\n'])

/-- The values of an `int`. -/
def InInt (n : ℤ) : Prop := -2 ^ 31 ≤ n ∧ n < 2 ^ 31

instance (n : ℤ) : Decidable (InInt n) := inferInstanceAs (Decidable (_ ∧ _))

theorem inInt_toInt (n : Int32) : InInt n.toInt := ⟨n.le_toInt, n.toInt_lt⟩

theorem length_decimal_le {n : ℤ} (h : InInt n) : (decimal n).length ≤ 11 := by
  have hlower := h.1
  have hupper := h.2
  cases n with
  | ofNat k =>
      have hk : k < 10 ^ 10 := by
        simp only [Int.ofNat_eq_natCast] at hupper
        omega
      exact (Nat.toDigits_length 10 k 10 (by decide) hk).trans (by decide)
  | negSucc k =>
      have hk : k + 1 < 10 ^ 10 := by omega
      exact Nat.succ_le_succ (Nat.toDigits_length 10 (k + 1) 10 (by decide) hk)

theorem length_countText_lt {n : ℤ} (h : InInt n) : (countText n).length < BUFFER_MAX_SIZE := by
  have hle := length_decimal_le h
  have hmax : BUFFER_MAX_SIZE = 255 := rfl
  simp only [countText, ascii, List.length_map, List.length_append, List.length_singleton]
  omega

theorem ofNat_toNat_ne_zero {c : Char} (hc : c.isDigit) : UInt8.ofNat c.toNat ≠ 0 := by
  have hbounds : 48 ≤ c.toNat ∧ c.toNat ≤ 57 := by
    simp only [Char.isDigit, Bool.and_eq_true, decide_eq_true_eq, UInt32.le_iff_toNat_le] at hc
    exact hc
  intro hzero
  have hval : c.toNat % 256 = 0 := congrArg UInt8.toNat hzero
  omega

theorem zero_notMem_countText (n : ℤ) : 0 ∉ countText n := by
  intro hzero
  obtain ⟨c, hc, hbyte⟩ := List.mem_map.mp hzero
  rcases List.mem_append.mp hc with hc | hc
  · cases n with
    | ofNat k =>
        exact ofNat_toNat_ne_zero (Nat.isDigit_of_mem_toDigits (by decide) (by decide) hc) hbyte
    | negSucc k =>
        rcases List.mem_cons.mp hc with hc | hc
        · subst hc
          cases hbyte
        · exact ofNat_toNat_ne_zero (Nat.isDigit_of_mem_toDigits (by decide) (by decide) hc)
            hbyte
  · obtain rfl := List.mem_singleton.mp hc
    cases hbyte

/-! ## The handlers -/

/-- `io_write_str` and `io_write_count` up to the point where they differ. -/
def storeMessage (bytes : List UInt8) : HandlerM L Unit := do
  let size := writeSize bytes
  lockMutex
  msgread bytes size
  storeBuf size 0
  setNbytes (← strlenBuf)

theorem ioWriteStr_eq (ocb : ℕ) (bytes : List UInt8) :
    (ioWriteStr ocb bytes : HandlerM L Return) = do
      if (← get).offset ocb = 0 then
        storeMessage bytes
        lockMutex
        setOffset ocb 1
        return .nparts 0
      else
        setNbytes 0
        return .nparts 0 := by
  simp [ioWriteStr, storeMessage]

theorem ioWriteCount_eq (ocb : ℕ) (bytes : List UInt8) :
    (ioWriteCount ocb bytes : HandlerM L Return) = do
      if (← get).offset ocb = 0 then
        storeMessage bytes
        setOffset ocb 1
        modify fun s => { s with dir := newDir s.buf.bytes s.dir }
        unlockMutex
        return .nparts 0
      else
        setNbytes 0
        return .nparts 0 := by
  simp [ioWriteCount, storeMessage]

theorem storeMessage_run (hbuf : s.buf.Terminated) (hmutex : s.mutex = false)
    (bytes : List UInt8) :
    ∃ c : Buffer (BUFFER_MAX_SIZE + 1), c.Terminated ∧ (storeMessage bytes).run s = .ok ((),
      { s with
        buf := c
        mutex := true
        ctp := { s.ctp with nbytes := (payload bytes).length } }) := by
  obtain ⟨b, c, hcopy, hstore, hc, htext⟩ := exists_message hbuf bytes
  have hstrlen := hc.strlen
  rw [htext] at hstrlen
  refine ⟨c, hc, ?_⟩
  simp [storeMessage, lockMutex_run, hmutex, msgread_run, hcopy, storeBuf_run, hstore,
    strlenBuf_run, hstrlen, inBounds_run, setNbytes_run]

theorem sprintfBuf_run (hbuf : s.buf.Terminated) {n : ℤ} (hn : InInt n) :
    ∃ c : Buffer (BUFFER_MAX_SIZE + 1), c.Terminated ∧ cstr c.bytes = countText n ∧
      (sprintfBuf n).run s = .ok ((), { s with buf := c }) := by
  obtain ⟨c, hcopy, hc, htext⟩ := hbuf.copy_string (length_countText_lt hn)
  rw [cstr_eq_self (zero_notMem_countText n)] at htext
  refine ⟨c, hc, htext, ?_⟩
  have hcopy' : s.buf.copy (ascii (decimal n ++ ['\n']) ++ [0]) = some c := hcopy
  simp [sprintfBuf, hcopy', inBounds]
  rfl

/-- A handler has returned through an open file that is now at its end. -/
structure Done (s t : Server L) (ocb : ℕ) : Prop where
  terminated : t.buf.Terminated
  queue : t.queue = s.queue
  mutex : t.mutex = false
  count : t.count = s.count
  offset : t.offset = Function.update s.offset ocb 1
  events : t.events = s.events

/-- The context gives the client a text from the buffer. -/
structure Gives (t : Server L) (text : List UInt8) : Prop where
  nbytes : t.ctp.nbytes = text.length
  data : t.buf.bytes.take t.ctp.iov = text

theorem ioReadStr_run (hbuf : s.buf.Terminated) (hmutex : s.mutex = false)
    (hopen : s.offset ocb = 0) :
    ∃ t, (ioReadStr ocb).run s = .ok (.nparts 1, t) ∧ Done s t ocb ∧
      Gives t (cstr s.buf.bytes) := by
  have hstrlen := hbuf.strlen
  rw [hbuf.cstr_front] at hstrlen
  refine ⟨{ s with
      mutex := false
      offset := Function.update s.offset ocb 1
      ctp := { s.ctp with
        iov := (cstr s.buf.bytes).length, nbytes := (cstr s.buf.bytes).length } }, ?_,
    ⟨hbuf, rfl, rfl, rfl, rfl, rfl⟩, ⟨rfl, take_length_cstr s.buf.bytes⟩⟩
  simp [ioReadStr, hopen, lockMutex_run, hmutex, strlenBuf_run, hstrlen, inBounds_run,
    setIov_run, setNbytes_run, unlockMutex_run, setOffset_run]

theorem ioReadCount_run (hbuf : s.buf.Terminated) (hmutex : s.mutex = false)
    (hcount : InInt s.count) (hopen : s.offset ocb = 0) :
    ∃ t, (ioReadCount ocb).run s = .ok (.nparts 1, t) ∧ Done s t ocb ∧
      Gives t (countText s.count) := by
  have hlocked : ({ s with mutex := true } : Server L).buf.Terminated := hbuf
  obtain ⟨c, hc, htext, hprint⟩ := sprintfBuf_run hlocked hcount
  have hstrlen := hc.strlen
  rw [hc.cstr_front] at hstrlen
  refine ⟨{ s with
      buf := c
      mutex := false
      offset := Function.update s.offset ocb 1
      ctp := { s.ctp with
        iov := (cstr c.bytes).length, nbytes := (cstr c.bytes).length } }, ?_,
    ⟨hc, rfl, rfl, rfl, rfl, rfl⟩, ?_⟩
  · simp [ioReadCount, hopen, lockMutex_run, hmutex, hprint, strlenBuf_run, hstrlen,
      inBounds_run, setIov_run, setNbytes_run, unlockMutex_run, setOffset_run]
  · rw [← htext]
    exact ⟨rfl, take_length_cstr c.bytes⟩

theorem ioWriteCount_run (hbuf : s.buf.Terminated) (hmutex : s.mutex = false)
    (hopen : s.offset ocb = 0) (bytes : List UInt8) :
    ∃ t, (ioWriteCount ocb bytes).run s = .ok (.nparts 0, t) ∧ Done s t ocb ∧
      t.ctp.nbytes = (payload bytes).length := by
  obtain ⟨c, hc, hstore⟩ := storeMessage_run hbuf hmutex bytes
  refine ⟨{ s with
      buf := c
      dir := newDir c.bytes s.dir
      mutex := false
      offset := Function.update s.offset ocb 1
      ctp := { s.ctp with nbytes := (payload bytes).length } }, ?_,
    ⟨hc, rfl, rfl, rfl, rfl, rfl⟩, rfl⟩
  simp [ioWriteCount_eq, hopen, hstore, setOffset_run, unlockMutex_run]

/-- The second lock is of a mutex that is held. -/
theorem ioWriteStr_relock (hbuf : s.buf.Terminated) (hmutex : s.mutex = false)
    (hopen : s.offset ocb = 0) (bytes : List UInt8) :
    (ioWriteStr ocb bytes).run s = .error .relock := by
  obtain ⟨c, -, hstore⟩ := storeMessage_run hbuf hmutex bytes
  rw [ioWriteStr_eq, run_bind (get_run s), if_pos hopen, run_bind hstore,
    run_bind_error (lockMutex_relock rfl)]

end RealTime.ResourceManager
