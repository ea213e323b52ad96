import RealTime.ResourceManager.Delivery
import RealTime.ResourceManager.Traffic

/-! # The shared buffer

The last byte of `buf` is NUL when the server starts. The handlers write it only with a NUL,
so that every string in the buffer ends there at the latest. -/

namespace RealTime.ResourceManager

open Exec Transition

variable {L : ℕ} {s t : Server L} {m : Service} {i : Input}

theorem strlenBuf_le {n : ℕ} (h : strlenBuf.run s = .ok (n, t)) : n ≤ BUFFER_MAX_SIZE := by
  rw [strlenBuf_run] at h
  cases hlen : s.buf.strlen with
  | none =>
      rw [hlen] at h
      cases h
  | some k =>
      rw [hlen] at h
      cases h
      exact Buffer.strlen_le hlen

variable [NeZero L]

/-- Whether locks wait or not, a step leaves the server ready for the next request. -/
theorem Ready.passes (h : Ready s.released m) (hp : Passes s i t) :
    ∃ m', Ready t.released m' := by
  cases hp with
  | served hserve =>
      by_cases hi : Relocks s.released i
      · cases (h.not_served hi).symm.trans hserve
      · obtain ⟨u, m', hserve', hu⟩ := h.serves hi
        cases hserve'.symm.trans hserve
        exact ⟨m', hu.released⟩
  | @relocked r bytes u hmsg hopen hstore =>
      have hr := h.received r
      obtain ⟨c, hc, hrun⟩ := storeMessage_run hr.terminated hr.mutex bytes
      cases hrun.symm.trans hstore
      have hdone : Done (s.released.received r) (Server.released
          { s.released.received r with
            buf := c
            offset := Function.update s.offset r.ocb 1
            ctp := { (s.released.received r).ctp with nbytes := (payload bytes).length } })
          r.ocb := ⟨hc, rfl, rfl, rfl, rfl, rfl⟩
      exact ⟨m.close r.ocb, hdone.ready hr⟩

theorem Ready.runs {is : List Input} (h : Ready s.released m) (hruns : Runs Passes s is t) :
    ∃ m', Ready t.released m' :=
  hruns.invariant (P := fun s => ∃ m, Ready s.released m)
    (fun _ _ _ hs hp => hs.elim fun _ hm => hm.passes hp) ⟨m, h⟩

/-- Requests to the handlers of all modes leave a NUL in the last byte of the buffer. In every
state they reach `strlen` finds one, and no request reads or writes outside the buffer, so that no
`strlen` that a handler evaluates fails or exceeds `BUFFER_MAX_SIZE`. -/
theorem buffer_stays_terminated (queue : Fifo L) {is : List Input} {t : Server L}
    (h : Runs Passes (boot queue) is t) :
    t.buf.bytes[BUFFER_MAX_SIZE]? = some 0 ∧
      (∃ n ≤ BUFFER_MAX_SIZE, strlenBuf.run t.released = .ok (n, t.released)) ∧
      (∀ io r, (dispatch io r).run t.released ≠ .error .outOfBounds) ∧
      ∀ (u u' : Server L) n, strlenBuf.run u = .ok (n, u') → n ≤ BUFFER_MAX_SIZE := by
  obtain ⟨m, ht⟩ := (ready_boot queue).released.runs h
  obtain ⟨n, hstrlen⟩ : ∃ n, strlenBuf.run t.released = .ok (n, t.released) := by
    rw [strlenBuf_run, ht.terminated.strlen]
    exact ⟨_, inBounds_run _⟩
  refine ⟨ht.terminated.last, ⟨n, strlenBuf_le hstrlen, hstrlen⟩, ?_,
    fun u u' n hlen => strlenBuf_le hlen⟩
  intro io r herror
  by_cases hi : Relocks t.released (.request io r)
  · obtain ⟨r', bytes, heq, hmsg, hopen⟩ := hi
    cases heq
    cases (dispatch_writeStr ht hopen hmsg).symm.trans herror
  · obtain ⟨o, u, m', hrun, -⟩ := ht.answered hi
    cases hrun.symm.trans herror

/-- A write in the string mode on a system where its second lock returns an error, and a
read of what it has written. -/
theorem buffer_stays_terminated_of_write_and_read :
    ∃ t : Server LENGTH, Runs Passes (boot .zero)
        [.request .str (.write 1 1 ['h', 'i']), .request .str (.read 2 2)] t ∧
      t.buf.bytes[BUFFER_MAX_SIZE]? = some 0 ∧
      (∃ n ≤ BUFFER_MAX_SIZE, strlenBuf.run t.released = .ok (n, t.released)) ∧
      (∀ io r, (dispatch io r).run t.released ≠ .error .outOfBounds) ∧
      ∀ (u u' : Server LENGTH) n, strlenBuf.run u = .ok (n, u') → n ≤ BUFFER_MAX_SIZE := by
  have h := ((ready_boot (.zero : Fifo LENGTH)).released).received (.write 1 1 ['h', 'i'])
  obtain ⟨c, hc, hstore⟩ := storeMessage_run h.terminated h.mutex (ascii ['h', 'i'])
  have hwrite := Passes.relocked (s := boot (.zero : Fifo LENGTH))
    (r := .write 1 1 ['h', 'i']) rfl rfl hstore
  obtain ⟨m, hm⟩ := (ready_boot (.zero : Fifo LENGTH)).released.passes hwrite
  have hread : ∀ s : Server LENGTH, ¬ Relocks s (.request .str (.read 2 2)) := by
    intro s hi
    obtain ⟨r, bytes, heq, hmsg, -⟩ := hi
    cases heq
    cases hmsg
  obtain ⟨t, m', hserve, -⟩ := hm.serves (hread _)
  have hruns := Runs.cons hwrite (.cons (.served hserve) (.nil t))
  exact ⟨t, hruns, buffer_stays_terminated .zero hruns⟩

end RealTime.ResourceManager
