import Mathlib.Data.List.Basic
import RealTime.Miniproject.Feedback

/-! # Every control step uses the measurement it asked for

At most one exchange is going on, and `PIController` waits for its end. This rests on the
receiver telling datagrams apart by their own bytes, while it looks at a buffer that may
still hold the end of an earlier datagram. -/

namespace RealTime.Miniproject

open Transition

variable {atof : List UInt8 → ℚ} {s t : State} {a : Action}

/-- The buffer after `d` has been received over the bytes of earlier datagrams. -/
def overlay (s : State) (d : Datagram) : List UInt8 :=
  d.bytes.take UDP_RECV_BUF_LEN ++ s.data.bytes.drop (d.bytes.take UDP_RECV_BUF_LEN).length

/-- The bytes left in the buffer do not matter: with them the datagram is a `GET_ACK` only
if it is one, and the text of a `GET_ACK` ends in the buffer and is its own. -/
def SpeaksForItself (s : State) (a : Action) : Prop :=
  match a with
  | .receive d =>
    if isGetAck d.bytes then
      0 ∈ (overlay s d).drop 8 ∧ ackText (overlay s d) = ackText d.bytes
    else isGetAck (overlay s d) = false
  | _ => True

instance (s : State) : (a : Action) → Decidable (SpeaksForItself s a)
  | .receive d => inferInstanceAs (Decidable (if isGetAck d.bytes = true then
      0 ∈ (overlay s d).drop 8 ∧ ackText (overlay s d) = ackText d.bytes
    else isGetAck (overlay s d) = false))
  | .pi _ | .receiver | .respond | .shutdown | .arrive _ | .answer _ _ | .other _ | .lose _ =>
    isTrue trivial

/-- A `GET_ACK` is one over any leftover bytes. -/
theorem isGetAck_overlay {d : Datagram} (h : isGetAck d.bytes = true) :
    isGetAck (overlay s d) = true := by
  have hlength : 7 ≤ d.bytes.length := le_length_of_strncmpEq h (by decide)
  have htake : (overlay s d).take 7 = d.bytes.take 7 := by
    have hle : 7 ≤ (d.bytes.take UDP_RECV_BUF_LEN).length := by
      rw [List.length_take]
      exact Nat.le_min.mpr ⟨by decide, hlength⟩
    rw [overlay, List.take_append_of_le_length hle, List.take_take]
    rfl
  rw [isGetAck, strncmpEq_congr getAck htake]
  exact h

/-! ## Steps as rules -/

def PiPc.idle (pc : PiPc) : Prop := pc ≠ .wait ∧ pc ≠ .control

/-- The receiver is not dealing with a datagram that may be a `GET_ACK`. -/
def RecvPc.idle : RecvPc → Prop
  | .check _ | .setY _ | .post _ => False
  | _ => True

/-- The steps, as far as they concern the exchange. -/
inductive Move (atof : List UInt8 → ℚ) (s : State) : Action → State → Prop where
  | go {again pc} (hfrom : s.pi.idle) (hto : pc.idle) : Move atof s (.pi again) { s with pi := pc }
  | get {again} (hpc : s.pi = .get) : Move atof s (.pi again) { s with
      pi := .wait, underway := s.underway ++ [.get s.gets], gets := s.gets + 1 }
  | wait {again} (hpc : s.pi = .wait) (hY : 0 < s.receiveY) :
      Move atof s (.pi again) { s with pi := .control, receiveY := s.receiveY - 1 }
  | control {again} (hpc : s.pi = .control) :
      Move atof s (.pi again) { s with pi := .set, used := s.used ++ [s.gY] }
  | listen {pc} (hfrom : s.receiver.idle) (hto : pc.idle) :
      Move atof s .receiver { s with receiver := pc }
  | ack {d} (hpc : s.receiver = .check d) (hack : isGetAck s.data.bytes = true) :
      Move atof s .receiver { s with receiver := .setY d }
  | noAck {d pc} (hpc : s.receiver = .check d) (hack : isGetAck s.data.bytes = false)
      (hto : pc.idle) : Move atof s .receiver { s with receiver := pc }
  | setY {d} (hpc : s.receiver = .setY d) : Move atof s .receiver { s with
      gY := measured atof s.data.bytes, receiver := .post d }
  | post {d} (hpc : s.receiver = .post d) : Move atof s .receiver { s with
      receiveY := s.receiveY + 1, receiver := .puts }
  | signal (hpc : s.receiver = .signal) : Move atof s .receiver { s with
      receiveSignal := s.receiveSignal + 1, receiver := .test }
  | receive {d data pc} (hpc : s.receiver = .recv) (hd : .datagram d ∈ s.underway)
      (hdata : data.bytes = overlay s d) (hto : pc = .check d ∨ pc = .test) :
      Move atof s (.receive d) { s with
        data := data, underway := s.underway.erase (.datagram d), receiver := pc }
  | respond : Move atof s .respond { s with receiveSignal := s.receiveSignal - 1 }
  | shutdown : Move atof s .shutdown { s with running := false }
  | arrive {k} (hk : .get k ∈ s.underway) : Move atof s (.arrive k) { s with
      underway := s.underway.erase (.get k) ++ [.asked k] }
  | answer {k bytes} (hk : .asked k ∈ s.underway) (hack : isGetAck bytes = true) :
      Move atof s (.answer k bytes) { s with
        underway := s.underway.erase (.asked k) ++ [.datagram ⟨bytes, some k⟩]
        acks := Function.update s.acks k (some bytes) }
  | other {bytes} (hack : isGetAck bytes = false) : Move atof s (.other bytes) { s with
      underway := s.underway ++ [.datagram ⟨bytes, none⟩] }
  | lose {i} (hi : i ∈ s.underway) : Move atof s (.lose i) { s with
      underway := s.underway.erase i }

theorem move_of_stepPi {again : Bool} (h : stepPi s again = some t) :
    Move atof s (.pi again) t := by
  have hgo : ∀ {pc}, s.pi.idle → pc.idle → some { s with pi := pc } = some t →
      Move atof s (.pi again) t := by
    rintro pc hfrom hto ⟨⟩
    exact .go hfrom hto
  unfold stepPi at h
  split at h
  next hpc => exact hgo (by simp [hpc, PiPc.idle]) (by simp [PiPc.idle]) h
  next hpc => exact hgo (by simp [hpc, PiPc.idle]) (by cases again <;> simp [PiPc.idle]) h
  next hpc =>
    cases h
    exact .get hpc
  next hpc =>
    split at h
    next hY =>
      cases h
      exact .wait hpc hY
    next => cases h
  next hpc =>
    cases h
    exact .control hpc
  next hpc => exact hgo (by simp [hpc, PiPc.idle]) (by simp [PiPc.idle]) h
  next hpc => exact hgo (by simp [hpc, PiPc.idle]) (by simp [PiPc.idle]) h
  next hpc => exact hgo (by simp [hpc, PiPc.idle]) (by simp [PiPc.idle]) h
  next => cases h

theorem move_of_stepReceiver (h : stepReceiver atof s = some t) : Move atof s .receiver t := by
  have hlisten : ∀ {pc}, s.receiver.idle → pc.idle → some { s with receiver := pc } = some t →
      Move atof s .receiver t := by
    rintro pc hfrom hto ⟨⟩
    exact .listen hfrom hto
  unfold stepReceiver at h
  split at h
  next hpc =>
    exact hlisten (by simp [hpc, RecvPc.idle]) (by cases s.running <;> simp [RecvPc.idle]) h
  next => cases h
  next d hpc =>
    cases hack : isGetAck s.data.bytes with
    | true =>
        obtain rfl : _ = t := by simpa [hack] using h
        exact .ack hpc hack
    | false =>
        obtain rfl : _ = t := by simpa [hack] using h
        exact .noAck hpc hack (by split <;> trivial)
  next d hpc =>
    cases h
    exact .setY hpc
  next d hpc =>
    cases h
    exact .post hpc
  next hpc => exact hlisten (by simp [hpc, RecvPc.idle]) (by simp [RecvPc.idle]) h
  next hpc =>
    cases h
    exact .signal hpc
  next => cases h

theorem move_of_receive {d : Datagram} (h : receive s d = some t) :
    Move atof s (.receive d) t := by
  have hle : (d.bytes.take UDP_RECV_BUF_LEN).length ≤ UDP_RECV_BUF_LEN := List.length_take_le _ _
  unfold receive at h
  split at h
  next hin =>
    simp only [Buffer.copy, hle, dite_true, Option.bind_eq_bind, Option.bind_some] at h
    cases h
    exact .receive hin.1 hin.2 rfl (by split <;> simp)
  next => cases h

theorem Step.move (h : Step atof s a t) : Move atof s a t := by
  have hif : ∀ {p : Prop} [Decidable p] {u : State}, (if p then some u else none) = some t →
      p ∧ u = t := by
    intro p _ u hu
    by_cases hp : p
    · exact ⟨hp, by simpa [hp] using hu⟩
    · simp [hp] at hu
  cases a with
  | pi again => exact move_of_stepPi h
  | receiver => exact move_of_stepReceiver h
  | receive d => exact move_of_receive h
  | respond =>
      obtain ⟨-, rfl⟩ := hif h
      exact .respond
  | shutdown =>
      obtain ⟨-, rfl⟩ := hif h
      exact .shutdown
  | arrive k =>
      obtain ⟨hk, rfl⟩ := hif h
      exact .arrive hk
  | answer k bytes =>
      obtain ⟨⟨hk, hack⟩, rfl⟩ := hif h
      exact .answer hk hack
  | other bytes =>
      obtain ⟨hack, rfl⟩ := hif h
      exact .other hack
  | lose i =>
      obtain ⟨hi, rfl⟩ := hif h
      exact .lose hi

/-! ## The invariant -/

/-- A `GET_ACK` answers the last `GET`, and other datagrams are no `GET_ACK`s. -/
def Genuine (gets : ℕ) (acks : ℕ → Option (List UInt8)) (d : Datagram) : Prop :=
  match d.answers with
  | some k => k + 1 = gets ∧ acks k = some d.bytes ∧ isGetAck d.bytes = true
  | none => isGetAck d.bytes = false

def Item.Current (gets : ℕ) (acks : ℕ → Option (List UInt8)) : Item → Prop
  | .get k | .asked k => k + 1 = gets
  | .datagram d => Genuine gets acks d

/-- The last `GET` has been answered with the measurement `x`. -/
def Answered (atof : List UInt8 → ℚ) (gets : ℕ) (acks : ℕ → Option (List UInt8)) (x : ℚ) : Prop :=
  ∃ k bytes, k + 1 = gets ∧ acks k = some bytes ∧ x = measured atof bytes

/-- Each control step so far has used the measurement in the answer to its own `GET`. -/
def UsesOwnAnswers (atof : List UInt8 → ℚ) (s : State) : Prop :=
  ∀ k x, s.used[k]? = some x → ∃ bytes, s.acks k = some bytes ∧ x = measured atof bytes

def PiPc.awaiting (pc : PiPc) : ℕ := if pc = .wait ∨ pc = .control then 1 else 0

structure Invariant (atof : List UInt8 → ℚ) (s : State) : Prop where
  outstanding : s.outstanding ≤ if s.pi = .wait then 1 else 0
  items : ∀ i ∈ s.underway, i.Current s.gets s.acks
  checked : ∀ d, s.receiver = .check d → Genuine s.gets s.acks d ∧
    isGetAck s.data.bytes = isGetAck d.bytes ∧
    (isGetAck d.bytes = true → ackText s.data.bytes = ackText d.bytes)
  accepted : ∀ d, s.receiver = .setY d →
    Answered atof s.gets s.acks (measured atof s.data.bytes)
  posted : ∀ d, s.receiver = .post d → Answered atof s.gets s.acks s.gY
  fresh : s.pi = .control ∨ 0 < s.receiveY → Answered atof s.gets s.acks s.gY
  asked : s.used.length + s.pi.awaiting = s.gets
  used : UsesOwnAnswers atof s

theorem invariant_init (data : Buffer UDP_RECV_BUF_LEN) : Invariant atof (init data) where
  outstanding := by simp [init, State.outstanding, RecvPc.handling]
  items := by simp [init]
  checked := by simp [init]
  accepted := by simp [init]
  posted := by simp [init]
  fresh := by simp [init]
  asked := by simp [init, PiPc.awaiting]
  used := by simp [init, UsesOwnAnswers]

theorem countP_erase_add {i : Item} {is : List Item} (hi : i ∈ is) :
    (is.erase i).countP Item.exchange + (if i.exchange then 1 else 0) =
      is.countP Item.exchange := by
  rw [(List.perm_cons_erase hi).countP_eq, List.countP_cons]

theorem handling_of_idle {pc : RecvPc} (h : pc.idle) : pc.handling = 0 := by
  cases pc <;> first | rfl | exact h.elim

/-- What is not part of the exchange stays genuine whatever happens to the exchange. -/
theorem Genuine.of_other {gets gets' : ℕ} {acks acks' : ℕ → Option (List UInt8)} {d : Datagram}
    (h : Genuine gets acks d) (hd : d.answers.isSome = false) : Genuine gets' acks' d := by
  cases hans : d.answers with
  | none => simpa [Genuine, hans] using h
  | some k => simp [hans] at hd

theorem Item.Current.of_other {gets gets' : ℕ} {acks acks' : ℕ → Option (List UInt8)} {i : Item}
    (h : i.Current gets acks) (hi : i.exchange = false) : i.Current gets' acks' := by
  cases i with
  | get k => cases hi
  | asked k => cases hi
  | datagram d => exact Genuine.of_other h hi

theorem Genuine.isGetAck {gets : ℕ} {acks : ℕ → Option (List UInt8)} {d : Datagram}
    (h : Genuine gets acks d) : isGetAck d.bytes = d.answers.isSome := by
  cases hans : d.answers with
  | none => simpa [Genuine, hans] using h
  | some k =>
      obtain ⟨-, -, hack⟩ : k + 1 = gets ∧ acks k = some d.bytes ∧
        Miniproject.isGetAck d.bytes = true := by simpa [Genuine, hans] using h
      simpa using hack

theorem Genuine.answered {gets : ℕ} {acks : ℕ → Option (List UInt8)} {d : Datagram}
    (h : Genuine gets acks d) (hack : Miniproject.isGetAck d.bytes = true) :
    Answered atof gets acks (measured atof d.bytes) := by
  cases hans : d.answers with
  | none => simp [Genuine, hans, hack] at h
  | some k =>
      obtain ⟨hk, hbytes, -⟩ : k + 1 = gets ∧ acks k = some d.bytes ∧
        Miniproject.isGetAck d.bytes = true := by simpa [Genuine, hans] using h
      exact ⟨k, d.bytes, hk, hbytes, rfl⟩

namespace Invariant

theorem waits (h : Invariant atof s) (hpos : 0 < s.outstanding) :
    s.pi = .wait ∧ s.outstanding = 1 := by
  have hle := h.outstanding
  by_cases hpc : s.pi = .wait
  · rw [if_pos hpc] at hle
    exact ⟨hpc, by omega⟩
  · rw [if_neg hpc] at hle
    omega

theorem quiet (h : Invariant atof s) (hpc : s.pi ≠ .wait) : s.outstanding = 0 := by
  have hle := h.outstanding
  rw [if_neg hpc] at hle
  omega

/-! ### Steps of the controller -/

theorem go (h : Invariant atof s) {pc : PiPc} (hfrom : s.pi.idle) (hto : pc.idle) :
    Invariant atof { s with pi := pc } where
  outstanding := (h.quiet hfrom.1).trans_le (Nat.zero_le _)
  items := h.items
  checked := h.checked
  accepted := h.accepted
  posted := h.posted
  fresh hf := h.fresh (.inr (hf.resolve_left hto.2))
  asked := by
    have hasked := h.asked
    simpa [PiPc.awaiting, hfrom.1, hfrom.2, hto.1, hto.2] using hasked
  used := h.used

/-- With nothing outstanding, a `GET` opens the next exchange. -/
theorem get (h : Invariant atof s) (hpc : s.pi = .get) : Invariant atof { s with
    pi := .wait, underway := s.underway ++ [.get s.gets], gets := s.gets + 1 } := by
  have hquiet := h.quiet (by simp [hpc])
  have hnone : s.underway.countP Item.exchange = 0 ∧ s.receiver.handling = 0 ∧
      s.receiveY = 0 := by
    simp only [State.outstanding] at hquiet
    omega
  obtain ⟨hitems, hhandling, hY⟩ := hnone
  refine ⟨?_, ?_, ?_, ?_, ?_, ?_, ?_, h.used⟩
  · simp [State.outstanding, hitems, hhandling, hY, Item.exchange]
  · intro i hi
    rcases List.mem_append.mp hi with hi | hi
    · have hother := List.countP_eq_zero.mp hitems i hi
      exact (h.items i hi).of_other (by simpa using hother)
    · obtain rfl := List.mem_singleton.mp hi
      rfl
  · intro d hd
    have hother : d.answers.isSome = false := by
      simpa [show s.receiver = .check d from hd, RecvPc.handling] using hhandling
    exact ⟨(h.checked d hd).1.of_other hother, (h.checked d hd).2⟩
  · intro d hd
    simp [show s.receiver = .setY d from hd, RecvPc.handling] at hhandling
  · intro d hd
    simp [show s.receiver = .post d from hd, RecvPc.handling] at hhandling
  · simp [hY]
  · simpa [PiPc.awaiting, hpc] using h.asked

theorem wait (h : Invariant atof s) (hpc : s.pi = .wait) (hY : 0 < s.receiveY) :
    Invariant atof { s with pi := .control, receiveY := s.receiveY - 1 } where
  outstanding := by
    have hle := h.outstanding
    simp only [State.outstanding, hpc, if_true] at hle
    simp only [State.outstanding, reduceCtorEq, if_false]
    omega
  items := h.items
  checked := h.checked
  accepted := h.accepted
  posted := h.posted
  fresh _ := h.fresh (.inr hY)
  asked := by simpa [PiPc.awaiting, hpc] using h.asked
  used := h.used

/-- The control computation uses the answer to the last `GET`. -/
theorem control (h : Invariant atof s) (hpc : s.pi = .control) :
    Invariant atof { s with pi := .set, used := s.used ++ [s.gY] } where
  outstanding := (h.quiet (by simp [hpc])).trans_le (Nat.zero_le _)
  items := h.items
  checked := h.checked
  accepted := h.accepted
  posted := h.posted
  fresh _ := h.fresh (.inl hpc)
  asked := by simpa [PiPc.awaiting, hpc] using h.asked
  used k x hk := by
    rcases Nat.lt_trichotomy k s.used.length with hlt | heq | hgt
    · rw [List.getElem?_append_left hlt] at hk
      exact h.used k x hk
    · obtain ⟨j, bytes, hj, hbytes, hx⟩ := h.fresh (.inl hpc)
      have hasked : s.used.length + 1 = s.gets := by simpa [PiPc.awaiting, hpc] using h.asked
      obtain rfl : k = j := by omega
      obtain rfl : s.gY = x := by simpa [heq] using hk
      exact ⟨bytes, hbytes, hx⟩
    · simp [List.getElem?_eq_none (by simp; omega : (s.used ++ [s.gY]).length ≤ k)] at hk

/-! ### Steps of the receiver -/

theorem listen (h : Invariant atof s) {pc : RecvPc} (hfrom : s.receiver.handling = 0)
    (hto : pc.idle) : Invariant atof { s with receiver := pc } where
  outstanding := by
    have hle := h.outstanding
    simpa only [State.outstanding, hfrom, handling_of_idle hto] using hle
  items := h.items
  checked d hd := by
    obtain rfl : pc = .check d := hd
    exact hto.elim
  accepted d hd := by
    obtain rfl : pc = .setY d := hd
    exact hto.elim
  posted d hd := by
    obtain rfl : pc = .post d := hd
    exact hto.elim
  fresh := h.fresh
  asked := h.asked
  used := h.used

theorem ack (h : Invariant atof s) {d : Datagram} (hpc : s.receiver = .check d)
    (hack : isGetAck s.data.bytes = true) : Invariant atof { s with receiver := .setY d } := by
  obtain ⟨hgenuine, hsame, htext⟩ := h.checked d hpc
  have hd : isGetAck d.bytes = true := hsame.symm.trans hack
  refine ⟨?_, h.items, by simp, ?_, by simp, h.fresh, h.asked, h.used⟩
  · have hle := h.outstanding
    have hsome : d.answers.isSome = true := hgenuine.isGetAck.symm.trans hd
    simpa [State.outstanding, hpc, RecvPc.handling, hsome] using hle
  · intro _ _
    have hvalue : measured atof s.data.bytes = measured atof d.bytes :=
      congrArg atof (htext hd)
    exact hvalue ▸ hgenuine.answered hd

theorem noAck (h : Invariant atof s) {d : Datagram} {pc : RecvPc}
    (hpc : s.receiver = .check d) (hack : isGetAck s.data.bytes = false) (hto : pc.idle) :
    Invariant atof { s with receiver := pc } := by
  obtain ⟨hgenuine, hsame, -⟩ := h.checked d hpc
  have hnone : d.answers.isSome = false := hgenuine.isGetAck.symm.trans (hsame.symm.trans hack)
  exact h.listen (by simp [hpc, RecvPc.handling, hnone]) hto

theorem setY (h : Invariant atof s) {d : Datagram} (hpc : s.receiver = .setY d) :
    Invariant atof { s with gY := measured atof s.data.bytes, receiver := .post d } := by
  have hwaits := h.waits (by simp only [State.outstanding, hpc, RecvPc.handling]; omega)
  refine ⟨?_, h.items, by simp, by simp, fun _ _ => h.accepted d hpc, ?_, h.asked, h.used⟩
  · have hle := h.outstanding
    simpa only [State.outstanding, hpc, RecvPc.handling] using hle
  · rintro (hcontrol | hY)
    · cases hwaits.1.symm.trans hcontrol
    · have hone := hwaits.2
      simp only [State.outstanding, hpc, RecvPc.handling] at hone
      have hY' : 0 < s.receiveY := hY
      omega

theorem post (h : Invariant atof s) {d : Datagram} (hpc : s.receiver = .post d) :
    Invariant atof { s with receiveY := s.receiveY + 1, receiver := .puts } := by
  refine ⟨?_, h.items, by simp, by simp, by simp, fun _ => h.posted d hpc, h.asked, h.used⟩
  have hle := h.outstanding
  simp only [State.outstanding, hpc, RecvPc.handling] at hle ⊢
  omega

theorem receive (h : Invariant atof s) {d : Datagram} {data : Buffer UDP_RECV_BUF_LEN}
    {pc : RecvPc} (hpc : s.receiver = .recv) (hd : .datagram d ∈ s.underway)
    (hdata : data.bytes = overlay s d) (hto : pc = .check d ∨ pc = .test)
    (hspeaks : SpeaksForItself s (.receive d)) : Invariant atof { s with
      data := data, underway := s.underway.erase (.datagram d), receiver := pc } := by
  have hcount := countP_erase_add hd
  refine ⟨?_, fun i hi => h.items i (List.mem_of_mem_erase hi), ?_, ?_, ?_, h.fresh, h.asked,
    h.used⟩
  · have hle := h.outstanding
    have hhandling : pc.handling ≤ if (Item.datagram d).exchange = true then 1 else 0 := by
      rcases hto with rfl | rfl
      · exact Nat.le_refl _
      · exact Nat.zero_le _
    have hidle : RecvPc.recv.handling = 0 := rfl
    simp only [State.outstanding, hpc, hidle] at hle ⊢
    omega
  · intro d' hd'
    rcases hto with rfl | rfl
    · obtain rfl : d = d' := by simpa using hd'
      refine ⟨h.items _ hd, ?_⟩
      simp only [hdata]
      cases hack : isGetAck d.bytes with
      | true =>
          have htext : ackText (overlay s d) = ackText d.bytes := by
            simp only [SpeaksForItself, hack, if_true] at hspeaks
            exact hspeaks.2
          exact ⟨isGetAck_overlay hack, fun _ => htext⟩
      | false =>
          have hother : isGetAck (overlay s d) = false := by
            simpa [SpeaksForItself, hack] using hspeaks
          exact ⟨hother, by simp⟩
    · simp at hd'
  · intro d' hd'
    rcases hto with rfl | rfl <;> simp at hd'
  · intro d' hd'
    rcases hto with rfl | rfl <;> simp at hd'

/-! ### Steps of the network and the server -/

theorem arrive (h : Invariant atof s) {k : ℕ} (hk : .get k ∈ s.underway) :
    Invariant atof { s with underway := s.underway.erase (.get k) ++ [.asked k] } where
  outstanding := by
    have hcount := countP_erase_add hk
    have hle := h.outstanding
    simp only [State.outstanding, List.countP_append, List.countP_singleton] at hle ⊢
    simp only [Item.exchange] at hcount ⊢
    omega
  items i hi := by
    rcases List.mem_append.mp hi with hi | hi
    · exact h.items i (List.mem_of_mem_erase hi)
    · obtain rfl := List.mem_singleton.mp hi
      have hlast : k + 1 = s.gets := h.items _ hk
      exact hlast
  checked := h.checked
  accepted := h.accepted
  posted := h.posted
  fresh := h.fresh
  asked := h.asked
  used := h.used

/-- The answer to the only `GET` that is outstanding. -/
theorem answer (h : Invariant atof s) {k : ℕ} {bytes : List UInt8} (hk : .asked k ∈ s.underway)
    (hack : isGetAck bytes = true) : Invariant atof { s with
      underway := s.underway.erase (.asked k) ++ [.datagram ⟨bytes, some k⟩]
      acks := Function.update s.acks k (some bytes) } := by
  have hcount := countP_erase_add hk
  have hwaits := h.waits (by
    simp only [State.outstanding, Item.exchange, if_true] at hcount ⊢
    omega)
  have hone := hwaits.2
  simp only [State.outstanding] at hone
  have hnone : (s.underway.erase (.asked k)).countP Item.exchange = 0 ∧
      s.receiver.handling = 0 ∧ s.receiveY = 0 := by
    simp only [Item.exchange, if_true] at hcount
    omega
  obtain ⟨hitems, hhandling, hY⟩ := hnone
  have hlast : k + 1 = s.gets := h.items _ hk
  refine ⟨?_, ?_, ?_, ?_, ?_, ?_, h.asked, ?_⟩
  · simp [State.outstanding, hitems, hhandling, hY, hwaits.1, Item.exchange]
  · intro i hi
    rcases List.mem_append.mp hi with hi | hi
    · have hother := List.countP_eq_zero.mp hitems i hi
      exact (h.items i (List.mem_of_mem_erase hi)).of_other (by simpa using hother)
    · obtain rfl := List.mem_singleton.mp hi
      exact ⟨hlast, by simp, hack⟩
  · intro d hd
    have hother : d.answers.isSome = false := by
      simpa [show s.receiver = .check d from hd, RecvPc.handling] using hhandling
    exact ⟨(h.checked d hd).1.of_other hother, (h.checked d hd).2⟩
  · intro d hd
    simp [show s.receiver = .setY d from hd, RecvPc.handling] at hhandling
  · intro d hd
    simp [show s.receiver = .post d from hd, RecvPc.handling] at hhandling
  · simp [hY, hwaits.1]
  · intro j x hj
    have hlt : j < s.used.length := by
      by_contra hge
      simp [List.getElem?_eq_none (Nat.le_of_not_lt hge)] at hj
    have hne : j ≠ k := by
      have hasked : s.used.length + 1 = s.gets := by
        simpa [PiPc.awaiting, hwaits.1] using h.asked
      omega
    simpa [hne] using h.used j x hj

theorem other (h : Invariant atof s) {bytes : List UInt8} (hack : isGetAck bytes = false) :
    Invariant atof { s with underway := s.underway ++ [.datagram ⟨bytes, none⟩] } where
  outstanding := by
    have hle := h.outstanding
    simpa [State.outstanding, Item.exchange] using hle
  items i hi := by
    rcases List.mem_append.mp hi with hi | hi
    · exact h.items i hi
    · obtain rfl := List.mem_singleton.mp hi
      exact hack
  checked := h.checked
  accepted := h.accepted
  posted := h.posted
  fresh := h.fresh
  asked := h.asked
  used := h.used

theorem lose (h : Invariant atof s) {i : Item} (hi : i ∈ s.underway) :
    Invariant atof { s with underway := s.underway.erase i } where
  outstanding := by
    have hcount := countP_erase_add hi
    have hle := h.outstanding
    simp only [State.outstanding] at hle ⊢
    omega
  items j hj := h.items j (List.mem_of_mem_erase hj)
  checked := h.checked
  accepted := h.accepted
  posted := h.posted
  fresh := h.fresh
  asked := h.asked
  used := h.used

theorem move (h : Invariant atof s) (hspeaks : SpeaksForItself s a) (hm : Move atof s a t) :
    Invariant atof t := by
  cases hm with
  | go hfrom hto => exact h.go hfrom hto
  | get hpc => exact h.get hpc
  | wait hpc hY => exact h.wait hpc hY
  | control hpc => exact h.control hpc
  | listen hfrom hto => exact h.listen (handling_of_idle hfrom) hto
  | ack hpc hack => exact h.ack hpc hack
  | noAck hpc hack hto => exact h.noAck hpc hack hto
  | setY hpc => exact h.setY hpc
  | post hpc => exact h.post hpc
  | signal hpc =>
      have hlisten : Invariant atof { s with receiver := .test } :=
        h.listen (by simp [hpc, RecvPc.handling]) trivial
      exact ⟨hlisten.1, hlisten.2, hlisten.3, hlisten.4, hlisten.5, hlisten.6, hlisten.7,
        hlisten.8⟩
  | receive hpc hd hdata hto => exact h.receive hpc hd hdata hto hspeaks
  | respond => exact ⟨h.1, h.2, h.3, h.4, h.5, h.6, h.7, h.8⟩
  | shutdown => exact ⟨h.1, h.2, h.3, h.4, h.5, h.6, h.7, h.8⟩
  | arrive hk => exact h.arrive hk
  | answer hk hack => exact h.answer hk hack
  | other hack => exact h.other hack
  | lose hi => exact h.lose hi

end Invariant

/-! ## Runs -/

/-- In every run whose received datagrams speak for themselves, at most one exchange is
outstanding in each state, and every control step uses the measurement it asked for. -/
theorem control_uses_own_answers (atof : List UInt8 → ℚ) (data : Buffer UDP_RECV_BUF_LEN)
    {actions : List Action} {s : State} (hrun : Runs (Step atof) (init data) actions s)
    (hspeak : Along (Step atof) SpeaksForItself (init data) actions) :
    s.outstanding ≤ 1 ∧ UsesOwnAnswers atof s := by
  have h : Invariant atof s := hrun.invariant_of_along
    (fun _ _ _ hs hspeaks hstep => hs.move hspeaks hstep.move) hspeak (invariant_init data)
  refine ⟨h.outstanding.trans ?_, h.used⟩
  split <;> decide

/-- Agrees with `atof` on the strings of the runs below. -/
def readOne (text : List UInt8) : ℚ := if text = ascii ['1'] then 1 else 0

/-- The answer to the first `GET`. -/
def ackOne : List UInt8 := getAck ++ ascii [':', '1'] ++ [0]

/-- The first `GET`, its answer and the control step. -/
def oneExchange : List Action :=
  [.pi true, .pi true, .pi true, .receiver, .arrive 0, .answer 0 ackOne, .receive ⟨ackOne, some 0⟩,
    .receiver, .receiver, .receiver, .receiver, .receiver, .pi true, .pi true]

theorem control_uses_own_answers_of_oneExchange :
    ∃ s, Runs (Step readOne) (init (.zero _)) oneExchange s ∧ s.used = [1] ∧
      s.outstanding ≤ 1 ∧ UsesOwnAnswers readOne s := by
  obtain ⟨s, hrun, hused⟩ : ∃ s, Runs (Step readOne) (init (.zero _)) oneExchange s ∧
      s.used = [1] := Runs.exists_of_foldlM (by decide)
  have hspeak : Along (fun s a t => step readOne s a = some t) SpeaksForItself
      (init (.zero _)) oneExchange := by decide
  exact ⟨s, hrun, hused, control_uses_own_answers readOne (.zero _) hrun hspeak⟩

/-- A datagram of the single byte `G` arrives over the old `GET_ACK`, and the second `GET`
is sent and not answered. -/
def oneByte : List Action :=
  [.other (ascii ['G']), .receive ⟨ascii ['G'], none⟩, .receiver, .receiver, .receiver,
    .pi true, .pi true, .pi true, .pi true, .pi true, .pi true]

/-- The single byte is taken for another `GET_ACK`, and the second control step uses the
old measurement. -/
theorem stale_measurement_used :
    ∃ s, Runs (Step readOne) (init (.zero _)) (oneExchange ++ oneByte) s ∧
      s.used = [1, 1] ∧ s.acks 1 = none ∧ ¬ UsesOwnAnswers readOne s := by
  obtain ⟨s, hrun, hused, hacks⟩ : ∃ s,
      Runs (Step readOne) (init (.zero _)) (oneExchange ++ oneByte) s ∧
      s.used = [1, 1] ∧ s.acks 1 = none := Runs.exists_of_foldlM (by decide)
  refine ⟨s, hrun, hused, hacks, ?_⟩
  intro huses
  obtain ⟨bytes, hbytes, -⟩ := huses 1 1 (by simp [hused])
  simp [hacks] at hbytes

end RealTime.Miniproject
