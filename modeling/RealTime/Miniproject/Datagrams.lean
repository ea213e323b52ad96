import RealTime.Miniproject.Feedback

/-! # What a received datagram means

`udpReceiver` neither clears its buffer nor terminates what it has received, and the string
functions that it calls stop at a NUL or at the first difference only. Here the same code
runs over the whole buffer and over the bytes of the datagram alone. -/

namespace RealTime.Miniproject

/-- How `udpReceiver` acts on what it has received: with the string for `atof` and the string
for `puts`, posting `receiveY`; posting `receiveSignal`; or not at all. -/
inductive Reaction where
  | getAck (text printed : List UInt8)
  | signal
  | ignored
deriving DecidableEq, Repr

/-- The tests and calls behind `if (status>0)`, over the memory from `data` on. `atof` is
given the string at `&data[8]`, `puts` the one at `data`. -/
def react (data : List UInt8) : Option Reaction := do
  if ← strncmpRead data getAck 7 then
    let text ← readString (data.drop 8)
    let printed ← readString data
    return .getAck text printed
  else if ← strncmpRead data signal 6 then
    return .signal
  else
    return .ignored

/-- A round of `udpReceiver` that receives `d` over the contents `data` of the buffer. -/
def receiveOver (data : Buffer UDP_RECV_BUF_LEN) (d : List UInt8) : Option Reaction := do
  let data ← data.copy (d.take UDP_RECV_BUF_LEN)
  if 0 < d.length then react data.bytes else return .ignored

/-- The datagram is acted on alike over any two contents of the buffer, and none of the
string functions reads a position that it has not filled. -/
structure ActsOnItsBytes (d : List UInt8) : Prop where
  alike : ∀ data data' : Buffer UDP_RECV_BUF_LEN, receiveOver data d = receiveOver data' d
  filled : ∃ r, react d = some r ∧ ∀ data, receiveOver data d = some r

/-- A `GET_ACK` has a NUL from index 8 on; another datagram is no beginning of one, nor a
proper beginning of `SIGNAL`. -/
def SelfContained (d : List UInt8) : Prop :=
  if getAck <+: d then 0 ∈ d.drop 8 else ¬ d <+: getAck ∧ (d <+: signal → d = signal)

instance (d : List UInt8) : Decidable (SelfContained d) :=
  inferInstanceAs (Decidable
    (if getAck <+: d then 0 ∈ d.drop 8 else ¬ d <+: getAck ∧ (d <+: signal → d = signal)))

/-! ## Reading the datagram only -/

theorem strncmpRead_getAck (d : List UInt8) :
    strncmpRead d getAck 7 =
      if getAck <+: d then some true else if d <+: getAck then none else some false :=
  strncmpRead_length (by decide) d

theorem strncmpRead_signal (d : List UInt8) :
    strncmpRead d signal 6 =
      if signal <+: d then some true else if d <+: signal then none else some false :=
  strncmpRead_length (by decide) d

theorem react_of_getAck {d : List UInt8} (h : getAck <+: d) :
    (∃ r, react d = some r) ↔ 0 ∈ d.drop 8 := by
  have hcompare := (strncmpRead_getAck d).trans (if_pos h)
  by_cases hzero : 0 ∈ d.drop 8
  · have htext := readString_of_mem hzero
    have hprinted := readString_of_mem (List.mem_of_mem_drop hzero)
    refine iff_of_true ⟨.getAck (cstr (d.drop 8)) (cstr d), ?_⟩ hzero
    simp [react, hcompare, htext, hprinted]
  · refine iff_of_false ?_ hzero
    simp [react, hcompare, readString_of_notMem hzero]

theorem react_of_not_getAck {d : List UInt8} (h : ¬ getAck <+: d) :
    (∃ r, react d = some r) ↔ ¬ d <+: getAck ∧ (d <+: signal → d = signal) := by
  have hcompare := (strncmpRead_getAck d).trans (if_neg h)
  by_cases hshort : d <+: getAck
  · rw [if_pos hshort] at hcompare
    simp [react, hcompare, hshort]
  · rw [if_neg hshort] at hcompare
    have hsecond := strncmpRead_signal d
    by_cases hsignal : signal <+: d
    · rw [if_pos hsignal] at hsecond
      have hwhole : d <+: signal → d = signal := fun hd =>
        hd.eq_of_length_le hsignal.length_le
      simpa [react, hcompare, hsecond, hshort] using hwhole
    · rw [if_neg hsignal] at hsecond
      by_cases hpart : d <+: signal
      · have hne : d ≠ signal := by
          intro heq
          exact hsignal (heq ▸ List.prefix_rfl)
        rw [if_pos hpart] at hsecond
        simp [react, hcompare, hsecond, hpart, hne]
      · rw [if_neg hpart] at hsecond
        simp [react, hcompare, hsecond, hshort, hpart]

/-- The string functions find what they need in the datagram exactly when it is self
contained. -/
theorem react_isSome_iff (d : List UInt8) : (∃ r, react d = some r) ↔ SelfContained d := by
  unfold SelfContained
  split
  · rename_i h
    exact react_of_getAck h
  · rename_i h
    exact react_of_not_getAck h

/-! ## The bytes behind the datagram -/

/-- What the functions have found in the datagram they find with anything behind it. -/
theorem react_append {d : List UInt8} {r : Reaction} (h : react d = some r)
    (rest : List UInt8) : react (d ++ rest) = some r := by
  simp only [react, Option.bind_eq_bind, Option.bind_eq_some_iff] at h ⊢
  obtain ⟨isAck, hcompare, h⟩ := h
  refine ⟨isAck, strncmpRead_append hcompare rest, ?_⟩
  cases isAck with
  | true =>
      rw [if_pos rfl] at h ⊢
      simp only [Option.bind_eq_some_iff] at h ⊢
      obtain ⟨text, htext, printed, hprinted, h⟩ := h
      have hlong : 8 ≤ d.length := by
        by_contra hshort
        rw [List.drop_eq_nil_of_le (by omega)] at htext
        cases htext
      refine ⟨text, ?_, printed, readString_append hprinted rest, h⟩
      rw [List.drop_append_of_le_length hlong]
      exact readString_append htext rest
  | false =>
      rw [if_neg Bool.false_ne_true] at h ⊢
      simp only [Option.bind_eq_some_iff] at h ⊢
      obtain ⟨isSig, hsecond, h⟩ := h
      exact ⟨isSig, strncmpRead_append hsecond rest, h⟩

theorem receiveOver_eq {d : List UInt8} (hpos : 0 < d.length)
    (hlen : d.length ≤ UDP_RECV_BUF_LEN) (data : Buffer UDP_RECV_BUF_LEN) :
    receiveOver data d = react (d ++ data.bytes.drop d.length) := by
  have hcopy : data.copy d = some ⟨d ++ data.bytes.drop d.length, _⟩ := dif_pos hlen
  rw [receiveOver, List.take_of_length_le hlen, hcopy]
  exact if_pos hpos

/-- A datagram of 1 to 255 bytes is acted on by its own bytes, over every content of the
buffer, exactly when it is self contained. -/
theorem actsOnItsBytes_iff (d : List UInt8) (hpos : 0 < d.length)
    (hlen : d.length ≤ UDP_RECV_BUF_LEN) : ActsOnItsBytes d ↔ SelfContained d := by
  constructor
  · intro hacts
    obtain ⟨r, hr, -⟩ := hacts.filled
    exact (react_isSome_iff d).mp ⟨r, hr⟩
  · intro hself
    obtain ⟨r, hr⟩ := (react_isSome_iff d).mpr hself
    have hover : ∀ data, receiveOver data d = some r := by
      intro data
      rw [receiveOver_eq hpos hlen]
      exact react_append hr _
    exact ⟨fun data data' => (hover data).trans (hover data').symm, r, hr, hover⟩

/-- A whole `GET_ACK` with its NUL. -/
theorem actsOnItsBytes_iff_of_getAck :
    ActsOnItsBytes (getAck ++ [58, 49, 0]) ↔ SelfContained (getAck ++ [58, 49, 0]) :=
  actsOnItsBytes_iff _ (by decide) (by decide)

/-- A buffer that holds `GET_ACK:1`. -/
def afterGetAck : Buffer UDP_RECV_BUF_LEN where
  bytes := getAck ++ [58, 49] ++ List.replicate 246 0
  size := by
    rw [List.length_append, List.length_replicate]
    rfl

/-- The datagram `G` over an empty buffer is ignored, and over an old `GET_ACK` repeats it. -/
theorem single_byte_repeats_getAck :
    receiveOver (Buffer.zero UDP_RECV_BUF_LEN) (ascii ['G']) = some .ignored ∧
      receiveOver afterGetAck (ascii ['G']) = some (.getAck [49] (getAck ++ [58, 49])) ∧
      ¬ ActsOnItsBytes (ascii ['G']) := by
  have hempty : receiveOver (Buffer.zero UDP_RECV_BUF_LEN) (ascii ['G']) = some .ignored := by
    decide
  have hold : receiveOver afterGetAck (ascii ['G']) =
      some (.getAck [49] (getAck ++ [58, 49])) := by
    decide
  refine ⟨hempty, hold, fun hacts => ?_⟩
  have halike := hacts.alike (Buffer.zero UDP_RECV_BUF_LEN) afterGetAck
  rw [hempty, hold] at halike
  cases halike

/-! ## The receiver in the exchange of measurements -/

/-- Where no function reads outside the buffer, the tests and texts are those of the
receiver's steps in `stepReceiver`. -/
theorem react_eq_some {data : List UInt8} {r : Reaction} (h : react data = some r) :
    match r with
    | .getAck text printed => isGetAck data = true ∧ text = ackText data ∧ printed = cstr data
    | .signal => isGetAck data = false ∧ isSignal data = true
    | .ignored => isGetAck data = false ∧ isSignal data = false := by
  simp only [react, Option.bind_eq_bind, Option.bind_eq_some_iff] at h
  obtain ⟨isAck, hcompare, h⟩ := h
  have hack : isGetAck data = isAck := strncmpEq_of_strncmpRead hcompare
  cases isAck with
  | true =>
      rw [if_pos rfl] at h
      simp only [Option.bind_eq_some_iff] at h
      obtain ⟨text, htext, printed, hprinted, h⟩ := h
      cases h
      exact ⟨hack, (eq_cstr_of_readString htext), eq_cstr_of_readString hprinted⟩
  | false =>
      rw [if_neg Bool.false_ne_true] at h
      simp only [Option.bind_eq_some_iff] at h
      obtain ⟨isSig, hsecond, h⟩ := h
      have hsig : isSignal data = isSig := strncmpEq_of_strncmpRead hsecond
      cases isSig <;> cases h <;> exact ⟨hack, hsig⟩

end RealTime.Miniproject
