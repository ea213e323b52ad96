import RealTime.Library.Buffer

/-! # Messages from `ov8read.c` to `ov8Sanntid.c`

A client counts the bytes of its message, up to 128 of them, and passes these to the
kernel; the server has them copied over the last message and prints a string. -/

namespace RealTime.Messages

/-- Of the client. -/
def BUFFER_MAX_SIZE : ℕ := 128

/-- Of the server. -/
def BUFFER_SIZE : ℕ := 128

/-- The argument of `sendMsg`. -/
structure CString where
  text : List UInt8
  nul_free : 0 ∉ text

/-- The bytes from the pointer on. Nothing behind the terminator can be read. -/
def CString.memory (message : CString) : List UInt8 := message.text ++ [0]

/-! ## The two programs -/

/-- `while(message[size++] != '\0' && size < BUFFER_MAX_SIZE) {}` from a value of `size` on. -/
def sizeLoop (message : List UInt8) : ℕ → ℕ → Option ℕ
  | 0, _ => none
  | fuel + 1, size => do
    let c ← message[size]?
    if c ≠ 0 ∧ size + 1 < BUFFER_MAX_SIZE then sizeLoop message fuel (size + 1)
    else return size + 1

/-- `MsgSend` reads `size` bytes. -/
def msgSend (message : List UInt8) (size : ℕ) : Option (List UInt8) :=
  if size ≤ message.length then some (message.take size) else none

/-- `MsgReceive(channel_id, &recvBuf, BUFFER_SIZE, &msgInfo)`. -/
def msgReceive (recvBuf : Buffer (BUFFER_SIZE + 1)) (sent : List UInt8) :
    Option (Buffer (BUFFER_SIZE + 1)) :=
  recvBuf.copy (sent.take BUFFER_SIZE)

/-- A round of the loop of `startServer`: the string it prints, and the buffer it leaves. -/
def serverRound (recvBuf : Buffer (BUFFER_SIZE + 1)) (sent : List UInt8) :
    Option (List UInt8 × Buffer (BUFFER_SIZE + 1)) := do
  let recvBuf ← msgReceive recvBuf sent
  let printed ← readString recvBuf.bytes
  return (printed, recvBuf)

/-- `MsgReply(msg_id, EOK, "OK", 2)`. -/
def reply : List UInt8 := ascii ['O', 'K']

/-- What becomes of a message: the bytes sent, the string that the server prints, and the
string that the client prints for the answer. -/
structure Exchange where
  sent : List UInt8
  printed : List UInt8
  response : List UInt8
deriving DecidableEq, Repr

/-- `sendMsg`, with the round of the server that answers it. The client is in `MsgSend`
until the reply, so no other message falls in between. -/
def sendMsg (message : List UInt8) (returnBuf : Buffer 3) (recvBuf : Buffer (BUFFER_SIZE + 1)) :
    Option (Exchange × Buffer (BUFFER_SIZE + 1)) := do
  let returnBuf ← returnBuf.store 2 0
  let size ← sizeLoop message BUFFER_MAX_SIZE 0
  let sent ← msgSend message size
  let (printed, recvBuf) ← serverRound recvBuf sent
  let returnBuf ← returnBuf.copy (reply.take 2)
  let response ← readString returnBuf.bytes
  return (⟨sent, printed, response⟩, recvBuf)

/-- The loop of `startServer` over the messages of all clients, each with the contents that
`return_buf` has before its call. -/
def serverLoop : List (List UInt8 × Buffer 3) → Buffer (BUFFER_SIZE + 1) →
    Option (List Exchange)
  | [], _ => return []
  | (message, returnBuf) :: messages, recvBuf => do
    let (exchange, recvBuf) ← sendMsg message returnBuf recvBuf
    return exchange :: (← serverLoop messages recvBuf)

def startServer (messages : List (List UInt8 × Buffer 3)) (recvBuf : Buffer (BUFFER_SIZE + 1)) :
    Option (List Exchange) := do
  let recvBuf ← recvBuf.store BUFFER_SIZE 0
  serverLoop messages recvBuf

/-! ## The length loop -/

variable {message : CString} {recvBuf : Buffer (BUFFER_SIZE + 1)}

theorem CString.length_memory (message : CString) :
    message.memory.length = message.text.length + 1 := by
  simp [memory]

theorem CString.cstr_text (message : CString) : cstr message.text = message.text :=
  cstr_eq_self message.nul_free

/-- The loop counts the terminator, unless it stops at the maximum before. -/
theorem sizeLoop_eq (message : CString) (fuel size : ℕ) (hsize : size ≤ message.text.length)
    (hmax : size < BUFFER_MAX_SIZE) (hfuel : BUFFER_MAX_SIZE ≤ size + fuel) :
    sizeLoop message.memory fuel size = some (min (message.text.length + 1) BUFFER_MAX_SIZE) := by
  induction fuel generalizing size with
  | zero => omega
  | succ fuel ih =>
      rw [sizeLoop]
      by_cases hend : size = message.text.length
      · -- the terminator
        have hread : message.memory[size]? = some 0 := by
          rw [CString.memory, hend, List.getElem?_concat_length]
        simp only [hread, Option.bind_eq_bind, Option.bind_some, ne_eq, not_true, false_and,
          if_false, ← hend]
        rw [Nat.min_eq_left (by omega)]
        rfl
      · have hlt : size < message.text.length := by omega
        have hread : message.memory[size]? = some message.text[size] := by
          rw [CString.memory, List.getElem?_append_left hlt, List.getElem?_eq_getElem hlt]
        have hne : message.text[size] ≠ 0 := by
          intro hzero
          exact message.nul_free (hzero ▸ List.getElem_mem hlt)
        simp only [hread, Option.bind_eq_bind, Option.bind_some, ne_eq, hne, not_false_eq_true,
          true_and]
        by_cases hstop : size + 1 < BUFFER_MAX_SIZE
        · rw [if_pos hstop]
          exact ih (size + 1) (by omega) hstop (by omega)
        · rw [if_neg hstop, Nat.min_eq_right (by omega),
            show BUFFER_MAX_SIZE = size + 1 by omega]
          rfl

/-! ## One message -/

/-- What a message should come to. -/
def CString.truncated (message : CString) : Exchange where
  sent := message.memory.take (min (message.text.length + 1) BUFFER_MAX_SIZE)
  printed := message.text.take BUFFER_SIZE
  response := reply

theorem CString.length_sent (message : CString) :
    message.truncated.sent.length = min (message.text.length + 1) BUFFER_MAX_SIZE := by
  rw [truncated, List.length_take, length_memory]
  omega

/-- A short message is received with its terminator, a long one ends at that of the
buffer. -/
theorem msgReceive_eq (h : recvBuf.Terminated) (message : CString) :
    ∃ c, msgReceive recvBuf message.truncated.sent = some c ∧ c.Terminated ∧
      cstr c.bytes = message.text.take BUFFER_SIZE := by
  have htake : message.truncated.sent.take BUFFER_SIZE = message.truncated.sent := by
    apply List.take_of_length_le
    rw [message.length_sent]
    exact Nat.min_le_right _ _
  -- the two programs agree on the maximum
  have hsizes : BUFFER_MAX_SIZE = BUFFER_SIZE := rfl
  rw [msgReceive, htake, CString.truncated, hsizes]
  by_cases hshort : message.text.length < BUFFER_SIZE
  · obtain ⟨c, hcopy, hc, hstring⟩ := h.copy_string hshort
    refine ⟨c, ?_, hc, ?_⟩
    · rw [Nat.min_eq_left (by omega), ← message.length_memory, List.take_length]
      exact hcopy
    · rw [hstring, message.cstr_text, List.take_of_length_le (Nat.le_of_lt hshort)]
  · have hfull : (message.text.take BUFFER_SIZE).length = BUFFER_SIZE := by
      rw [List.length_take]
      exact Nat.min_eq_left (Nat.le_of_not_lt hshort)
    obtain ⟨c, hcopy, hc, hstring⟩ := h.copy_full hfull
    refine ⟨c, ?_, hc, ?_⟩
    · rw [Nat.min_eq_right (by omega), CString.memory,
        List.take_append_of_le_length (Nat.le_of_not_lt hshort)]
      exact hcopy
    · rw [hstring, ← take_cstr, message.cstr_text]

/-- Nothing of an earlier message is left in what the server prints. -/
theorem serverRound_eq (h : recvBuf.Terminated) (message : CString) :
    ∃ c, serverRound recvBuf message.truncated.sent = some (message.truncated.printed, c) ∧
      c.Terminated := by
  obtain ⟨c, hreceive, hc, hstring⟩ := msgReceive_eq h message
  refine ⟨c, ?_, hc⟩
  rw [serverRound, hreceive, Option.bind_eq_bind, Option.bind_some, hc.readString, hstring]
  rfl

/-- Whatever is on the client's stack, it prints the answer. -/
theorem response_eq (returnBuf : Buffer 3) :
    ∃ b c, returnBuf.store 2 0 = some b ∧ b.copy (reply.take 2) = some c ∧
      readString c.bytes = some reply := by
  obtain ⟨b, hstore, hb⟩ := returnBuf.exists_store_last
  obtain ⟨c, hcopy, hc, hstring⟩ := hb.copy_full (show (reply.take 2).length = 2 from rfl)
  refine ⟨b, c, hstore, hcopy, ?_⟩
  rw [hc.readString, hstring]
  rfl

theorem sendMsg_eq (h : recvBuf.Terminated) (message : CString) (returnBuf : Buffer 3) :
    ∃ c, sendMsg message.memory returnBuf recvBuf = some (message.truncated, c) ∧
      c.Terminated := by
  obtain ⟨b, d, hstore, hcopy, hresponse⟩ := response_eq returnBuf
  have hsize := sizeLoop_eq message BUFFER_MAX_SIZE 0 (Nat.zero_le _) (by decide)
    (Nat.le_add_left _ _)
  have hsend : msgSend message.memory (min (message.text.length + 1) BUFFER_MAX_SIZE) =
      some message.truncated.sent := by
    rw [msgSend, message.length_memory, if_pos (Nat.min_le_left _ _)]
    rfl
  obtain ⟨c, hround, hc⟩ := serverRound_eq h message
  refine ⟨c, ?_, hc⟩
  simp only [sendMsg, hstore, hsize, hsend, hround, hcopy, hresponse, Option.bind_eq_bind,
    Option.bind_some]
  rfl

/-! ## All messages -/

theorem serverLoop_eq (messages : List (CString × Buffer 3)) (h : recvBuf.Terminated) :
    serverLoop (messages.map fun m => (m.1.memory, m.2)) recvBuf =
      some (messages.map fun m => m.1.truncated) := by
  induction messages generalizing recvBuf with
  | nil => rfl
  | cons m messages ih =>
      obtain ⟨c, hsend, hc⟩ := sendMsg_eq h m.1 m.2
      simp only [List.map_cons, serverLoop, hsend, Option.bind_eq_bind, Option.bind_some, ih hc]
      rfl

/-- Whatever messages are sent, and whatever the buffers contain at first, no call reads
or writes outside its arrays. Of each message `min (strlen + 1) 128` bytes are sent, and the
first 128 characters are printed. -/
theorem startServer_truncates (messages : List (CString × Buffer 3))
    (recvBuf : Buffer (BUFFER_SIZE + 1)) :
    ∃ exchanges, startServer (messages.map fun m => (m.1.memory, m.2)) recvBuf =
        some exchanges ∧
      exchanges.map Exchange.sent =
        messages.map (fun m => m.1.memory.take (min (m.1.text.length + 1) 128)) ∧
      exchanges.map (fun e => e.sent.length) =
        messages.map (fun m => min (m.1.text.length + 1) 128) ∧
      exchanges.map Exchange.printed = messages.map fun m => m.1.text.take 128 := by
  obtain ⟨c, hstore, hc⟩ := recvBuf.exists_store_last
  refine ⟨messages.map fun m => m.1.truncated, ?_, ?_, ?_, ?_⟩
  · rw [startServer, hstore]
    exact serverLoop_eq messages hc
  · exact List.map_map
  · rw [List.map_map]
    exact List.map_congr_left fun m _ => m.1.length_sent
  · exact List.map_map

end RealTime.Messages
