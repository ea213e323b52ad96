import RealTime.ResourceManager.Fifo

/-! # The request handlers of `resmgr.c`

One request is handled after the other, as in the dispatch loop of `main`. Open files are
numbered. What is printed on the server's console is left out. -/

namespace RealTime.ResourceManager

abbrev BUFFER_MAX_SIZE : ℕ := WIDTH

def EOK : ℤ := 0

/-- What a handler observably does besides answering its own client. -/
inductive Event where
  | addString (added : Bool)
  | addBlockedId (id : ℤ) (added : Bool)
  | msgReply (client : ℤ) (data : List UInt8)
deriving DecidableEq, Repr

/-- `resmgr_context_t`. `iov` is the length of the part of `buf` it points to. -/
structure Context where
  rcvid : ℤ
  iov : ℕ
  nbytes : ℕ
  offset : ℤ
deriving DecidableEq, Repr

/-- The globals, the offsets of the open files and the context of the current request. -/
structure Server (L : ℕ) where
  buf : Buffer (BUFFER_MAX_SIZE + 1)
  count : ℤ
  dir : ℤ
  mutex : Bool
  queue : Fifo L
  offset : ℕ → ℤ
  ctp : Context
  events : List Event

/-- An access outside `buf`, a lock of a mutex already held, an unlock of a free one. -/
inductive Fault where
  | outOfBounds
  | relock
  | notHeld
deriving DecidableEq, Repr

/-- `_RESMGR_NPARTS(n)`, `_RESMGR_NOREPLY` or an error number. -/
inductive Return where
  | nparts (n : ℕ)
  | noreply
  | status (errno : ℤ)
deriving DecidableEq, Repr

abbrev HandlerM (L : ℕ) := StateT (Server L) (Except Fault)

variable {L : ℕ} [NeZero L]

/-! ## Library calls -/

def inBounds {α : Type} (x : Option α) : HandlerM L α :=
  match x with
  | some a => return a
  | none => throw .outOfBounds

def lockMutex : HandlerM L Unit := do
  if (← get).mutex then throw .relock
  modify fun s => { s with mutex := true }

def unlockMutex : HandlerM L Unit := do
  if !(← get).mutex then throw .notHeld
  modify fun s => { s with mutex := false }

def lockQueue : HandlerM L Unit := do
  if (← get).queue.resourceMutex then throw .relock
  modify fun s => { s with queue := { s.queue with resourceMutex := true } }

def unlockQueue : HandlerM L Unit := do
  if !(← get).queue.resourceMutex then throw .notHeld
  modify fun s => { s with queue := { s.queue with resourceMutex := false } }

/-- `strlen(buf)`. -/
def strlenBuf : HandlerM L ℕ := do inBounds (← get).buf.strlen

/-- `SETIOV(ctp->iov, buf, n)`. -/
def setIov (n : ℕ) : HandlerM L Unit :=
  modify fun s => { s with ctp := { s.ctp with iov := n } }

/-- `_IO_SET_READ_NBYTES` and `_IO_SET_WRITE_NBYTES`. -/
def setNbytes (n : ℕ) : HandlerM L Unit :=
  modify fun s => { s with ctp := { s.ctp with nbytes := n } }

def setOffset (ocb : ℕ) (offset : ℤ) : HandlerM L Unit :=
  modify fun s => { s with offset := Function.update s.offset ocb offset }

def record (e : Event) : HandlerM L Unit := modify fun s => { s with events := s.events ++ [e] }

/-- `MsgReply(client, n, &buf, n)`. -/
def msgReply (client : ℤ) (n : ℕ) : HandlerM L Unit := do
  record (.msgReply client ((← get).buf.bytes.take n))

/-- `resmgr_msgread(ctp, buf, size, …)`. -/
def msgread (bytes : List UInt8) (size : ℕ) : HandlerM L Unit := do
  let buf ← inBounds ((← get).buf.copy (bytes.take size))
  modify fun s => { s with buf := buf }

/-- `buf[i] = x`. -/
def storeBuf (i : ℕ) (x : UInt8) : HandlerM L Unit := do
  let buf ← inBounds ((← get).buf.store i x)
  modify fun s => { s with buf := buf }

/-! ## Calls on the queue -/

def addString : HandlerM L Bool := do
  let s ← get
  let (added, queue) := fifoAddString s.queue s.buf.front
  set { s with queue := queue }
  record (.addString added)
  return added

def remString : HandlerM L Unit :=
  modify fun s =>
    let (array, queue) := fifoRemString s.queue s.buf.front
    { s with buf := s.buf.setFront array, queue := queue }

def addBlockedId (id : ℤ) : HandlerM L Bool := do
  let s ← get
  let (added, queue) := fifoAddBlockedId s.queue id
  set { s with queue := queue }
  record (.addBlockedId id added)
  return added

def remBlockedId : HandlerM L ℤ := do
  let s ← get
  let (id, queue) := fifoRemBlockedId s.queue
  set { s with queue := queue }
  return id

/-! ## Handlers

The message of a request is reduced to what the handlers use of it. -/

/-- A read carries what `iofunc_read_verify` finds out about it, a write the bytes of the
client, which are as many as `msg->i.nbytes` says. -/
inductive Msg where
  | read (verify : ℤ) (nonblock : Bool)
  | write (bytes : List UInt8)
deriving DecidableEq, Repr

/-- The number of bytes a write handler takes; the bound is `WIDTH` for all of them. -/
def writeSize (bytes : List UInt8) : ℕ :=
  if bytes.length < BUFFER_MAX_SIZE then bytes.length else BUFFER_MAX_SIZE

def ioReadStr (ocb : ℕ) : HandlerM L Return := do
  if (← get).offset ocb = 0 then
    lockMutex
    setIov (← strlenBuf)
    setNbytes (← strlenBuf)
    unlockMutex
    setOffset ocb 1
    return .nparts 1
  else
    setNbytes 0
    return .nparts 0

/-- The mutex is locked again where it should be unlocked. -/
def ioWriteStr (ocb : ℕ) (bytes : List UInt8) : HandlerM L Return := do
  if (← get).offset ocb = 0 then
    let size := writeSize bytes
    lockMutex
    msgread bytes size
    storeBuf size 0
    setNbytes (← strlenBuf)
    lockMutex
    setOffset ocb 1
    return .nparts 0
  else
    setNbytes 0
    return .nparts 0

/-- The text of `%d`. -/
def decimal : ℤ → List Char
  | .ofNat n => Nat.toDigits 10 n
  | .negSucc n => '-' :: Nat.toDigits 10 (n + 1)

/-- `sprintf(&buf, "%d\n", n)`. -/
def sprintfBuf (n : ℤ) : HandlerM L Unit := do
  let buf ← inBounds ((← get).buf.copy (ascii (decimal n ++ ['\n']) ++ [0]))
  modify fun s => { s with buf := buf }

def ioReadCount (ocb : ℕ) : HandlerM L Return := do
  if (← get).offset ocb = 0 then
    lockMutex
    sprintfBuf (← get).count
    setIov (← strlenBuf)
    setNbytes (← strlenBuf)
    unlockMutex
    setOffset ocb 1
    return .nparts 1
  else
    setNbytes 0
    return .nparts 0

/-- The direction a command sets; other texts leave it as it is. -/
def newDir (text : List UInt8) (dir : ℤ) : ℤ :=
  if strncmpEq text (ascii ['u', 'p']) 2 then 1
  else if strncmpEq text (ascii ['d', 'o', 'w', 'n']) 4 then -1
  else if strncmpEq text (ascii ['s', 't', 'o', 'p']) 4 then 0
  else dir

def ioWriteCount (ocb : ℕ) (bytes : List UInt8) : HandlerM L Return := do
  if (← get).offset ocb = 0 then
    let size := writeSize bytes
    lockMutex
    msgread bytes size
    storeBuf size 0
    setNbytes (← strlenBuf)
    setOffset ocb 1
    modify fun s => { s with dir := newDir s.buf.bytes s.dir }
    unlockMutex
    return .nparts 0
  else
    setNbytes 0
    return .nparts 0

/-- A blocking read of an empty queue parks its client. Whether the id could be recorded
is not looked at. -/
def ioReadFifo (ocb : ℕ) (verify : ℤ) (nonblock : Bool) : HandlerM L Return := do
  if (← get).offset ocb = 0 then
    if verify ≠ EOK then
      return .status verify
    lockQueue
    if fifoStatus (← get).queue = 0 then
      unlockQueue
      if nonblock then
        setNbytes 0
        return .nparts 0
      else
        let _ ← addBlockedId (← get).ctp.rcvid
        return .noreply
    remString
    setIov (← strlenBuf)
    setNbytes (← strlenBuf)
    unlockQueue
    setOffset ocb 1
    return .nparts 1
  else
    setNbytes 0
    return .nparts 0

/-- The offset that is set is the one in the writer's context. -/
def respondToBlockedClient (client : ℤ) : HandlerM L Unit := do
  if client = -1 then
    return
  remString
  setIov (← strlenBuf)
  setNbytes (← strlenBuf)
  modify fun s => { s with ctp := { s.ctp with offset := 1 } }
  msgReply client (← strlenBuf)

def ioWriteFifo (ocb : ℕ) (bytes : List UInt8) : HandlerM L Return := do
  if (← get).offset ocb = 0 then
    let size := writeSize bytes
    lockQueue
    msgread bytes size
    storeBuf size 0
    let _ ← addString
    setNbytes (← strlenBuf)
    respondToBlockedClient (← remBlockedId)
    unlockQueue
    setOffset ocb 1
    return .nparts 0
  else
    setNbytes 0
    return .nparts 0

/-! ## Dispatch -/

structure Request where
  rcvid : ℤ
  ocb : ℕ
  msg : Msg
  rcvid_pos : 0 < rcvid

/-- The handlers that `main` can install for reads and writes. -/
inductive IoFuncs where
  | str
  | count
  | fifo
deriving DecidableEq, Repr

def IoFuncs.handle (io : IoFuncs) (ocb : ℕ) : Msg → HandlerM L Return
  | .read verify nonblock =>
    match io with
    | .str => ioReadStr ocb
    | .count => ioReadCount ocb
    | .fifo => ioReadFifo ocb verify nonblock
  | .write bytes =>
    match io with
    | .str => ioWriteStr ocb bytes
    | .count => ioWriteCount ocb bytes
    | .fifo => ioWriteFifo ocb bytes

/-- What comes of a request: the reply to its client, with the bytes that `iov` points to
when it has parts, and the events on the way. -/
structure Outcome where
  ret : Return
  nbytes : ℕ
  data : List UInt8
  events : List Event
deriving DecidableEq, Repr

/-- `dispatch_handler`: the handler runs in a context of its own, and its return value
decides how the client is answered. -/
def dispatch (io : IoFuncs) (r : Request) : HandlerM L Outcome := do
  modify fun s => { s with
    ctp := { rcvid := r.rcvid, iov := 0, nbytes := 0, offset := 0 }, events := [] }
  let ret ← io.handle r.ocb r.msg
  let s ← get
  let data := if ret = .nparts 1 then s.buf.bytes.take s.ctp.iov else []
  return { ret := ret, nbytes := s.ctp.nbytes, data := data, events := s.events }

def helloWorld : List UInt8 :=
  ascii ['H', 'e', 'l', 'l', 'o', ' ', 'W', 'o', 'r', 'l', 'd', '\n']

/-- The server when it starts to wait for messages. `queue` is the queue's memory before
`init_fifo`. -/
def boot (queue : Fifo L) : Server L where
  buf := ⟨helloWorld ++ List.replicate (BUFFER_MAX_SIZE + 1 - 12) 0, by
    rw [List.length_append, List.length_replicate]
    rfl⟩
  count := 0
  dir := 0
  mutex := false
  queue := initFifo queue
  offset _ := 0
  ctp := { rcvid := 0, iov := 0, nbytes := 0, offset := 0 }
  events := []

end RealTime.ResourceManager
