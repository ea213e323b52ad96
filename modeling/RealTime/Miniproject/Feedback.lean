import Mathlib.Data.Rat.Defs
import Mathlib.Logic.Function.Basic
import RealTime.Library.Buffer
import RealTime.Library.Transition

/-! # Asking for a measurement

`PIController` sends a `GET` and waits for the semaphore `receiveY`, which `udpReceiver`
posts when it finds a `GET_ACK` in its buffer. The two threads share `g_y`. Datagrams may
be lost, delayed and reordered. The server answers each `GET` it receives at most once,
and may send other datagrams at any time. -/

namespace RealTime.Miniproject

open Transition

def UDP_RECV_BUF_LEN : ℕ := 255

def getAck : List UInt8 := ascii ['G', 'E', 'T', '_', 'A', 'C', 'K']

def signal : List UInt8 := ascii ['S', 'I', 'G', 'N', 'A', 'L']

/-- `strncmp(data,"GET_ACK",7)==0`. -/
def isGetAck (data : List UInt8) : Bool := strncmpEq data getAck 7

/-- `strncmp(data,"SIGNAL",6)==0`. -/
def isSignal (data : List UInt8) : Bool := strncmpEq data signal 6

/-- The string at `&data[8]`. -/
def ackText (data : List UInt8) : List UInt8 := cstr (data.drop 8)

/-- A datagram on its way to the client. `answers` is the number of the `GET` that it is
the answer to, if it is one. -/
structure Datagram where
  bytes : List UInt8
  answers : Option ℕ
deriving DecidableEq, Repr

/-- What is under way outside the client: a `GET` on its way, a `GET` that the server has
received and not answered, or a datagram to the client. -/
inductive Item where
  | get (k : ℕ)
  | asked (k : ℕ)
  | datagram (d : Datagram)
deriving DecidableEq, Repr

/-- Where `PIController` stands. `get` and `wait` are the two calls in `waitForNewFeedback`. -/
inductive PiPc where
  | start
  | test
  | get
  | wait
  | control
  | set
  | sleep
  | stop
  | done
deriving DecidableEq, Repr

/-- Where `udpReceiver` stands, with the datagram it has received last. -/
inductive RecvPc where
  | test
  | recv
  | check (d : Datagram)
  | setY (d : Datagram)
  | post (d : Datagram)
  | puts
  | signal
  | exit
deriving DecidableEq, Repr

/-- `gets` counts the `GET`s sent, `acks` are the datagrams they have been answered with and
`used` the values of `g_y` in the control computations. -/
structure State where
  pi : PiPc
  receiver : RecvPc
  receiveY : ℕ
  receiveSignal : ℕ
  gY : ℚ
  data : Buffer UDP_RECV_BUF_LEN
  running : Bool
  underway : List Item
  gets : ℕ
  acks : ℕ → Option (List UInt8)
  used : List ℚ

/-- Whatever is in the receiver's buffer to begin with. -/
def init (data : Buffer UDP_RECV_BUF_LEN) : State where
  pi := .start
  receiver := .test
  receiveY := 0
  receiveSignal := 0
  gY := 0
  data := data
  running := true
  underway := []
  gets := 0
  acks _ := none
  used := []

/-! ## Steps -/

/-- `pi again` is a step of `PIController`, where `again` is the outcome of its test of the
time. `receiver` is a step of `udpReceiver` and `receive` the return of its `recvfrom`.
`respond` is a round of `signalResponse`, `shutdown` the end of the join in `main`. The
others are steps of the network and of the server. -/
inductive Action where
  | pi (again : Bool)
  | receiver
  | receive (d : Datagram)
  | respond
  | shutdown
  | arrive (k : ℕ)
  | answer (k : ℕ) (bytes : List UInt8)
  | other (bytes : List UInt8)
  | lose (i : Item)
deriving DecidableEq, Repr

/-- The measurement in the text of a `GET_ACK`. `atof` reads a number off a string. -/
def measured (atof : List UInt8 → ℚ) (data : List UInt8) : ℚ := atof (ackText data)

def stepPi (s : State) (again : Bool) : Option State :=
  match s.pi with
  | .start => some { s with pi := .test }
  | .test => some { s with pi := if again then .get else .stop }
  | .get => some { s with
      pi := .wait, underway := s.underway ++ [.get s.gets], gets := s.gets + 1 }
  | .wait => if 0 < s.receiveY then
      some { s with pi := .control, receiveY := s.receiveY - 1 } else none
  | .control => some { s with pi := .set, used := s.used ++ [s.gY] }
  | .set => some { s with pi := .sleep }
  | .sleep => some { s with pi := .test }
  | .stop => some { s with pi := .done }
  | .done => none

def stepReceiver (atof : List UInt8 → ℚ) (s : State) : Option State :=
  match s.receiver with
  | .test => some { s with receiver := if s.running then .recv else .exit }
  | .recv => none
  | .check d => some { s with
      receiver :=
        if isGetAck s.data.bytes then .setY d
        else if isSignal s.data.bytes then .signal else .test }
  | .setY d => some { s with gY := measured atof s.data.bytes, receiver := .post d }
  | .post _ => some { s with receiveY := s.receiveY + 1, receiver := .puts }
  | .puts => some { s with receiver := .test }
  | .signal => some { s with receiveSignal := s.receiveSignal + 1, receiver := .test }
  | .exit => none

/-- `udp_receive` overwrites the start of the buffer. An empty datagram is ignored. -/
def receive (s : State) (d : Datagram) : Option State :=
  if s.receiver = .recv ∧ .datagram d ∈ s.underway then do
    let data ← s.data.copy (d.bytes.take UDP_RECV_BUF_LEN)
    return { s with
      data := data
      underway := s.underway.erase (.datagram d)
      receiver := if 0 < d.bytes.length then .check d else .test }
  else none

def step (atof : List UInt8 → ℚ) (s : State) (a : Action) : Option State :=
  match a with
  | .pi again => stepPi s again
  | .receiver => stepReceiver atof s
  | .receive d => receive s d
  | .respond => if 0 < s.receiveSignal then
      some { s with receiveSignal := s.receiveSignal - 1 } else none
  | .shutdown => if s.pi = .done then some { s with running := false } else none
  | .arrive k => if .get k ∈ s.underway then
      some { s with underway := s.underway.erase (.get k) ++ [.asked k] } else none
  | .answer k bytes => if .asked k ∈ s.underway ∧ isGetAck bytes = true then
      some { s with
        underway := s.underway.erase (.asked k) ++ [.datagram ⟨bytes, some k⟩]
        acks := Function.update s.acks k (some bytes) } else none
  | .other bytes => if isGetAck bytes = false then
      some { s with underway := s.underway ++ [.datagram ⟨bytes, none⟩] } else none
  | .lose i => if i ∈ s.underway then
      some { s with underway := s.underway.erase i } else none

def Step (atof : List UInt8 → ℚ) (s : State) (a : Action) (t : State) : Prop :=
  step atof s a = some t

/-! ## What is outstanding -/

/-- Part of the exchange of a `GET` and its `GET_ACK`. -/
def Item.exchange : Item → Bool
  | .get _ | .asked _ => true
  | .datagram d => d.answers.isSome

/-- The `GET_ACK`s that the receiver is handling. -/
def RecvPc.handling : RecvPc → ℕ
  | .check d => if d.answers.isSome then 1 else 0
  | .setY _ | .post _ => 1
  | _ => 0

/-- The `GET`s and `GET_ACK`s under way or being handled, and the units in `receiveY`. -/
def State.outstanding (s : State) : ℕ :=
  s.underway.countP Item.exchange + s.receiver.handling + s.receiveY

end RealTime.Miniproject
