import Mathlib.Data.List.Basic
import Mathlib.Logic.Function.Basic

/-! # The interrupt routine and the main loop of the AVR32 program

The statements of the loop are taken one at a time. The interrupt routine runs as a whole
between two of them. -/

namespace RealTime.Interrupts

/-- The three pairs of a test pin and a response pin. -/
inductive Pin where
  | A
  | B
  | C
deriving DecidableEq, Repr

/-- The pin tested after this one fails its test; after `C` the loop starts again. -/
def Pin.next : Pin → Pin
  | .A => .B
  | .B => .C
  | .C => .A

/-- The statements of the main loop. -/
inductive Statement where
  | test (p : Pin)
  | setPinLow (p : Pin)
  | busyDelay (p : Pin)
  | setPinHigh (p : Pin)
  | clear (p : Pin)
deriving DecidableEq, Repr

/-- The top of an iteration. -/
def top : Statement := .test .A

/-- An edge on a test pin, and the start of a pulse on a response pin. -/
inductive Event where
  | edge (p : Pin)
  | pulse (p : Pin)
deriving DecidableEq, Repr

/-- `flag` are the variables `A`, `B` and `C`, `interruptFlag` the flags of the test pins,
`response` the levels of the response pins. `statement` is the next one of the loop. -/
structure Board where
  flag : Pin → Bool
  interruptFlag : Pin → Bool
  response : Pin → Bool
  statement : Statement
  history : List Event

/-- After `initPins` and `initInterrupts`. -/
def init : Board where
  flag _ := false
  interruptFlag _ := false
  response _ := true
  statement := top
  history := []

/-- A falling edge on a test pin. -/
def edge (b : Board) (p : Pin) : Board :=
  { b with
    interruptFlag := Function.update b.interruptFlag p true
    history := b.history ++ [.edge p] }

/-- The branch of the interrupt routine for one pin. -/
def take (b : Board) (p : Pin) : Board :=
  { b with
    flag := Function.update b.flag p true
    interruptFlag := Function.update b.interruptFlag p false }

def interruptJ3 (b : Board) : Board :=
  if b.interruptFlag .A then take b .A
  else if b.interruptFlag .B then take b .B
  else if b.interruptFlag .C then take b .C
  else b

/-- One statement of the main loop. -/
def bigwhile (b : Board) : Board :=
  match b.statement with
  | .test p => { b with statement := if b.flag p then .setPinLow p else .test p.next }
  | .setPinLow p =>
    { b with
      response := Function.update b.response p false
      history := b.history ++ [.pulse p]
      statement := .busyDelay p }
  | .busyDelay p => { b with statement := .setPinHigh p }
  | .setPinHigh p =>
    { b with
      response := Function.update b.response p true
      statement := .clear p }
  | .clear p =>
    { b with
      flag := Function.update b.flag p false
      statement := top }

/-- What can happen next. -/
inductive Action where
  | edge (p : Pin)
  | interrupt
  | loop
deriving DecidableEq, Repr

def act (b : Board) : Action → Board
  | .edge p => edge b p
  | .interrupt => interruptJ3 b
  | .loop => bigwhile b

end RealTime.Interrupts
