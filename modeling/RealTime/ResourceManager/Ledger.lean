import RealTime.ResourceManager.Service

/-! # What the clients of the queue see

The ledger of a run adds up what the outcomes of its requests show: the messages taken in
and handed out, the clients recorded, left without an answer and answered, and the open
files that have been given a message. -/

namespace RealTime.ResourceManager

open Service

/-- The message a request has put into the queue. -/
def Outcome.accepted (o : Outcome) (r : Request) : List (List UInt8) :=
  match r.msg with
  | .read _ _ => []
  | .write bytes => if .addString true ∈ o.events then [payload bytes] else []

/-- The messages handed to readers, in the reply to the request or to another client. -/
def Outcome.delivered (o : Outcome) : List (List UInt8) :=
  (o.events.filterMap fun
    | .msgReply _ data => some data
    | _ => none) ++ if o.ret = .nparts 1 then [o.data] else []

def Outcome.recorded (o : Outcome) : List ℤ :=
  o.events.filterMap fun
    | .addBlockedId id true => some id
    | _ => none

def Outcome.answered (o : Outcome) : List ℤ :=
  o.events.filterMap fun
    | .msgReply client _ => some client
    | _ => none

/-- `parked` are the clients that have got no answer yet, with the open file they read.
`deferred` are the open files whose reader has been answered after being parked. -/
structure Ledger where
  accepted : List (List UInt8)
  delivered : List (List UInt8)
  recorded : List ℤ
  answered : List ℤ
  parked : List (ℤ × ℕ)
  direct : List ℕ
  deferred : List ℕ

namespace Ledger

def empty : Ledger := ⟨[], [], [], [], [], [], []⟩

/-- The client with this id has been answered. -/
def unpark (parked : List (ℤ × ℕ)) (client : ℤ) : List (ℤ × ℕ) :=
  parked.eraseP fun p => p.1 = client

def record (l : Ledger) (r : Request) (o : Outcome) : Ledger where
  accepted := l.accepted ++ o.accepted r
  delivered := l.delivered ++ o.delivered
  recorded := l.recorded ++ o.recorded
  answered := l.answered ++ o.answered
  parked := o.answered.foldl unpark l.parked ++
    if o.ret = .noreply then [(r.rcvid, r.ocb)] else []
  direct := l.direct ++ if o.ret = .nparts 1 then [r.ocb] else []
  deferred := l.deferred ++ o.answered.filterMap fun client =>
    (l.parked.find? fun p => p.1 = client).map Prod.snd

/-- The open files through which a read has been given a message. -/
def given (l : Ledger) : List ℕ := l.direct ++ l.deferred

end Ledger

/-! ## Accounting -/

variable {L : ℕ} {m m' : Service} {l : Ledger} {r : Request} {o : Outcome}

/-- No message is lost, made up or overtaken by a single request. -/
theorem Service.Serves.conserves_messages (hs : Serves L m r o m') :
    m.messages ++ o.accepted r = o.delivered ++ m'.messages := by
  cases hs with
  | atEnd hend => cases hmsg : r.msg <;> simp [Outcome.accepted, Outcome.delivered, hmsg]
  | refused hopen hmsg hverify => simp [Outcome.accepted, Outcome.delivered, hmsg]
  | text hopen hmsg hm => simp [Outcome.accepted, Outcome.delivered, hmsg, hm]
  | nothing hopen hmsg hm => simp [Outcome.accepted, Outcome.delivered, hmsg]
  | parked hopen hmsg hm hroom => simp [Outcome.accepted, Outcome.delivered, hmsg]
  | forgotten hopen hmsg hm hfull => simp [Outcome.accepted, Outcome.delivered, hmsg]
  | stored hopen hmsg hw =>
      cases hroom : m.hasRoom L <;>
        simp [Outcome.accepted, Outcome.delivered, hmsg, offer, hroom]
  | passed hopen hmsg hw hm =>
      simp only [Outcome.delivered, List.filterMap_cons, List.filterMap_nil]
      cases hroom : m.hasRoom L <;>
        simpa [Outcome.accepted, hmsg, offer, hroom] using hm

/-- Nor is a recorded client. -/
theorem Service.Serves.conserves_clients (hs : Serves L m r o m') :
    m.waiting ++ o.recorded = o.answered ++ m'.waiting := by
  cases hs with
  | stored hopen hmsg hw => simp [Outcome.recorded, Outcome.answered, close]
  | passed hopen hmsg hw hm => simp [Outcome.recorded, Outcome.answered, hw]
  | _ => simp [Outcome.recorded, Outcome.answered, close]

/-- Clients wait only for want of messages. -/
theorem Service.Serves.served (hs : Serves L m r o m') (h : m.waiting ≠ [] → m.messages = []) :
    m'.waiting ≠ [] → m'.messages = [] := by
  cases hs with
  | text hopen hmsg hm =>
      intro hw
      cases hm.symm.trans (h hw)
  | parked hopen hmsg hm hroom => exact fun _ => hm
  | stored hopen hmsg hw => exact fun hw' => absurd hw hw'
  | @passed bytes id rest text texts hopen hmsg hw hm =>
      have hnone : m.messages = [] := h (by simp [hw])
      have hone : (m.offer L (payload bytes)).length ≤ 1 := by
        unfold offer
        split <;> simp [hnone]
      rw [hm, List.length_cons] at hone
      exact fun _ => List.eq_nil_of_length_eq_zero (Nat.le_zero.mp (Nat.le_of_succ_le_succ hone))
  | _ => exact h

/-- What has been handed out and what is still there is what has been taken in. -/
structure Accounts (m : Service) (l : Ledger) : Prop where
  delivered : l.delivered ++ m.messages = l.accepted
  answered : l.answered ++ m.waiting = l.recorded
  served : m.waiting ≠ [] → m.messages = []

theorem accounts_init : Accounts .init .empty where
  delivered := rfl
  answered := rfl
  served _ := rfl

theorem Accounts.serves (h : Accounts m l) (hs : Serves L m r o m') :
    Accounts m' (l.record r o) where
  delivered := by
    simp only [Ledger.record]
    rw [List.append_assoc, ← hs.conserves_messages, ← List.append_assoc, h.delivered]
  answered := by
    simp only [Ledger.record]
    rw [List.append_assoc, ← hs.conserves_clients, ← List.append_assoc, h.answered]
  served := hs.served h.served

end RealTime.ResourceManager
