import RealTime.ResourceManager.Handlers

/-! # The queue server as a service

The service that the FIFO handlers provide, in terms of texts and clients: a bounded
queue of texts, a bounded queue of waiting clients and the open files that have reached
their end of file. -/

namespace RealTime.ResourceManager

structure Service where
  messages : List (List UInt8)
  waiting : List ℤ
  atEnd : ℕ → Bool

/-- The text that is kept of a message. -/
def payload (bytes : List UInt8) : List UInt8 := cstr (bytes.take WIDTH)

namespace Service

def init : Service where
  messages := []
  waiting := []
  atEnd _ := false

def close (m : Service) (ocb : ℕ) : Service :=
  { m with atEnd := Function.update m.atEnd ocb true }

def hasRoom (L : ℕ) (m : Service) : Bool := m.messages.length < L

/-- The texts after a write has tried to add its own. -/
def offer (L : ℕ) (m : Service) (text : List UInt8) : List (List UInt8) :=
  if m.hasRoom L then m.messages ++ [text] else m.messages

/-- The ways to serve a request. A client is forgotten if there is no room to record it. -/
inductive Serves (L : ℕ) (m : Service) (r : Request) : Outcome → Service → Prop where
  | atEnd (hend : m.atEnd r.ocb = true) : Serves L m r ⟨.nparts 0, 0, [], []⟩ m
  | refused {verify nonblock} (hopen : m.atEnd r.ocb = false)
      (hmsg : r.msg = .read verify nonblock) (hverify : verify ≠ EOK) :
      Serves L m r ⟨.status verify, 0, [], []⟩ m
  | text {nonblock text rest} (hopen : m.atEnd r.ocb = false)
      (hmsg : r.msg = .read EOK nonblock) (hm : m.messages = text :: rest) :
      Serves L m r ⟨.nparts 1, text.length, text, []⟩ { m.close r.ocb with messages := rest }
  | nothing (hopen : m.atEnd r.ocb = false) (hmsg : r.msg = .read EOK true)
      (hm : m.messages = []) : Serves L m r ⟨.nparts 0, 0, [], []⟩ m
  | parked (hopen : m.atEnd r.ocb = false) (hmsg : r.msg = .read EOK false)
      (hm : m.messages = []) (hroom : m.waiting.length < L) :
      Serves L m r ⟨.noreply, 0, [], [.addBlockedId r.rcvid true]⟩
        { m with waiting := m.waiting ++ [r.rcvid] }
  | forgotten (hopen : m.atEnd r.ocb = false) (hmsg : r.msg = .read EOK false)
      (hm : m.messages = []) (hfull : ¬ m.waiting.length < L) :
      Serves L m r ⟨.noreply, 0, [], [.addBlockedId r.rcvid false]⟩ m
  | stored {bytes} (hopen : m.atEnd r.ocb = false) (hmsg : r.msg = .write bytes)
      (hw : m.waiting = []) :
      Serves L m r ⟨.nparts 0, (payload bytes).length, [], [.addString (m.hasRoom L)]⟩
        { m.close r.ocb with messages := m.offer L (payload bytes) }
  | passed {bytes id rest text texts} (hopen : m.atEnd r.ocb = false)
      (hmsg : r.msg = .write bytes) (hw : m.waiting = id :: rest)
      (hm : m.offer L (payload bytes) = text :: texts) :
      Serves L m r
        ⟨.nparts 0, text.length, [], [.addString (m.hasRoom L), .msgReply id text]⟩
        { m.close r.ocb with messages := texts, waiting := rest }

variable {L : ℕ} {m m₁ m₂ : Service} {r : Request} {o₁ o₂ : Outcome}

/-- A text that is offered to an empty queue is the only one there. -/
theorem offer_of_nil [NeZero L] (hm : m.messages = []) (text : List UInt8) :
    m.offer L text = [text] := by
  have hroom : m.hasRoom L = true := by
    simpa [hasRoom, hm] using Nat.pos_of_neZero L
  simp [offer, hroom, hm]

/-- A request can be served in one way only. -/
theorem Serves.unique (h₁ : Serves L m r o₁ m₁) (h₂ : Serves L m r o₂ m₂) :
    o₁ = o₂ ∧ m₁ = m₂ := by
  -- any two ways differ in the message, the end of the file or what is in the queues
  cases h₁ <;> cases h₂ <;> simp_all

end Service

end RealTime.ResourceManager
