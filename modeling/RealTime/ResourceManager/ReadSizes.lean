import RealTime.ResourceManager.SharedBuffer

/-! # What a read reports

A client asks for at most `n` bytes. The system copies no more than that into its buffer,
and `read` returns the number of bytes that the handler reports. No read handler looks at
`msg->i.nbytes`, and neither does the reply to a parked client. -/

namespace RealTime.ResourceManager

open Service Transition

variable {L : ℕ}

/-- What a client gets for a read: the bytes it asked for, those reported and the data. -/
structure Reply where
  asked : ℕ
  reported : ℕ
  data : List UInt8

/-- What gets into the buffer of the client. -/
def Reply.received (p : Reply) : List UInt8 := p.data.take p.asked

/-- The client is told how many bytes are in its buffer. -/
def Reply.Honest (p : Reply) : Prop := p.reported ≤ p.asked ∧ p.reported = p.received.length

/-- The replies that a request leads to: the one to its own client, if it reads, and those
to parked clients. -/
def replies (asked : ℤ → ℕ) (n : ℕ) (r : Request) (o : Outcome) : List Reply :=
  (match r.msg, o.ret with
    | .read _ _, .nparts _ => [⟨n, o.nbytes, o.data⟩]
    | _, _ => []) ++
  o.events.filterMap fun
    | .msgReply client data => some ⟨asked client, data.length, data⟩
    | _ => none

/-- The server, with the number of bytes that each client has asked for last. -/
structure Sized (L : ℕ) where
  server : Server L
  asked : ℤ → ℕ

/-- The sizes after an input that comes with a size. -/
def resize (asked : ℤ → ℕ) (n : ℕ) : Input → ℤ → ℕ
  | .request _ r =>
    match r.msg with
    | .read _ _ => Function.update asked r.rcvid n
    | .write _ => asked
  | _ => asked

def SizedStep [NeZero L] (s : Sized L) (i : Input × ℕ) (t : Sized L) : Prop :=
  Passes s.server i.1 t.server ∧ t.asked = resize s.asked i.2 i.1

/-- All replies that come of the input are honest. -/
def HonestReplies [NeZero L] (s : Sized L) (i : Input × ℕ) : Prop :=
  ∀ io r o t, i.1 = .request io r → (dispatch io r).run s.server.released = .ok (o, t) →
    ∀ p ∈ replies s.asked i.2 r o, p.Honest

/-- The oldest text of the queue, to which a write has added its own, is not longer than
what its reader asked for. -/
def FitsQueue (messages : List (List UInt8)) (waiting : List ℤ) (asked : ℤ → ℕ) (n : ℕ) :
    Msg → Prop
  | .read verify _ => verify = EOK → ∀ text ∈ messages.head?, text.length ≤ n
  | .write bytes => ∀ client ∈ waiting.head?, ∀ text ∈ (messages ++ [payload bytes]).head?,
      text.length ≤ asked client

/-- The text that answers a read is not longer than what its client asked for. -/
def FitsReader (s : Sized L) (i : Input × ℕ) : Prop :=
  match i.1 with
  | .request io r => s.server.offset r.ocb = 0 →
    match io, r.msg with
    | .fifo, msg =>
        FitsQueue s.server.queue.queuedTexts s.server.queue.recordedIds s.asked i.2 msg
    | io, .read _ _ => (plainText s.server io).length ≤ i.2
    | _, .write _ => True
  | _ => True

/-! ## One reply -/

variable {asked : ℤ → ℕ} {n : ℕ} {text : List UInt8} {m m' : Service} {r : Request}
  {o : Outcome}

theorem honest_text : (⟨n, text.length, text⟩ : Reply).Honest ↔ text.length ≤ n := by
  constructor
  · exact And.left
  · intro hle
    refine ⟨hle, ?_⟩
    rw [Reply.received, List.take_of_length_le hle]

theorem honest_nothing : (⟨n, 0, []⟩ : Reply).Honest := ⟨Nat.zero_le n, by simp [Reply.received]⟩

theorem Service.exists_offer_head (m : Service) (bytes : List UInt8)
    {rest : List (List UInt8)} (hm : m.offer L (payload bytes) = text :: rest) :
    (m.messages ++ [payload bytes]).head? = some text := by
  unfold offer at hm
  split at hm
  · rw [hm, List.head?_cons]
  · rw [hm, List.cons_append, List.head?_cons]

/-- The replies of the queue are honest exactly when its oldest text fits. -/
theorem Service.Serves.honest_iff (hs : Serves L m r o m') :
    (∀ p ∈ replies asked n r o, p.Honest) ↔
      (m.atEnd r.ocb = false → FitsQueue m.messages m.waiting asked n r.msg) := by
  cases hs with
  | atEnd hend =>
      cases hmsg : r.msg <;> simp [replies, hmsg, hend, honest_nothing]
  | refused hopen hmsg hverify => simp [replies, hmsg, FitsQueue, hverify]
  | text hopen hmsg hm =>
      simp [replies, hmsg, hopen, FitsQueue, hm, honest_text]
  | nothing hopen hmsg hm => simp [replies, hmsg, FitsQueue, hm, honest_nothing]
  | parked hopen hmsg hm hroom => simp [replies, hmsg, FitsQueue, hm]
  | forgotten hopen hmsg hm hfull => simp [replies, hmsg, FitsQueue, hm]
  | stored hopen hmsg hw => simp [replies, hmsg, FitsQueue, hw]
  | @passed bytes id rest text texts hopen hmsg hw hm =>
      have hhead := m.exists_offer_head bytes hm
      simp [replies, hmsg, hopen, FitsQueue, hw, hhead, honest_text]

/-! ## One request -/

variable [NeZero L] {s t : Sized L} {io : IoFuncs}

/-- A handler that returns has made the replies that are looked at. -/
theorem honestReplies_iff {u : Server L}
    (hrun : (dispatch io r).run s.server.released = .ok (o, u)) :
    HonestReplies s (.request io r, n) ↔ ∀ p ∈ replies s.asked n r o, p.Honest := by
  constructor
  · intro h
    exact h io r o u rfl hrun
  · intro h io' r' o' u' heq hrun'
    cases heq
    cases hrun.symm.trans hrun'
    exact h

/-- The three read paths and the deferred reply. -/
theorem Ready.honest_iff (h : Ready s.server.released m) (i : Input × ℕ) :
    HonestReplies s i ↔ FitsReader s i := by
  obtain ⟨i, n⟩ := i
  cases i with
  | count k => exact iff_of_true (fun io r o t heq => by cases heq) trivial
  | seek ocb offset => exact iff_of_true (fun io r o t heq => by cases heq) trivial
  | request io r =>
      by_cases hopen : s.server.offset r.ocb = 0
      · by_cases hio : io = .fifo
        · subst hio
          obtain ⟨o, u, m', hrun, hserves, -⟩ := dispatch_fifo h r
          have hqueue : s.server.released.queue = s.server.queue := rfl
          have hmessages := h.queuedTexts
          have hwaiting := h.recordedIds
          rw [hqueue] at hmessages hwaiting
          rw [honestReplies_iff hrun, hserves.honest_iff, FitsReader, hmessages, hwaiting]
          simp [h.atEnd_iff.mpr hopen, hopen]
        · cases hmsg : r.msg with
          | read verify nonblock =>
              obtain ⟨u, hrun, -⟩ := dispatch_readPlain h hopen hmsg hio
              have hplain : plainText s.server.released io = plainText s.server io := by
                cases io <;> rfl
              rw [honestReplies_iff hrun, hplain]
              cases io <;> simp_all [FitsReader, replies, honest_text]
          | write bytes =>
              have hfits : FitsReader s (.request io r, n) := by
                cases io <;> simp_all [FitsReader]
              refine iff_of_true ?_ hfits
              cases io with
              | str =>
                  intro io' r' o' u' heq hrun
                  cases heq
                  cases (dispatch_writeStr h hopen hmsg).symm.trans hrun
              | count =>
                  obtain ⟨u, hrun, -⟩ := dispatch_writeCount h hopen hmsg
                  rw [honestReplies_iff hrun]
                  simp [replies, hmsg]
              | fifo => exact absurd rfl hio
      · have hrun := dispatch_atEnd (s := s.server.released) io hopen
        have hfits : FitsReader s (.request io r, n) := fun h => absurd h hopen
        refine iff_of_true ((honestReplies_iff hrun).mpr ?_) hfits
        cases hmsg : r.msg <;> simp [replies, hmsg, honest_nothing]

/-! ## Every run -/

theorem Ready.sized {is : List (Input × ℕ)} (h : Ready s.server.released m)
    (hruns : Runs SizedStep s is t) : ∃ m', Ready t.server.released m' :=
  hruns.invariant (P := fun s : Sized L => ∃ m, Ready s.server.released m)
    (fun _ _ _ hs hp => hs.elim fun _ hm => hm.passes hp.1) ⟨m, h⟩

/-- In every state of every run, the replies that a request leads to report what the
clients receive, and no more than they asked for, exactly when the text of the reply is not
longer than that. -/
theorem replies_honest_iff (queue : Fifo L) (asked : ℤ → ℕ) {is : List (Input × ℕ)} {s : Sized L}
    (h : Runs SizedStep ⟨boot queue, asked⟩ is s) (i : Input × ℕ) :
    HonestReplies s i ↔ FitsReader s i := by
  have hboot : Ready (boot queue).released .init := (ready_boot queue).released
  obtain ⟨m, hs⟩ := Ready.sized (s := ⟨boot queue, asked⟩) hboot h
  exact hs.honest_iff i

/-- A client asks for 100 bytes and is parked. -/
theorem replies_honest_iff_of_one_read :
    ∃ s : Sized LENGTH,
      Runs SizedStep ⟨boot .zero, fun _ => 0⟩ [(.request .fifo (.read 1 1), 100)] s ∧
      ∀ i, HonestReplies s i ↔ FitsReader s i := by
  obtain ⟨o, t, m, hread, -⟩ :=
    dispatch_fifo (ready_boot (.zero : Fifo LENGTH)).released (.read 1 1)
  have hruns : Runs SizedStep ⟨boot (.zero : Fifo LENGTH), fun _ => 0⟩
      [(.request .fifo (.read 1 1), 100)] ⟨t, Function.update (fun _ => 0) 2 100⟩ :=
    .cons ⟨.served (by rw [serve, hread]), rfl⟩ (.nil _)
  exact ⟨_, hruns, fun i => replies_honest_iff .zero (fun _ => 0) hruns i⟩

/-- A message of 150 bytes is written, and `ov9Reader` asks for 100 bytes. -/
theorem hundred_and_fifty_reported :
    ∃ s : Sized LENGTH,
      Runs SizedStep ⟨boot .zero, fun _ => 0⟩
        [(.request .fifo (.write 1 1 (List.replicate 150 'x')), 150)] s ∧
      (∃ o u, (dispatch .fifo (.read 2 2)).run s.server.released = .ok (o, u) ∧
        replies s.asked 100 (.read 2 2) o = [⟨100, 150, ascii (List.replicate 150 'x')⟩]) ∧
      ¬ HonestReplies s (.request .fifo (.read 2 2), 100) := by
  have hboot := (ready_boot (.zero : Fifo LENGTH)).released
  obtain ⟨o, t, m, hwrite, hstored, ht⟩ :=
    dispatch_fifo hboot (.write 1 1 (List.replicate 150 'x'))
  obtain ⟨-, rfl⟩ := hstored.unique (.stored rfl rfl rfl)
  obtain ⟨o', u, m', hread, htext, -⟩ := dispatch_fifo ht.released (.read 2 2)
  have houtcome := (htext.unique (.text rfl rfl rfl)).1
  have hreplies : replies (fun _ => 0) 100 (.read 2 2) o' =
      [⟨100, 150, ascii (List.replicate 150 'x')⟩] := by
    rw [houtcome]
    rfl
  have hstep : SizedStep ⟨boot (.zero : Fifo LENGTH), fun _ => 0⟩
      (.request .fifo (.write 1 1 (List.replicate 150 'x')), 150) ⟨t, fun _ => 0⟩ :=
    ⟨.served (by rw [serve, hwrite]), rfl⟩
  refine ⟨⟨t, fun _ => 0⟩, .cons hstep (.nil _), ⟨o', u, hread, hreplies⟩, ?_⟩
  intro hhonest
  have hreply := hhonest .fifo (.read 2 2) o' u rfl hread _
    (hreplies.symm ▸ List.mem_singleton_self _)
  exact absurd hreply.1 (by decide)

end RealTime.ResourceManager
