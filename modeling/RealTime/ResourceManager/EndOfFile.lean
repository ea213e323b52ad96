import RealTime.ResourceManager.Delivery

/-! # End of file

After a read has been given a message, its open file is at the end: `io_read_fifo` sets
the offset of the file. `respond_to_blocked_client` sets an offset too, but that of the
writer's context, so that a reader which had to wait can read again. -/

namespace RealTime.ResourceManager

open Service Transition

variable {L : ℕ} {s t : Session L} {m m' : Service} {r : Request} {o : Outcome} {l : Ledger}

/-- A read through an open file that has been given a message returns zero bytes at once
and leaves both rings as they are. -/
def AtEnd [NeZero L] (s : Session L) (r : Request) (t : Session L) : Prop :=
  ∀ verify nonblock, r.msg = .read verify nonblock → r.ocb ∈ s.ledger.given →
    ∃ o, (dispatch .fifo r).run s.server = .ok (o, t.server) ∧ o.ret = .nparts 0 ∧ o.nbytes = 0 ∧
      t.server.queue.queuedTexts = s.server.queue.queuedTexts ∧
      t.server.queue.recordedIds = s.server.queue.recordedIds

/-- A read through an open file whose message came from `respond_to_blocked_client` finds
the offset set all the same, or does not wait and finds no message. -/
def OffsetSet (s : Session L) (r : Request) : Prop :=
  ∀ verify nonblock, r.msg = .read verify nonblock → r.ocb ∈ s.ledger.deferred →
    s.server.offset r.ocb ≠ 0 ∨
      verify = EOK ∧ nonblock = true ∧ ∀ i, s.server.queue.status i = 0

/-- The open files served directly are at their end. -/
theorem Service.Serves.direct (hs : Serves L m r o m')
    (h : ∀ ocb ∈ l.direct, m.atEnd ocb = true) :
    ∀ ocb ∈ (l.record r o).direct, m'.atEnd ocb = true := by
  have hclose : ∀ ocb, m.atEnd ocb = true → (m.close r.ocb).atEnd ocb = true := by
    intro ocb hocb
    by_cases heq : ocb = r.ocb <;> simp [close, heq, hocb]
  cases hs with
  | @text nonblock text rest hopen hmsg hm =>
      intro ocb hocb
      rcases List.mem_append.mp hocb with hold | hnew
      · exact hclose ocb (h ocb hold)
      · obtain rfl : ocb = r.ocb := by simpa using hnew
        simp [close]
  | stored hopen hmsg hw => simpa [Ledger.record] using fun ocb hocb => hclose ocb (h ocb hocb)
  | passed hopen hmsg hw hm =>
      simpa [Ledger.record] using fun ocb hocb => hclose ocb (h ocb hocb)
  | _ => simpa [Ledger.record] using h

def DirectAtEnd (s : Session L) : Prop :=
  ∃ m, Tracks s m ∧ ∀ ocb ∈ s.ledger.direct, m.atEnd ocb = true

/-- A read gets nothing and changes nothing if its file is at the end, or if it does not
wait and there is no message. -/
theorem Service.Serves.eq_of_idle (hs : Serves L m r o m') {verify : ℤ} {nonblock : Bool}
    (hmsg : r.msg = .read verify nonblock)
    (hidle : m.atEnd r.ocb = false → verify = EOK ∧ nonblock = true ∧ m.messages = []) :
    o = ⟨.nparts 0, 0, [], []⟩ ∧ m' = m := by
  cases hopen : m.atEnd r.ocb with
  | true => exact hs.unique (.atEnd hopen)
  | false =>
      obtain ⟨rfl, rfl, hm⟩ := hidle hopen
      exact hs.unique (.nothing hopen hmsg hm)

/-- Only such a read is answered with no parts. -/
theorem Service.Serves.idle_of_ret (hs : Serves L m r o m') {verify : ℤ} {nonblock : Bool}
    (hmsg : r.msg = .read verify nonblock) (hret : o.ret = .nparts 0)
    (hopen : m.atEnd r.ocb = false) : verify = EOK ∧ nonblock = true ∧ m.messages = [] := by
  cases hs with
  | atEnd hend => cases hopen.symm.trans hend
  | nothing _ hmsg' hm =>
      cases hmsg.symm.trans hmsg'
      exact ⟨rfl, rfl, hm⟩
  | stored _ hmsg' => cases hmsg.symm.trans hmsg'
  | passed _ hmsg' => cases hmsg.symm.trans hmsg'
  | _ => cases hret

variable [NeZero L]

theorem Answers.directAtEnd (ha : Answers s m r t o m')
    (h : ∀ ocb ∈ s.ledger.direct, m.atEnd ocb = true) : DirectAtEnd t := by
  have hdirect := ha.serves.direct h
  rw [← ha.ledger] at hdirect
  exact ⟨m', ha.tracks, hdirect⟩

theorem Answers.atEnd (ha : Answers s m r t o m') (h : Tracks s m)
    (hdirect : ∀ ocb ∈ s.ledger.direct, m.atEnd ocb = true) (hset : OffsetSet s r) :
    AtEnd s r t := by
  intro verify nonblock hmsg hgiven
  have hidle : m.atEnd r.ocb = false → verify = EOK ∧ nonblock = true ∧ m.messages = [] := by
    intro hopen
    rcases List.mem_append.mp hgiven with hd | hd
    · cases hopen.symm.trans (hdirect _ hd)
    · rcases hset verify nonblock hmsg hd with hoff | ⟨hverify, hnb, hnone⟩
      · exact absurd (h.provides.atEnd_iff.mp hopen) hoff
      · exact ⟨hverify, hnb, h.provides.no_strings.mp hnone⟩
  obtain ⟨rfl, rfl⟩ := ha.serves.eq_of_idle hmsg hidle
  exact ⟨_, ha.run, rfl, rfl,
    ha.tracks.provides.queuedTexts.trans h.provides.queuedTexts.symm,
    ha.tracks.provides.recordedIds.trans h.provides.recordedIds.symm⟩

theorem Answers.offsetSet (ha : Answers s m r t o m') (h : Tracks s m) (hend : AtEnd s r t) :
    OffsetSet s r := by
  intro verify nonblock hmsg hd
  obtain ⟨o', hrun, hret, -⟩ := hend verify nonblock hmsg (List.mem_append_right _ hd)
  obtain ⟨rfl, -⟩ : o' = o ∧ t.server = t.server := by
    simpa using hrun.symm.trans ha.run
  rcases Classical.em (s.server.offset r.ocb = 0) with hzero | hoff
  · obtain ⟨hverify, hnb, hm⟩ :=
      ha.serves.idle_of_ret hmsg hret (h.provides.atEnd_iff.mpr hzero)
    exact .inr ⟨hverify, hnb, h.provides.no_strings.mpr hm⟩
  · exact .inl hoff

/-- In a run, all reads through open files that have been given a message find the end of
file exactly when the offset is set for the deferred messages too. -/
theorem end_of_file_throughout_iff (queue : Fifo L) (rs : List Request) :
    Throughout Step AtEnd (start queue) rs ↔ Along Step OffsetSet (start queue) rs := by
  have hgood : ∀ (s : Session L) r, DirectAtEnd s → True → OffsetSet s r →
      ∃ t, Step s r t ∧ DirectAtEnd t ∧ AtEnd s r t := by
    rintro s r ⟨m, h, hdirect⟩ - hset
    obtain ⟨t, o, m', ha⟩ := h.answers r
    exact ⟨t, ha.step, ha.directAtEnd hdirect, ha.atEnd h hdirect hset⟩
  have hbad : ∀ (s : Session L) r t, DirectAtEnd s → True → ¬ OffsetSet s r → Step s r t →
      ¬ AtEnd s r t := by
    rintro s r t ⟨m, h, -⟩ - hset hstep hend
    obtain ⟨o, m', ha⟩ := h.answers_of_step hstep
    exact hset (ha.offsetSet h hend)
  have hstart : DirectAtEnd (start queue) := ⟨_, tracks_start queue, by
    simp [start, Ledger.empty]⟩
  exact throughout_iff_along step_deterministic hgood hbad hstart
    (Along.of_forall (fun _ _ => trivial) _ rs)

theorem end_of_file_throughout_iff_of_two_reads :
    Throughout Step AtEnd (start (.zero : Fifo LENGTH)) [.read 1 1, .read 2 1] ↔
      Along Step OffsetSet (start (.zero : Fifo LENGTH)) [.read 1 1, .read 2 1] :=
  end_of_file_throughout_iff .zero _

/-- A blocking read, the write that answers it and another read through the same open
file, which blocks again. -/
theorem second_read_blocks :
    ∃ s t : Session LENGTH, Runs Step (start .zero) [.read 1 1, .write 2 2 ['h', 'i']] s ∧
      Step s (.read 3 1) t ∧ 1 ∈ s.ledger.given ∧ (4, 1) ∈ t.ledger.parked ∧
      ¬ AtEnd s (.read 3 1) t := by
  obtain ⟨s, hrun, hs⟩ : ∃ s : Session LENGTH,
      [.read 1 1, .write 2 2 ['h', 'i']].foldlM Session.handle (start .zero) = some s ∧
      (s.ledger.given, (s.handle (.read 3 1)).map fun t => t.ledger.parked,
        ((dispatch .fifo (.read 3 1)).run s.server).toOption.map fun p => p.1.ret) =
          ([1], some [(4, 1)], some .noreply) := Option.map_eq_some_iff.mp (by decide)
  obtain ⟨hgiven, ⟨t, hstep, hparked⟩, hret⟩ : s.ledger.given = [1] ∧
      (∃ t, s.handle (.read 3 1) = some t ∧ t.ledger.parked = [(4, 1)]) ∧
      ((dispatch .fifo (.read 3 1)).run s.server).toOption.map (fun p => p.1.ret) =
        some .noreply := by
    simpa only [Prod.mk.injEq, Option.map_eq_some_iff] using hs
  refine ⟨s, t, Runs.of_foldlM hrun, hstep, by simp [hgiven], by simp [hparked], ?_⟩
  intro hend
  obtain ⟨o, ho, hnparts, -⟩ := hend EOK false rfl (by simp [hgiven, Request.read])
  rw [ho] at hret
  simp [Except.toOption, hnparts] at hret

end RealTime.ResourceManager
