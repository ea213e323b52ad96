import RealTime.ResourceManager.Delivery
import RealTime.ResourceManager.Traffic

/-! # Locks and unlocks

All handlers give back the mutexes they take on all their paths, but `io_write_str`, which
locks its mutex a second time where it should unlock it. -/

namespace RealTime.ResourceManager

open Transition

variable {L : ℕ} [NeZero L]

def Serve (s : Server L) (i : Input) (t : Server L) : Prop := serve s i = some t

/-- Both mutexes are free. -/
def Unlocked (s : Server L) : Prop := s.mutex = false ∧ s.queue.resourceMutex = false

/-- In a run of requests to all handlers, no handler locks a mutex that it holds or unlocks
one that it does not hold, and both are free when it returns, exactly when no write in the
string mode goes through an open file that is not at its end. -/
theorem locks_balanced_throughout_iff (queue : Fifo L) (is : List Input) :
    Unlocked (boot queue) ∧
      (Throughout Serve (fun _ _ t => Unlocked t) (boot queue) is ↔
        Along Serve (fun s i => ¬ Relocks s i) (boot queue) is) := by
  have hdet : ∀ (s : Server L) i t u, Serve s i t → Serve s i u → t = u :=
    fun _ _ _ _ ht hu => Option.some.inj (ht.symm.trans hu)
  have hgood : ∀ (s : Server L) i, (∃ m, Ready s m) → True → ¬ Relocks s i →
      ∃ t, Serve s i t ∧ (∃ m, Ready t m) ∧ Unlocked t := by
    intro s i hs _ hi
    obtain ⟨m, h⟩ := hs
    obtain ⟨t, m', hserve, ht⟩ := h.serves hi
    exact ⟨t, hserve, ⟨m', ht⟩, ht.mutex, ht.unlocked⟩
  have hbad : ∀ (s : Server L) i t, (∃ m, Ready s m) → True → ¬ ¬ Relocks s i → Serve s i t →
      ¬ Unlocked t := by
    intro s i t hs _ hi hserve
    obtain ⟨m, h⟩ := hs
    cases (h.not_served (not_not.mp hi)).symm.trans hserve
  exact ⟨⟨rfl, rfl⟩, throughout_iff_along hdet hgood hbad ⟨.init, ready_boot queue⟩
    (Along.of_forall (fun _ _ => trivial) _ is)⟩

theorem locks_balanced_throughout_iff_of_two_reads :
    Unlocked (boot (.zero : Fifo LENGTH)) ∧
      (Throughout Serve (fun _ _ t => Unlocked t) (boot (.zero : Fifo LENGTH))
          [.request .count (.read 1 1), .request .fifo (.read 2 2)] ↔
        Along Serve (fun s i => ¬ Relocks s i) (boot (.zero : Fifo LENGTH))
          [.request .count (.read 1 1), .request .fifo (.read 2 2)]) :=
  locks_balanced_throughout_iff .zero _

/-- The first write in the string mode never returns. -/
theorem first_write_str_relocks :
    (dispatch .str (.write 1 1 ['h', 'i'])).run (boot (.zero : Fifo LENGTH)) = .error .relock ∧
      ¬ Throughout Serve (fun _ _ t => Unlocked t) (boot (.zero : Fifo LENGTH))
        [.request .str (.write 1 1 ['h', 'i'])] := by
  have h := ready_boot (.zero : Fifo LENGTH)
  refine ⟨dispatch_writeStr h rfl rfl, ?_⟩
  intro hrun
  obtain ⟨t, hserve, -⟩ := hrun
  cases (h.not_served ⟨_, _, rfl, rfl, rfl⟩).symm.trans hserve

end RealTime.ResourceManager
