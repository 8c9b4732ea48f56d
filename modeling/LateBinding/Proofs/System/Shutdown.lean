import LateBinding.Proofs.Registry.Lineage
import LateBinding.Proofs.Registry.Renaming
import LateBinding.Proofs.System.Outcome

/-!
# What a shutdown leads to

A shutdown never fails. Nothing is registered, interned or waiting afterwards, and no class that was
registered has tables.
-/

namespace LateBinding

theorem ShutdownReport.quiet_events (report : ShutdownReport) :
    ∀ event ∈ report.events, event.initializes = none := by
  intro event hevent
  simp only [ShutdownReport.events, List.mem_append, List.mem_map] at hevent
  rcases hevent with (⟨_, _, rfl⟩ | ⟨_, _, rfl⟩) | ⟨_, _, rfl⟩ <;> rfl

theorem Event.rename_of_quiet {event : Event} (hquiet : event.initializes = none)
    (f : PairId → PairId) : event.rename f = event := by
  cases event with
  | initializing pair className => cases hquiet
  | _ => rfl

namespace Session

/-- The session after a shutdown. -/
def shutDown (session : Session) : Session where
  heap := session.classes.cleared.heap
  system := { session.system with
    selectors := session.system.selectors.clear
    registry := session.classes.cleared.registry
    statics := []
    forward := none }
  log := session.log ++ session.system.shutdownReport.events.toArray

end Session

namespace Act

theorem forM_report (events : List Event) (session : Session) :
    events.forM report session =
      .ok ⟨⟩ { session with log := session.log ++ events.toArray } := by
  induction events generalizing session with
  | nil =>
    rw [Array.append_empty]
    rfl
  | cons event rest ih =>
    change rest.forM report { session with log := session.log.push event } = _
    rw [ih]
    simp

theorem shutdown_eq (session : Session) :
    shutdown session = .ok session.system.shutdownReport session.shutDown := by
  change EStateM.bind (session.system.shutdownReport.events.forM report) _ session = _
  rw [EStateM.bind, forM_report]
  rfl

end Act

end LateBinding
