import LateBinding.System

/-!
# Shutdown

A shutdown reports what was never resolved, removes all classes and forgets all selectors, waiting
categories and waiting static instances. The system can be used again afterwards and then behaves
like a fresh one.
-/

namespace LateBinding

/-- What was left unresolved at a shutdown, and how much was let go. -/
structure ShutdownReport where
  /-- The classes that waited for their superclass, each with its name. -/
  unresolved : List (String × String)
  /-- The categories that waited for their class: its name, then the category's. -/
  orphans : List (String × String)
  /-- The names that static instances waited under, with their number. -/
  forgotten : List (String × Nat)
  selectorsReleased : Nat
  classesReleased : Nat
  deriving DecidableEq, Repr

namespace ShutdownReport

def isClean (report : ShutdownReport) : Bool :=
  report.unresolved.isEmpty && report.orphans.isEmpty && report.forgotten.isEmpty

def events (report : ShutdownReport) : List Event :=
  report.unresolved.map (fun (cls, superclass) => .neverLinked cls superclass) ++
    report.orphans.map (fun (cls, category) => .neverApplied cls category) ++
    report.forgotten.map (fun (cls, count) => .instancesForgotten cls count)

end ShutdownReport

def System.shutdownReport (system : System) : ShutdownReport :=
  { unresolved := system.registry.unresolved
    orphans := system.registry.orphans
    forgotten := system.statics.counts
    selectorsReleased := system.selectors.size
    classesReleased := system.registry.size }

def Act.shutdown : Act ShutdownReport := do
  let shutdownReport := (← get).system.shutdownReport
  shutdownReport.events.forM report
  onClasses Linking.clear
  onSystem fun system =>
    { system with selectors := system.selectors.clear, statics := [], forward := none }
  return shutdownReport

end LateBinding
