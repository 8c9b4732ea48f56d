import LateBinding.Scenario.Script

/-!
# Ensembles of systems

An ensemble has one system that all share. It is made on first use or with options, and can be shut
down and made again; handles from before still reach the old system. All systems of an ensemble live
in one heap, and class and object handles are common to them. A system that neither is shared nor
has a handle is given up, and its classes are held by it no longer.
-/

namespace LateBinding.Scenario

inductive EnsembleStep where
  /-- Make the shared system with options that may be refused. -/
  | init (options : Except OptionsError Options) (handle : String)
  /-- Get the shared system, made with default options if there is none. -/
  | shared (handle : String)
  | shutdown
  | same (left right : String)
  | on (handle : String) (step : Step)

/-- Some systems, and what a scenario keeps beside them. -/
structure Ensemble where
  heap : Heap
  /-- The systems that were ever made; the place of one that was given up is empty. -/
  systems : Array (Option System)
  shared : Option Nat
  handles : Handles Nat
  desk : Desk

namespace Ensemble

def start : Ensemble := ⟨.empty, #[], none, [], .empty⟩

def system? (ensemble : Ensemble) (index : Nat) : Option System := ensemble.systems[index]?.join

/-- Whether the system of a number is shared or has a handle. -/
def isReached (ensemble : Ensemble) (index : Nat) : Bool :=
  ensemble.shared = some index || ensemble.handles.any fun (_, other) => other = index

/-- Give up the system of a number, unless it is reached. -/
def giveUp (ensemble : Ensemble) (index : Nat) : Ensemble :=
  match ensemble.system? index with
  | some system =>
    if ensemble.isReached index then ensemble
    else
      let pairs := system.registry.classes.map (·.pair)
      { ensemble with
        systems := ensemble.systems.setIfInBounds index none
        heap := { ensemble.heap with loose := pairs ++ ensemble.heap.loose } }
  | none => ensemble

def tidy (ensemble : Ensemble) : Ensemble :=
  (List.range ensemble.systems.size).foldl giveUp ensemble

def make (ensemble : Ensemble) (options : Options) (handle : String) : Ensemble :=
  let index := ensemble.systems.size
  { ensemble with
    systems := ensemble.systems.push (some (.fresh options))
    shared := some index
    handles := ensemble.handles.put handle index }

/-- The static instances that wait in all systems but one. -/
def heldElsewhere (ensemble : Ensemble) (index : Nat) : List Value :=
  (List.range ensemble.systems.size).flatMap fun other =>
    if other = index then []
    else (ensemble.system? other).elim [] fun system =>
      system.statics.map fun (_, object) => .object object

def shutDown (ensemble : Ensemble) (index : Nat) : Taken × Ensemble :=
  match ensemble.system? index with
  | none => (⟨.answered (.ok .nothing), [], []⟩, ensemble)
  | some system =>
    match Act.shutdown ⟨ensemble.heap, system, #[]⟩ with
    | .ok report ⟨heap, system, log⟩ =>
      (⟨.answered (.ok (.shutdown report)), log.toList, []⟩,
        { ensemble with heap, systems := ensemble.systems.setIfInBounds index (some system) })
    | .error reason session => (⟨.halted (.abort reason), session.log.toList, []⟩, ensemble)

def takeOn (ensemble : Ensemble) (script : Script) (index : Nat) (step : Step) : Taken × Ensemble :=
  match ensemble.system? index with
  | none => (⟨.answered (.error (.noHandle "")), [], []⟩, ensemble)
  | some system =>
    let desk := { ensemble.desk with elsewhere := ensemble.heldElsewhere index }
    let (taken, session, desk) := script.take step ⟨ensemble.heap, system, #[]⟩ desk
    (taken, { ensemble with
      heap := session.heap
      systems := ensemble.systems.setIfInBounds index (some session.system)
      desk })

def takeStep (ensemble : Ensemble) (script : Script) : EnsembleStep → Taken × Ensemble
  | .init options handle =>
    match ensemble.shared, options with
    | some _, _ => (⟨.answered (.error .alreadyInitialized), [], []⟩, ensemble)
    | none, .error error => (⟨.answered (.error (.options error)), [], []⟩, ensemble)
    | none, .ok options => (⟨.answered (.ok .nothing), [], []⟩, ensemble.make options handle)
  | .shared handle =>
    let ensemble := match ensemble.shared with
      | some index => { ensemble with handles := ensemble.handles.put handle index }
      | none => ensemble.make {} handle
    (⟨.answered (.ok .nothing), [], []⟩, ensemble)
  | .shutdown =>
    match ensemble.shared with
    | none => (⟨.answered (.ok .nothing), [], []⟩, ensemble)
    | some index => { ensemble with shared := none }.shutDown index
  | .same left right =>
    match ensemble.handles.lookup left, ensemble.handles.lookup right with
    | some left, some right => (⟨.answered (.ok (.truth (left = right))), [], []⟩, ensemble)
    | none, _ => (⟨.answered (.error (.noHandle left)), [], []⟩, ensemble)
    | _, none => (⟨.answered (.error (.noHandle right)), [], []⟩, ensemble)
  | .on handle step =>
    match ensemble.handles.lookup handle with
    | some index => ensemble.takeOn script index step
    | none => (⟨.answered (.error (.noHandle handle)), [], []⟩, ensemble)

def take (ensemble : Ensemble) (script : Script) (step : EnsembleStep) : Taken × Ensemble :=
  let (taken, ensemble) := ensemble.takeStep script step
  (taken, ensemble.tidy)

end Ensemble

end LateBinding.Scenario
