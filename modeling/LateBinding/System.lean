import LateBinding.Registry.Methods
import LateBinding.Registry.Register
import LateBinding.Registry.Unregister
import LateBinding.StaticQueue

/-!
# Systems

A system is what messages are sent through: its selectors, its classes, the static instances that
wait for their class, and the handler for messages that nobody understands. A session is a system at
work, along with the heap and the log of what has happened.

This module holds what is done in one go, without running a method. An error that the caller
receives is decided before anything is changed.
-/

namespace LateBinding

structure System where
  options : Options
  selectors : SelectorTable
  registry : Registry
  statics : StaticQueue
  /-- The handler for messages that nobody understands. -/
  forward : Option Imp

/-- A system that was just set up with valid options. -/
def System.fresh (options : Options) : System :=
  { options
    selectors := .withCapacity options.initialSelectorCapacity options.typeMismatch
    registry := .empty options.categoryConflicts
    statics := []
    forward := none }

instance : Inhabited System := ⟨.fresh {}⟩

structure Session where
  heap : Heap
  system : System
  log : Array Event

def Session.start (options : Options) : Session := ⟨.empty, .fresh options, #[]⟩

instance : Inhabited Session := ⟨.start {}⟩

/-- What is done in a session in one go. -/
abbrev Act := EStateM Abort Session

structure Stats where
  selectors : Nat
  classes : Nat
  linkedClasses : Nat
  pendingClasses : Nat
  pendingCategories : Nat
  pendingStaticInstances : Nat
  tableBuilds : Nat
  deriving DecidableEq, Repr

def System.stats (system : System) : Stats :=
  { selectors := system.selectors.size
    classes := system.registry.size
    linkedClasses := system.registry.linkedCount
    pendingClasses := system.registry.pendingCount
    pendingCategories := system.registry.pendingCategories.length
    pendingStaticInstances := system.statics.length
    tableBuilds := system.registry.builds }

namespace Session

def classForName? (session : Session) (name : String) : Option ClassRef :=
  session.system.registry.classForName? name

/-- Whether a class, a category of it or a class above it adopts a protocol. A handle that stands
for no registered class conforms to nothing. -/
def conformsTo (session : Session) (cls : ClassRef) (protocol : String) : Bool :=
  match session.system.registry.resolve session.heap cls with
  | .ok id => session.system.registry.conformsTo id protocol
  | .error _ => false

def describe (session : Session) (sel : Sel) : String := session.system.selectors.describe sel

end Session

namespace Act

def report (event : Event) : Act Unit :=
  modify fun session => { session with log := session.log.push event }

def onHeap (change : Heap → Heap) : Act Unit :=
  modify fun session => { session with heap := change session.heap }

def onSystem (change : System → System) : Act Unit :=
  modify fun session => { session with system := change session.system }

def onClasses {α : Type} (change : Linking α) : Act α := fun session =>
  match session with
  | ⟨heap, system, log⟩ =>
    match change.run ⟨heap, system.registry, log⟩ with
    | .ok (answer, ⟨heap, registry, log⟩) => .ok answer ⟨heap, { system with registry }, log⟩
    | .error reason => .error reason ⟨heap, system, log⟩

/-! ### Selectors -/

def reportConflict (conflict : Option TypeConflict) : Act Unit :=
  conflict.forM fun conflict => report (.typesIgnored conflict)

def intern (name : String) (types : Option String) : Act Sel := do
  match (← get).system.selectors.intern name types with
  | .ok (sel, selectors, conflict) =>
    onSystem ({ · with selectors })
    reportConflict conflict
    return sel
  | .error reason => throw reason

def internAll (names : List String) : Act Sel := do
  match (← get).system.selectors.internAll names with
  | .ok (sel, selectors) =>
    onSystem ({ · with selectors })
    return sel
  | .error reason => throw reason

def reconcile (sel : Sel) (types : Option String) : Act Unit := do
  let (selectors, conflict) := (← get).system.selectors.reconcile sel types
  onSystem ({ · with selectors })
  reportConflict conflict

def defineMethod (method : MethodSpec) : Act MethodDefinition := do
  let types := someTypes method.types
  let sel ← intern method.name types
  return { sel, types, imp := method.imp }

def defineMethods (methods : Sided (List MethodSpec)) : Act (Sided (List MethodDefinition)) := do
  let plain ← methods.plain.mapM defineMethod
  let metaclass ← methods.metaclass.mapM defineMethod
  return { plain, metaclass }

/-! ### Classes -/

def bindWaiting (pair : PairId) : Act Unit :=
  modify fun session =>
    let name := (session.heap.pair pair).name
    let (_, heap) := session.heap.bindAll pair (session.system.statics.under name)
    { session with heap, system.statics := session.system.statics.without name }

def pairsOf (ids : List ClassId) : Act (List PairId) := do
  let registry := (← get).system.registry
  return ids.filterMap fun id => (registry.record? id).map (·.pair)

/-- Bind what waits for the classes that linked. Gives their pairs. -/
def finishLinking (linked : List ClassId) : Act (List PairId) := do
  let pairs ← pairsOf linked
  pairs.forM bindWaiting
  return pairs

/-- Enter a class whose name is free. Gives its pair and the classes that linked. -/
def enterClass (spec : ClassSpec) : Act (PairId × List ClassId) := do
  let methods ← defineMethods spec.methods
  onClasses (Linking.register
    { name := spec.name, superclass := spec.superclass, size := spec.size, methods
      protocols := spec.protocols })

def register (spec : ClassSpec) : Act (Except RegistryError (PairId × List PairId)) := do
  if ((← get).system.registry.idOf? spec.name).isSome then
    return .error (.duplicateClass spec.name)
  let (pair, linked) ← enterClass spec
  return .ok (pair, ← finishLinking linked)

def applyCategory (spec : CategorySpec) : Act CategoryStatus := do
  let methods ← defineMethods spec.methods
  onClasses (Linking.applyCategory
    { name := spec.name, className := spec.className, methods, protocols := spec.protocols })

def unregister (name : String) : Act (Except RegistryError (List PairId)) := do
  match (← get).system.registry.idOf? name with
  | none => return .error (.classNotFound name)
  | some id => return .ok (← onClasses (Linking.unregister id))

def resolveMethod (cls : ClassRef) (sel : Sel) (imp : Imp) (types : Option String) :
    Act (Except RegistryError (ClassId × MethodDefinition)) := do
  let session ← get
  match session.system.registry.resolve session.heap cls with
  | .error error => return .error error
  | .ok id =>
    if session.system.selectors.contains sel then
      let types := someTypes types
      reconcile sel types
      return .ok (id, { sel, types, imp })
    else return .error (.unknownSelector sel)

def addMethod (cls : ClassRef) (sel : Sel) (imp : Imp) (types : Option String) :
    Act (Except RegistryError Bool) := do
  match ← resolveMethod cls sel imp types with
  | .error error => return .error error
  | .ok (id, definition) => return .ok (← onClasses (Linking.addMethod id cls.kind definition))

def replaceMethod (cls : ClassRef) (sel : Sel) (imp : Imp) (types : Option String) :
    Act (Except RegistryError (Option Imp)) := do
  match ← resolveMethod cls sel imp types with
  | .error error => return .error error
  | .ok (id, definition) => return .ok (← onClasses (Linking.replaceMethod id cls.kind definition))

/-! ### Objects -/

def createInstance (cls : ClassRef) : Act (Except RegistryError ObjectId) := do
  let heap := (← get).heap
  if cls.kind = .metaclass then return .error (.classNotFound (heap.className cls))
  if !heap.isLinked cls then return .error (.classNotLinked (heap.className cls))
  let slots := Array.replicate (heap.instanceSize cls) Value.nil
  let (object, heap) := heap.addObject ⟨some cls.pair, slots⟩
  modify ({ · with heap })
  return .ok object

def createLiteral (slots : List Value) : Act ObjectId := do
  let (object, heap) := (← get).heap.addObject ⟨none, slots.toArray⟩
  modify ({ · with heap })
  return object

def setSlot (object : ObjectId) (index : Nat) (value : Value) : Act Bool := do
  let (done, heap) := (← get).heap.setSlot object index value
  modify ({ · with heap })
  return done

/-- Register static instances under the name of their class. If the class is linked they get it at
once, else they wait. Says how many got it. -/
def registerStatics (className : String) (objects : List ObjectId) : Act Nat := do
  let session ← get
  match session.classForName? className with
  | some cls =>
    let (bound, heap) := session.heap.bindAll cls.pair objects
    modify ({ · with heap })
    return bound
  | none =>
    onSystem fun system => { system with statics := system.statics.addAll className objects }
    return 0

/-- Set or remove the handler for messages that nobody understands. -/
def setForward (handler : Option Imp) : Act Unit := onSystem ({ · with forward := handler })

end Act

end LateBinding
