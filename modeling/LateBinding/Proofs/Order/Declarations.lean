import LateBinding.Proofs.Order.Naming
import LateBinding.Execution.Run

/-!
# Declarations in some order

A program declares classes, categories and static instances one after the other. What the system is
like afterwards should depend on the order of categories for one class at most. Two sessions *agree*
if nobody who knows classes and messages by name can tell them apart.
-/

namespace LateBinding

/-- One thing that a program declares. -/
inductive Declaration where
  | cls (spec : ClassSpec)
  | category (spec : CategorySpec)
  | statics (className : String) (objects : List ObjectId)

namespace Declaration

/-- The program that makes one declaration after the other. -/
def declareAll {σ : Type} : List Declaration → Program σ Unit
  | [] => .done ()
  | cls spec :: rest => .ask (.register spec) fun _ => declareAll rest
  | category spec :: rest => .act (.applyCategory spec) fun _ => declareAll rest
  | statics className objects :: rest =>
    .act (.registerStatics className objects) fun _ => declareAll rest

def classSpec? : Declaration → Option ClassSpec
  | cls spec => some spec
  | _ => none

def categoryFor? (name : String) : Declaration → Option CategorySpec
  | category spec => if spec.className = name then some spec else none
  | _ => none

/-- The static instances with the name of their class. -/
def literals : Declaration → List (String × ObjectId)
  | statics className objects => objects.map (className, ·)
  | _ => []

def sidesNames (methods : Sided (List MethodSpec)) : List String :=
  methods.plain.map (·.name) ++ methods.metaclass.map (·.name)

def methodNames : Declaration → List String
  | cls spec => sidesNames spec.methods
  | category spec => sidesNames spec.methods
  | statics .. => []

def classSpecs (declarations : List Declaration) : List ClassSpec :=
  declarations.filterMap classSpec?

def categoriesFor (name : String) (declarations : List Declaration) : List CategorySpec :=
  declarations.filterMap (categoryFor? name)

/-- The categories that the class of some name ends up with. -/
def merged (name : String) (declarations : List Declaration) : List CategorySpec :=
  (categoriesFor name declarations).foldl (fun specs spec => spec.merge specs) []

def objects (declarations : List Declaration) : List ObjectId :=
  (declarations.flatMap literals).map (·.2)

/-- Declarations that do not contradict one another and need no more selectors than there are. -/
structure Compatible (declarations : List Declaration) : Prop where
  classes : ((classSpecs declarations).map (·.name)).Nodup
  literals : (objects declarations).Nodup
  selectors : (declarations.flatMap methodNames).dedup.length ≤ maxUid

variable (declarations : List Declaration)

theorem classSpecs_append (last : Declaration) :
    classSpecs (declarations ++ [last]) = classSpecs declarations ++ last.classSpec?.toList := by
  rw [classSpecs, List.filterMap_append, ← classSpecs, List.filterMap_cons, List.filterMap_nil]
  cases last.classSpec? <;> rfl

theorem merged_append (name : String) (last : Declaration) :
    merged name (declarations ++ [last]) =
      match last.categoryFor? name with
      | some spec => spec.merge (merged name declarations)
      | none => merged name declarations := by
  rw [merged, categoriesFor, List.filterMap_append, List.foldl_append, ← categoriesFor, ← merged,
    List.filterMap_cons, List.filterMap_nil]
  cases last.categoryFor? name <;> rfl

theorem literals_append (last : Declaration) :
    (declarations ++ [last]).flatMap literals = declarations.flatMap literals ++ last.literals := by
  rw [List.flatMap_append, List.flatMap_singleton]

end Declaration

namespace Session

def recordOf? (session : Session) (name : String) : Option Record :=
  (session.system.registry.idOf? name).bind session.system.registry.record?

/-- What one side of the linked class of a name runs for a message of some name. -/
def resolve? (session : Session) (name : String) (kind : ClassKind) (message : String) :
    Option Imp :=
  (session.classForName? name).bind fun cls =>
    match session.system.selectors.lookup message with
    | .ok sel => session.heap.lookup ⟨cls.pair, kind⟩ sel
    | .error _ => none

/-- Whether the registered class of a name, which may be pending, conforms to a protocol. -/
def conforms? (session : Session) (name : String) (kind : ClassKind) (protocol : String) :
    Option Bool :=
  (session.recordOf? name).map fun record => session.conformsTo ⟨record.pair, kind⟩ protocol

/-- A static instance has got the linked class of a name. -/
def IsBound (session : Session) (object : ObjectId) (name : String) : Prop :=
  ∃ cls, session.classForName? name = some cls ∧ session.heap.classOf? object = some cls

def waitingFor (session : Session) (name : String) : List NamedCategory :=
  (session.system.registry.categoriesFor name).map (·.named session.system.selectors)

/-- Two sessions have the same classes and static instances by name. -/
structure Agrees (first second : Session) (objects : List ObjectId) : Prop where
  /-- A class is registered in both, and linked in both, or in none. -/
  states : ∀ name, (first.system.registry.stateOf? name).map LinkState.name =
    (second.system.registry.stateOf? name).map LinkState.name
  /-- A linked class and its metaclass run the same for every message. -/
  messages : ∀ name kind message, first.resolve? name kind message =
    second.resolve? name kind message
  protocols : ∀ name kind protocol, first.conforms? name kind protocol =
    second.conforms? name kind protocol
  /-- A static instance has the class of the same name in both, or no class in both. -/
  bound : ∀ object ∈ objects,
    (first.heap.classOf? object = none ∧ second.heap.classOf? object = none) ∨
      ∃ name, first.IsBound object name ∧ second.IsBound object name
  pendingClasses : first.system.registry.unresolved = second.system.registry.unresolved
  pendingCategories : ∀ name, first.waitingFor name = second.waitingFor name
  pendingLiterals : first.system.statics.Perm second.system.statics

/-- A session of a system without classes, with some objects that have no class yet. Other systems
may have left whatever they want in the heap and in the log. -/
structure Fresh (session : Session) (options : Options) (objects : List ObjectId) : Prop where
  system_eq : session.system = .fresh options
  exist : ∀ object ∈ objects, object.index < session.heap.objects.size
  unbound : ∀ object ∈ objects, session.heap.classOf? object = none

end Session

end LateBinding
