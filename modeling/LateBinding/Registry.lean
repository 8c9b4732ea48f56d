import LateBinding.Declaration
import LateBinding.Event
import LateBinding.Heap
import LateBinding.Options
import Std.Data.ExtTreeMap

/-!
# The class registry

The registry holds a record for every class that is registered. A class is *pending* until its
superclass is linked; then it links too and gets its tables. Pending classes wait under the name of
their superclass, in the order in which they came. Categories wait as long as no class of their name
is registered.

A registry works on the heap that its classes live in, and both change together. What happens is
noted in a log.
-/

namespace LateBinding

/-- Whether a class is linked, and to which superclass. -/
inductive LinkState where
  | pending
  | linked (superclass : Option ClassId)
  deriving DecidableEq, Repr

def LinkState.name : LinkState → String
  | .pending => "pending"
  | .linked _ => "linked"

structure Record where
  pair : PairId
  name : String
  /-- The name of the superclass that the class was declared with. -/
  superclassName : Option String
  state : LinkState
  methods : Sided (List MethodDefinition)
  protocols : List Protocol
  /-- The categories that were merged, in the order of their first application. -/
  categories : List CategoryDefinition
  /-- The linked classes right below. -/
  subclasses : List ClassId

namespace Record

def isLinked (record : Record) : Bool := record.state ≠ .pending

def superclass? (record : Record) : Option ClassId :=
  match record.state with
  | .linked superclass => superclass
  | .pending => none

def defines (record : Record) (kind : ClassKind) (sel : Sel) : Bool :=
  definesSel (record.methods.get kind) sel || record.categories.any (·.defines kind sel)

def adopts (record : Record) (protocol : String) : Bool :=
  record.protocols.any (·.conformsTo protocol) ||
    record.categories.any fun category => category.protocols.any (·.conformsTo protocol)

/-- The method lists of one side, from the weakest to the strongest: what a later list defines
stands in front of what an earlier one does. -/
def layers (record : Record) (policy : CategoryConflictPolicy) (kind : ClassKind) :
    List (List MethodDefinition) :=
  let categories := match policy with
    | .lastApplied => record.categories
    | .firstApplied => record.categories.reverse
  record.methods.get kind :: categories.map fun category => category.methods.get kind

end Record

structure Registry where
  /-- The records by number. The place of a removed class stays empty. -/
  records : Array (Option Record)
  names : Std.ExtTreeMap String ClassId
  /-- The pending classes by the name of the superclass that they wait for. -/
  waiting : Std.ExtTreeMap String (List ClassId)
  /-- The categories that wait for their class, by its name. -/
  heldBack : Std.ExtTreeMap String (List CategoryDefinition)
  policy : CategoryConflictPolicy
  /-- Number of tables built; a class and its metaclass count separately. -/
  builds : Nat

inductive RegistryError where
  | duplicateClass (name : String)
  | classNotFound (name : String)
  | classNotLinked (name : String)
  | unknownSelector (sel : Sel)
  deriving DecidableEq, Repr

def RegistryError.message : RegistryError → String
  | .duplicateClass name => "Class already registered: " ++ name
  | .classNotFound name => "Class not found: " ++ name
  | .classNotLinked name => "Class not linked: " ++ name
  | .unknownSelector sel => "Unknown selector " ++ sel.debugText

namespace Registry

def empty (policy : CategoryConflictPolicy) : Registry := ⟨#[], ∅, ∅, ∅, policy, 0⟩

instance : Inhabited Registry := ⟨empty .lastApplied⟩

/-! ### Queries -/

def record? (registry : Registry) (id : ClassId) : Option Record :=
  registry.records[id.index]?.join

def classes (registry : Registry) : List Record := registry.records.toList.filterMap (·)

def idOf? (registry : Registry) (name : String) : Option ClassId := registry.names[name]?

/-- The pending classes that wait for a superclass of some name, in the order in which they came. -/
def waitersOf (registry : Registry) (name : String) : List ClassId :=
  registry.waiting[name]?.getD []

/-- The categories that wait for a class of some name, in the order of their first application. -/
def categoriesFor (registry : Registry) (name : String) : List CategoryDefinition :=
  registry.heldBack[name]?.getD []

def pendingCategories (registry : Registry) : List CategoryDefinition :=
  registry.heldBack.toList.flatMap (·.2)

def stateOf? (registry : Registry) (name : String) : Option LinkState :=
  ((registry.idOf? name).bind registry.record?).map (·.state)

def classForName? (registry : Registry) (name : String) : Option ClassRef :=
  ((registry.idOf? name).bind registry.record?).bind fun record =>
    if record.isLinked then some ⟨record.pair, .plain⟩ else none

def classNames (registry : Registry) : List String := registry.names.keys

def size (registry : Registry) : Nat := registry.names.size

def isEmpty (registry : Registry) : Bool := registry.names.isEmpty

def linkedCount (registry : Registry) : Nat := registry.classes.countP (·.isLinked)

def pendingCount (registry : Registry) : Nat :=
  (registry.waiting.toList.flatMap (·.2)).length

/-- The number of the class that a handle stands for. A handle of a class that was removed, or of
one from before a shutdown, stands for none. -/
def resolve (registry : Registry) (heap : Heap) (cls : ClassRef) : Except RegistryError ClassId :=
  let pair := heap.pair cls.pair
  match registry.record? pair.id with
  | some record =>
    if record.pair = cls.pair then .ok pair.id else .error (.classNotFound pair.name)
  | none => .error (.classNotFound pair.name)

/-- A class and those above it, at most the given number. -/
def chainWithin (registry : Registry) : Nat → ClassId → List Record
  | 0, _ => []
  | left + 1, id =>
    match registry.record? id with
    | none => []
    | some record => record :: record.superclass?.elim [] (chainWithin registry left)

def chain (registry : Registry) (id : ClassId) : List Record :=
  registry.chainWithin registry.records.size id

def conformsTo (registry : Registry) (id : ClassId) (protocol : String) : Bool :=
  (registry.chain id).any (·.adopts protocol)

/-- The classes that wait for their superclass, each with its name, sorted by class. -/
def unresolved (registry : Registry) : List (String × String) :=
  (registry.classes.filterMap fun record =>
    if record.isLinked then none
    else record.superclassName.map fun awaited => (record.name, awaited)).mergeSort
      fun left right => left.1 ≤ right.1

/-- The categories that wait for their class: the class's name and the category's, sorted. -/
def orphans (registry : Registry) : List (String × String) :=
  (registry.pendingCategories.map fun category => (category.className, category.name)).mergeSort
    fun left right => left.1 < right.1 ∨ (left.1 = right.1 ∧ left.2 ≤ right.2)

/-! ### Records -/

def nextId (registry : Registry) : ClassId := ⟨registry.records.size⟩

/-- Enter a record under the next number. The categories that wait for its name stop waiting. -/
def addRecord (registry : Registry) (record : Record) : Registry :=
  { registry with
    records := registry.records.push (some record)
    names := registry.names.insert record.name registry.nextId
    heldBack := registry.heldBack.erase record.name }

def setRecord (registry : Registry) (id : ClassId) (record : Option Record) : Registry :=
  { registry with records := registry.records.setIfInBounds id.index record }

def modifyRecord (registry : Registry) (id : ClassId) (change : Record → Record) : Registry :=
  { registry with records := registry.records.modify id.index (Option.map change) }

/-! ### Waiting -/

def await (registry : Registry) (awaited : String) (id : ClassId) : Registry :=
  { registry with
    waiting := registry.waiting.insert awaited (registry.waitersOf awaited ++ [id]) }

def releaseWaiters (registry : Registry) (name : String) : Registry :=
  { registry with waiting := registry.waiting.erase name }

def stopWaiting (registry : Registry) (awaited : String) (id : ClassId) : Registry :=
  match registry.waiting[awaited]? with
  | none => registry
  | some waiters =>
    let others := waiters.filter (· ≠ id)
    if others.isEmpty then { registry with waiting := registry.waiting.erase awaited }
    else { registry with waiting := registry.waiting.insert awaited others }

def holdBack (registry : Registry) (category : CategoryDefinition) : Registry :=
  { registry with
    heldBack := registry.heldBack.insert category.className
      (category.merge (registry.categoriesFor category.className)) }

end Registry

/-- A registry, the heap that its classes live in, and what has happened. -/
structure Classes where
  heap : Heap
  registry : Registry
  log : Array Event

abbrev Linking := StateT Classes (Except Abort)

namespace Linking

def report (event : Event) : Linking Unit :=
  modify fun classes => { classes with log := classes.log.push event }

def onHeap (change : Heap → Heap) : Linking Unit :=
  modify fun classes => { classes with heap := change classes.heap }

def onRegistry (change : Registry → Registry) : Linking Unit :=
  modify fun classes => { classes with registry := change classes.registry }

end Linking

end LateBinding
