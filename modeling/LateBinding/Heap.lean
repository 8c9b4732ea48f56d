import LateBinding.DispatchTable
import LateBinding.Value

/-!
# The heap

The heap holds the class pairs and the objects that were ever made. Nothing is taken out of it: an
identity stays valid, and a handle to a class survives the class's removal.

A class refers to its superclass and a metaclass to the root metaclass without keeping them. Once a
side of a removed pair is held by nobody it is *released*, and whoever refers to it finds nothing
there any more. A class keeps its own metaclass.
-/

namespace LateBinding

inductive Link where
  | root
  /-- A class with a superclass, below a root class. -/
  | child (parent root : PairId)
  deriving DecidableEq, Repr

/-- A class together with its metaclass. What each side has for itself is `Sided`, so a class is
never without a metaclass, and making one cannot fail for want of it. -/
structure ClassPair where
  id : ClassId
  name : String
  /-- Number of slots of an instance. -/
  size : UInt32
  /-- Set once, when the class links. -/
  link : Option Link
  /-- The published tables; none before the class links and after its removal. -/
  tables : Sided (Option DispatchTable)
  /-- Whether the class's turn to be initialized has come. -/
  initialized : Bool
  released : Sided Bool

namespace ClassPair

instance : Inhabited ClassPair := ⟨⟨⟨0⟩, "", 0, none, .both none, false, .both false⟩⟩

def fresh (id : ClassId) (name : String) (size : UInt32) : ClassPair :=
  ⟨id, name, size, none, .both none, false, .both false⟩

def rootOf (self : PairId) (pair : ClassPair) : PairId :=
  match pair.link with
  | some (.child _ root) => root
  | _ => self

end ClassPair

/-- An object: its class, once it has one, and its slots. -/
structure Object where
  cls : Option PairId
  slots : Array Value

instance : Inhabited Object := ⟨⟨none, #[]⟩⟩

/-- The class pairs and objects by identity, and the removed pairs that are not wholly released. -/
structure Heap where
  pairs : Array ClassPair
  objects : Array Object
  loose : List PairId

namespace Heap

def empty : Heap := ⟨#[], #[], []⟩

instance : Inhabited Heap := ⟨empty⟩

/-! ### Classes -/

def pair (heap : Heap) (id : PairId) : ClassPair := heap.pairs.getD id.index default

/-- The name of a class; its metaclass has the same. -/
def className (heap : Heap) (cls : ClassRef) : String := (heap.pair cls.pair).name

def table? (heap : Heap) (cls : ClassRef) : Option DispatchTable :=
  (heap.pair cls.pair).tables.get cls.kind

def isLinked (heap : Heap) (cls : ClassRef) : Bool := (heap.table? cls).isSome

def lookup (heap : Heap) (cls : ClassRef) (sel : Sel) : Option Imp :=
  (heap.table? cls).bind (·.get? sel)

/-- Whether the instances of a class respond to a selector; of a metaclass, whether the class objects
that dispatch through it do. -/
def respondsTo (heap : Heap) (cls : ClassRef) (sel : Sel) : Bool := (heap.lookup cls sel).isSome

/-- Whether a class's turn to be initialized has come. A metaclass is never initialized. -/
def isInitialized (heap : Heap) : ClassRef → Bool
  | ⟨id, .plain⟩ => (heap.pair id).initialized
  | ⟨_, .metaclass⟩ => false

/-- Number of slots of an instance. A metaclass has no instances of its own making. -/
def instanceSize (heap : Heap) : ClassRef → Nat
  | ⟨id, .plain⟩ => (heap.pair id).size.toNat
  | ⟨_, .metaclass⟩ => 0

def unlessReleased (heap : Heap) (cls : ClassRef) : Option ClassRef :=
  if (heap.pair cls.pair).released.get cls.kind then none else some cls

def metaclass? : ClassRef → Option ClassRef
  | ⟨id, .plain⟩ => some ⟨id, .metaclass⟩
  | ⟨_, .metaclass⟩ => none

/-- The superclass of a linked class, and of its metaclass. Above a root metaclass stands the root
class itself. -/
def superclass? (heap : Heap) (cls : ClassRef) : Option ClassRef :=
  match (heap.pair cls.pair).link, cls.kind with
  | none, _ => none
  | some .root, .plain => none
  | some .root, .metaclass => heap.unlessReleased ⟨cls.pair, .plain⟩
  | some (.child parent _), kind => heap.unlessReleased ⟨parent, kind⟩

/-- What a class object dispatches through: the metaclass for a class, the root metaclass for the
metaclass of a linked class. -/
def isa? (heap : Heap) (cls : ClassRef) : Option ClassRef :=
  match cls.kind, (heap.pair cls.pair).link with
  | .plain, _ => heap.unlessReleased ⟨cls.pair, .metaclass⟩
  | .metaclass, none => none
  | .metaclass, some .root => heap.unlessReleased cls
  | .metaclass, some (.child _ root) => heap.unlessReleased ⟨root, .metaclass⟩

def modifyPair (heap : Heap) (id : PairId) (change : ClassPair → ClassPair) : Heap :=
  { heap with pairs := heap.pairs.modify id.index change }

def addPair (heap : Heap) (id : ClassId) (name : String) (size : UInt32) : PairId × Heap :=
  (⟨heap.pairs.size⟩, { heap with pairs := heap.pairs.push (.fresh id name size) })

def setLink (heap : Heap) (id : PairId) (link : Link) : Heap :=
  heap.modifyPair id fun pair => { pair with link := some link }

def publish (heap : Heap) (cls : ClassRef) (table : DispatchTable) : Heap :=
  heap.modifyPair cls.pair fun pair => { pair with tables := pair.tables.set cls.kind (some table) }

def withdraw (heap : Heap) (id : PairId) : Heap :=
  let heap := heap.modifyPair id fun pair => { pair with tables := .both none }
  { heap with loose := id :: heap.loose }

def markInitialized (heap : Heap) (id : PairId) : Heap :=
  heap.modifyPair id fun pair => { pair with initialized := true }

/-! ### Objects -/

def object (heap : Heap) (id : ObjectId) : Object := heap.objects.getD id.index default

def classOf? (heap : Heap) (id : ObjectId) : Option ClassRef :=
  (heap.object id).cls.map (⟨·, .plain⟩)

def addObject (heap : Heap) (object : Object) : ObjectId × Heap :=
  (⟨heap.objects.size⟩, { heap with objects := heap.objects.push object })

def modifyObject (heap : Heap) (id : ObjectId) (change : Object → Object) : Heap :=
  { heap with objects := heap.objects.modify id.index change }

/-- Give an object its class, unless it has one already. Says whether it was given. -/
def bind (heap : Heap) (id : ObjectId) (cls : PairId) : Bool × Heap :=
  match (heap.object id).cls with
  | some _ => (false, heap)
  | none => (true, heap.modifyObject id fun object => { object with cls := some cls })

def bindAll (heap : Heap) (cls : PairId) : List ObjectId → Nat × Heap
  | [] => (0, heap)
  | id :: rest =>
    let (bound, heap) := heap.bind id cls
    let (count, heap) := heap.bindAll cls rest
    ((if bound then 1 else 0) + count, heap)

def slot? (heap : Heap) (id : ObjectId) (index : Nat) : Option Value :=
  (heap.object id).slots[index]?

/-- Put a value into a slot of an object. Says whether the object has the slot. -/
def setSlot (heap : Heap) (id : ObjectId) (index : Nat) (value : Value) : Bool × Heap :=
  if index < (heap.object id).slots.size then
    (true, heap.modifyObject id fun object =>
      { object with slots := object.slots.setIfInBounds index value })
  else (false, heap)

/-! ### Small facts -/

theorem pair_addPair_fst (heap : Heap) (id : ClassId) (name : String) (size : UInt32) :
    (heap.addPair id name size).2.pair (heap.addPair id name size).1 = .fresh id name size := by
  simp [addPair, pair]

end Heap

end LateBinding
