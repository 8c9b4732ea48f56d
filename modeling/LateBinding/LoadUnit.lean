import LateBinding.Number.Binary64
import LateBinding.Protocol
import LateBinding.Sided

/-!
# Load units

A load unit is what a compiler hands over for one source file: the selectors that the file refers
to, the classes and categories that it defines, and the constant objects that it holds.
Implementations are given by symbol.
-/

namespace LateBinding

structure SelectorRef where
  name : String
  types : Option String
  deriving DecidableEq, Repr

structure MethodDef where
  name : String
  types : String
  symbol : String
  deriving DecidableEq, Repr

structure ClassDef where
  name : String
  /-- The name of the superclass; a root class has none. -/
  superclass : Option String
  /-- Number of slots of an instance. -/
  size : UInt32
  methods : Sided (List MethodDef)
  protocols : List Protocol
  deriving DecidableEq

/-- Methods and protocols for a class that is defined elsewhere. -/
structure CategoryDef where
  name : String
  className : String
  methods : Sided (List MethodDef)
  protocols : List Protocol
  deriving DecidableEq

inductive Constant where
  | nil
  | bool (value : Bool)
  | int (value : Int64)
  | float (value : Binary64)
  | text (value : String)
  deriving DecidableEq, Repr

/-- The constant objects of one class, each by the constants in its slots. -/
structure StaticGroup where
  className : String
  instances : List (List Constant)
  deriving DecidableEq, Repr

structure LoadUnit where
  version : UInt32
  flags : UInt32
  name : String
  selectors : List SelectorRef
  classes : List ClassDef
  categories : List CategoryDef
  statics : List StaticGroup
  deriving DecidableEq

/-! ### Equality of values

Floating-point constants compare as numbers, so a unit that holds a NaN differs from itself. -/

def Constant.equals : Constant → Constant → Bool
  | .float x, .float y => x.equals y
  | left, right => left = right

/-- Whether two lists have the same length and agree place by place. -/
def pairwise {α : Type} (same : α → α → Bool) : List α → List α → Bool
  | [], [] => true
  | left :: lefts, right :: rights => same left right && pairwise same lefts rights
  | _, _ => false

def StaticGroup.equals (left right : StaticGroup) : Bool :=
  left.className = right.className &&
    pairwise (pairwise Constant.equals) left.instances right.instances

namespace LoadUnit

def currentVersion : UInt32 := 1

/-- The flag of a unit that has a section for constant objects. -/
def staticsFlag : UInt32 := 1

def hasStatics (unit : LoadUnit) : Bool := unit.flags &&& staticsFlag != 0

/-- The flags that a unit with these constant objects has of itself. -/
def flagsFor (statics : List StaticGroup) : UInt32 := if statics.isEmpty then 0 else staticsFlag

def equals (left right : LoadUnit) : Bool :=
  pairwise StaticGroup.equals left.statics right.statics &&
    { left with statics := [] } = { right with statics := [] }

end LoadUnit

end LateBinding
