import LateBinding.Handle
import LateBinding.Protocol

/-!
# Declarations

What is declared to a system: methods, classes and categories. Methods are declared by name; once
the names are interned they become definitions, which are kept by selector.
-/

namespace LateBinding

structure MethodSpec where
  name : String
  types : Option String
  imp : Imp
  deriving DecidableEq, Repr

structure ClassSpec where
  name : String
  /-- The name of the superclass; a root class has none. -/
  superclass : Option String
  /-- Number of slots of an instance. -/
  size : UInt32
  methods : Sided (List MethodSpec)
  protocols : List Protocol

/-- A category as it is declared: methods and protocols for the class of a name. -/
structure CategorySpec where
  name : String
  className : String
  methods : Sided (List MethodSpec)
  protocols : List Protocol

structure MethodDefinition where
  sel : Sel
  types : Option String
  imp : Imp
  deriving DecidableEq, Repr

def definesSel (methods : List MethodDefinition) (sel : Sel) : Bool :=
  methods.any fun method => method.sel = sel

structure ClassDefinition where
  name : String
  superclass : Option String
  size : UInt32
  methods : Sided (List MethodDefinition)
  protocols : List Protocol

/-- A category by selectors. Category and class name together identify it. -/
structure CategoryDefinition where
  name : String
  className : String
  methods : Sided (List MethodDefinition)
  protocols : List Protocol
  deriving DecidableEq

namespace CategoryDefinition

def defines (category : CategoryDefinition) (kind : ClassKind) (sel : Sel) : Bool :=
  definesSel (category.methods.get kind) sel

/-- Put a category into the list of a class: in the place of an earlier version of it, else at the
end. -/
def merge (category : CategoryDefinition) : List CategoryDefinition → List CategoryDefinition
  | [] => [category]
  | other :: rest =>
    if other.name = category.name then category :: rest else other :: category.merge rest

end CategoryDefinition

end LateBinding
