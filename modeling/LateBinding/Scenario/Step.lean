import LateBinding.LoadUnit
import LateBinding.Handle

/-!
# Steps of a scenario

A scenario plays with a system step by step. It keeps classes, objects and tables under names of its
own, its *handles*, and refers to classes, selectors and values by paths that are followed when the
step is taken. Its implementations are written as lists of expressions, and an expression may be a
step again.
-/

namespace LateBinding.Scenario

/-- A way to a class: a name, and links to follow from there. -/
inductive ClassPath where
  /-- The handle of this name, or else the linked class of this name. -/
  | named (name : String)
  | metaclassOf (path : ClassPath)
  | superclassOf (path : ClassPath)
  | isaOf (path : ClassPath)
  deriving DecidableEq, Repr

inductive SelPath where
  | uid (uid : Nat)
  | named (name : String)
  deriving DecidableEq, Repr

inductive ValuePath where
  | constant (value : Constant)
  | object (handle : String)
  | classObject (path : ClassPath)
  | selector (path : SelPath)
  deriving DecidableEq, Repr

structure MethodLine where
  name : String
  symbol : String
  types : Option String
  deriving DecidableEq, Repr

structure ClassLine where
  name : String
  superclass : Option String
  size : UInt32
  methods : Sided (List MethodLine)
  protocols : List Protocol

structure CategoryLine where
  name : String
  className : String
  methods : Sided (List MethodLine)
  protocols : List Protocol

inductive Step where
  | intern (name : String) (types : Option String)
  | internMany (stem : String) (count : Nat)
  | selector (name : String)
  | selectorName (sel : SelPath)
  | selectorTypes (sel : SelPath)
  | register (line : ClassLine) (handle : String)
  | category (line : CategoryLine)
  | literal (slots : List ValuePath) (handle : String)
  | statics (className : String) (objects : List String)
  | classForName (name : String) (handle : Option String)
  | drop (handle : String)
  | classState (name : String)
  | classNames
  | unregister (name : String)
  | superclassOf (cls : ClassPath)
  | respondsTo (cls : ClassPath) (sel : SelPath)
  | conformsTo (cls : ClassPath) (protocol : String)
  | create (cls : ClassPath) (handle : String)
  | addMethod (cls : ClassPath) (sel : SelPath) (symbol : String) (types : Option String)
  | replaceMethod (cls : ClassPath) (sel : SelPath) (symbol : String) (types : Option String)
  | send (receiver : ValuePath) (args : List ValuePath) (sel : SelPath)
  | sendSuper (receiver : ValuePath) (args : List ValuePath) (cls : ClassPath) (sel : SelPath)
  | call (receiver : ValuePath) (args : List ValuePath) (sel : SelPath) (symbol : String)
  | lookupImp (receiver : ValuePath) (sel : SelPath)
  | sameImp (left right : String)
  | forward (symbol : Option String)
  | imps (symbol : String)
  | load (unit : LoadUnit) (handle : Option String)
  | loadBytes (bytes : List UInt8) (handle : Option String)
  | inspect (cls : ClassPath)
  | snapshot (cls : ClassPath) (handle : String)
  | table (handle : String)
  | tableHas (handle : String) (sel : SelPath)
  | tablesEqual (left right : String)
  | object (handle : String)
  | getSlot (handle : String) (index : Nat)
  | setSlot (value : ValuePath) (handle : String) (index : Nat)
  | value (value : ValuePath)
  | valueEquals (left right : ValuePath)
  | options
  | describe
  | stats
  | shutdown

inductive Expr where
  | self
  | sel
  | argCount
  | constant (value : ValuePath)
  | arg (index : Nat)
  | slot (index : Nat)
  | setSlot (index : Nat) (value : Expr)
  | sum (terms : List Expr)
  | raise (text : String)
  | send (name : String) (receiver : Expr) (args : List Expr)
  /-- Send the message on to the class above the given one. -/
  | sendSuper (cls : ClassPath) (args : List Expr)
  | note (label : String)
  | step (step : Step)

/-- How a symbol is declared: with a body of its own, or as another name for the implementation of a
symbol before it. -/
inductive ImpLine where
  | body (exprs : List Expr)
  | sameAs (symbol : String)

/-- The implementations of a scenario: the symbols in the order of their declaration, and the bodies
by identity. -/
structure Script where
  symbols : List (String × Imp)
  bodies : Array (List Expr)

namespace Script

def empty : Script := ⟨[], #[]⟩

def imp? (script : Script) (symbol : String) : Option Imp := script.symbols.reverse.lookup symbol

def symbolOf (script : Script) (imp : Imp) : String :=
  ((script.symbols.find? fun (_, other) => other = imp).map (·.1)).getD ""

def size (script : Script) : Nat := (script.symbols.map (·.1)).eraseDups.length

def bodyOf (script : Script) (imp : Imp) : List Expr := script.bodies.getD imp.id []

/-- Declare one more symbol. Another name for an unknown symbol declares nothing. -/
def declare (script : Script) (symbol : String) : ImpLine → Script
  | .body exprs =>
    { symbols := script.symbols ++ [(symbol, ⟨script.bodies.size⟩)]
      bodies := script.bodies.push exprs }
  | .sameAs other =>
    match script.imp? other with
    | some imp => { script with symbols := script.symbols ++ [(symbol, imp)] }
    | none => script

def ofLines (lines : List (String × ImpLine)) : Script :=
  lines.foldl (fun script (symbol, line) => script.declare symbol line) empty

end Script

end LateBinding.Scenario
