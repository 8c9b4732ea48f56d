import LateBinding.System.Dispatch
import LateBinding.System.Loading
import LateBinding.System.Shutdown

/-!
# Answers of a scenario

What a step answers, in the words of the scenario: classes by name and number, objects by handle,
implementations by symbol.
-/

namespace LateBinding.Scenario

inductive Failure where
  | selectorNotFound (error : SelectorNotFound)
  | registry (error : RegistryError)
  | dispatch (error : DispatchError)
  | load (error : LoadError)
  | options (error : OptionsError)
  | alreadyInitialized
  /-- A name is no handle, or a link leads nowhere. -/
  | noHandle (name : String)
  deriving DecidableEq, Repr

def Failure.message : Failure → String
  | .selectorNotFound error => error.message
  | .registry error => error.message
  | .dispatch error => error.message
  | .load error => error.message
  | .options error => error.message
  | .alreadyInitialized => "The process-wide runtime is already initialized"
  | .noHandle name => name

structure ClassView where
  name : String
  id : Nat
  isMetaclass : Bool
  deriving DecidableEq, Repr

inductive ValueView where
  | nil
  | bool (value : Bool)
  | int (value : Int64)
  | float (value : Binary64)
  | text (value : String)
  | object (handle : Option String)
  | classObject (cls : ClassView)
  | selector (uid : Nat)
  deriving DecidableEq, Repr

structure TableView where
  size : Nat
  isEmpty : Bool
  leafCount : Nat
  entries : List (Nat × String)
  deriving DecidableEq, Repr

structure ClassReport where
  cls : ClassView
  kind : ClassKind
  size : Nat
  linked : Bool
  initialized : Bool
  superclass : Option ClassView
  isa : Option ClassView
  metaclass : Option ClassView
  table : Option TableView
  description : String
  deriving DecidableEq, Repr

structure ObjectReport where
  cls : Option ClassView
  slots : List ValueView
  description : String
  deriving DecidableEq, Repr

structure ValueReport where
  kind : String
  isNil : Bool
  bool : Option Bool
  int : Option Int64
  float : Option Binary64
  text : Option String
  cls : Option ClassView
  sel : Option Nat
  isObject : Bool
  /-- Whether it equals nil. -/
  isDefault : Bool
  /-- Whether it equals itself. -/
  equalsItself : Bool
  description : String
  value : ValueView
  deriving DecidableEq, Repr

structure SymbolReport where
  size : Nat
  contains : Bool
  /-- The first symbol of its implementation. -/
  symbol : Option String
  description : String
  deriving DecidableEq, Repr

inductive Answer where
  | nothing
  | truth (value : Bool)
  | number (value : Nat)
  | text (value : String)
  | texts (values : List String)
  | value (value : ValueView)
  | slot (value : Option ValueView)
  | cls (cls : ClassView)
  | registered (cls : ClassView) (linked : Bool)
  /-- The report of a load, and the names of the classes of its constant objects. -/
  | loaded (report : LoadReport) (classes : List (Option String))
  | classReport (report : ClassReport)
  | table (table : TableView)
  | objectReport (report : ObjectReport)
  | valueReport (report : ValueReport)
  | symbolReport (report : SymbolReport)
  | options (options : Options)
  | stats (stats : Stats)
  | shutdown (report : ShutdownReport)
  deriving DecidableEq, Repr

def Answer.ofText? (text? : Option String) : Answer := text?.elim .nothing .text

def Answer.ofClass? (cls? : Option ClassView) : Answer := cls?.elim .nothing .cls

/-- What an implementation leaves behind for the reader of a scenario. -/
inductive Note where
  | label (label : String) (receiver : ValueView)
  | answer (answer : Except Failure Answer)

end LateBinding.Scenario
