import LateBinding.Handle

/-!
# Events

What a system reports about its work while it works. An event has a level, a fixed sentence and the
particulars of the case.
-/

namespace LateBinding

inductive Level where
  | warn
  | debug
  | trace
  deriving DecidableEq, Repr

def Level.name : Level → String
  | .warn => "WARN"
  | .debug => "DEBUG"
  | .trace => "TRACE"

/-- How loud a level is: a listener that asks for one level also hears the levels below it. -/
def Level.rank : Level → Nat
  | .warn => 0
  | .debug => 1
  | .trace => 2

inductive Detail where
  | text (value : String)
  | number (value : Nat)
  deriving DecidableEq, Repr

/-- What a system reports. Classes and categories are given by name. -/
inductive Event where
  /-- A type encoding was ignored in favour of an earlier one. -/
  | typesIgnored (conflict : TypeConflict)
  | initializerFailed (className error : String)
  /-- At shutdown a class still waited for its superclass. -/
  | neverLinked (className superclassName : String)
  /-- At shutdown a category still waited for its class. -/
  | neverApplied (className category : String)
  /-- At shutdown static instances still waited for their class. -/
  | instancesForgotten (className : String) (count : Nat)
  /-- A class was registered before its superclass linked. -/
  | waitingForSuperclass (className superclassName : String)
  | linked (className : String)
  /-- The tables of a class and of all classes below it were built anew. -/
  | tablesRebuilt (className : String) (classes : Nat)
  | unregistered (className : String)
  | waitingForClass (category className : String)
  | applied (category className : String)
  /-- The initializer is about to run for the class of this pair. -/
  | initializing (pair : PairId) (className : String)
  | unitExecuted (unit : String) (registered linked : Nat)
  /-- No implementation was found, and the forward handler is about to run. -/
  | forwarding (className : String) (sel : Sel)
  deriving DecidableEq, Repr

def neverLinkedText (className superclassName : String) : String :=
  "Class " ++ className ++ " was never linked: superclass " ++ superclassName ++ " did not resolve"

namespace Event

def level : Event → Level
  | .typesIgnored .. | .initializerFailed .. | .neverLinked .. | .neverApplied ..
  | .instancesForgotten .. => .warn
  | .waitingForSuperclass .. | .linked .. | .tablesRebuilt .. | .unregistered ..
  | .waitingForClass .. | .applied .. | .initializing .. | .unitExecuted .. => .debug
  | .forwarding .. => .trace

def message : Event → String
  | .typesIgnored .. => "selector re-declared with a different type encoding"
  | .initializerFailed .. => "class initializer failed"
  | .neverLinked className superclassName => neverLinkedText className superclassName
  | .neverApplied .. => "category never applied: class was not registered"
  | .instancesForgotten .. => "static instances forgotten: class never linked"
  | .waitingForSuperclass .. => "class waiting for superclass"
  | .linked .. => "class linked"
  | .tablesRebuilt .. => "dispatch tables rebuilt"
  | .unregistered .. => "class unregistered"
  | .waitingForClass .. => "category waiting for class"
  | .applied .. => "category applied"
  | .initializing .. => "initializing class"
  | .unitExecuted .. => "load unit executed"
  | .forwarding .. => "forwarding message"

/-- The particulars of an event, each under its name. -/
def details : Event → List (String × Detail)
  | .typesIgnored ⟨selector, kept, ignored⟩ =>
    [("selector", .text selector), ("kept", .text kept), ("ignored", .text ignored)]
  | .initializerFailed className error => [("class", .text className), ("error", .text error)]
  | .neverLinked className superclassName =>
    [("class", .text className), ("superclass", .text superclassName)]
  | .neverApplied className category => [("class", .text className), ("category", .text category)]
  | .instancesForgotten className count => [("class", .text className), ("count", .number count)]
  | .waitingForSuperclass className superclassName =>
    [("class", .text className), ("superclass", .text superclassName)]
  | .linked className => [("class", .text className)]
  | .tablesRebuilt className classes => [("class", .text className), ("classes", .number classes)]
  | .unregistered className => [("class", .text className)]
  | .waitingForClass category className =>
    [("category", .text category), ("class", .text className)]
  | .applied category className => [("category", .text category), ("class", .text className)]
  | .initializing _ className => [("class", .text className)]
  | .unitExecuted unit registered released =>
    [("unit", .text unit), ("registered", .number registered), ("linked", .number released)]
  | .forwarding className sel => [("class", .text className), ("selector", .number sel.uid)]

end Event

end LateBinding
