import LateBinding.Registry.Tables

/-!
# Changing methods

A category that is applied joins the categories of its class or waits for it; applied again, it
takes the place of its earlier version. Single methods can be added and replaced. Each change of a
linked class has its tables built anew.
-/

namespace LateBinding

inductive CategoryStatus where
  | applied
  | pending
  deriving DecidableEq, Repr

def CategoryStatus.name : CategoryStatus → String
  | .applied => "applied"
  | .pending => "pending"

/-- Change the last element that passes a test. Gives that element as it was. -/
def replaceLast {α : Type} (test : α → Bool) (change : α → α) : List α → List α × Option α
  | [] => ([], none)
  | head :: rest =>
    match replaceLast test change rest with
    | (rest, some old) => (head :: rest, some old)
    | (rest, none) =>
      if test head then (change head :: rest, some head) else (head :: rest, none)

def replaceFirst {α : Type} (test : α → Bool) (change : α → α) : List α → List α × Option α
  | [] => ([], none)
  | head :: rest =>
    if test head then (change head :: rest, some head)
    else
      let (rest, old) := replaceFirst test change rest
      (head :: rest, old)

/-- Give a selector another implementation in a list of methods: in its last definition, whose type
encoding is kept if no other is given, or in a new definition at the end. Gives the implementation
that was replaced. -/
def replaceIn (methods : List MethodDefinition) (definition : MethodDefinition) :
    List MethodDefinition × Option Imp :=
  let change (old : MethodDefinition) : MethodDefinition :=
    { old with imp := definition.imp, types := definition.types.or old.types }
  match replaceLast (fun method => method.sel = definition.sel) change methods with
  | (methods, some old) => (methods, some old.imp)
  | (methods, none) => (methods ++ [definition], none)

namespace CategoryDefinition

def replaceMethod (category : CategoryDefinition) (kind : ClassKind)
    (definition : MethodDefinition) : CategoryDefinition :=
  { category with methods :=
      category.methods.set kind (replaceIn (category.methods.get kind) definition).1 }

end CategoryDefinition

namespace Record

/-- Give a selector another implementation where dispatch sees it: in the strongest category that
defines it, or else among the class's own methods. Gives the implementation that was replaced. -/
def replaceMethod (record : Record) (policy : CategoryConflictPolicy) (kind : ClassKind)
    (definition : MethodDefinition) : Record × Option Imp :=
  let test (category : CategoryDefinition) : Bool := category.defines kind definition.sel
  let change (category : CategoryDefinition) : CategoryDefinition :=
    category.replaceMethod kind definition
  let (categories, old) := match policy with
    | .lastApplied => replaceLast test change record.categories
    | .firstApplied => replaceFirst test change record.categories
  match old with
  | some category =>
    ({ record with categories }, (replaceIn (category.methods.get kind) definition).2)
  | none =>
    let (methods, old) := replaceIn (record.methods.get kind) definition
    ({ record with methods := record.methods.set kind methods }, old)

end Record

namespace Linking

def applyCategory (category : CategoryDefinition) : Linking CategoryStatus := do
  match (← get).registry.idOf? category.className with
  | none =>
    report (.waitingForClass category.name category.className)
    onRegistry (·.holdBack category)
    return .pending
  | some id =>
    report (.applied category.name category.className)
    onRegistry (·.modifyRecord id fun record =>
      { record with categories := category.merge record.categories })
    rebuild id
    return .applied

def addMethod (id : ClassId) (kind : ClassKind) (definition : MethodDefinition) :
    Linking Bool := do
  match (← get).registry.record? id with
  | none => return false
  | some record =>
    if record.defines kind definition.sel then return false
    let methods := record.methods.set kind (record.methods.get kind ++ [definition])
    onRegistry (·.setRecord id (some { record with methods }))
    rebuild id
    return true

def replaceMethod (id : ClassId) (kind : ClassKind) (definition : MethodDefinition) :
    Linking (Option Imp) := do
  let registry := (← get).registry
  match registry.record? id with
  | none => return none
  | some record =>
    let (record, old) := record.replaceMethod registry.policy kind definition
    onRegistry (·.setRecord id (some record))
    rebuild id
    return old

end Linking

end LateBinding
