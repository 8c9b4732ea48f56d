import LateBinding.Execution.Program
import LateBinding.Scenario.Answer
import LateBinding.Scenario.Step
import LateBinding.System.Description

/-!
# The desk of a scenario

The desk holds what a scenario keeps between its steps: the handles, and the notes of the step that
is being taken. Handles keep their classes and objects from being released.
-/

namespace LateBinding.Scenario

/-- Things by handle, the latest first. -/
abbrev Handles (α : Type) := List (String × α)

def Handles.put {α : Type} (handles : Handles α) (name : String) (value : α) : Handles α :=
  (name, value) :: handles.filter fun (other, _) => other ≠ name

def Handles.drop {α : Type} (handles : Handles α) (name : String) : Handles α :=
  handles.filter fun (other, _) => other ≠ name

structure Desk where
  classes : Handles ClassRef
  objects : Handles ObjectId
  tables : Handles DispatchTable
  notes : Array Note
  elsewhere : List Value

namespace Desk

def empty : Desk := ⟨[], [], [], #[], []⟩

instance : Inhabited Desk := ⟨empty⟩

def holds (desk : Desk) : List Value :=
  desk.classes.map (fun (_, cls) => .classObject cls) ++
    desk.objects.map (fun (_, id) => .object id) ++ desk.elsewhere

/-- The first handle of an object, in alphabetical order. -/
def handleOf? (desk : Desk) (id : ObjectId) : Option String :=
  (desk.objects.filterMap fun (name, other) => if other = id then some name else none).mergeSort
    (· ≤ ·) |>.head?

def addNote (desk : Desk) (note : Note) : Desk := { desk with notes := desk.notes.push note }

def putClass (desk : Desk) (name : String) (cls : ClassRef) : Desk :=
  { desk with classes := desk.classes.put name cls }

def putObject (desk : Desk) (name : String) (id : ObjectId) : Desk :=
  { desk with objects := desk.objects.put name id }

def putObjects (desk : Desk) (stem : String) (ids : List ObjectId) : Desk :=
  ids.zipIdx.foldl (fun desk (id, index) => desk.putObject (stem ++ toString index) id) desk

end Desk

abbrev Stage := World Desk

namespace Stage

/-! ### Following paths -/

def follow (link : Option ClassRef) : Except Failure ClassRef :=
  match link with
  | some cls => .ok cls
  | none => .error (.noHandle "")

def classAt (stage : Stage) : ClassPath → Except Failure ClassRef
  | .named name =>
    match (stage.host.classes.lookup name).or (stage.session.classForName? name) with
    | some cls => .ok cls
    | none => .error (.noHandle name)
  | .metaclassOf path => do follow (Heap.metaclass? (← stage.classAt path))
  | .superclassOf path => do follow (stage.session.heap.superclass? (← stage.classAt path))
  | .isaOf path => do follow (stage.session.heap.isa? (← stage.classAt path))

def selAt (stage : Stage) : SelPath → Except Failure Sel
  | .uid uid => .ok ⟨uid⟩
  | .named name => (stage.session.system.selectors.lookup name).mapError .selectorNotFound

def handled {α : Type} (handles : Handles α) (name : String) : Except Failure α :=
  match handles.lookup name with
  | some value => .ok value
  | none => .error (.noHandle name)

def objectAt (stage : Stage) (handle : String) : Except Failure ObjectId :=
  handled stage.host.objects handle

def tableAt (stage : Stage) (handle : String) : Except Failure DispatchTable :=
  handled stage.host.tables handle

def valueAt (stage : Stage) : ValuePath → Except Failure Value
  | .constant value => .ok (.ofConstant value)
  | .object handle => .object <$> stage.objectAt handle
  | .classObject path => .classObject <$> stage.classAt path
  | .selector path => .selector <$> stage.selAt path

def impAt (script : Script) (symbol : String) : Except Failure Imp :=
  match script.imp? symbol with
  | some imp => .ok imp
  | none => .error (.noHandle symbol)

def methodAt (script : Script) (line : MethodLine) : Except Failure MethodSpec :=
  return { name := line.name, types := line.types, imp := ← impAt script line.symbol }

def methodsAt (script : Script) (lines : Sided (List MethodLine)) :
    Except Failure (Sided (List MethodSpec)) := do
  let plain ← lines.plain.mapM (methodAt script)
  let metaclass ← lines.metaclass.mapM (methodAt script)
  return { plain, metaclass }

/-! ### Views -/

def viewClass (stage : Stage) (cls : ClassRef) : ClassView :=
  { name := stage.session.heap.className cls
    id := (stage.session.heap.pair cls.pair).id.index
    isMetaclass := cls.kind = .metaclass }

def viewValue (stage : Stage) : Value → ValueView
  | .nil => .nil
  | .bool value => .bool value
  | .int value => .int value
  | .float value => .float value
  | .text value => .text value
  | .object id => .object (stage.host.handleOf? id)
  | .classObject cls => .classObject (stage.viewClass cls)
  | .selector sel => .selector sel.uid

def viewTable (script : Script) (table : DispatchTable) : TableView :=
  { size := table.size
    isEmpty := table.isEmpty
    leafCount := table.leafCount
    entries := table.entries.map fun (sel, imp) => (sel.uid, script.symbolOf imp) }

def reportClass (script : Script) (stage : Stage) (cls : ClassRef) : ClassReport :=
  let heap := stage.session.heap
  { cls := stage.viewClass cls
    kind := cls.kind
    size := heap.instanceSize cls
    linked := heap.isLinked cls
    initialized := heap.isInitialized cls
    superclass := (heap.superclass? cls).map stage.viewClass
    isa := (heap.isa? cls).map stage.viewClass
    metaclass := (Heap.metaclass? cls).map stage.viewClass
    table := (heap.table? cls).map (viewTable script)
    description := heap.describeClass cls }

def reportObject (stage : Stage) (id : ObjectId) : ObjectReport :=
  let heap := stage.session.heap
  { cls := (heap.classOf? id).map stage.viewClass
    slots := (heap.object id).slots.toList.map stage.viewValue
    description := heap.describeObject id }

def reportValue (stage : Stage) (value : Value) : ValueReport :=
  { kind := value.kind
    isNil := value = .nil
    bool := value.bool?
    int := value.int?
    float := value.float?
    text := value.text?
    cls := value.class?.map stage.viewClass
    sel := value.selector?.map (·.uid)
    isObject := value.object?.isSome
    isDefault := value.equals .nil
    equalsItself := value.equals value
    description := stage.session.heap.describeValue value
    value := stage.viewValue value }

def reportSymbol (script : Script) (symbol : String) : SymbolReport :=
  { size := script.size
    contains := (script.imp? symbol).isSome
    symbol := (script.imp? symbol).map script.symbolOf
    description := recordText "ImpRegistry" [("count", toString script.size)] }

end Stage

end LateBinding.Scenario
