import LateBinding.Registry

/-!
# Building dispatch tables

The table of a class is its superclass's table with its own definitions laid over it, from the
weakest list to the strongest. A root metaclass stands below its own class, so the class object of a
root class understands what its instances do. Whenever the definitions of a class change, its tables
and those of all classes below it are built anew, superclasses first.
-/

namespace LateBinding

namespace DispatchTable

def overlay (table : DispatchTable) (methods : List MethodDefinition) :
    Except Abort DispatchTable :=
  methods.foldlM (fun table method => table.set method.sel method.imp) table

/-- A copy of the table above, if there is one, with the definitions of several lists laid over
it. -/
def compose (above : Option DispatchTable) (layers : List (List MethodDefinition)) :
    Except Abort DispatchTable :=
  layers.foldlM overlay (above.getD empty)

end DispatchTable

namespace Registry

def parentPair? (registry : Registry) (record : Record) : Option PairId :=
  (record.superclass?.bind registry.record?).map (·.pair)

def publishTables (registry : Registry) (record : Record) (heap : Heap) : Except Abort Heap := do
  let parent := registry.parentPair? record
  let layers := record.layers registry.policy
  let table ← DispatchTable.compose (parent.bind fun pair => heap.table? ⟨pair, .plain⟩)
    (layers .plain)
  let heap := heap.publish ⟨record.pair, .plain⟩ table
  let aboveMeta := match parent with
    | some pair => heap.table? ⟨pair, .metaclass⟩
    | none => some table
  let metaTable ← DispatchTable.compose aboveMeta (layers .metaclass)
  return heap.publish ⟨record.pair, .metaclass⟩ metaTable

/-- The classes of a queue and all below them, breadth first, at most the given number. -/
def subtreeWithin (registry : Registry) : Nat → List ClassId → List ClassId
  | 0, _ | _, [] => []
  | left + 1, id :: queue =>
    id :: registry.subtreeWithin left
      (queue ++ ((registry.record? id).elim [] fun record => record.subclasses))

def subtree (registry : Registry) (id : ClassId) : List ClassId :=
  registry.subtreeWithin registry.records.size [id]

end Registry

namespace Linking

def buildTables (id : ClassId) : Linking Unit := do
  let classes ← get
  match classes.registry.record? id with
  | none => return
  | some record =>
    let heap ← classes.registry.publishTables record classes.heap
    let registry := { classes.registry with builds := classes.registry.builds + 2 }
    set { classes with heap, registry }

/-- Build the tables of a linked class and of all below it. The tables of a pending class are not
built. -/
def rebuild (id : ClassId) : Linking Unit := do
  let registry := (← get).registry
  match registry.record? id with
  | none => return
  | some record =>
    if record.isLinked then
      let affected := registry.subtree id
      affected.forM buildTables
      report (.tablesRebuilt record.name affected.length)

end Linking

end LateBinding
