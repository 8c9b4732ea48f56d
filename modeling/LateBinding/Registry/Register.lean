import LateBinding.Registry.Tables

/-!
# Registering classes

A class that is registered takes over the categories that wait for it. If it has no superclass or a
linked one it links at once, and then the classes that wait for it, those that wait for them, and so
on, breadth first; the waiters of one class link in the order in which they were registered.
-/

namespace LateBinding

namespace Registry

def superclassToLink (registry : Registry) (record : Record) :
    Except Abort (Option (ClassId × Record)) :=
  match record.superclassName with
  | none => .ok none
  | some awaited =>
    match (registry.idOf? awaited).bind fun id => (registry.record? id).map (id, ·) with
    | some (id, parent) =>
      if parent.isLinked then .ok (some (id, parent))
      else .error (.superclassNotLinked record.name awaited)
    | none => .error (.superclassNotLinked record.name awaited)

/-- Whether a class can link: it has no superclass, or a linked one. -/
def isReady (registry : Registry) (superclass : Option String) : Bool :=
  superclass.all fun name => (registry.stateOf? name).any (· ≠ .pending)

def markLinked (registry : Registry) (id : ClassId) (superclass : Option ClassId) : Registry :=
  let registry := match superclass with
    | none => registry
    | some parent => registry.modifyRecord parent fun above =>
      { above with subclasses := above.subclasses ++ [id] }
  registry.modifyRecord id fun record => { record with state := .linked superclass }

end Registry

namespace Linking

/-- Link one class: put its pair in its place, enter it below its superclass, build its tables.
Gives its name, unless it is not there or linked already. -/
def linkOne (id : ClassId) : Linking (Option String) := do
  let classes ← get
  match classes.registry.record? id with
  | none => return none
  | some record =>
    if record.isLinked then return none
    let parent ← classes.registry.superclassToLink record
    let link := match parent with
      | none => Link.root
      | some (_, above) => .child above.pair (classes.heap.pair above.pair |>.rootOf above.pair)
    onHeap (·.setLink record.pair link)
    onRegistry (·.markLinked id (parent.map (·.1)))
    buildTables id
    report (.linked record.name)
    return some record.name

/-- Link the classes of a queue and all that wait for them, directly or not, taking at most the
given number from the queue. Gives the linked ones in the order of linking. -/
def linkAll : Nat → List ClassId → Linking (List ClassId)
  | 0, _ | _, [] => return []
  | left + 1, id :: queue => do
    match ← linkOne id with
    | none => linkAll left queue
    | some name =>
      let waiters := (← get).registry.waitersOf name
      onRegistry (·.releaseWaiters name)
      let linked ← linkAll left (queue ++ waiters)
      return id :: linked

def link (id : ClassId) : Linking (List ClassId) := do
  linkAll (← get).registry.records.size [id]

/-- Enter a class as a pending one, with the categories that wait for it. -/
def enter (definition : ClassDefinition) : Linking (PairId × ClassId) := do
  let classes ← get
  let id := classes.registry.nextId
  let (pair, heap) := classes.heap.addPair id definition.name definition.size
  let record : Record :=
    { pair, name := definition.name, superclassName := definition.superclass, state := .pending
      methods := definition.methods, protocols := definition.protocols
      categories := classes.registry.categoriesFor definition.name, subclasses := [] }
  set { classes with heap, registry := classes.registry.addRecord record }
  return (pair, id)

def register (definition : ClassDefinition) : Linking (PairId × List ClassId) := do
  let (pair, id) ← enter definition
  if (← get).registry.isReady definition.superclass then
    return (pair, ← link id)
  else
    if let some awaited := definition.superclass then
      report (.waitingForSuperclass definition.name awaited)
      onRegistry (·.await awaited id)
    return (pair, [])

end Linking

end LateBinding
