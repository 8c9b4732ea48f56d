import LateBinding.Registry

/-!
# Removing classes

A class is removed along with the classes below it and the classes that wait for it, those below
them, and so on. Their tables are withdrawn, and their handles stand for no registered class from
then on.
-/

namespace LateBinding

namespace Registry

def isRegistered (registry : Registry) (id : ClassId) : Bool := (registry.record? id).isSome

/-- Take the record of a class out, and the class off the list of its superclass or off those that
wait for it. The classes that wait for the class itself stop waiting. -/
def takeOut (registry : Registry) (id : ClassId) (record : Record) : Registry :=
  let registry := { registry.setRecord id none with
    names := registry.names.erase record.name
    waiting := registry.waiting.erase record.name }
  match record.superclass?, record.superclassName with
  | some parent, _ => registry.modifyRecord parent fun above =>
      { above with subclasses := above.subclasses.filter (· ≠ id) }
  | none, some awaited => registry.stopWaiting awaited id
  | none, none => registry

/-- The classes that go with a class: those right below it, then those that wait for it. -/
def followers (registry : Registry) (record : Record) : List ClassId :=
  record.subclasses ++ registry.waitersOf record.name

end Registry

namespace Linking

def removeOne (id : ClassId) (record : Record) : Linking Unit := do
  onRegistry (·.takeOut id record)
  onHeap (·.withdraw record.pair)
  report (.unregistered record.name)

/-- Remove the classes on a stack with all that go with them, at most the given number. What is put
on the stack last goes first. Gives the removed pairs in the order of their removal. -/
def removeAll : Nat → List ClassId → Linking (List PairId)
  | 0, _ | _, [] => return []
  | left + 1, stack => do
    let registry := (← get).registry
    match stack.dropWhile fun id => !registry.isRegistered id with
    | [] => return []
    | id :: rest =>
      match registry.record? id with
      | none => return []
      | some record =>
        removeOne id record
        let removed ← removeAll left ((registry.followers record).reverse ++ rest)
        return record.pair :: removed

def unregister (id : ClassId) : Linking (List PairId) := do
  removeAll (← get).registry.records.size [id]

/-- Remove all classes and forget all categories. Numbers start at 0 again. -/
def clear : Linking Unit := do
  let registry := (← get).registry
  onHeap fun heap => registry.classes.foldl (fun heap record => heap.withdraw record.pair) heap
  onRegistry fun registry => .empty registry.policy

end Linking

end LateBinding
