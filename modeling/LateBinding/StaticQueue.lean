import LateBinding.Handle

/-!
# Waiting static instances

Objects that a compiler laid out have no class at first. They wait under the name of their class
until a class of that name links. An object waits under a name at most once, but may wait under
several names.
-/

namespace LateBinding

/-- The waiting objects with the names they wait under, in the order in which they came. -/
abbrev StaticQueue := List (String × ObjectId)

namespace StaticQueue

def add (queue : StaticQueue) (name : String) (object : ObjectId) : StaticQueue :=
  if queue.contains (name, object) then queue else queue ++ [(name, object)]

def addAll (queue : StaticQueue) (name : String) (objects : List ObjectId) : StaticQueue :=
  objects.foldl (fun queue object => queue.add name object) queue

def under (queue : StaticQueue) (name : String) : List ObjectId :=
  queue.filterMap fun (other, object) => if other = name then some object else none

/-- What is left when nothing waits under a name any more. -/
def without (queue : StaticQueue) (name : String) : StaticQueue :=
  queue.filter fun (other, _) => other ≠ name

/-- The names that objects wait under, each once and sorted, with the number of objects. -/
def counts (queue : StaticQueue) : List (String × Nat) :=
  let names := (queue.map (·.1)).eraseDups.mergeSort (· ≤ ·)
  names.map fun name => (name, (queue.under name).length)

end StaticQueue

end LateBinding
