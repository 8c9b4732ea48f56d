import LateBinding.Heap

/-!
# Releasing removed classes

A side of a removed pair is released as soon as nothing holds it. A class is held by those values
that the surroundings hold on to, by the slots of existing objects, and by the existing objects that
belong to it; a metaclass also by its class. An object exists as long as the surroundings or the
slots of an existing object hold it, so objects that hold each other in a ring exist for ever.
-/

namespace LateBinding.Heap

def markValue (marks : Array Bool) : Value → Array Bool
  | .object id => marks.setIfInBounds id.index true
  | _ => marks

/-- The objects that are held by some values or by the slots of objects taken to exist. -/
def heldObjects (heap : Heap) (held : List Value) (existing : Array Bool) : Array Bool :=
  let marks := held.foldl markValue (Array.replicate heap.objects.size false)
  heap.objects.toList.zip existing.toList |>.foldl
    (fun marks (object, present) => if present then object.slots.foldl markValue marks else marks)
    marks

/-- Take away objects that nothing holds until none is left, at most the given number of times. -/
def pruneObjects (heap : Heap) (held : List Value) : Nat → Array Bool → Array Bool
  | 0, existing => existing
  | left + 1, existing =>
    let marks := heap.heldObjects held existing
    let kept := Array.zipWith and existing marks
    if kept = existing then existing else pruneObjects heap held left kept

def existingObjects (heap : Heap) (held : List Value) : List Object :=
  let existing :=
    heap.pruneObjects held heap.objects.size (Array.replicate heap.objects.size true)
  (heap.objects.toList.zip existing.toList).filterMap fun (object, present) =>
    if present then some object else none

def holdsClass (held : List Value) (objects : List Object) (cls : ClassRef) : Bool :=
  held.contains (.classObject cls) ||
    objects.any fun object =>
      object.slots.contains (.classObject cls) ||
        (cls.kind = .plain && object.cls = some cls.pair)

def releasePair (held : List Value) (objects : List Object) (heap : Heap) (id : PairId) : Heap :=
  let plain := holdsClass held objects ⟨id, .plain⟩
  let metaclass := plain || holdsClass held objects ⟨id, .metaclass⟩
  heap.modifyPair id fun pair =>
    { pair with released := ⟨pair.released.plain || !plain, pair.released.metaclass || !metaclass⟩ }

/-- Release what nothing holds of the removed pairs, where the surroundings hold some values. -/
def release (heap : Heap) (held : List Value) : Heap :=
  if heap.loose.isEmpty then heap
  else
    let objects := heap.existingObjects held
    let heap := heap.loose.foldl (releasePair held objects) heap
    { heap with loose := heap.loose.filter fun id => !(heap.pair id).released.metaclass }

theorem release_eq_self {heap : Heap} (h : heap.loose = []) (held : List Value) :
    heap.release held = heap := by
  simp [release, h]

end LateBinding.Heap
