import LateBinding.Proofs.Registry.Lookup
import LateBinding.Registry.Methods
import Mathlib.Logic.Function.Basic

/-!
# Giving pairs other identities

A registry knows its classes by their pairs, and a pair knows the pairs above it. Nothing that a
registry does depends on which identities these are: it commutes with giving every pair another one.
-/

namespace LateBinding

def ClassRef.rename (f : PairId → PairId) (cls : ClassRef) : ClassRef := ⟨f cls.pair, cls.kind⟩

def Link.rename (f : PairId → PairId) : Link → Link
  | .root => .root
  | .child parent top => .child (f parent) (f top)

def ClassPair.rename (f : PairId → PairId) (pair : ClassPair) : ClassPair :=
  { pair with link := pair.link.map (·.rename f) }

def Record.rename (f : PairId → PairId) (record : Record) : Record :=
  { record with pair := f record.pair }

def Registry.rename (f : PairId → PairId) (registry : Registry) : Registry :=
  { registry with records := registry.records.map (·.map (·.rename f)) }

def Event.rename (f : PairId → PairId) : Event → Event
  | .initializing pair name => .initializing (f pair) name
  | event => event

theorem Link.rename_self (link : Link) : link.rename (fun other => other) = link := by
  cases link <;> rfl

@[simp] theorem ClassPair.rename_self (pair : ClassPair) :
    pair.rename (fun other => other) = pair := by
  have hlink : pair.link.map (·.rename fun other => other) = pair.link := by
    rw [funext Link.rename_self]
    exact Option.map_id'
  rw [rename, hlink]

theorem ClassPair.rootOf_rename (f : PairId → PairId) (self : PairId) (pair : ClassPair) :
    (pair.rename f).rootOf (f self) = f (pair.rootOf self) := by
  unfold rootOf rename
  cases pair.link with
  | none => rfl
  | some link => cases link <;> rfl

@[simp] theorem Event.rename_self (event : Event) : event.rename (fun other => other) = event := by
  cases event <;> rfl

theorem Record.replaceMethod_rename (f : PairId → PairId) (record : Record)
    (policy : CategoryConflictPolicy) (kind : ClassKind) (definition : MethodDefinition) :
    (record.rename f).replaceMethod policy kind definition =
      ((record.replaceMethod policy kind definition).1.rename f,
        (record.replaceMethod policy kind definition).2) := by
  unfold replaceMethod rename
  cases policy <;> dsimp only <;> split <;> rfl

namespace Registry

variable (f : PairId → PairId) (registry : Registry)

@[simp] theorem rename_self : registry.rename (fun other => other) = registry := by
  have hplace : (Option.map fun record : Record => record.rename fun other => other) = id :=
    Option.map_id
  rw [rename, hplace, Array.map_id]

@[simp] theorem rename_empty (policy : CategoryConflictPolicy) :
    (empty policy).rename f = empty policy := by
  simp [rename, empty]

theorem record?_rename (id : ClassId) :
    (registry.rename f).record? id = (registry.record? id).map (·.rename f) := by
  rw [record?, record?, rename, Array.getElem?_map]
  cases registry.records[id.index]? with
  | none => rfl
  | some place => rfl

theorem classes_rename : (registry.rename f).classes = registry.classes.map (·.rename f) := by
  rw [classes, classes, rename, Array.toList_map, List.filterMap_map, List.map_filterMap]
  rfl

theorem stateOf?_rename (name : String) :
    (registry.rename f).stateOf? name = registry.stateOf? name := by
  rw [stateOf?, stateOf?]
  change (((registry.idOf? name).bind (registry.rename f).record?).map (·.state)) = _
  cases registry.idOf? name with
  | none => rfl
  | some id =>
    rw [Option.bind_some, Option.bind_some, record?_rename, Option.map_map]
    rfl

theorem classForName?_rename (name : String) : (registry.rename f).classForName? name =
    (registry.classForName? name).map (·.rename f) := by
  rw [classForName?, classForName?]
  change ((registry.idOf? name).bind (registry.rename f).record?).bind _ = _
  cases registry.idOf? name with
  | none => rfl
  | some id =>
    rw [Option.bind_some, Option.bind_some, record?_rename]
    cases registry.record? id with
    | none => rfl
    | some record =>
      change (if record.isLinked then _ else _) = Option.map _ (if record.isLinked then _ else _)
      split <;> rfl

theorem linkedCount_rename : (registry.rename f).linkedCount = registry.linkedCount := by
  rw [linkedCount, linkedCount, classes_rename, List.countP_map]
  rfl

theorem unresolved_rename : (registry.rename f).unresolved = registry.unresolved := by
  rw [unresolved, unresolved, classes_rename, List.filterMap_map]
  rfl

theorem chainWithin_rename (left : Nat) (id : ClassId) :
    (registry.rename f).chainWithin left id =
      (registry.chainWithin left id).map (·.rename f) := by
  induction left generalizing id with
  | zero => rfl
  | succ left ih =>
    rw [chainWithin, chainWithin, record?_rename]
    cases registry.record? id with
    | none => rfl
    | some record =>
      have hparent : (record.rename f).superclass? = record.superclass? := rfl
      dsimp only [Option.map_some]
      rw [hparent, List.map_cons]
      cases record.superclass? with
      | none => rfl
      | some parent => exact congrArg _ (ih parent)

theorem conformsTo_rename (id : ClassId) (protocol : String) :
    (registry.rename f).conformsTo id protocol = registry.conformsTo id protocol := by
  rw [conformsTo, conformsTo, chain, chain, chainWithin_rename, List.any_map, rename,
    Array.size_map]
  rfl

theorem addRecord_rename (record : Record) :
    (registry.rename f).addRecord (record.rename f) = (registry.addRecord record).rename f := by
  simp [addRecord, rename, nextId, Record.rename]

theorem setRecord_rename (id : ClassId) (record : Option Record) :
    (registry.rename f).setRecord id (record.map (·.rename f)) =
      (registry.setRecord id record).rename f := by
  rw [setRecord, setRecord, rename, rename, Array.map_setIfInBounds]

theorem modifyRecord_rename (id : ClassId) {change : Record → Record}
    (hchange : ∀ record : Record, change (record.rename f) = (change record).rename f) :
    (registry.rename f).modifyRecord id change = (registry.modifyRecord id change).rename f := by
  have hrecords : (registry.records.map (Option.map (·.rename f))).modify id.index
      (Option.map change) = (registry.records.modify id.index (Option.map change)).map
        (Option.map (·.rename f)) := by
    apply Array.ext_getElem?
    intro index
    simp only [Array.getElem?_modify, Array.getElem?_map]
    split
    · cases registry.records[index]? with
      | none => rfl
      | some place =>
        cases place with
        | none => rfl
        | some record => simp [hchange]
    · rfl
  rw [modifyRecord, modifyRecord, rename, rename, hrecords]

theorem markLinked_rename (id : ClassId) (superclass : Option ClassId) :
    (registry.rename f).markLinked id superclass = (registry.markLinked id superclass).rename f := by
  cases superclass with
  | none => exact registry.modifyRecord_rename f id fun _ => rfl
  | some parent =>
    rw [markLinked, markLinked, modifyRecord_rename, modifyRecord_rename]
    · exact fun _ => rfl
    · exact fun _ => rfl

theorem superclassToLink_rename (record : Record) :
    (registry.rename f).superclassToLink (record.rename f) =
      (registry.superclassToLink record).map (·.map fun (id, parent) => (id, parent.rename f)) := by
  have hfound : ∀ awaited, ((registry.idOf? awaited).bind fun id =>
      ((registry.rename f).record? id).map (id, ·)) =
        ((registry.idOf? awaited).bind fun id => (registry.record? id).map (id, ·)).map
          fun (id, parent) => (id, parent.rename f) := by
    intro awaited
    cases registry.idOf? awaited with
    | none => rfl
    | some id =>
      rw [Option.bind_some, Option.bind_some, record?_rename]
      cases registry.record? id <;> rfl
  have hid : ∀ name, (registry.rename f).idOf? name = registry.idOf? name := fun _ => rfl
  cases hname : record.superclassName with
  | none => simp only [superclassToLink, Record.rename, hname]; rfl
  | some awaited =>
    simp only [superclassToLink, Record.rename, hname, hid, hfound]
    cases (registry.idOf? awaited).bind fun id => (registry.record? id).map (id, ·) with
    | none => rfl
    | some found =>
      change (if found.2.isLinked then _ else _) = Except.map _ (if found.2.isLinked then _ else _)
      split <;> rfl

theorem parentPair?_rename (record : Record) :
    (registry.rename f).parentPair? (record.rename f) = (registry.parentPair? record).map f := by
  rw [parentPair?, parentPair?]
  change (record.superclass?.bind (registry.rename f).record?).map (·.pair) = _
  cases record.superclass? with
  | none => rfl
  | some id =>
    rw [Option.bind_some, Option.bind_some, record?_rename, Option.map_map, Option.map_map]
    rfl

theorem subtreeWithin_rename (left : Nat) (queue : List ClassId) :
    (registry.rename f).subtreeWithin left queue = registry.subtreeWithin left queue := by
  induction left generalizing queue with
  | zero => rfl
  | succ left ih =>
    cases queue with
    | nil => rfl
    | cons id queue =>
      rw [subtreeWithin, subtreeWithin, ih, record?_rename]
      cases registry.record? id <;> rfl

theorem subtree_rename (id : ClassId) : (registry.rename f).subtree id = registry.subtree id := by
  rw [subtree, subtree, subtreeWithin_rename, rename, Array.size_map]

theorem stopWaiting_rename (awaited : String) (id : ClassId) :
    (registry.rename f).stopWaiting awaited id = (registry.stopWaiting awaited id).rename f := by
  unfold stopWaiting
  have hwaiting : (registry.rename f).waiting = registry.waiting := rfl
  rw [hwaiting]
  cases registry.waiting[awaited]? with
  | none => rfl
  | some waiters =>
    change (if (waiters.filter (· ≠ id)).isEmpty then _ else _) =
      rename f (if (waiters.filter (· ≠ id)).isEmpty then _ else _)
    split <;> rfl

theorem takeOut_rename (id : ClassId) (record : Record) :
    (registry.rename f).takeOut id (record.rename f) = (registry.takeOut id record).rename f := by
  let rest : Registry := { registry.setRecord id none with
    names := registry.names.erase record.name
    waiting := registry.waiting.erase record.name }
  have hrest : rest.rename f = { (registry.rename f).setRecord id none with
      names := registry.names.erase record.name
      waiting := registry.waiting.erase record.name } := by
    have hset := registry.setRecord_rename f id none
    rw [Option.map_none] at hset
    rw [hset]
    rfl
  have hparent : (record.rename f).superclass? = record.superclass? := rfl
  have hawaited : (record.rename f).superclassName = record.superclassName := rfl
  rw [takeOut_eq, takeOut_eq, hparent, hawaited]
  cases record.superclass? with
  | some parent =>
    exact (congrArg (modifyRecord · parent _) hrest.symm).trans
      (rest.modifyRecord_rename f parent fun _ => rfl)
  | none =>
    cases record.superclassName with
    | none => exact hrest.symm
    | some awaited =>
      exact (congrArg (stopWaiting · awaited id) hrest.symm).trans
        (rest.stopWaiting_rename f awaited id)

end Registry

end LateBinding
