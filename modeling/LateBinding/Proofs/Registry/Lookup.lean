import LateBinding.Registry.Register
import LateBinding.Registry.Unregister
import Mathlib.Data.List.Nodup
import Mathlib.Data.List.Perm.Subperm

/-!
# What a registry finds after a change

Each change of a registry is described by what is found in it afterwards: the record of a number,
the number of a name, the classes that wait for a name, the categories that wait for it. Nothing
else about the arrays and maps of a registry is used from here on.
-/

namespace LateBinding.Registry

variable (registry : Registry)

/-! ### Maps from names -/

theorem getElem?_insert_name {α : Type} (map : Std.ExtTreeMap String α) (name other : String)
    (value : α) : (map.insert name value)[other]? = if name = other then some value else map[other]? := by
  rw [Std.ExtTreeMap.getElem?_insert]
  simp only [Std.compare_eq_iff_eq]

theorem getElem?_erase_name {α : Type} (map : Std.ExtTreeMap String α) (name other : String) :
    (map.erase name)[other]? = if name = other then none else map[other]? := by
  rw [Std.ExtTreeMap.getElem?_erase]
  simp only [Std.compare_eq_iff_eq]

theorem getD_filter_ne_nil {α : Type} [DecidableEq α] (kept : Option (List α)) :
    (kept.filter (· ≠ [])).getD [] = kept.getD [] := by
  cases kept with
  | none => rfl
  | some list => cases list <;> rfl

/-! ### The record of a number -/

theorem record?_addRecord (record : Record) (id : ClassId) :
    (registry.addRecord record).record? id =
      if registry.nextId = id then some record else registry.record? id := by
  by_cases heq : registry.nextId = id
  · subst heq
    simp [record?, addRecord, nextId]
  · have hindex : id.index ≠ registry.records.size := by
      intro h
      exact heq (congrArg ClassId.mk h.symm)
    simp [record?, addRecord, Array.getElem?_push, heq, hindex]

@[simp] theorem record?_nextId : registry.record? registry.nextId = none := by
  simp [record?, nextId]

theorem index_lt_of_record? {id : ClassId} {record : Record}
    (h : registry.record? id = some record) : id.index < registry.records.size := by
  by_contra hout
  simp [record?, hout] at h

theorem record?_setRecord {id : ClassId} {old : Record} (hold : registry.record? id = some old)
    (record : Option Record) (other : ClassId) :
    (registry.setRecord id record).record? other =
      if id = other then record else registry.record? other := by
  have hin := registry.index_lt_of_record? hold
  by_cases heq : id = other
  · subst heq
    simp [record?, setRecord, hin]
  · have hindex : id.index ≠ other.index := by
      intro h
      exact heq (congrArg ClassId.mk h)
    simp [record?, setRecord, heq, hindex]

theorem record?_modifyRecord (id other : ClassId) (change : Record → Record) :
    (registry.modifyRecord id change).record? other =
      if id = other then (registry.record? other).map change else registry.record? other := by
  by_cases heq : id = other
  · subst heq
    simp only [record?, modifyRecord, Array.getElem?_modify, if_true]
    cases registry.records[id.index]? with
    | none => rfl
    | some entry => cases entry <;> rfl
  · have hindex : id.index ≠ other.index := by
      intro h
      exact heq (congrArg ClassId.mk h)
    simp [record?, modifyRecord, Array.getElem?_modify, heq, hindex]

theorem modifyRecord_eq_setRecord {id : ClassId} {old : Record}
    (hold : registry.record? id = some old) (change : Record → Record) :
    registry.modifyRecord id change = registry.setRecord id (some (change old)) := by
  have hentry : registry.records[id.index]? = some (some old) := by
    unfold record? at hold
    cases hrecord : registry.records[id.index]? with
    | none => simp [hrecord] at hold
    | some entry =>
      rw [hrecord] at hold
      exact congrArg some hold
  unfold modifyRecord setRecord
  congr 1
  apply Array.ext_getElem?
  intro index
  rw [Array.getElem?_modify, Array.getElem?_setIfInBounds]
  by_cases hindex : id.index = index
  · subst hindex
    have hin := registry.index_lt_of_record? hold
    simp only [if_true, hentry, Option.map_some, if_pos hin]
  · simp only [if_neg hindex]

/-! ### The number of a name -/

@[simp] theorem idOf?_setRecord (id : ClassId) (record : Option Record) :
    (registry.setRecord id record).idOf? = registry.idOf? := rfl

@[simp] theorem idOf?_modifyRecord (id : ClassId) (change : Record → Record) :
    (registry.modifyRecord id change).idOf? = registry.idOf? := rfl

@[simp] theorem idOf?_await (awaited : String) (id : ClassId) :
    (registry.await awaited id).idOf? = registry.idOf? := rfl

@[simp] theorem idOf?_releaseWaiters (name : String) :
    (registry.releaseWaiters name).idOf? = registry.idOf? := rfl

@[simp] theorem idOf?_holdBack (category : CategoryDefinition) :
    (registry.holdBack category).idOf? = registry.idOf? := rfl

theorem idOf?_addRecord (record : Record) (name : String) :
    (registry.addRecord record).idOf? name =
      if record.name = name then some registry.nextId else registry.idOf? name :=
  getElem?_insert_name _ _ _ _

/-! ### Waiting classes and categories -/

@[simp] theorem record?_await (awaited : String) (id : ClassId) :
    (registry.await awaited id).record? = registry.record? := rfl

@[simp] theorem record?_releaseWaiters (name : String) :
    (registry.releaseWaiters name).record? = registry.record? := rfl

@[simp] theorem record?_holdBack (category : CategoryDefinition) :
    (registry.holdBack category).record? = registry.record? := rfl

theorem waiting_await (awaited name : String) (id : ClassId) :
    (registry.await awaited id).waiting[name]? =
      if awaited = name then some (registry.waitersOf name ++ [id])
      else registry.waiting[name]? := by
  simp only [await, getElem?_insert_name]
  split
  · next heq => rw [heq]
  · rfl

theorem waiting_releaseWaiters (name other : String) :
    (registry.releaseWaiters name).waiting[other]? =
      if name = other then none else registry.waiting[other]? :=
  getElem?_erase_name _ _ _

/-- A list of waiting classes is dropped from the map once it is empty. -/
theorem waiting_stopWaiting (awaited name : String) (id : ClassId) :
    (registry.stopWaiting awaited id).waiting[name]? =
      if awaited = name then
        (registry.waiting[name]?.map fun waiters => waiters.filter (· ≠ id)).filter (· ≠ [])
      else registry.waiting[name]? := by
  unfold stopWaiting
  cases hwaiters : registry.waiting[awaited]? with
  | none =>
    dsimp only
    split
    · next heq => rw [← heq, hwaiters]; rfl
    · rfl
  | some waiters =>
    dsimp only
    by_cases hempty : waiters.filter (· ≠ id) = []
    · rw [if_pos (by rw [hempty]; rfl), getElem?_erase_name]
      split
      · next heq =>
        rw [← heq, hwaiters, Option.map_some, hempty]
        rfl
      · rfl
    · rw [if_neg (by rw [List.isEmpty_iff]; exact hempty), getElem?_insert_name]
      split
      · next heq =>
        rw [← heq, hwaiters, Option.map_some, Option.filter_some, if_pos (decide_eq_true hempty)]
      · rfl

@[simp] theorem idOf?_stopWaiting (awaited : String) (id : ClassId) :
    (registry.stopWaiting awaited id).idOf? = registry.idOf? := by
  unfold stopWaiting
  split
  · rfl
  · dsimp only
    split <;> rfl

@[simp] theorem record?_stopWaiting (awaited : String) (id : ClassId) :
    (registry.stopWaiting awaited id).record? = registry.record? := by
  unfold stopWaiting
  split
  · rfl
  · dsimp only
    split <;> rfl

theorem waitersOf_await (awaited name : String) (id : ClassId) :
    (registry.await awaited id).waitersOf name =
      if awaited = name then registry.waitersOf name ++ [id] else registry.waitersOf name := by
  simp only [waitersOf, waiting_await]
  split <;> rfl

theorem waitersOf_releaseWaiters (name other : String) :
    (registry.releaseWaiters name).waitersOf other =
      if name = other then [] else registry.waitersOf other := by
  simp only [waitersOf, waiting_releaseWaiters]
  split <;> rfl

theorem heldBack_addRecord (record : Record) (name : String) :
    (registry.addRecord record).heldBack[name]? =
      if record.name = name then none else registry.heldBack[name]? :=
  getElem?_erase_name _ _ _

theorem heldBack_holdBack (category : CategoryDefinition) (name : String) :
    (registry.holdBack category).heldBack[name]? =
      if category.className = name then
        some (category.merge (registry.categoriesFor category.className))
      else registry.heldBack[name]? :=
  getElem?_insert_name _ _ _ _

@[simp] theorem heldBack_stopWaiting (awaited : String) (id : ClassId) :
    (registry.stopWaiting awaited id).heldBack = registry.heldBack := by
  unfold stopWaiting
  split
  · rfl
  · dsimp only
    split <;> rfl

@[simp] theorem policy_stopWaiting (awaited : String) (id : ClassId) :
    (registry.stopWaiting awaited id).policy = registry.policy := by
  unfold stopWaiting
  split
  · rfl
  · dsimp only
    split <;> rfl

/-! ### Linking and removing a class -/

theorem record?_markLinked {id : ClassId} {superclass : Option ClassId}
    (hother : superclass ≠ some id) (other : ClassId) :
    (registry.markLinked id superclass).record? other =
      if id = other then
        (registry.record? other).map fun record => { record with state := .linked superclass }
      else if superclass = some other then
        (registry.record? other).map fun above =>
          { above with subclasses := above.subclasses ++ [id] }
      else registry.record? other := by
  cases superclass with
  | none => simp only [markLinked, record?_modifyRecord, reduceCtorEq, if_false]
  | some parent =>
    have hparent : parent ≠ id := fun heq => hother (congrArg some heq)
    simp only [markLinked, record?_modifyRecord, Option.some.injEq]
    by_cases hid : id = other
    · subst hid
      simp [hparent]
    · simp [hid]

@[simp] theorem idOf?_markLinked (id : ClassId) (superclass : Option ClassId) :
    (registry.markLinked id superclass).idOf? = registry.idOf? := by
  cases superclass <;> rfl

@[simp] theorem waiting_markLinked (id : ClassId) (superclass : Option ClassId) :
    (registry.markLinked id superclass).waiting = registry.waiting := by
  cases superclass <;> rfl

@[simp] theorem heldBack_markLinked (id : ClassId) (superclass : Option ClassId) :
    (registry.markLinked id superclass).heldBack = registry.heldBack := by
  cases superclass <;> rfl

@[simp] theorem policy_markLinked (id : ClassId) (superclass : Option ClassId) :
    (registry.markLinked id superclass).policy = registry.policy := by
  cases superclass <;> rfl

@[simp] theorem builds_markLinked (id : ClassId) (superclass : Option ClassId) :
    (registry.markLinked id superclass).builds = registry.builds := by
  cases superclass <;> rfl

/-- What is left to do once a class and those that wait for it are off the maps. -/
theorem takeOut_eq (id : ClassId) (record : Record) :
    registry.takeOut id record =
      let rest := { registry.setRecord id none with
        names := registry.names.erase record.name
        waiting := registry.waiting.erase record.name }
      match record.superclass?, record.superclassName with
      | some parent, _ => rest.modifyRecord parent fun above =>
          { above with subclasses := above.subclasses.filter (· ≠ id) }
      | none, some awaited => rest.stopWaiting awaited id
      | none, none => rest := rfl

theorem record?_takeOut {id : ClassId} {record : Record}
    (hrecord : registry.record? id = some record) (other : ClassId) :
    (registry.takeOut id record).record? other =
      if id = other then none
      else if record.superclass? = some other then
        (registry.record? other).map fun above =>
          { above with subclasses := above.subclasses.filter (· ≠ id) }
      else registry.record? other := by
  have hset := registry.record?_setRecord hrecord none other
  rw [takeOut_eq]
  cases hparent : record.superclass? with
  | some parent =>
    simp only [record?_modifyRecord, Option.some.injEq]
    simp only [record?] at hset ⊢
    rw [hset]
    by_cases hid : id = other
    · simp [hid]
    · simp [hid]
  | none =>
    cases record.superclassName with
    | none =>
      simp only [reduceCtorEq, if_false]
      exact hset
    | some awaited =>
      simp only [reduceCtorEq, if_false, record?_stopWaiting]
      exact hset

theorem idOf?_takeOut (id : ClassId) (record : Record) (name : String) :
    (registry.takeOut id record).idOf? name =
      if record.name = name then none else registry.idOf? name := by
  have herase := getElem?_erase_name registry.names record.name name
  rw [takeOut_eq]
  cases record.superclass? with
  | some parent => exact herase
  | none =>
    cases record.superclassName with
    | none => exact herase
    | some awaited =>
      simp only [idOf?_stopWaiting]
      exact herase

theorem waiting_takeOut (id : ClassId) (record : Record) (name : String) :
    (registry.takeOut id record).waiting[name]? =
      if record.name = name then none
      else if record.superclass? = none ∧ record.superclassName = some name then
        (registry.waiting[name]?.map fun waiters => waiters.filter (· ≠ id)).filter (· ≠ [])
      else registry.waiting[name]? := by
  have herase := getElem?_erase_name registry.waiting record.name name
  rw [takeOut_eq]
  cases record.superclass? with
  | some parent =>
    simp only [reduceCtorEq, false_and, if_false]
    exact herase
  | none =>
    cases record.superclassName with
    | none =>
      simp only [reduceCtorEq, and_false, if_false]
      exact herase
    | some awaited =>
      simp only [waiting_stopWaiting, Option.some.injEq, true_and, herase]
      by_cases hname : record.name = name
      · simp [hname]
      · simp [hname]

theorem waitersOf_takeOut (id : ClassId) (record : Record) (name : String) :
    (registry.takeOut id record).waitersOf name =
      if record.name = name then []
      else if record.superclass? = none ∧ record.superclassName = some name then
        (registry.waitersOf name).filter (· ≠ id)
      else registry.waitersOf name := by
  simp only [waitersOf, waiting_takeOut]
  split
  · rfl
  · split
    · rw [getD_filter_ne_nil]
      cases registry.waiting[name]? <;> rfl
    · rfl

@[simp] theorem heldBack_takeOut (id : ClassId) (record : Record) :
    (registry.takeOut id record).heldBack = registry.heldBack := by
  rw [takeOut_eq]
  cases record.superclass? with
  | some parent => rfl
  | none =>
    cases record.superclassName with
    | none => rfl
    | some awaited =>
      simp only [heldBack_stopWaiting]
      rfl

@[simp] theorem policy_takeOut (id : ClassId) (record : Record) :
    (registry.takeOut id record).policy = registry.policy := by
  rw [takeOut_eq]
  cases record.superclass? with
  | some parent => rfl
  | none =>
    cases record.superclassName with
    | none => rfl
    | some awaited =>
      simp only [policy_stopWaiting]
      rfl

end LateBinding.Registry
