import LateBinding.Proofs.Heap.Objects

/-!
# Closed heaps

A heap is *closed* if it refers to nothing that is not in it. It stays so as long as only values are
put into it that refer to what is there.
-/

namespace LateBinding

/-- The value refers to an object or a class. -/
def Value.Refers : Value → Prop
  | .object _ => True
  | .classObject _ => True
  | _ => False

theorem Value.given_of_constants {given : Value → Prop} (constants : List Constant) :
    ∀ value ∈ constants.map Value.ofConstant, value.Refers → given value := by
  intro value hvalue hrefers
  obtain ⟨constant, -, rfl⟩ := List.mem_map.mp hvalue
  cases constant <;> exact hrefers.elim

namespace Heap

/-- What a value refers to is in the heap. -/
def Has (heap : Heap) : Value → Prop
  | .object id => heap.HasObject id
  | .classObject cls => heap.HasPair cls.pair
  | _ => True

structure Closed (heap : Heap) : Prop where
  slots : ∀ id, ∀ value ∈ (heap.object id).slots, heap.Has value
  classes : ∀ id cls, (heap.object id).cls = some cls → heap.HasPair cls
  loose : ∀ id ∈ heap.loose, heap.HasPair id

/-- Only objects are made or changed. What they refer to afterwards and did not before was given,
and each object gets a class that is in the heap. -/
structure Fits (given : Value → Prop) (heap later : Heap) : Prop extends heap.Stores later where
  hasObject : ∀ id, heap.HasObject id → later.HasObject id
  slots : ∀ id, ∀ value ∈ (later.object id).slots, value.Refers →
    value ∈ (heap.object id).slots ∨ given value
  classes : ∀ id cls, (later.object id).cls = some cls →
    (heap.object id).cls = some cls ∨ heap.HasPair cls

variable {given : Value → Prop} {heap later final : Heap}

theorem Has.of_refers {value : Value} (hvalue : value.Refers → heap.Has value) :
    heap.Has value := by
  cases value with
  | object id => exact hvalue trivial
  | classObject cls => exact hvalue trivial
  | _ => trivial

theorem Has.mono {value : Value} (hvalue : heap.Has value)
    (hpairs : ∀ id, heap.HasPair id → later.HasPair id)
    (hobjects : ∀ id, heap.HasObject id → later.HasObject id) : later.Has value := by
  cases value with
  | object id => exact hobjects id hvalue
  | classObject cls => exact hpairs cls.pair hvalue
  | _ => trivial

theorem Closed.empty : Heap.empty.Closed where
  slots _ _ hvalue := absurd hvalue (Array.not_mem_empty _)
  classes _ _ hcls := nomatch hcls
  loose _ hid := nomatch hid

/-- Pairs are made and changed, and pairs that are in the heap may be removed. -/
theorem Closed.of_objects (closed : heap.Closed) (hobjects : later.objects = heap.objects)
    (hpairs : ∀ id, heap.HasPair id → later.HasPair id)
    (hloose : ∀ id ∈ later.loose, later.HasPair id) : later.Closed := by
  have hobject : later.object = heap.object := by
    funext id
    rw [Heap.object, Heap.object, hobjects]
  have hhas : ∀ id, heap.HasObject id → later.HasObject id := by
    intro id hid
    rwa [HasObject, hobjects]
  refine ⟨?_, ?_, hloose⟩
  · intro id value hvalue
    rw [hobject] at hvalue
    exact (closed.slots id value hvalue).mono hpairs hhas
  · intro id cls hcls
    rw [hobject] at hcls
    exact hpairs cls (closed.classes id cls hcls)

namespace Fits

theorem refl : heap.Fits given heap :=
  ⟨.refl, fun _ h => h, fun _ _ h _ => .inl h, fun _ _ h => .inl h⟩

theorem hasPair_eq (fits : heap.Fits given later) : later.HasPair = heap.HasPair := by
  funext id
  rw [HasPair, HasPair, fits.pairs]

theorem trans (first : heap.Fits given later) (second : later.Fits given final) :
    heap.Fits given final where
  toStores := first.toStores.trans second.toStores
  hasObject id h := second.hasObject id (first.hasObject id h)
  slots id value hvalue hrefers := by
    rcases second.slots id value hvalue hrefers with hbefore | hgiven
    · exact first.slots id value hbefore hrefers
    · exact .inr hgiven
  classes id cls hcls := by
    rcases second.classes id cls hcls with hbefore | hhas
    · exact first.classes id cls hbefore
    · exact .inr (first.hasPair_eq ▸ hhas)

theorem has {value : Value} (fits : heap.Fits given later) (hvalue : heap.Has value) :
    later.Has value :=
  hvalue.mono (fun _ h => fits.hasPair_eq ▸ h) fits.hasObject

theorem closed (fits : heap.Fits given later) (hgiven : ∀ value, given value → heap.Has value)
    (closed : heap.Closed) : later.Closed where
  slots id value hvalue := by
    apply Has.of_refers
    intro hrefers
    rcases fits.slots id value hvalue hrefers with hbefore | hnew
    · exact fits.has (closed.slots id value hbefore)
    · exact fits.has (hgiven value hnew)
  classes id cls hcls := by
    rw [fits.hasPair_eq]
    exact (fits.classes id cls hcls).elim (closed.classes id cls) fun h => h
  loose id hid := by
    rw [fits.hasPair_eq]
    exact closed.loose id (fits.loose ▸ hid)

end Fits

theorem object_addObject (object : Object) (id : ObjectId) :
    (heap.addObject object).2.object id =
      if id = (heap.addObject object).1 then object else heap.object id := by
  obtain ⟨index⟩ := id
  simp only [addObject, Heap.object, Array.getD_eq_getD_getElem?, Array.getElem?_push,
    ObjectId.mk.injEq]
  split <;> rfl

theorem classOf?_addObject (object : Object) (id : ObjectId) :
    (heap.addObject object).2.classOf? id =
      if id = (heap.addObject object).1 then object.cls.map (⟨·, .plain⟩) else heap.classOf? id := by
  rw [classOf?, object_addObject]
  split <;> rfl

theorem fits_addObject {object : Object}
    (hslots : ∀ value ∈ object.slots, value.Refers → given value)
    (hcls : ∀ cls, object.cls = some cls → heap.HasPair cls) :
    heap.Fits given (heap.addObject object).2 where
  toStores := heap.stores_addObject object
  hasObject id hid := by
    rw [HasObject, addObject, Array.size_push]
    exact Nat.lt_succ_of_lt hid
  slots id value hvalue hrefers := by
    rw [object_addObject] at hvalue
    split at hvalue
    · exact .inr (hslots value hvalue hrefers)
    · exact .inl hvalue
  classes id cls h := by
    rw [object_addObject] at h
    split at h
    · exact .inr (hcls cls h)
    · exact .inl h

theorem fits_modifyObject {id : ObjectId} {change : Object → Object}
    (hstores : heap.Stores (heap.modifyObject id change))
    (hslots : ∀ value ∈ (change (heap.object id)).slots, value.Refers →
      value ∈ (heap.object id).slots ∨ given value)
    (hclasses : ∀ cls, (change (heap.object id)).cls = some cls →
      (heap.object id).cls = some cls ∨ heap.HasPair cls) :
    heap.Fits given (heap.modifyObject id change) where
  toStores := hstores
  hasObject other hother := by
    rw [HasObject, modifyObject, Array.size_modify]
    exact hother
  slots other value hvalue hrefers := by
    rw [object_modifyObject] at hvalue
    split at hvalue
    · next heq =>
      obtain ⟨rfl, -⟩ := heq
      exact hslots value hvalue hrefers
    · exact .inl hvalue
  classes other cls hcls := by
    rw [object_modifyObject] at hcls
    split at hcls
    · next heq =>
      obtain ⟨rfl, -⟩ := heq
      exact hclasses cls hcls
    · exact .inl hcls

theorem fits_setSlot (id : ObjectId) (index : Nat) {value : Value}
    (hvalue : value.Refers → given value) :
    heap.Fits given (heap.setSlot id index value).2 := by
  have hstores := heap.stores_setSlot id index value
  unfold setSlot at hstores ⊢
  by_cases hindex : index < (heap.object id).slots.size
  · rw [if_pos hindex] at hstores ⊢
    refine fits_modifyObject hstores ?_ fun _ => .inl
    intro other hother hrefers
    rcases Array.mem_or_eq_of_mem_setIfInBounds hother with hbefore | rfl
    · exact .inl hbefore
    · exact .inr (hvalue hrefers)
  · rw [if_neg hindex]
    exact .refl

theorem fits_bind {cls : PairId} (hcls : heap.HasPair cls) (id : ObjectId) :
    heap.Fits given (heap.bind id cls).2 := by
  have hstores := heap.stores_bind id cls
  unfold bind at hstores ⊢
  cases hown : (heap.object id).cls with
  | some own =>
    simp only [hown] at hstores ⊢
    exact .refl
  | none =>
    simp only [hown] at hstores ⊢
    exact fits_modifyObject hstores (fun _ h _ => .inl h)
      fun _ h => .inr (Option.some_inj.mp h ▸ hcls)

theorem fits_bindAll {cls : PairId} (hcls : heap.HasPair cls) (ids : List ObjectId) :
    heap.Fits given (heap.bindAll cls ids).2 := by
  induction ids generalizing heap with
  | nil => exact .refl
  | cons id rest ih =>
    have first : heap.Fits given (heap.bind id cls).2 := fits_bind hcls id
    exact first.trans (ih (first.hasPair_eq ▸ hcls))

end Heap

end LateBinding
