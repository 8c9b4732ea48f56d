import LateBinding.Proofs.Heap.Pairs

/-!
# What a heap shows of its objects after a change

An object is given its class once. It keeps that class from then on, whatever is put into its slots.
-/

namespace LateBinding.Heap

variable (heap : Heap)

def HasObject (object : ObjectId) : Prop := object.index < heap.objects.size

instance (object : ObjectId) : Decidable (heap.HasObject object) :=
  inferInstanceAs (Decidable (object.index < heap.objects.size))

theorem object_modifyObject (object other : ObjectId) (change : Object → Object) :
    (heap.modifyObject object change).object other =
      if object = other ∧ heap.HasObject other then change (heap.object other)
      else heap.object other := by
  unfold Heap.object modifyObject HasObject
  by_cases hin : other.index < heap.objects.size
  · by_cases heq : object = other
    · subst heq
      simp [Array.getD, hin, Array.getElem_modify]
    · have hindex : object.index ≠ other.index := by
        intro h
        exact heq (congrArg ObjectId.mk h)
      simp [Array.getD, hin, heq, Array.getElem_modify, hindex]
  · simp [Array.getD, hin]

theorem hasObject_bind (object : ObjectId) (cls : PairId) :
    (heap.bind object cls).2.HasObject = heap.HasObject := by
  funext other
  unfold bind
  split
  · rfl
  · simp [HasObject, modifyObject]

theorem hasObject_bindAll (cls : PairId) (objects : List ObjectId) :
    (heap.bindAll cls objects).2.HasObject = heap.HasObject := by
  induction objects generalizing heap with
  | nil => rfl
  | cons object rest ih => exact (ih _).trans (heap.hasObject_bind object cls)

theorem classOf?_bind (object other : ObjectId) (cls : PairId) :
    (heap.bind object cls).2.classOf? other = (heap.classOf? other).or
      (if object = other ∧ heap.HasObject other then some ⟨cls, .plain⟩ else none) := by
  unfold bind
  cases hcls : (heap.object object).cls with
  | some own =>
    dsimp only
    split
    · next heq =>
      rw [← heq.1, classOf?, hcls]
      rfl
    · rw [Option.or_none]
  | none =>
    dsimp only
    rw [classOf?, object_modifyObject]
    split
    · next heq =>
      rw [classOf?, ← heq.1, hcls]
      rfl
    · rw [Option.or_none]
      rfl

theorem classOf?_bindAll (cls : PairId) (objects : List ObjectId) (other : ObjectId) :
    (heap.bindAll cls objects).2.classOf? other = (heap.classOf? other).or
      (if other ∈ objects ∧ heap.HasObject other then some ⟨cls, .plain⟩ else none) := by
  induction objects generalizing heap with
  | nil => simp [bindAll]
  | cons object rest ih =>
    change ((heap.bind object cls).2.bindAll cls rest).2.classOf? other = _
    simp only [ih, classOf?_bind, hasObject_bind, Option.or_assoc]
    congr 1
    by_cases heq : object = other
    · subst heq
      by_cases hin : heap.HasObject object
      · simp [hin]
      · simp [hin]
    · simp [heq, Ne.symm heq]

theorem classOf?_setSlot (object : ObjectId) (index : Nat) (value : Value) :
    (heap.setSlot object index value).2.classOf? = heap.classOf? := by
  funext other
  unfold setSlot
  split
  · rw [classOf?, object_modifyObject]
    split <;> rfl
  · rfl

theorem hasObject_setSlot (object : ObjectId) (index : Nat) (value : Value) :
    (heap.setSlot object index value).2.HasObject = heap.HasObject := by
  funext other
  unfold setSlot
  split
  · simp [HasObject, modifyObject]
  · rfl

theorem hasObject_addObject (object : Object) (other : ObjectId) :
    (heap.addObject object).2.HasObject other ↔
      heap.HasObject other ∨ other = (heap.addObject object).1 := by
  obtain ⟨index⟩ := other
  simp only [HasObject, addObject, Array.size_push, ObjectId.mk.injEq]
  omega

theorem not_hasObject_addObject (object : Object) : ¬ heap.HasObject (heap.addObject object).1 :=
  Nat.lt_irrefl _

theorem classOf?_of_objects {heap other : Heap} (hobjects : other.objects = heap.objects) :
    other.classOf? = heap.classOf? := by
  funext object
  rw [classOf?, classOf?, Heap.object, Heap.object, hobjects]

theorem hasObject_of_objects {heap other : Heap} (hobjects : other.objects = heap.objects) :
    other.HasObject = heap.HasObject := by
  funext object
  rw [HasObject, HasObject, hobjects]

/-! ### Changes of nothing but objects -/

/-- Only objects are made or changed, and each keeps its class once it has one. -/
structure Stores (heap later : Heap) : Prop where
  pairs : later.pairs = heap.pairs
  loose : later.loose = heap.loose
  classOf : ∀ object cls, heap.classOf? object = some cls → later.classOf? object = some cls

variable {heap} in
theorem Stores.refl : heap.Stores heap := ⟨rfl, rfl, fun _ _ h => h⟩

variable {heap} in
theorem Stores.trans {other third : Heap} (first : heap.Stores other) (second : other.Stores third) :
    heap.Stores third where
  pairs := second.pairs.trans first.pairs
  loose := second.loose.trans first.loose
  classOf object cls h := second.classOf object cls (first.classOf object cls h)

variable {heap} in
theorem hasObject_of_classOf? {object : ObjectId} {cls : ClassRef}
    (hcls : heap.classOf? object = some cls) : heap.HasObject object := by
  apply Decidable.byContradiction
  intro hnot
  unfold HasObject at hnot
  rw [classOf?, Heap.object, Array.getD, dif_neg hnot] at hcls
  cases hcls

theorem stores_addObject (object : Object) : heap.Stores (heap.addObject object).2 where
  pairs := rfl
  loose := rfl
  classOf other cls hcls := by
    have hother : other.index < heap.objects.size := hasObject_of_classOf? hcls
    have hsame : (heap.addObject object).2.object other = heap.object other := by
      rw [addObject, Heap.object, Heap.object, Array.getD_eq_getD_getElem?,
        Array.getElem?_push_lt hother, Array.getD, dif_pos hother]
      rfl
    rw [classOf?, hsame]
    exact hcls

theorem stores_setSlot (object : ObjectId) (index : Nat) (value : Value) :
    heap.Stores (heap.setSlot object index value).2 := by
  unfold setSlot
  split
  · refine ⟨rfl, rfl, ?_⟩
    intro other cls hcls
    rw [classOf?, object_modifyObject]
    split <;> exact hcls
  · exact .refl

theorem stores_bind (object : ObjectId) (cls : PairId) : heap.Stores (heap.bind object cls).2 where
  pairs := by
    unfold bind
    split <;> rfl
  loose := by
    unfold bind
    split <;> rfl
  classOf other own hown := by
    rw [classOf?_bind, hown, Option.some_or]

theorem stores_bindAll (cls : PairId) (objects : List ObjectId) :
    heap.Stores (heap.bindAll cls objects).2 := by
  induction objects generalizing heap with
  | nil => exact .refl
  | cons object rest ih => exact (heap.stores_bind object cls).trans (ih _)

end LateBinding.Heap
