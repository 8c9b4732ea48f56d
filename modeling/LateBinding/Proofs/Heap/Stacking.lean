import LateBinding.Proofs.Heap.Closed
import LateBinding.Proofs.Heap.Existing
import LateBinding.Proofs.Registry.Relocation

/-!
# A heap on top of another

What was made before stays in the heap, under everything that is made later. Identities that are
handed out on top of a ground are those of an empty heap, moved up by what the ground holds. As long
as the ground refers to nothing above it, what is done on top does not depend on it.
-/

namespace LateBinding

section

variable {α : Type} {lower upper : Array α} {f : α → α}

theorem Array.getD_append_map (index : Nat) {fallback : α} (hfallback : f fallback = fallback) :
    (lower ++ upper.map f).getD (lower.size + index) fallback = f (upper.getD index fallback) := by
  rw [Array.getD_eq_getD_getElem?, Array.getD_eq_getD_getElem?,
    Array.getElem?_append_right (Nat.le_add_right _ _), Nat.add_sub_cancel_left,
    Array.getElem?_map]
  cases upper[index]? with
  | none => exact hfallback.symm
  | some item => rfl

theorem Array.modify_append_map (index : Nat) {change other : α → α}
    (hchange : ∀ item, other (f item) = f (change item)) :
    (lower ++ upper.map f).modify (lower.size + index) other =
      lower ++ (upper.modify index change).map f := by
  apply Array.ext_getElem?
  intro place
  rw [Array.getElem?_modify]
  rcases Nat.lt_or_ge place lower.size with hlt | hge
  · rw [if_neg (by omega), Array.getElem?_append_left hlt, Array.getElem?_append_left hlt]
  · rw [Array.getElem?_append_right hge, Array.getElem?_append_right hge, Array.getElem?_map,
      Array.getElem?_map, Array.getElem?_modify]
    by_cases hindex : index = place - lower.size
    · rw [if_pos (by omega), if_pos hindex]
      cases upper[place - lower.size]? with
      | none => rfl
      | some item => exact congrArg some (hchange item)
    · rw [if_neg (by omega), if_neg hindex]

end

/-- How many pairs and objects lie underneath. -/
structure Offset where
  pairs : Nat
  objects : Nat

namespace Offset

variable (offset : Offset)

def pair (id : PairId) : PairId := ⟨offset.pairs + id.index⟩

def object (id : ObjectId) : ObjectId := ⟨offset.objects + id.index⟩

theorem pair_injective : Function.Injective offset.pair := by
  rintro ⟨first⟩ ⟨second⟩ heq
  exact congrArg PairId.mk (Nat.add_left_cancel (congrArg PairId.index heq))

theorem object_injective : Function.Injective offset.object := by
  rintro ⟨first⟩ ⟨second⟩ heq
  exact congrArg ObjectId.mk (Nat.add_left_cancel (congrArg ObjectId.index heq))

/-- Every object is one underneath or one on top. -/
theorem object_cases (id : ObjectId) :
    id.index < offset.objects ∨ ∃ upper, id = offset.object upper := by
  rcases Nat.lt_or_ge id.index offset.objects with hlt | hge
  · exact .inl hlt
  · exact .inr ⟨⟨id.index - offset.objects⟩, congrArg ObjectId.mk (Nat.add_sub_cancel' hge).symm⟩

end Offset

def Value.moved (offset : Offset) : Value → Value
  | .object id => .object (offset.object id)
  | .classObject cls => .classObject (cls.rename offset.pair)
  | value => value

def Object.moved (offset : Offset) (object : Object) : Object where
  cls := object.cls.map offset.pair
  slots := object.slots.map (·.moved offset)

theorem ClassRef.rename_injective {f : PairId → PairId} (hf : Function.Injective f) :
    Function.Injective (ClassRef.rename f) := by
  rintro ⟨first, kind⟩ ⟨second, other⟩ heq
  obtain ⟨hpair, hkind⟩ := ClassRef.mk.inj heq
  exact congrArg₂ ClassRef.mk (hf hpair) hkind

theorem Value.moved_injective (offset : Offset) : Function.Injective (Value.moved offset) := by
  intro first second heq
  cases first with
  | object id =>
    cases second with
    | object other =>
      exact congrArg Value.object (offset.object_injective (Value.object.inj heq))
    | _ => cases heq
  | classObject cls =>
    cases second with
    | classObject other =>
      exact congrArg Value.classObject
        (ClassRef.rename_injective offset.pair_injective (Value.classObject.inj heq))
    | _ => cases heq
  | _ =>
    cases second <;> cases heq
    rfl

/-- What lies underneath. -/
structure Ground (offset : Offset) where
  heap : Heap
  pairs_size : heap.pairs.size = offset.pairs
  objects_size : heap.objects.size = offset.objects
  closed : heap.Closed

namespace Ground

variable {offset : Offset} (ground : Ground offset) (h : Heap)

/-- A heap on top of the ground. -/
def under : Heap where
  pairs := ground.heap.pairs ++ h.pairs.map (·.rename offset.pair)
  objects := ground.heap.objects ++ h.objects.map (·.moved offset)
  loose := h.loose.map offset.pair ++ ground.heap.loose

/-! ### Pairs -/

theorem pair_under (id : PairId) :
    (ground.under h).pair (offset.pair id) = (h.pair id).rename offset.pair := by
  rw [Heap.pair, Offset.pair, ← ground.pairs_size]
  exact Array.getD_append_map id.index rfl

theorem modifyPair_under (id : PairId) {change other : ClassPair → ClassPair}
    (hchange : ∀ p : ClassPair, other (p.rename offset.pair) = (change p).rename offset.pair) :
    (ground.under h).modifyPair (offset.pair id) other = ground.under (h.modifyPair id change) := by
  rw [Heap.modifyPair, Offset.pair, ← ground.pairs_size]
  exact congrArg (fun pairs : Array ClassPair => { ground.under h with pairs })
    (Array.modify_append_map id.index hchange)

/-- What is done on top of the ground. -/
def relocation : Relocation where
  pair := offset.pair
  heap := ground.under
  injective := offset.pair_injective
  pair_heap := ground.pair_under
  modify_heap h id _ _ hchange := ground.modifyPair_under h id hchange
  add_heap h id name size := by
    have hsize : (ground.under h).pairs.size = offset.pairs + h.pairs.size := by
      rw [under, Array.size_append, Array.size_map, ground.pairs_size]
    unfold Heap.addPair
    rw [hsize]
    simp only [under, Array.map_push, Array.append_push]
    rfl
  loosen_heap _ _ := rfl

/-! ### Objects -/

theorem object_under (id : ObjectId) :
    (ground.under h).object (offset.object id) = (h.object id).moved offset := by
  have hdefault : (default : Object).moved offset = default :=
    congrArg (Object.mk none) Array.map_empty
  rw [Heap.object, Offset.object, ← ground.objects_size]
  exact Array.getD_append_map id.index hdefault

theorem object_under_of_lt {id : ObjectId} (hid : id.index < offset.objects) :
    (ground.under h).object id = ground.heap.object id := by
  rw [← ground.objects_size] at hid
  rw [Heap.object, Heap.object, Array.getD_eq_getD_getElem?, Array.getD_eq_getD_getElem?, under,
    Array.getElem?_append_left hid]

theorem hasObject_under (id : ObjectId) :
    (ground.under h).HasObject (offset.object id) ↔ h.HasObject id := by
  have hsize : (ground.under h).objects.size = offset.objects + h.objects.size := by
    rw [under, Array.size_append, Array.size_map, ground.objects_size]
  unfold Heap.HasObject
  rw [hsize, Offset.object]
  exact Nat.add_lt_add_iff_left

theorem classOf?_under (id : ObjectId) : (ground.under h).classOf? (offset.object id) =
    (h.classOf? id).map (·.rename offset.pair) := by
  rw [Heap.classOf?, Heap.classOf?, object_under]
  change ((h.object id).cls.map offset.pair).map _ = _
  rw [Option.map_map, Option.map_map]
  rfl

theorem slot?_under (id : ObjectId) (index : Nat) : (ground.under h).slot? (offset.object id) index =
    (h.slot? id index).map (·.moved offset) := by
  rw [Heap.slot?, Heap.slot?, object_under]
  exact Array.getElem?_map

theorem addObject_under (object : Object) :
    (ground.under h).addObject (object.moved offset) =
      (offset.object (h.addObject object).1, ground.under (h.addObject object).2) := by
  have hsize : (ground.under h).objects.size = offset.objects + h.objects.size := by
    rw [under, Array.size_append, Array.size_map, ground.objects_size]
  unfold Heap.addObject
  rw [hsize]
  simp only [under, Array.map_push, Array.append_push]
  rfl

theorem modifyObject_under (id : ObjectId) {change other : Object → Object}
    (hchange : ∀ object : Object, other (object.moved offset) = (change object).moved offset) :
    (ground.under h).modifyObject (offset.object id) other =
      ground.under (h.modifyObject id change) := by
  rw [Heap.modifyObject, Offset.object, ← ground.objects_size]
  exact congrArg (fun objects : Array Object => { ground.under h with objects })
    (Array.modify_append_map id.index hchange)

theorem bind_under (id : ObjectId) (cls : PairId) :
    (ground.under h).bind (offset.object id) (offset.pair cls) =
      ((h.bind id cls).1, ground.under (h.bind id cls).2) := by
  have hcls : ((h.object id).moved offset).cls = (h.object id).cls.map offset.pair := rfl
  unfold Heap.bind
  rw [object_under, hcls]
  cases (h.object id).cls with
  | some own => rfl
  | none => exact congrArg (Prod.mk true) (ground.modifyObject_under h id fun _ => rfl)

theorem bindAll_under (cls : PairId) (ids : List ObjectId) :
    (ground.under h).bindAll (offset.pair cls) (ids.map offset.object) =
      ((h.bindAll cls ids).1, ground.under (h.bindAll cls ids).2) := by
  induction ids generalizing h with
  | nil => rfl
  | cons id rest ih =>
    rw [List.map_cons, Heap.bindAll, bind_under]
    dsimp only
    rw [ih]
    rfl

theorem setSlot_under (id : ObjectId) (index : Nat) (value : Value) :
    (ground.under h).setSlot (offset.object id) index (value.moved offset) =
      ((h.setSlot id index value).1, ground.under (h.setSlot id index value).2) := by
  have hsize : ((ground.under h).object (offset.object id)).slots.size =
      (h.object id).slots.size := by
    rw [object_under]
    exact Array.size_map
  unfold Heap.setSlot
  rw [hsize]
  split
  · refine congrArg (Prod.mk true) (ground.modifyObject_under h id fun object => ?_)
    exact congrArg (Object.mk _) Array.map_setIfInBounds.symm
  · rfl

end Ground

end LateBinding
