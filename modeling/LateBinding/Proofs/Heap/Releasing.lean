import LateBinding.Proofs.Heap.Stacking

/-!
# Releasing on top of a ground

If the surroundings hold the same things on top of a ground as they hold without it, and besides only
things in the ground, then the same classes are released on top of it. What is released in the ground
leaves another ground.
-/

namespace LateBinding

/-- What a value refers to lies underneath. -/
def Offset.Below (offset : Offset) : Value → Prop
  | .object id => id.index < offset.objects
  | .classObject cls => cls.pair.index < offset.pairs
  | _ => True

/-- The surroundings hold the same things on top, and some things underneath. -/
def Offset.Roots (offset : Offset) (held image : List Value) : Prop :=
  ∃ old : List Value, (∀ value ∈ old, offset.Below value) ∧
    ∀ value, value ∈ image ↔ value ∈ held.map (·.moved offset) ∨ value ∈ old

namespace Offset

variable {offset : Offset} {held image : List Value}

theorem not_below_object (id : ObjectId) : ¬ offset.Below (.object (offset.object id)) :=
  Nat.not_lt.mpr (Nat.le_add_right _ _)

theorem not_below_class (cls : ClassRef) :
    ¬ offset.Below (.classObject (cls.rename offset.pair)) :=
  Nat.not_lt.mpr (Nat.le_add_right _ _)

theorem Roots.mem_moved_iff (roots : offset.Roots held image) {value : Value}
    (habove : ¬ offset.Below (value.moved offset)) :
    value.moved offset ∈ image ↔ value ∈ held := by
  obtain ⟨old, hold, hmem⟩ := roots
  rw [hmem, List.mem_map_of_injective (Value.moved_injective offset)]
  exact or_iff_left fun h => habove (hold _ h)

end Offset

namespace Ground

variable {offset : Offset} (ground : Ground offset) {h : Heap} {held image : List Value}

theorem below_of_slot {id : ObjectId} {value : Value}
    (hvalue : value ∈ (ground.heap.object id).slots) : offset.Below value := by
  have hhas := ground.closed.slots id value hvalue
  cases value with
  | object other => exact Nat.lt_of_lt_of_eq hhas ground.objects_size
  | classObject cls => exact Nat.lt_of_lt_of_eq hhas ground.pairs_size
  | _ => trivial

theorem mem_slots_under (id : ObjectId) (value : Value) :
    value.moved offset ∈ ((ground.under h).object (offset.object id)).slots ↔
      value ∈ (h.object id).slots := by
  rw [object_under]
  change _ ∈ (h.object id).slots.map _ ↔ _
  rw [Array.mem_map]
  constructor
  · rintro ⟨other, hother, heq⟩
    exact Value.moved_injective offset heq ▸ hother
  · exact fun hvalue => ⟨value, hvalue, rfl⟩

/-! ### Who holds what -/

theorem exists_under (roots : offset.Roots held image) (id : ObjectId) :
    (ground.under h).Exists image (offset.object id) ↔ h.Exists held id := by
  constructor
  · rintro ⟨among, upholds, hid⟩
    refine ⟨fun upper => among (offset.object upper), ?_, hid⟩
    intro upper hupper
    obtain ⟨hhas, hkept⟩ := upholds _ hupper
    have habove : ¬ offset.Below ((Value.object upper).moved offset) := offset.not_below_object upper
    refine ⟨(ground.hasObject_under h upper).mp hhas, ?_⟩
    rcases hkept with hheld | ⟨holder, hholder, hslot⟩
    · exact .inl ((roots.mem_moved_iff habove).mp hheld)
    · rcases offset.object_cases holder with hlt | ⟨top, rfl⟩
      · rw [ground.object_under_of_lt h hlt] at hslot
        exact absurd (ground.below_of_slot hslot) habove
      · exact .inr ⟨top, hholder, (ground.mem_slots_under top (.object upper)).mp hslot⟩
  · rintro ⟨among, upholds, hid⟩
    refine ⟨fun other => ∃ upper, other = offset.object upper ∧ among upper, ?_, id, rfl, hid⟩
    rintro _ ⟨upper, rfl, hupper⟩
    obtain ⟨hhas, hkept⟩ := upholds upper hupper
    have habove : ¬ offset.Below ((Value.object upper).moved offset) := offset.not_below_object upper
    refine ⟨(ground.hasObject_under h upper).mpr hhas, ?_⟩
    rcases hkept with hheld | ⟨holder, hholder, hslot⟩
    · exact .inl ((roots.mem_moved_iff habove).mpr hheld)
    · exact .inr ⟨offset.object holder, ⟨holder, rfl, hholder⟩,
        (ground.mem_slots_under holder (.object upper)).mpr hslot⟩

theorem holdsClass_under (roots : offset.Roots held image) (cls : ClassRef) :
    (ground.under h).HoldsClass image (cls.rename offset.pair) ↔ h.HoldsClass held cls := by
  have habove : ¬ offset.Below ((Value.classObject cls).moved offset) := offset.not_below_class cls
  have hclass : ∀ id, ((ground.under h).object (offset.object id)).cls =
      (h.object id).cls.map offset.pair := by
    intro id
    rw [object_under]
    rfl
  refine or_congr (roots.mem_moved_iff habove) ?_
  constructor
  · rintro ⟨id, hid, hholds⟩
    rcases offset.object_cases id with hlt | ⟨upper, rfl⟩
    · rw [ground.object_under_of_lt h hlt] at hholds
      rcases hholds with hslot | ⟨-, hown⟩
      · exact absurd (ground.below_of_slot hslot) habove
      · have hhas := ground.closed.classes id _ hown
        exact absurd (Nat.lt_of_lt_of_eq hhas ground.pairs_size) habove
    · refine ⟨upper, (ground.exists_under roots upper).mp hid, ?_⟩
      rw [hclass] at hholds
      refine hholds.imp (ground.mem_slots_under upper (.classObject cls)).mp ?_
      rintro ⟨hkind, hown⟩
      exact ⟨hkind, Option.map_injective offset.pair_injective hown⟩
  · rintro ⟨id, hid, hholds⟩
    refine ⟨offset.object id, (ground.exists_under roots id).mpr hid, ?_⟩
    rw [hclass]
    refine hholds.imp (ground.mem_slots_under id (.classObject cls)).mpr ?_
    rintro ⟨hkind, hown⟩
    exact ⟨hkind, congrArg (Option.map offset.pair) hown⟩

/-! ### Releasing -/

/-- A change of a pair underneath. -/
def modified (id : PairId) (change : ClassPair → ClassPair) : Ground offset where
  heap := ground.heap.modifyPair id change
  pairs_size := Array.size_modify.trans ground.pairs_size
  objects_size := ground.objects_size
  closed := by
    obtain ⟨hslots, hclasses, hloose⟩ := ground.closed
    have hpair : ∀ {other}, ground.heap.HasPair other →
        (ground.heap.modifyPair id change).HasPair other := by
      intro other hother
      rwa [Heap.hasPair_modifyPair]
    refine ⟨?_, fun other cls hcls => hpair (hclasses other cls hcls),
      fun other hother => hpair (hloose other hother)⟩
    intro other value hvalue
    have hbefore := hslots other value hvalue
    cases value with
    | classObject cls => exact hpair hbefore
    | object inner => exact hbefore
    | _ => trivial

theorem under_modified {id : PairId} (hid : ground.heap.HasPair id)
    (change : ClassPair → ClassPair) :
    (ground.under h).modifyPair id change = (ground.modified id change).under h := by
  have hpairs : (ground.heap.pairs ++ h.pairs.map (·.rename offset.pair)).modify id.index change =
      ground.heap.pairs.modify id.index change ++ h.pairs.map (·.rename offset.pair) := by
    apply Array.ext_getElem?
    intro place
    rw [Array.getElem?_modify]
    have hsize : (ground.heap.pairs.modify id.index change).size = ground.heap.pairs.size :=
      Array.size_modify
    rcases Nat.lt_or_ge place ground.heap.pairs.size with hlt | hge
    · rw [Array.getElem?_append_left hlt, Array.getElem?_append_left (hsize ▸ hlt),
        Array.getElem?_modify]
    · have hne : id.index ≠ place := Nat.ne_of_lt (Nat.lt_of_lt_of_le hid hge)
      rw [if_neg hne, Array.getElem?_append_right hge, Array.getElem?_append_right (hsize ▸ hge),
        hsize]
  exact congrArg (fun pairs : Array ClassPair => { ground.under h with pairs }) hpairs

theorem exists_foldl_modified {ids : List PairId} (hids : ∀ id ∈ ids, ground.heap.HasPair id)
    (change : PairId → ClassPair → ClassPair) :
    ∃ other : Ground offset, other.heap.loose = ground.heap.loose ∧
      ids.foldl (fun heap id => heap.modifyPair id (change id)) (ground.under h) =
        other.under h := by
  -- on the pairs underneath that may be released
  induction ids generalizing ground with
  | nil => exact ⟨ground, rfl, rfl⟩
  | cons id rest ih =>
    rw [List.foldl_cons, ground.under_modified (hids id List.mem_cons_self)]
    have hrest : ∀ other ∈ rest, (ground.modified id (change id)).heap.HasPair other := by
      intro other hother
      change (ground.heap.modifyPair id (change id)).HasPair other
      rw [Heap.hasPair_modifyPair]
      exact hids other (List.mem_cons_of_mem _ hother)
    exact ih (ground.modified id (change id)) hrest

/-- Some pairs underneath are wholly released. -/
def loosened (kept : PairId → Bool) : Ground offset where
  heap := { ground.heap with loose := ground.heap.loose.filter kept }
  pairs_size := ground.pairs_size
  objects_size := ground.objects_size
  closed := ⟨ground.closed.slots, ground.closed.classes, fun id hid =>
    ground.closed.loose id (List.mem_filter.mp hid).1⟩

end Ground

namespace Heap

/-- A pair as it is when some of its sides are released. -/
def releasing (held : List Value) (objects : List Object) (id : PairId) (pair : ClassPair) :
    ClassPair :=
  let plain := holdsClass held objects ⟨id, .plain⟩
  let metaclass := plain || holdsClass held objects ⟨id, .metaclass⟩
  { pair with released := ⟨pair.released.plain || !plain, pair.released.metaclass || !metaclass⟩ }

/-- The heap with the removed pairs released as far as nothing holds them. -/
def swept (heap : Heap) (held : List Value) : Heap :=
  heap.loose.foldl (releasePair held (heap.existingObjects held)) heap

theorem release_eq (heap : Heap) (held : List Value) : heap.release held =
    { heap.swept held with loose := (heap.swept held).loose.filter fun id =>
        !((heap.swept held).pair id).released.metaclass } := by
  unfold release swept
  split
  · next hempty =>
    obtain ⟨pairs, objects, loose⟩ := heap
    cases List.isEmpty_iff.mp hempty
    rfl
  · rfl

end Heap

namespace Ground

variable {offset : Offset} (ground : Ground offset) {h : Heap} {held image : List Value}

theorem exists_swept (roots : offset.Roots held image) :
    ∃ other : Ground offset, (ground.under h).swept image = other.under (h.swept held) := by
  have hholds : ∀ cls, Heap.holdsClass image ((ground.under h).existingObjects image)
      (cls.rename offset.pair) = Heap.holdsClass held (h.existingObjects held) cls := by
    intro cls
    rw [Bool.eq_iff_iff, Heap.holdsClass_iff, Heap.holdsClass_iff]
    exact ground.holdsClass_under roots cls
  generalize hobjects : (ground.under h).existingObjects image = objects at hholds
  have hupper : ∀ heap id, Heap.releasePair image objects (ground.under heap) (offset.pair id) =
      ground.under (Heap.releasePair held (h.existingObjects held) heap id) := by
    intro heap id
    refine ground.modifyPair_under heap id fun pair => ?_
    have hplain := hholds ⟨id, .plain⟩
    have hmetaclass := hholds ⟨id, .metaclass⟩
    change Heap.holdsClass image objects ⟨offset.pair id, .plain⟩ = _ at hplain
    change Heap.holdsClass image objects ⟨offset.pair id, .metaclass⟩ = _ at hmetaclass
    simp only [hplain, hmetaclass]
    rfl
  have hfold : (h.loose.map offset.pair).foldl (Heap.releasePair image objects)
      (ground.under h) = ground.under (h.swept held) := by
    rw [List.foldl_map]
    exact List.foldl_hom ground.under hupper
  obtain ⟨other, -, hother⟩ := ground.exists_foldl_modified (h := h.swept held)
    ground.closed.loose (Heap.releasing image objects)
  refine ⟨other, ?_⟩
  unfold Heap.swept
  rw [hobjects]
  change (h.loose.map offset.pair ++ ground.heap.loose).foldl _ _ = _
  rw [List.foldl_append, hfold]
  exact hother

/-- What is released on top does not depend on the ground. -/
theorem exists_release (roots : offset.Roots held image) :
    ∃ other : Ground offset, (ground.under h).release image = other.under (h.release held) := by
  obtain ⟨other, hswept⟩ := ground.exists_swept (h := h) roots
  have hkept : ∀ id, ((other.under (h.swept held)).pair (offset.pair id)).released.metaclass =
      ((h.swept held).pair id).released.metaclass := by
    intro id
    rw [other.pair_under]
    rfl
  refine ⟨other.loosened fun id =>
    !((other.under (h.swept held)).pair id).released.metaclass, ?_⟩
  rw [Heap.release_eq, Heap.release_eq, hswept]
  have hloose : (other.under (h.swept held)).loose.filter (fun id =>
      !((other.under (h.swept held)).pair id).released.metaclass) =
      ((h.swept held).loose.filter fun id =>
        !((h.swept held).pair id).released.metaclass).map offset.pair ++
        other.heap.loose.filter fun id =>
          !((other.under (h.swept held)).pair id).released.metaclass := by
    change (List.map offset.pair _ ++ _).filter _ = _
    rw [List.filter_append, List.filter_map]
    simp only [Function.comp_def, hkept]
  rw [hloose]
  rfl

end Ground

end LateBinding
