import LateBinding.Proofs.Heap.Objects

/-!
# What exists

An object exists if it belongs to a set of objects each of which is held by the surroundings or by a
slot of an object of the set. Taking away what nothing holds, round after round, leaves exactly the
objects that exist: none of such a set is ever taken away, and what is left in the end is such a set.
-/

namespace LateBinding.Heap

/-- The objects of a set keep one another, along with what is held by the surroundings. -/
def Upholds (heap : Heap) (held : List Value) (among : ObjectId → Prop) : Prop :=
  ∀ id, among id → heap.HasObject id ∧
    (.object id ∈ held ∨ ∃ holder, among holder ∧ .object id ∈ (heap.object holder).slots)

def Exists (heap : Heap) (held : List Value) (id : ObjectId) : Prop :=
  ∃ among, heap.Upholds held among ∧ among id

/-- Somebody holds the class: the surroundings, or an object that exists. -/
def HoldsClass (heap : Heap) (held : List Value) (cls : ClassRef) : Prop :=
  .classObject cls ∈ held ∨ ∃ id, heap.Exists held id ∧
    (.classObject cls ∈ (heap.object id).slots ∨
      cls.kind = .plain ∧ (heap.object id).cls = some cls.pair)

/-- The objects that are still there in a round. -/
def present (existing : Array Bool) (id : ObjectId) : Prop := existing[id.index]? = some true

/-! ### One round -/

section

variable {marks : Array Bool}

@[simp] theorem size_markValue (value : Value) : (markValue marks value).size = marks.size := by
  cases value <;> simp [markValue]

theorem present_markValue (value : Value) (id : ObjectId) : present (markValue marks value) id ↔
    present marks id ∨ id.index < marks.size ∧ value = .object id := by
  cases value with
  | object other =>
    simp only [present, markValue, Array.getElem?_setIfInBounds, Value.object.injEq]
    by_cases hid : other.index = id.index
    · have heq : other = id := congrArg ObjectId.mk hid
      subst heq
      by_cases hsize : other.index < marks.size
      · simp [hsize]
      · simp [hsize]
    · have hne : other ≠ id := fun heq => hid (congrArg ObjectId.index heq)
      simp [hid, hne]
  | _ => simp [markValue]

theorem size_foldl_markValue (values : List Value) :
    (values.foldl markValue marks).size = marks.size := by
  induction values generalizing marks with
  | nil => rfl
  | cons value rest ih => exact ih.trans (size_markValue value)

theorem present_foldl_markValue (values : List Value) (id : ObjectId) :
    present (values.foldl markValue marks) id ↔
      present marks id ∨ id.index < marks.size ∧ .object id ∈ values := by
  induction values generalizing marks with
  | nil => simp
  | cons value rest ih =>
    rw [List.foldl_cons, ih, present_markValue, size_markValue, List.mem_cons, or_assoc, eq_comm,
      ← and_or_left]

/-- What the slots of some of the objects hold is marked too. -/
theorem present_foldl_slots (objects : List (Object × Bool)) (id : ObjectId) :
    present (objects.foldl (fun marks (object, present) =>
        if present then object.slots.foldl markValue marks else marks) marks) id ↔
      present marks id ∨ id.index < marks.size ∧
        ∃ object, (object, true) ∈ objects ∧ .object id ∈ object.slots := by
  induction objects generalizing marks with
  | nil => simp
  | cons first rest ih =>
    obtain ⟨object, here⟩ := first
    rw [List.foldl_cons, ih]
    cases here with
    | false => simp
    | true =>
      change present (object.slots.foldl markValue marks) id ∨
        id.index < (object.slots.foldl markValue marks).size ∧ _ ↔ _
      rw [← Array.foldl_toList, present_foldl_markValue, size_foldl_markValue]
      simp only [List.mem_cons, Prod.mk.injEq, and_true, Array.mem_toList_iff]
      constructor
      · rintro ((hmarks | ⟨hsize, hslot⟩) | ⟨hsize, other, hother, hslot⟩)
        · exact .inl hmarks
        · exact .inr ⟨hsize, object, .inl rfl, hslot⟩
        · exact .inr ⟨hsize, other, .inr hother, hslot⟩
      · rintro (hmarks | ⟨hsize, other, rfl | hother, hslot⟩)
        · exact .inl (.inl hmarks)
        · exact .inl (.inr ⟨hsize, hslot⟩)
        · exact .inr ⟨hsize, other, hother, hslot⟩

end

variable {heap : Heap} {held : List Value} {existing : Array Bool}

theorem mem_zip_existing (hsize : existing.size = heap.objects.size) (object : Object) :
    (object, true) ∈ heap.objects.toList.zip existing.toList ↔
      ∃ id, present existing id ∧ heap.object id = object := by
  rw [List.mem_iff_getElem?]
  constructor
  · rintro ⟨index, hindex⟩
    obtain ⟨hobject, hhere⟩ := List.getElem?_zip_eq_some.mp hindex
    rw [Array.getElem?_toList] at hobject hhere
    exact ⟨⟨index⟩, hhere, by rw [Heap.object, Array.getD_eq_getD_getElem?, hobject]; rfl⟩
  · rintro ⟨⟨index⟩, hhere, rfl⟩
    have hlt : index < heap.objects.size := by
      rw [← hsize]
      exact (Array.getElem?_eq_some_iff.mp hhere).1
    refine ⟨index, List.getElem?_zip_eq_some.mpr ⟨?_, ?_⟩⟩
    · rw [Array.getElem?_toList, Heap.object, Array.getD_eq_getD_getElem?,
        Array.getElem?_eq_getElem hlt]
      rfl
    · rw [Array.getElem?_toList]
      exact hhere

theorem present_heldObjects (hsize : existing.size = heap.objects.size) (id : ObjectId) :
    present (heap.heldObjects held existing) id ↔ heap.HasObject id ∧
      (.object id ∈ held ∨
        ∃ holder, present existing holder ∧ .object id ∈ (heap.object holder).slots) := by
  have hnone : ¬ present (Array.replicate heap.objects.size false) id := by
    unfold present
    rw [Array.getElem?_replicate]
    split <;> simp
  unfold heldObjects
  rw [present_foldl_slots, present_foldl_markValue, size_foldl_markValue, Array.size_replicate]
  simp only [mem_zip_existing hsize, hnone, false_or]
  constructor
  · rintro (⟨hlt, hheld⟩ | ⟨hlt, object, ⟨holder, hholder, rfl⟩, hslot⟩)
    · exact ⟨hlt, .inl hheld⟩
    · exact ⟨hlt, .inr ⟨holder, hholder, hslot⟩⟩
  · rintro ⟨hlt, hheld | ⟨holder, hholder, hslot⟩⟩
    · exact .inl ⟨hlt, hheld⟩
    · exact .inr ⟨hlt, _, ⟨holder, hholder, rfl⟩, hslot⟩

theorem size_heldObjects : (heap.heldObjects held existing).size = heap.objects.size := by
  have hfold : ∀ (objects : List (Object × Bool)) (marks : Array Bool),
      (objects.foldl (fun marks (object, present) =>
        if present then object.slots.foldl markValue marks else marks) marks).size =
          marks.size := by
    intro objects
    induction objects with
    | nil => exact fun _ => rfl
    | cons first rest ih =>
      obtain ⟨object, here⟩ := first
      intro marks
      rw [List.foldl_cons, ih]
      cases here with
      | false => rfl
      | true =>
        change (object.slots.foldl markValue marks).size = marks.size
        rw [← Array.foldl_toList, size_foldl_markValue]
  unfold heldObjects
  rw [hfold, size_foldl_markValue, Array.size_replicate]

/-! ### All rounds -/

theorem present_zipWith_and {left right : Array Bool} (id : ObjectId) :
    present (Array.zipWith and left right) id ↔ present left id ∧ present right id := by
  unfold present
  rw [Array.getElem?_zipWith]
  cases left[id.index]? with
  | none => simp
  | some here => cases right[id.index]? <;> simp

/-- A round that takes something away leaves less than there was. -/
theorem count_zipWith_and_lt {left right : List Bool} (hlength : left.length = right.length)
    (hne : List.zipWith and left right ≠ left) :
    (List.zipWith and left right).count true < left.count true := by
  have hle : ∀ {left right : List Bool}, left.length = right.length →
      (List.zipWith and left right).count true ≤ left.count true := by
    intro left right hlength
    induction left generalizing right with
    | nil => simp
    | cons first rest ih =>
      cases right with
      | nil => simp at hlength
      | cons second others =>
        have hrest := ih (Nat.succ.inj hlength)
        cases first <;> cases second <;> simp <;> omega
  induction left generalizing right with
  | nil => simp at hne
  | cons first rest ih =>
    cases right with
    | nil => simp at hlength
    | cons second others =>
      have hothers : rest.length = others.length := Nat.succ.inj hlength
      rw [List.zipWith_cons_cons] at hne ⊢
      by_cases hrest : List.zipWith and rest others = rest
      · cases first with
        | false => simp [hrest] at hne
        | true =>
          cases second with
          | true => simp [hrest] at hne
          | false => simp [hrest]
      · have hlt := ih hothers hrest
        cases first <;> cases second <;> simp <;> omega

theorem present_pruneObjects {left : Nat} (hsize : existing.size = heap.objects.size)
    (hleft : existing.toList.count true ≤ left)
    (hall : ∀ among, heap.Upholds held among → ∀ id, among id → present existing id)
    (id : ObjectId) : present (heap.pruneObjects held left existing) id ↔ heap.Exists held id := by
  have hupheld : ∀ {among}, heap.Upholds held among → ∀ {other}, among other →
      present (heap.heldObjects held existing) other := by
    intro among upholds other hother
    obtain ⟨hlt, hheld⟩ := upholds other hother
    rw [present_heldObjects hsize]
    refine ⟨hlt, hheld.imp_right ?_⟩
    exact fun ⟨holder, hholder, hslot⟩ => ⟨holder, hall among upholds holder hholder, hslot⟩
  -- there are never fewer rounds left than objects
  induction left generalizing existing with
  | zero =>
    have hnone : ∀ other, ¬ present existing other := by
      intro other hother
      have hmem : true ∈ existing.toList :=
        Array.mem_toList_iff.mpr (Array.mem_of_getElem? hother)
      exact absurd (List.count_pos_iff.mpr hmem) (by omega)
    exact iff_of_false (hnone id) fun ⟨among, upholds, hid⟩ => hnone id (hall among upholds id hid)
  | succ left ih =>
    rw [pruneObjects]
    have hlength : existing.toList.length = (heap.heldObjects held existing).toList.length := by
      rw [Array.length_toList, Array.length_toList, hsize, size_heldObjects]
    split
    · next hsame =>
      have hkept : ∀ other, present existing other →
          present (heap.heldObjects held existing) other := by
        intro other hother
        rw [← hsame, present_zipWith_and] at hother
        exact hother.2
      constructor
      · intro hid
        refine ⟨present existing, ?_, hid⟩
        exact fun other hother => (present_heldObjects hsize other).mp (hkept other hother)
      · exact fun ⟨among, upholds, hid⟩ => hall among upholds id hid
    · next hchanged =>
      have hlist : (Array.zipWith and existing (heap.heldObjects held existing)).toList =
          List.zipWith and existing.toList (heap.heldObjects held existing).toList :=
        Array.toList_zipWith
      have hne : List.zipWith and existing.toList (heap.heldObjects held existing).toList ≠
          existing.toList := fun heq => hchanged (Array.toList_inj.mp (hlist.trans heq))
      have hless := count_zipWith_and_lt hlength hne
      have hkept : ∀ among, heap.Upholds held among → ∀ other, among other →
          present (Array.zipWith and existing (heap.heldObjects held existing)) other := by
        intro among upholds other hother
        rw [present_zipWith_and]
        exact ⟨hall among upholds other hother, hupheld upholds hother⟩
      have hsizes : (Array.zipWith and existing (heap.heldObjects held existing)).size =
          heap.objects.size := by
        rw [Array.size_zipWith, hsize, size_heldObjects, Nat.min_self]
      refine ih hsizes (by rw [hlist]; omega) hkept ?_
      intro among upholds other hother
      obtain ⟨hlt, hheld⟩ := upholds other hother
      rw [present_heldObjects hsizes]
      refine ⟨hlt, hheld.imp_right ?_⟩
      exact fun ⟨holder, hholder, hslot⟩ => ⟨holder, hkept among upholds holder hholder, hslot⟩

/-! ### What is left -/

theorem mem_existingObjects (object : Object) : object ∈ heap.existingObjects held ↔
    ∃ id, heap.Exists held id ∧ heap.object id = object := by
  have hsize : (Array.replicate heap.objects.size true).size = heap.objects.size :=
    Array.size_replicate
  have hall : ∀ among, heap.Upholds held among → ∀ id, among id →
      present (Array.replicate heap.objects.size true) id := by
    intro among upholds id hid
    unfold present
    rw [Array.getElem?_replicate]
    exact if_pos (upholds id hid).1
  have hcount : (Array.replicate heap.objects.size true).toList.count true ≤
      heap.objects.size := by
    have hlength := List.count_le_length (a := true)
      (l := (Array.replicate heap.objects.size true).toList)
    rwa [Array.length_toList, hsize] at hlength
  have hprune := present_pruneObjects hsize hcount hall
  have hkept : ∀ left existing, existing.size = heap.objects.size →
      (heap.pruneObjects held left existing).size = heap.objects.size := by
    intro left
    induction left with
    | zero => exact fun _ h => h
    | succ left ih =>
      intro existing hexisting
      rw [pruneObjects]
      split
      · exact hexisting
      · apply ih
        rw [Array.size_zipWith, hexisting, size_heldObjects, Nat.min_self]
  unfold existingObjects
  rw [List.mem_filterMap]
  simp only [← hprune, ← mem_zip_existing (hkept _ _ hsize)]
  constructor
  · rintro ⟨⟨other, here⟩, hmem, hhere⟩
    cases here with
    | false => cases hhere
    | true =>
      cases hhere
      exact hmem
  · exact fun hmem => ⟨(object, true), hmem, rfl⟩

theorem holdsClass_iff (cls : ClassRef) :
    holdsClass held (heap.existingObjects held) cls = true ↔ heap.HoldsClass held cls := by
  unfold holdsClass HoldsClass
  simp only [Bool.or_eq_true, List.contains_iff_mem, List.any_eq_true, mem_existingObjects,
    Array.contains_iff_mem, Bool.and_eq_true, decide_eq_true_eq]
  constructor
  · rintro (hheld | ⟨object, ⟨id, hid, rfl⟩, hholds⟩)
    · exact .inl hheld
    · exact .inr ⟨id, hid, hholds⟩
  · rintro (hheld | ⟨id, hid, hholds⟩)
    · exact .inl hheld
    · exact .inr ⟨_, ⟨id, hid, rfl⟩, hholds⟩

end LateBinding.Heap
