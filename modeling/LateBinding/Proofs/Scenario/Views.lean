import LateBinding.Proofs.Execution.Grounded
import LateBinding.Scenario.Desk

/-!
# What a scenario sees on top of a ground

A scenario sees classes by name and number, objects by handle and implementations by symbol. So it
sees the same on top of a ground as it sees without one, wherever its handles stand for the same.
-/

namespace LateBinding.Scenario

/-! ### Desks -/

/-- An answer names no identities, but for those of the constant objects of a unit. -/
def Answer.moved (offset : Offset) : Answer → Answer
  | .loaded report classes => .loaded (report.moved offset) classes
  | answer => answer

def Note.moved (offset : Offset) : Note → Note
  | .answer outcome => .answer (outcome.map (·.moved offset))
  | note => note

def Handles.mapValues {α β : Type} (handles : Handles α) (f : α → β) : Handles β :=
  List.map (fun (name, value) => (name, f value)) handles

namespace Handles

variable {α β : Type} (handles : Handles α) (f : α → β)

theorem lookup_mapValues (name : String) :
    List.lookup name (handles.mapValues f) = (List.lookup name handles).map f := by
  induction handles with
  | nil => rfl
  | cons handle rest ih =>
    obtain ⟨other, value⟩ := handle
    change List.lookup name ((other, f value) :: Handles.mapValues rest f) = _
    rw [List.lookup_cons, List.lookup_cons]
    split
    · rfl
    · exact ih

theorem drop_mapValues (name : String) :
    (handles.mapValues f).drop name = (handles.drop name).mapValues f :=
  List.filter_map

theorem put_mapValues (name : String) (value : α) :
    (handles.mapValues f).put name (f value) = (handles.put name value).mapValues f :=
  congrArg ((name, f value) :: ·) (handles.drop_mapValues f name)

end Handles

/-- A desk, and the same one on top of a ground, where also some values underneath are held. -/
structure Desk.Stacked (offset : Offset) (desk image : Desk) : Prop where
  classes : image.classes = desk.classes.mapValues (·.rename offset.pair)
  objects : image.objects = desk.objects.mapValues offset.object
  tables : image.tables = desk.tables
  notes : image.notes = desk.notes.map (·.moved offset)
  elsewhere : desk.elsewhere = []
  below : ∀ value ∈ image.elsewhere, offset.Below value

section

variable {offset : Offset} {desk image : Desk} (stacked : desk.Stacked offset image)

include stacked

theorem Desk.Stacked.roots : offset.Roots desk.holds image.holds := by
  refine ⟨image.elsewhere, stacked.below, fun value => ?_⟩
  have hhandles : desk.holds.map (·.moved offset) =
      image.classes.map (fun handle => Value.classObject handle.2) ++
        image.objects.map (fun handle => Value.object handle.2) := by
    rw [Desk.holds, stacked.classes, stacked.objects, stacked.elsewhere, List.append_nil,
      List.map_append, Handles.mapValues, Handles.mapValues, List.map_map, List.map_map,
      List.map_map, List.map_map]
    rfl
  rw [hhandles, ← List.mem_append]
  exact Iff.rfl

namespace Desk.Stacked

theorem putClass (name : String) (cls : ClassRef) : (desk.putClass name cls).Stacked offset
    (image.putClass name (cls.rename offset.pair)) :=
  { stacked with
    classes := by
      rw [Desk.putClass, Desk.putClass, stacked.classes]
      exact Handles.put_mapValues _ _ name cls }

theorem putObject (name : String) (id : ObjectId) : (desk.putObject name id).Stacked offset
    (image.putObject name (offset.object id)) :=
  { stacked with
    objects := by
      rw [Desk.putObject, Desk.putObject, stacked.objects]
      exact Handles.put_mapValues _ _ name id }

theorem dropClass (name : String) : ({ desk with classes := desk.classes.drop name } : Desk).Stacked
    offset { image with classes := image.classes.drop name } :=
  { stacked with
    classes := by
      dsimp only
      rw [stacked.classes]
      exact Handles.drop_mapValues _ _ name }

theorem putTable (name : String) (table : DispatchTable) :
    ({ desk with tables := desk.tables.put name table } : Desk).Stacked offset
      { image with tables := image.tables.put name table } :=
  { stacked with tables := congrArg (Handles.put · name table) stacked.tables }

theorem putObjects (stem : String) (ids : List ObjectId) : (desk.putObjects stem ids).Stacked offset
    (image.putObjects stem (ids.map offset.object)) := by
  unfold Desk.putObjects
  rw [List.zipIdx_map, List.foldl_map]
  generalize ids.zipIdx = items
  induction items generalizing desk image with
  | nil => exact stacked
  | cons item rest ih => exact ih (stacked.putObject (stem ++ toString item.2) item.1)

theorem addNote (note : Note) :
    (desk.addNote note).Stacked offset (image.addNote (note.moved offset)) :=
  { stacked with
    notes := by
      rw [Desk.addNote, Desk.addNote, stacked.notes]
      exact Array.map_push.symm }

theorem handleOf?_eq (id : ObjectId) : image.handleOf? (offset.object id) = desk.handleOf? id := by
  have hhandle : ∀ handle : String × ObjectId,
      (if offset.object handle.2 = offset.object id then some handle.1 else none) =
        if handle.2 = id then some handle.1 else none :=
    fun _ => if_congr offset.object_injective.eq_iff rfl rfl
  unfold Desk.handleOf?
  rw [stacked.objects, Handles.mapValues, List.filterMap_map]
  exact congrArg (fun handles : List String => (handles.mergeSort (· ≤ ·)).head?)
    (List.filterMap_congr fun handle _ => hhandle handle)

end Desk.Stacked

end

/-! ### Paths -/

/-- Both fail for the same reason, or they give what stands for one another. -/
def Alike {ε α β : Type} (Q : α → β → Prop) : Except ε α → Except ε β → Prop
  | .ok value, .ok image => Q value image
  | .error failure, .error failure' => failure' = failure
  | _, _ => False

theorem alike_iff_eq_map {ε α β : Type} {f : α → β} {attempt : Except ε α}
    {image : Except ε β} : Alike (fun value value' => value' = f value) attempt image ↔
      image = attempt.map f := by
  cases attempt with
  | error failure =>
    cases image with
    | error failure' => exact ⟨congrArg Except.error, Except.error.inj⟩
    | ok value' => exact iff_of_false id fun h => nomatch h
  | ok value =>
    cases image with
    | error failure' => exact iff_of_false id fun h => nomatch h
    | ok value' => exact ⟨congrArg Except.ok, Except.ok.inj⟩

section

variable {ε α β γ δ : Type} {Q : α → β → Prop} {P : γ → δ → Prop} {attempt : Except ε α}
  {image : Except ε β}

theorem Alike.bind {next : α → Except ε γ} {other : β → Except ε δ} (alike : Alike Q attempt image)
    (hnext : ∀ value value', Q value value' → Alike P (next value) (other value')) :
    Alike P (attempt >>= next) (image >>= other) := by
  cases attempt with
  | error failure =>
    cases image with
    | error failure' => exact alike
    | ok value' => exact alike.elim
  | ok value =>
    cases image with
    | error failure' => exact alike.elim
    | ok value' => exact hnext value value' alike

theorem Alike.map {f : α → γ} {g : β → δ} (alike : Alike Q attempt image)
    (hvalue : ∀ value value', Q value value' → P (f value) (g value')) :
    Alike P (f <$> attempt) (g <$> image) := by
  rw [map_eq_pure_bind, map_eq_pure_bind]
  exact alike.bind hvalue

theorem Alike.mapM {f : γ → δ} {list : List α} {step : α → Except ε γ} {other : α → Except ε δ}
    (hstep : ∀ item, Alike (fun value value' => value' = f value) (step item) (other item)) :
    Alike (fun values values' => values' = values.map f) (list.mapM step) (list.mapM other) := by
  induction list with
  | nil => exact rfl
  | cons item rest ih =>
    rw [List.mapM_cons, List.mapM_cons]
    refine (hstep item).bind ?_
    rintro value _ rfl
    refine ih.bind ?_
    rintro values _ rfl
    exact rfl

end

namespace Stage

variable {offset : Offset} {policy : CategoryConflictPolicy} {stage image : Stage}
  (stacked : stage.Stacked offset policy (Desk.Stacked offset) [] image)

include stacked

theorem lookup_classes (name : String) : image.host.classes.lookup name =
    (stage.host.classes.lookup name).map (·.rename offset.pair) := by
  rw [stacked.host.classes]
  exact Handles.lookup_mapValues _ _ name

theorem classForName?_eq (name : String) : image.session.classForName? name =
    (stage.session.classForName? name).map (·.rename offset.pair) := by
  obtain ⟨ground, hcarries⟩ := stacked.carries
  exact hcarries.classForName?_eq name

omit stacked in
theorem alike_follow {link : Option ClassRef} : Alike
    (fun cls cls' => cls' = cls.rename offset.pair) (follow link)
    (follow (link.map (·.rename offset.pair))) := by
  cases link <;> exact rfl

theorem alike_classAt (path : ClassPath) : Alike (fun cls cls' => cls' = cls.rename offset.pair)
    (stage.classAt path) (image.classAt path) := by
  obtain ⟨ground, hcarries⟩ := stacked.carries
  induction path with
  | named name =>
    unfold classAt
    rw [lookup_classes stacked, classForName?_eq stacked, ← Option.map_or]
    cases (stage.host.classes.lookup name).or (stage.session.classForName? name) <;> exact rfl
  | metaclassOf path ih =>
    refine ih.bind ?_
    rintro ⟨pair, kind⟩ _ rfl
    cases kind <;> exact rfl
  | superclassOf path ih =>
    refine ih.bind ?_
    rintro cls _ rfl
    rw [hcarries.superclass?_eq]
    exact alike_follow
  | isaOf path ih =>
    refine ih.bind ?_
    rintro cls _ rfl
    rw [hcarries.isa?_eq]
    exact alike_follow

theorem selAt_eq (path : SelPath) : image.selAt path = stage.selAt path := by
  obtain ⟨ground, hcarries⟩ := stacked.carries
  cases path with
  | uid uid => rfl
  | named name => exact congrArg (Except.mapError _) (hcarries.selectors.lookup_eq name)

theorem alike_selAt (path : SelPath) : Alike Eq (stage.selAt path) (image.selAt path) := by
  rw [selAt_eq stacked]
  cases stage.selAt path <;> exact rfl

theorem alike_objectAt (handle : String) : Alike (fun id id' => id' = offset.object id)
    (stage.objectAt handle) (image.objectAt handle) := by
  unfold objectAt handled
  rw [stacked.host.objects, Handles.lookup_mapValues]
  cases stage.host.objects.lookup handle <;> exact rfl

theorem alike_tableAt (handle : String) :
    Alike Eq (stage.tableAt handle) (image.tableAt handle) := by
  rw [tableAt, tableAt, stacked.host.tables]
  cases handled stage.host.tables handle <;> exact rfl

theorem alike_valueAt (path : ValuePath) : Alike (fun value value' => value' = value.moved offset)
    (stage.valueAt path) (image.valueAt path) := by
  cases path with
  | constant value => cases value <;> exact rfl
  | object handle =>
    exact (alike_objectAt stacked handle).map fun id _ hid => congrArg Value.object hid
  | classObject path =>
    exact (alike_classAt stacked path).map fun cls _ hcls => congrArg Value.classObject hcls
  | selector path =>
    exact (alike_selAt stacked path).map fun sel _ hsel => congrArg Value.selector hsel.symm

/-! ### Views -/

theorem viewClass_eq (cls : ClassRef) :
    image.viewClass (cls.rename offset.pair) = stage.viewClass cls := by
  obtain ⟨ground, hcarries⟩ := stacked.carries
  have hid : (image.session.heap.pair (offset.pair cls.pair)).id =
      (stage.session.heap.pair cls.pair).id :=
    (congrArg ClassPair.id (hcarries.pair_eq cls.pair) :)
  rw [viewClass, viewClass, hcarries.className_eq]
  exact congrArg (fun id : ClassId => ClassView.mk _ id.index _) hid

theorem map_viewClass (link : Option ClassRef) :
    (link.map (·.rename offset.pair)).map image.viewClass = link.map stage.viewClass := by
  rw [Option.map_map]
  exact congrArg (Option.map · link) (funext (viewClass_eq stacked))

theorem viewValue_eq (value : Value) :
    image.viewValue (value.moved offset) = stage.viewValue value := by
  cases value with
  | object id => exact congrArg ValueView.object (stacked.host.handleOf?_eq id)
  | classObject cls => exact congrArg ValueView.classObject (viewClass_eq stacked cls)
  | _ => rfl

theorem reportClass_eq (script : Script) (cls : ClassRef) :
    image.reportClass script (cls.rename offset.pair) = stage.reportClass script cls := by
  obtain ⟨ground, hcarries⟩ := stacked.carries
  have hid : (image.session.heap.pair (offset.pair cls.pair)).id =
      (stage.session.heap.pair cls.pair).id :=
    (congrArg ClassPair.id (hcarries.pair_eq cls.pair) :)
  have hdescription : image.session.heap.describeClass (cls.rename offset.pair) =
      stage.session.heap.describeClass cls := by
    unfold Heap.describeClass
    rw [hcarries.className_eq, hcarries.isLinked_eq]
    change recordText _ [(_, _ ++ toString (image.session.heap.pair (offset.pair cls.pair)).id.index
      ++ _), _, _, _] = _
    rw [hid]
    rfl
  have hmetaclass : Heap.metaclass? (cls.rename offset.pair) =
      (Heap.metaclass? cls).map (·.rename offset.pair) := by
    obtain ⟨pair, kind⟩ := cls
    cases kind <;> rfl
  unfold reportClass
  dsimp only
  rw [hdescription, hmetaclass, hcarries.superclass?_eq, hcarries.isa?_eq, hcarries.table?_eq,
    hcarries.isLinked_eq, hcarries.isInitialized_eq, hcarries.instanceSize_eq,
    viewClass_eq stacked, map_viewClass stacked, map_viewClass stacked, map_viewClass stacked]
  rfl

theorem reportObject_eq (id : ObjectId) :
    image.reportObject (offset.object id) = stage.reportObject id := by
  obtain ⟨ground, hcarries⟩ := stacked.carries
  have hslots : (image.session.heap.object (offset.object id)).slots =
      (stage.session.heap.object id).slots.map (·.moved offset) :=
    (congrArg Object.slots (hcarries.object_eq id) :)
  have hname : ∀ cls : ClassRef, image.session.heap.className (cls.rename offset.pair) =
      stage.session.heap.className cls := hcarries.className_eq
  have hdescription : image.session.heap.describeObject (offset.object id) =
      stage.session.heap.describeObject id := by
    unfold Heap.describeObject
    rw [hcarries.classOf?_eq, hslots, Array.size_map]
    cases stage.session.heap.classOf? id with
    | none => rfl
    | some cls =>
      dsimp only [Option.map_some]
      rw [hname]
  unfold reportObject
  dsimp only
  rw [hdescription, hcarries.classOf?_eq, map_viewClass stacked, hslots, Array.toList_map,
    List.map_map]
  have hviews : image.viewValue ∘ (·.moved offset) = stage.viewValue :=
    funext (viewValue_eq stacked)
  rw [hviews]

omit stacked in
theorem equals_moved (left right : Value) :
    (left.moved offset).equals (right.moved offset) = left.equals right := by
  have heq : left.moved offset = right.moved offset ↔ left = right :=
    (Value.moved_injective offset).eq_iff
  cases left with
  | float x => cases right <;> rfl
  | _ => exact decide_eq_decide.mpr heq

theorem reportValue_eq (value : Value) :
    image.reportValue (value.moved offset) = stage.reportValue value := by
  obtain ⟨ground, hcarries⟩ := stacked.carries
  have hdescription : image.session.heap.describeValue (value.moved offset) =
      stage.session.heap.describeValue value := by
    cases value with
    | object id =>
      unfold Heap.describeValue Value.moved
      dsimp only
      rw [hcarries.classOf?_eq]
      cases stage.session.heap.classOf? id with
      | none => rfl
      | some cls => exact congrArg (fun name => "<" ++ name ++ " ADDR>") (hcarries.className_eq cls)
    | classObject cls => exact hcarries.className_eq cls
    | _ => rfl
  have hself : (value.moved offset).equals (value.moved offset) = value.equals value :=
    equals_moved value value
  have hnil : (value.moved offset).equals .nil = value.equals .nil := equals_moved value .nil
  have hcls : (value.moved offset).class?.map image.viewClass =
      value.class?.map stage.viewClass := by
    cases value with
    | classObject cls => exact congrArg some (viewClass_eq stacked cls)
    | _ => rfl
  have hisNil : value.moved offset = .nil ↔ value = .nil :=
    (Value.moved_injective offset).eq_iff (b := .nil)
  unfold reportValue
  rw [hdescription, hself, hcls, viewValue_eq stacked]
  simp only [hnil, hisNil]
  cases value <;> rfl

end Stage

end LateBinding.Scenario
