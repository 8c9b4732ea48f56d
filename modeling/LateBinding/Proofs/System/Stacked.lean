import LateBinding.Proofs.Heap.Stacking
import LateBinding.Proofs.Selectors.Bisimulation
import LateBinding.Proofs.System.Mirroring
import LateBinding.Proofs.System.Shutdown
import LateBinding.Proofs.System.Sound

/-!
# Sessions on top of a ground

A session may go on in a heap where other classes and objects lie underneath. Whatever is done in one
go is answered as it would be without them, but for the identities that are handed out, and a
shutdown reports the same.
-/

namespace LateBinding

/-! ### Waiting static instances -/

def StaticQueue.moved (offset : Offset) (queue : StaticQueue) : StaticQueue :=
  queue.map fun (name, id) => (name, offset.object id)

namespace StaticQueue

variable (offset : Offset) (queue : StaticQueue)

theorem under_moved (name : String) :
    (queue.moved offset).under name = (queue.under name).map offset.object := by
  rw [under, under, moved, List.filterMap_map, List.map_filterMap]
  apply List.filterMap_congr
  rintro ⟨other, id⟩ -
  change (if other = name then _ else _) = Option.map _ (if other = name then _ else _)
  split <;> rfl

theorem without_moved (name : String) :
    (queue.moved offset).without name = (queue.without name).moved offset := by
  rw [without, without, moved, moved, List.filter_map]
  rfl

theorem add_moved (name : String) (id : ObjectId) :
    (queue.moved offset).add name (offset.object id) = (queue.add name id).moved offset := by
  have hinjective : Function.Injective fun item : String × ObjectId =>
      (item.1, offset.object item.2) := by
    rintro ⟨first, id⟩ ⟨second, other⟩ heq
    obtain ⟨hname, hid⟩ := Prod.mk.inj heq
    exact congrArg₂ Prod.mk hname (offset.object_injective hid)
  have hmem : (queue.moved offset).contains (name, offset.object id) =
      queue.contains (name, id) := by
    rw [Bool.eq_iff_iff, List.contains_iff_mem, List.contains_iff_mem]
    exact List.mem_map_of_injective (a := (name, id)) hinjective
  unfold add
  rw [hmem]
  split
  · rfl
  · rw [moved, moved, List.map_append]
    rfl

theorem addAll_moved (name : String) (ids : List ObjectId) :
    (queue.moved offset).addAll name (ids.map offset.object) =
      (queue.addAll name ids).moved offset := by
  rw [addAll, addAll, List.foldl_map]
  exact List.foldl_hom (moved offset) fun queue id => queue.add_moved offset name id

theorem counts_moved : (queue.moved offset).counts = queue.counts := by
  have hnames : (queue.moved offset).map (·.1) = queue.map (·.1) := by
    rw [moved, List.map_map]
    rfl
  unfold counts
  simp only [hnames, under_moved, List.length_map]

end StaticQueue

/-! ### Sessions -/

/-- A session, and the same one on top of a ground. -/
abbrev Ground.Carries {offset : Offset} (ground : Ground offset) : Session → Session → Prop :=
  Session.Mirrors ground.relocation SelectorTable.Alike (StaticQueue.moved offset)

/-- The classes are on the ground if each part of them is. -/
theorem Ground.classes_eq {offset : Offset} {ground : Ground offset} {session image : Session}
    (hheap : image.heap = ground.under session.heap)
    (hregistry : image.system.registry = session.system.registry.rename offset.pair)
    (hlog : image.log = session.log.map (·.rename offset.pair)) :
    image.classes = ground.relocation.classes session.classes := by
  rw [Session.classes, hheap, hregistry, hlog]
  rfl

namespace Ground.Carries

variable {offset : Offset} {ground : Ground offset} {session image : Session}
  (hcarries : ground.Carries session image)

include hcarries

theorem heap_eq : image.heap = ground.under session.heap :=
  congrArg Classes.heap hcarries.classes

theorem registry_eq : image.system.registry = session.system.registry.rename offset.pair :=
  congrArg Classes.registry hcarries.classes

theorem log_eq : image.log = session.log.map (·.rename offset.pair) :=
  congrArg Classes.log hcarries.classes

/-- The heap is changed on top, and the ground may change as well. -/
theorem onGround (other : Ground offset) (h : Heap) : other.Carries { session with heap := h }
    { image with heap := other.under h } :=
  { hcarries with
    classes := congrArg (fun classes : Classes => { classes with heap := other.under h })
      hcarries.classes }

theorem setHeap (h : Heap) : ground.Carries { session with heap := h }
    { image with heap := ground.under h } := hcarries.onGround ground h

/-! #### What is shown of classes and objects -/

theorem className_eq (cls : ClassRef) :
    image.heap.className (cls.rename offset.pair) = session.heap.className cls := by
  rw [hcarries.heap_eq]
  exact ground.relocation.className_heap session.heap cls

theorem table?_eq (cls : ClassRef) :
    image.heap.table? (cls.rename offset.pair) = session.heap.table? cls := by
  rw [hcarries.heap_eq]
  exact ground.relocation.table?_heap session.heap cls.pair cls.kind

theorem isLinked_eq (cls : ClassRef) :
    image.heap.isLinked (cls.rename offset.pair) = session.heap.isLinked cls :=
  congrArg Option.isSome (hcarries.table?_eq cls)

theorem lookup_eq (cls : ClassRef) (sel : Sel) :
    image.heap.lookup (cls.rename offset.pair) sel = session.heap.lookup cls sel := by
  rw [Heap.lookup, Heap.lookup, hcarries.table?_eq]

theorem respondsTo_eq (cls : ClassRef) (sel : Sel) :
    image.heap.respondsTo (cls.rename offset.pair) sel = session.heap.respondsTo cls sel :=
  congrArg Option.isSome (hcarries.lookup_eq cls sel)

theorem isInitialized_eq (cls : ClassRef) :
    image.heap.isInitialized (cls.rename offset.pair) = session.heap.isInitialized cls := by
  rw [hcarries.heap_eq]
  exact ground.relocation.isInitialized_heap session.heap cls

theorem instanceSize_eq (cls : ClassRef) :
    image.heap.instanceSize (cls.rename offset.pair) = session.heap.instanceSize cls := by
  rw [hcarries.heap_eq]
  exact ground.relocation.instanceSize_heap session.heap cls

theorem superclass?_eq (cls : ClassRef) : image.heap.superclass? (cls.rename offset.pair) =
    (session.heap.superclass? cls).map (·.rename offset.pair) := by
  rw [hcarries.heap_eq]
  exact ground.relocation.superclass?_heap session.heap cls

theorem isa?_eq (cls : ClassRef) : image.heap.isa? (cls.rename offset.pair) =
    (session.heap.isa? cls).map (·.rename offset.pair) := by
  rw [hcarries.heap_eq]
  exact ground.relocation.isa?_heap session.heap cls

theorem pair_eq (id : PairId) :
    image.heap.pair (offset.pair id) = (session.heap.pair id).rename offset.pair := by
  rw [hcarries.heap_eq]
  exact ground.pair_under session.heap id

theorem object_eq (id : ObjectId) :
    image.heap.object (offset.object id) = (session.heap.object id).moved offset := by
  rw [hcarries.heap_eq]
  exact ground.object_under session.heap id

theorem classOf?_eq (id : ObjectId) : image.heap.classOf? (offset.object id) =
    (session.heap.classOf? id).map (·.rename offset.pair) := by
  rw [hcarries.heap_eq]
  exact ground.classOf?_under session.heap id

theorem slot?_eq (id : ObjectId) (index : Nat) : image.heap.slot? (offset.object id) index =
    (session.heap.slot? id index).map (·.moved offset) := by
  rw [hcarries.heap_eq]
  exact ground.slot?_under session.heap id index

theorem describe_eq (sel : Sel) : image.describe sel = session.describe sel :=
  hcarries.selectors.describe_eq sel

theorem classForName?_eq (name : String) : image.classForName? name =
    (session.classForName? name).map (·.rename offset.pair) := by
  rw [Session.classForName?, hcarries.registry_eq, Registry.classForName?_rename]
  rfl

theorem conformsTo_eq (cls : ClassRef) (protocol : String) :
    image.conformsTo (cls.rename offset.pair) protocol = session.conformsTo cls protocol := by
  have hresolve : image.system.registry.resolve image.heap (cls.rename offset.pair) =
      session.system.registry.resolve session.heap cls := Act.resolve_eq hcarries cls
  unfold Session.conformsTo
  rw [hresolve]
  cases session.system.registry.resolve session.heap cls with
  | error error => rfl
  | ok id =>
    dsimp only
    rw [hcarries.registry_eq, Registry.conformsTo_rename]

theorem stats_eq : image.system.stats = session.system.stats := by
  have hselectors : image.system.selectors.size = session.system.selectors.size :=
    congrArg Array.size hcarries.selectors.infos
  have hstatics : image.system.statics.length = session.system.statics.length := by
    rw [hcarries.statics]
    exact List.length_map _
  unfold System.stats
  rw [hselectors, hstatics, hcarries.registry_eq, Registry.linkedCount_rename]
  rfl

theorem shutdownReport_eq : image.system.shutdownReport = session.system.shutdownReport := by
  have hselectors : image.system.selectors.size = session.system.selectors.size :=
    congrArg Array.size hcarries.selectors.infos
  unfold System.shutdownReport
  rw [hselectors, hcarries.statics, StaticQueue.counts_moved, hcarries.registry_eq,
    Registry.unresolved_rename]
  rfl

end Ground.Carries

/-! ### Dispatch -/

namespace Route

/-- The same way on top. -/
def moved (offset : Offset) : Route → Route
  | .run imp via => .run imp (via.rename offset.pair)
  | .forward handler via => .forward handler (via.rename offset.pair)
  | route => route

end Route

namespace Ground.Carries

variable {offset : Offset} {ground : Ground offset} {session image : Session}
  (hcarries : ground.Carries session image)

include hcarries

theorem receiverClass_eq (receiver : Value) (sel : Sel) :
    image.receiverClass (receiver.moved offset) sel =
      (session.receiverClass receiver sel).map (Option.map (·.rename offset.pair)) := by
  cases receiver with
  | object id =>
    unfold Session.receiverClass Value.moved
    dsimp only
    rw [hcarries.classOf?_eq, hcarries.describe_eq]
    cases session.heap.classOf? id <;> rfl
  | classObject cls =>
    unfold Session.receiverClass Value.moved
    dsimp only
    rw [hcarries.isa?_eq, hcarries.className_eq]
    cases session.heap.isa? cls <;> rfl
  | nil => rfl
  | _ =>
    change Except.error (DispatchError.notAnObject _ (image.describe sel)) =
      Except.error (DispatchError.notAnObject _ (session.describe sel))
    rw [hcarries.describe_eq]
    rfl

theorem dispatch_eq (cls : ClassRef) (sel : Sel) :
    image.dispatch (cls.rename offset.pair) sel = (session.dispatch cls sel).moved offset := by
  unfold Session.dispatch
  rw [hcarries.table?_eq, hcarries.className_eq, hcarries.describe_eq, hcarries.forward]
  cases session.heap.table? cls with
  | none => rfl
  | some table =>
    dsimp only
    cases table.get? sel <;> cases session.system.forward <;> rfl

theorem route_eq (receiver : Value) (sel : Sel) :
    image.route (receiver.moved offset) sel = (session.route receiver sel).moved offset := by
  rw [Session.route, Session.route, hcarries.receiverClass_eq]
  rcases session.receiverClass receiver sel with error | (_ | cls)
  · rfl
  · rfl
  · exact hcarries.dispatch_eq cls sel

theorem superRoute_eq (receiver : Value) (current : ClassRef) (sel : Sel) :
    image.superRoute (receiver.moved offset) (current.rename offset.pair) sel =
      (session.superRoute receiver current sel).moved offset := by
  have hnil : receiver.moved offset = .nil ↔ receiver = .nil :=
    (Value.moved_injective offset).eq_iff (b := .nil)
  have hside : Session.superSide (receiver.moved offset) (current.rename offset.pair) =
      (Session.superSide receiver current).rename offset.pair := by
    obtain ⟨pair, kind⟩ := current
    cases receiver <;> cases kind <;> rfl
  unfold Session.superRoute
  dsimp only
  rw [hside, hcarries.superclass?_eq, hcarries.isLinked_eq, hcarries.className_eq,
    hcarries.describe_eq]
  simp only [hnil]
  split
  · rfl
  · cases session.heap.superclass? (Session.superSide receiver current) with
    | some superclass => exact hcarries.dispatch_eq superclass sel
    | none =>
      dsimp only [Option.map_none]
      split <;> rfl

theorem lookupImp_eq (receiver : Value) (sel : Sel) :
    image.lookupImp (receiver.moved offset) sel = session.lookupImp receiver sel := by
  rw [Session.lookupImp, Session.lookupImp, hcarries.receiverClass_eq]
  rcases session.receiverClass receiver sel with error | (_ | cls)
  · rfl
  · rfl
  · exact hcarries.lookup_eq cls sel

end Ground.Carries

/-! ### Replies -/

def LoadReport.moved (offset : Offset) (report : LoadReport) : LoadReport :=
  { report with statics := report.statics.map offset.object }

namespace Act

variable {offset : Offset} {ground : Ground offset} {session image : Session}
  (hcarries : ground.Carries session image)

include hcarries

/-! ### Objects -/

theorem matches_bindWaiting (pair : PairId) :
    Matches ground.Carries Eq session image (bindWaiting pair)
      (bindWaiting (offset.pair pair)) := by
  have hname : (image.heap.pair (offset.pair pair)).name = (session.heap.pair pair).name :=
    (congrArg ClassPair.name (hcarries.pair_eq pair) :)
  refine matches_modify ?_
  dsimp only
  rw [hname, hcarries.statics, StaticQueue.under_moved, hcarries.heap_eq, ground.bindAll_under]
  exact { hcarries.setHeap _ with statics := StaticQueue.without_moved offset _ _ }

theorem matches_finishLinking (linked : List ClassId) :
    Matches ground.Carries (fun pairs pairs' => pairs' = pairs.map offset.pair) session image
      (finishLinking linked) (finishLinking linked) := by
  have hpairs : Matches ground.Carries (fun pairs pairs' => pairs' = pairs.map offset.pair)
      session image (pairsOf linked) (pairsOf linked) := by
    refine ⟨?_, hcarries⟩
    dsimp only
    rw [List.map_filterMap, hcarries.registry_eq]
    apply List.filterMap_congr
    intro id _
    rw [Registry.record?_rename, Option.map_map, Option.map_map]
    rfl
  refine hpairs.bind ?_
  rintro pairs _ middle middle' rfl hmiddle
  refine (matches_forM (List.forall₂_eq_map_iff.mpr rfl) hmiddle ?_).bind
    fun _ _ _ _ _ hfinal => matches_pure hfinal rfl
  rintro pair _ start start' rfl hstart
  exact matches_bindWaiting hstart pair

theorem matches_register (spec : ClassSpec) :
    Matches ground.Carries
      (fun reply reply' => reply' = reply.map (Prod.map offset.pair (List.map offset.pair)))
      session image (register spec) (register spec) := by
  apply matches_get_bind
  rw [idOf?_eq hcarries]
  split
  · exact matches_pure hcarries rfl
  · refine (matches_enterClass hcarries SelectorTable.bisimulation_alike spec).bind ?_
    rintro entered _ middle middle' rfl hmiddle
    refine (matches_finishLinking hmiddle entered.2).bind ?_
    rintro pairs _ final final' rfl hfinal
    exact matches_pure hfinal rfl

theorem matches_addObject (object : Object) :
    ground.Carries { session with heap := (session.heap.addObject object).2 }
      { image with heap := (image.heap.addObject (object.moved offset)).2 } ∧
    (image.heap.addObject (object.moved offset)).1 =
      offset.object (session.heap.addObject object).1 := by
  rw [hcarries.heap_eq, ground.addObject_under]
  exact ⟨hcarries.setHeap _, rfl⟩

theorem matches_createInstance (cls : ClassRef) :
    Matches ground.Carries (fun reply reply' => reply' = reply.map offset.object) session image
      (createInstance cls) (createInstance (cls.rename offset.pair)) := by
  have hkind : (cls.rename offset.pair).kind = cls.kind := rfl
  apply matches_get_bind
  dsimp only
  rw [hcarries.className_eq, hcarries.isLinked_eq, hcarries.instanceSize_eq, hkind]
  split
  · exact matches_pure hcarries rfl
  · split
    · exact matches_pure hcarries rfl
    · let object : Object :=
        ⟨some cls.pair, Array.replicate (session.heap.instanceSize cls) Value.nil⟩
      have hobject : object.moved offset = ⟨some (cls.rename offset.pair).pair,
          Array.replicate (session.heap.instanceSize cls) Value.nil⟩ :=
        congrArg (Object.mk _) Array.map_replicate
      obtain ⟨hadded, hid⟩ := matches_addObject hcarries object
      rw [hobject] at hadded hid
      refine (matches_modify hadded).bind ?_
      exact fun _ _ _ _ _ hfinal => matches_pure hfinal (congrArg Except.ok hid)

theorem matches_createLiteral (slots : List Value) :
    Matches ground.Carries (fun id id' => id' = offset.object id) session image
      (createLiteral slots) (createLiteral (slots.map (·.moved offset))) := by
  obtain ⟨hadded, hid⟩ := matches_addObject hcarries ⟨none, slots.toArray⟩
  have hobject : (⟨none, slots.toArray⟩ : Object).moved offset =
      ⟨none, (slots.map (·.moved offset)).toArray⟩ := congrArg (Object.mk none) List.map_toArray
  rw [hobject] at hadded hid
  apply matches_get_bind
  exact (matches_modify hadded).bind fun _ _ _ _ _ hfinal => matches_pure hfinal hid

theorem matches_setSlot (id : ObjectId) (index : Nat) (value : Value) :
    Matches ground.Carries Eq session image (setSlot id index value)
      (setSlot (offset.object id) index (value.moved offset)) := by
  apply matches_get_bind
  dsimp only
  rw [hcarries.heap_eq, ground.setSlot_under]
  exact (matches_modify (hcarries.setHeap _)).bind fun _ _ _ _ _ hfinal => matches_pure hfinal rfl

theorem matches_registerStatics (className : String) (ids : List ObjectId) :
    Matches ground.Carries Eq session image (registerStatics className ids)
      (registerStatics className (ids.map offset.object)) := by
  apply matches_get_bind
  rw [hcarries.classForName?_eq]
  cases session.classForName? className with
  | some cls =>
    have hbind : image.heap.bindAll (cls.rename offset.pair).pair (ids.map offset.object) =
        ((session.heap.bindAll cls.pair ids).1,
          ground.under (session.heap.bindAll cls.pair ids).2) := by
      rw [hcarries.heap_eq]
      exact ground.bindAll_under session.heap cls.pair ids
    dsimp only [Option.map_some]
    rw [hbind]
    exact (matches_modify (hcarries.setHeap _)).bind fun _ _ _ _ _ hfinal =>
      matches_pure hfinal rfl
  | none =>
    have hstatics : image.system.statics.addAll className (ids.map offset.object) =
        (session.system.statics.addAll className ids).moved offset := by
      rw [hcarries.statics, StaticQueue.addAll_moved]
    have hqueued : Matches ground.Carries Eq session image
        (onSystem fun system => { system with statics := system.statics.addAll className ids })
        (onSystem fun system => { system with
          statics := system.statics.addAll className (ids.map offset.object) }) :=
      matches_modify { hcarries with statics := hstatics }
    exact hqueued.bind fun _ _ _ _ _ hfinal => matches_pure hfinal rfl

/-! ### Units -/

theorem matches_createStatics (group : StaticGroup) :
    Matches ground.Carries (fun ids ids' => ids' = ids.map offset.object) session image
      (createStatics group) (createStatics group) := by
  have hsame : List.Forall₂ Eq group.instances group.instances :=
    List.forall₂_same.mpr fun _ _ => rfl
  have hobjects : Matches ground.Carries (List.Forall₂ fun id id' => id' = offset.object id)
      session image (group.instances.mapM fun slots => createLiteral (slots.map .ofConstant))
      (group.instances.mapM fun slots => createLiteral (slots.map .ofConstant)) := by
    refine matches_mapM hsame hcarries ?_
    rintro slots _ middle middle' rfl hmiddle
    have hconstants : (slots.map Value.ofConstant).map (·.moved offset) =
        slots.map Value.ofConstant := by
      rw [List.map_map]
      exact List.map_congr_left fun constant _ => by cases constant <;> rfl
    have hcreate := matches_createLiteral hmiddle (slots.map .ofConstant)
    rwa [hconstants] at hcreate
  refine hobjects.bind ?_
  intro ids ids' middle middle' hids hmiddle
  obtain rfl := List.forall₂_eq_map_iff.mp hids
  exact (matches_registerStatics hmiddle group.className ids).bind fun _ _ _ _ _ hfinal =>
    matches_pure hfinal rfl

theorem matches_enterClasses (specs : List ClassSpec) :
    Matches ground.Carries Eq session image (enterClasses specs) (enterClasses specs) := by
  induction specs generalizing session image with
  | nil => exact matches_pure hcarries rfl
  | cons spec rest ih =>
    rw [enterClasses_cons]
    refine (matches_enterClass hcarries SelectorTable.bisimulation_alike spec).bind ?_
    rintro entered _ middle middle' rfl hmiddle
    rw [map_eq_pure_bind]
    refine (ih hmiddle).bind ?_
    rintro others _ final final' rfl hfinal
    exact matches_pure hfinal rfl

theorem matches_execute (unit : LoadUnit) (classes : List ClassSpec)
    (categories : List CategorySpec) :
    Matches ground.Carries
      (fun reply reply' => reply' = Prod.map (·.moved offset) (List.map offset.pair) reply)
      session image (execute unit classes categories) (execute unit classes categories) := by
  have hselectors : Matches ground.Carries Eq session image
      (unit.selectors.forM fun ref => discard (intern ref.name ref.types))
      (unit.selectors.forM fun ref => discard (intern ref.name ref.types)) := by
    refine matches_forM (List.forall₂_same.mpr fun _ _ => rfl) hcarries ?_
    rintro ref _ middle middle' rfl hmiddle
    change Matches _ _ _ _ (intern ref.name ref.types >>= fun _ => pure PUnit.unit)
      (intern ref.name ref.types >>= fun _ => pure PUnit.unit)
    exact (matches_intern SelectorTable.bisimulation_alike hmiddle _ _).bind
      fun _ _ _ _ _ hfinal => matches_pure hfinal rfl
  refine hselectors.bind fun _ _ _ _ _ hinterned => ?_
  refine (matches_enterClasses hinterned classes).bind ?_
  rintro linked _ entered entered' rfl hentered
  have hcategories : Matches ground.Carries (List.Forall₂ Eq) entered entered'
      (categories.mapM applyCategory) (categories.mapM applyCategory) := by
    refine matches_mapM (List.forall₂_same.mpr fun _ _ => rfl) hentered ?_
    rintro category _ middle middle' rfl hmiddle
    exact matches_applyCategory hmiddle SelectorTable.bisimulation_alike category
  refine hcategories.bind ?_
  intro statuses statuses' applied applied' hstatuses happlied
  obtain rfl : statuses = statuses' := (congrFun₂ List.forall₂_eq_eq_eq _ _).mp hstatuses
  refine (matches_finishLinking happlied linked).bind ?_
  rintro pairs _ bound bound' rfl hbound
  have hstatics : Matches ground.Carries (List.Forall₂ fun ids ids' => ids' = ids.map offset.object)
      bound bound' (unit.statics.mapM createStatics) (unit.statics.mapM createStatics) := by
    refine matches_mapM (List.forall₂_same.mpr fun _ _ => rfl) hbound ?_
    rintro group _ middle middle' rfl hmiddle
    exact matches_createStatics hmiddle group
  refine hstatics.bind ?_
  intro statics statics' made made' hlists hmade
  obtain rfl := List.forall₂_eq_map_iff.mp hlists
  apply matches_get_bind
  have hnames : (pairs.map offset.pair).map (fun pair => (made'.heap.pair pair).name) =
      pairs.map fun pair => (made.heap.pair pair).name := by
    rw [List.map_map]
    exact List.map_congr_left fun pair _ => (congrArg ClassPair.name (hmade.pair_eq pair) :)
  dsimp only
  rw [hnames, ← List.map_flatten]
  refine (matches_report hmade _).bind ?_
  exact fun _ _ _ _ _ hfinal => matches_pure hfinal rfl

theorem matches_load (unit : LoadUnit) (imps : String → Option Imp) :
    Matches ground.Carries
      (fun reply reply' =>
        reply' = reply.map (Prod.map (·.moved offset) (List.map offset.pair)))
      session image (load unit imps) (load unit imps) := by
  apply matches_get_bind
  have hresolve : unit.resolve imps (session.system.registry.rename offset.pair) =
      unit.resolve imps session.system.registry := rfl
  rw [hcarries.registry_eq, hresolve]
  cases unit.resolve imps session.system.registry with
  | error error => exact matches_pure hcarries rfl
  | ok declared =>
    refine (matches_execute hcarries unit declared.1 declared.2).bind ?_
    rintro answer _ final final' rfl hfinal
    exact matches_pure hfinal rfl

/-! ### Shutting down -/

theorem matches_shutdown :
    Matches ground.Carries Eq session image shutdown shutdown := by
  apply matches_get_bind
  rw [hcarries.shutdownReport_eq]
  have hevents : List.Forall₂ (fun event event' => event' = event.rename offset.pair)
      session.system.shutdownReport.events session.system.shutdownReport.events := by
    refine List.forall₂_same.mpr fun event hevent => ?_
    exact (Event.rename_of_quiet
      (session.system.shutdownReport.quiet_events event hevent) offset.pair).symm
  refine (matches_forM hevents hcarries ?_).bind fun _ _ reported reported' _ hreported => ?_
  · rintro event _ middle middle' rfl hmiddle
    exact matches_report hmiddle event
  refine (matches_onClasses hreported Linking.tracks_clear).bind ?_
  rintro _ _ cleared cleared' - hcleared
  have hforgotten : Matches ground.Carries Eq cleared cleared'
      (onSystem fun system =>
        { system with selectors := system.selectors.clear, statics := [], forward := none })
      (onSystem fun system =>
        { system with selectors := system.selectors.clear, statics := [], forward := none }) :=
    matches_modify
      { hcleared with
        selectors := hcleared.selectors.clear
        statics := rfl
        forward := rfl }
  exact hforgotten.bind fun _ _ _ _ _ hfinal => matches_pure hfinal rfl

end Act

/-! ### Operations -/

def Operation.moved (offset : Offset) : Operation → Operation
  | .addMethod cls sel imp types => .addMethod (cls.rename offset.pair) sel imp types
  | .replaceMethod cls sel imp types => .replaceMethod (cls.rename offset.pair) sel imp types
  | .createInstance cls => .createInstance (cls.rename offset.pair)
  | .createLiteral slots => .createLiteral (slots.map (·.moved offset))
  | .setSlot id index value => .setSlot (offset.object id) index (value.moved offset)
  | .registerStatics className ids => .registerStatics className (ids.map offset.object)
  | operation => operation

def Operation.movedReply (offset : Offset) :
    (operation : Operation) → operation.Reply → (operation.moved offset).Reply
  | .intern .., reply => reply
  | .internAll _, reply => reply
  | .applyCategory _, reply => reply
  | .unregister _, reply => Except.map (List.map offset.pair) reply
  | .addMethod .., reply => reply
  | .replaceMethod .., reply => reply
  | .createInstance _, reply => Except.map offset.object reply
  | .createLiteral _, reply => offset.object reply
  | .setSlot .., reply => reply
  | .registerStatics .., reply => reply
  | .setForward _, reply => reply
  | .shutdown, reply => reply

theorem Act.matches_perform {offset : Offset} {ground : Ground offset} {session image : Session}
    (hcarries : ground.Carries session image) (operation : Operation) :
    Matches ground.Carries (fun reply reply' => reply' = operation.movedReply offset reply)
      session image operation.perform (operation.moved offset).perform := by
  have bisimulation := SelectorTable.bisimulation_alike
  cases operation with
  | intern name types =>
    exact (matches_intern bisimulation hcarries name types).mono fun _ _ => Eq.symm
  | internAll names => exact (matches_internAll bisimulation hcarries names).mono fun _ _ => Eq.symm
  | applyCategory spec =>
    exact (matches_applyCategory hcarries bisimulation spec).mono fun _ _ => Eq.symm
  | unregister name => exact matches_unregister hcarries name
  | addMethod cls sel imp types =>
    exact (matches_addMethod hcarries bisimulation cls sel imp types).mono fun _ _ => Eq.symm
  | replaceMethod cls sel imp types =>
    exact (matches_replaceMethod hcarries bisimulation cls sel imp types).mono fun _ _ => Eq.symm
  | createInstance cls => exact matches_createInstance hcarries cls
  | createLiteral slots => exact matches_createLiteral hcarries slots
  | setSlot id index value => exact (matches_setSlot hcarries id index value).mono fun _ _ => Eq.symm
  | registerStatics className ids =>
    exact (matches_registerStatics hcarries className ids).mono fun _ _ => Eq.symm
  | setForward handler => exact (matches_setForward hcarries handler).mono fun _ _ => Eq.symm
  | shutdown => exact (matches_shutdown hcarries).mono fun _ _ => Eq.symm

end LateBinding
