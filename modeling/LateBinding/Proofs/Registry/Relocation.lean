import LateBinding.Execution.Run
import LateBinding.Proofs.Registry.Changes
import LateBinding.Proofs.Registry.Renaming

/-!
# Classes in another heap

A *relocation* takes a heap to another one that holds the same pairs under other identities, with
whatever else beside them. All that is done with classes is done in the other heap in the same way:
it gives the same answer, but for the identities, and leads to the relocated classes.
-/

namespace LateBinding

structure Relocation where
  pair : PairId → PairId
  heap : Heap → Heap
  injective : Function.Injective pair
  pair_heap (h : Heap) (id : PairId) : (heap h).pair (pair id) = (h.pair id).rename pair
  modify_heap (h : Heap) (id : PairId) {change other : ClassPair → ClassPair}
    (hchange : ∀ p : ClassPair, other (p.rename pair) = (change p).rename pair) :
    (heap h).modifyPair (pair id) other = heap (h.modifyPair id change)
  add_heap (h : Heap) (id : ClassId) (name : String) (size : UInt32) :
    (heap h).addPair id name size =
      (pair (h.addPair id name size).1, heap (h.addPair id name size).2)
  loosen_heap (h : Heap) (id : PairId) :
    { heap h with loose := pair id :: (heap h).loose } = heap { h with loose := id :: h.loose }

namespace Relocation

variable (relocation : Relocation)

/-- The same classes in the other heap. -/
def classes (classes : Classes) : Classes where
  heap := relocation.heap classes.heap
  registry := classes.registry.rename relocation.pair
  log := classes.log.map (·.rename relocation.pair)

/-! ### Heaps -/

variable (h : Heap)

theorem table?_heap (id : PairId) (kind : ClassKind) :
    (relocation.heap h).table? ⟨relocation.pair id, kind⟩ = h.table? ⟨id, kind⟩ := by
  rw [Heap.table?, Heap.table?, relocation.pair_heap]
  rfl

theorem className_heap (cls : ClassRef) :
    (relocation.heap h).className (cls.rename relocation.pair) = h.className cls :=
  (congrArg ClassPair.name (relocation.pair_heap h cls.pair) :)

theorem instanceSize_heap (cls : ClassRef) :
    (relocation.heap h).instanceSize (cls.rename relocation.pair) = h.instanceSize cls := by
  obtain ⟨id, kind⟩ := cls
  cases kind with
  | plain =>
    exact (congrArg (fun pair : ClassPair => pair.size.toNat) (relocation.pair_heap h id) :)
  | metaclass => rfl

theorem isInitialized_heap (cls : ClassRef) :
    (relocation.heap h).isInitialized (cls.rename relocation.pair) = h.isInitialized cls := by
  obtain ⟨id, kind⟩ := cls
  cases kind with
  | plain => exact (congrArg ClassPair.initialized (relocation.pair_heap h id) :)
  | metaclass => rfl

theorem unlessReleased_heap (cls : ClassRef) :
    (relocation.heap h).unlessReleased (cls.rename relocation.pair) =
      (h.unlessReleased cls).map (·.rename relocation.pair) := by
  have hreleased : ((relocation.heap h).pair (relocation.pair cls.pair)).released =
      (h.pair cls.pair).released :=
    (congrArg ClassPair.released (relocation.pair_heap h cls.pair) :)
  unfold Heap.unlessReleased
  change (if ((relocation.heap h).pair (relocation.pair cls.pair)).released.get cls.kind then _
    else _) = _
  rw [hreleased]
  split <;> rfl

theorem link_heap (id : PairId) : ((relocation.heap h).pair (relocation.pair id)).link =
    (h.pair id).link.map (·.rename relocation.pair) :=
  congrArg ClassPair.link (relocation.pair_heap h id)

theorem superclass?_heap (cls : ClassRef) :
    (relocation.heap h).superclass? (cls.rename relocation.pair) =
      (h.superclass? cls).map (·.rename relocation.pair) := by
  obtain ⟨id, kind⟩ := cls
  unfold Heap.superclass? ClassRef.rename
  dsimp only
  rw [link_heap]
  cases (h.pair id).link with
  | none => rfl
  | some link =>
    cases link with
    | root =>
      cases kind with
      | plain => rfl
      | metaclass => exact relocation.unlessReleased_heap h ⟨id, .plain⟩
    | child parent root => exact relocation.unlessReleased_heap h ⟨parent, kind⟩

theorem isa?_heap (cls : ClassRef) :
    (relocation.heap h).isa? (cls.rename relocation.pair) =
      (h.isa? cls).map (·.rename relocation.pair) := by
  obtain ⟨id, kind⟩ := cls
  unfold Heap.isa? ClassRef.rename
  dsimp only
  rw [link_heap]
  cases kind with
  | plain => exact relocation.unlessReleased_heap h ⟨id, .metaclass⟩
  | metaclass =>
    cases (h.pair id).link with
    | none => rfl
    | some link =>
      cases link with
      | root => exact relocation.unlessReleased_heap h ⟨id, .metaclass⟩
      | child parent root => exact relocation.unlessReleased_heap h ⟨root, .metaclass⟩

theorem markInitialized_heap (id : PairId) :
    (relocation.heap h).markInitialized (relocation.pair id) =
      relocation.heap (h.markInitialized id) :=
  relocation.modify_heap h id fun _ => rfl

theorem uninitializedChain_heap (left : Nat) (cls : ClassRef) :
    (relocation.heap h).uninitializedChain left (cls.rename relocation.pair) =
      (h.uninitializedChain left cls).map (·.rename relocation.pair) := by
  induction left generalizing cls with
  | zero => rfl
  | succ left ih =>
    rw [Heap.uninitializedChain, Heap.uninitializedChain, isInitialized_heap, superclass?_heap]
    split
    · rfl
    · cases h.superclass? cls with
      | none => rfl
      | some above =>
        rw [Option.map_some, Option.elim_some, Option.elim_some, ih, List.map_append]
        rfl

theorem setLink_heap (id : PairId) (link : Link) :
    (relocation.heap h).setLink (relocation.pair id) (link.rename relocation.pair) =
      relocation.heap (h.setLink id link) :=
  relocation.modify_heap h id fun _ => rfl

theorem publish_heap (id : PairId) (kind : ClassKind) (table : DispatchTable) :
    (relocation.heap h).publish ⟨relocation.pair id, kind⟩ table =
      relocation.heap (h.publish ⟨id, kind⟩ table) :=
  relocation.modify_heap h id fun _ => rfl

theorem withdraw_heap (id : PairId) :
    (relocation.heap h).withdraw (relocation.pair id) = relocation.heap (h.withdraw id) := by
  let change (pair : ClassPair) : ClassPair := { pair with tables := .both none }
  have hmodify : (relocation.heap h).modifyPair (relocation.pair id) change =
      relocation.heap (h.modifyPair id change) := relocation.modify_heap h id fun _ => rfl
  change { (relocation.heap h).modifyPair (relocation.pair id) change with
    loose := relocation.pair id :: ((relocation.heap h).modifyPair (relocation.pair id) change).loose } = _
  rw [hmodify]
  exact relocation.loosen_heap _ id

theorem publishTables_heap (registry : Registry) (record : Record) :
    (registry.rename relocation.pair).publishTables (record.rename relocation.pair)
        (relocation.heap h) = (registry.publishTables record h).map relocation.heap := by
  have hlayers : ∀ kind, (record.rename relocation.pair).layers
      (registry.rename relocation.pair).policy kind = record.layers registry.policy kind :=
    fun _ => rfl
  have hpair : (record.rename relocation.pair).pair = relocation.pair record.pair := rfl
  unfold Registry.publishTables
  rw [Registry.parentPair?_rename]
  simp only [hlayers, hpair, publish_heap]
  cases registry.parentPair? record with
  | none =>
    simp only [Option.map_none, Option.bind_none]
    cases DispatchTable.compose none (record.layers registry.policy .plain) with
    | error reason => rfl
    | ok table =>
      simp only [Except.bind, Bind.bind]
      cases DispatchTable.compose (some table) (record.layers registry.policy .metaclass) <;> rfl
  | some parent =>
    simp only [Option.map_some, Option.bind_some, table?_heap]
    cases DispatchTable.compose (h.table? ⟨parent, .plain⟩)
      (record.layers registry.policy .plain) with
    | error reason => rfl
    | ok table =>
      simp only [Except.bind, Bind.bind]
      cases DispatchTable.compose ((h.publish ⟨record.pair, .plain⟩ table).table?
        ⟨parent, .metaclass⟩) (record.layers registry.policy .metaclass) <;> rfl

end Relocation

namespace Linking

variable {α β γ δ : Type} {relocation : Relocation} {start : Classes} {g : α → β} {k : γ → δ}

/-- From the relocated classes, the other change answers like this one, but for the identities, and
leads to the relocated classes. -/
def Tracks (relocation : Relocation) (g : α → β) (start : Classes) (change : Linking α)
    (other : Linking β) : Prop :=
  other (relocation.classes start) =
    (change start).map fun (answer, final) => (g answer, relocation.classes final)

theorem tracks_bind {first : Linking α} {other : Linking β} {next : α → Linking γ}
    {later : β → Linking δ} (hfirst : Tracks relocation g start first other)
    (hnext : ∀ answer middle, Tracks relocation k middle (next answer) (later (g answer))) :
    Tracks relocation k start (first >>= next) (other >>= later) := by
  unfold Tracks at hfirst hnext ⊢
  change (other (relocation.classes start) >>= fun (answer, middle) => later answer middle) =
    (first start >>= fun (answer, middle) => next answer middle).map _
  rw [hfirst]
  cases first start with
  | error reason => rfl
  | ok answered => exact hnext answered.1 answered.2

theorem tracks_get_bind {next : Classes → Linking γ} {later : Classes → Linking δ}
    (hnext : Tracks relocation k start (next start) (later (relocation.classes start))) :
    Tracks relocation k start (get >>= next) (get >>= later) := hnext

theorem tracks_lift_bind {computed : Except Abort α} {other : Except Abort β} {next : α → Linking γ}
    {later : β → Linking δ} (hcomputed : other = computed.map g)
    (hnext : ∀ answer, Tracks relocation k start (next answer) (later (g answer))) :
    Tracks relocation k start (liftM computed >>= next) (liftM other >>= later) := by
  subst hcomputed
  cases computed with
  | error reason => rfl
  | ok answer => exact hnext answer

theorem tracks_onHeap {change other : Heap → Heap}
    (hchange : other (relocation.heap start.heap) = relocation.heap (change start.heap)) :
    Tracks relocation id start (onHeap change) (onHeap other) := by
  change Except.ok ((), Classes.mk (other (relocation.heap start.heap)) _ _) = _
  rw [hchange]
  rfl

theorem tracks_onRegistry {change other : Registry → Registry}
    (hchange : other (start.registry.rename relocation.pair) =
      (change start.registry).rename relocation.pair) :
    Tracks relocation id start (onRegistry change) (onRegistry other) := by
  change Except.ok ((), Classes.mk _ (other (start.registry.rename relocation.pair)) _) = _
  rw [hchange]
  rfl

theorem tracks_report (event : Event) :
    Tracks relocation id start (report event) (report (event.rename relocation.pair)) := by
  change Except.ok ((), Classes.mk _ _ ((start.log.map _).push _)) = _
  rw [← Array.map_push]
  rfl

theorem tracks_forM {list : List α} {step other : α → Linking PUnit}
    (hstep : ∀ item middle, Tracks relocation id middle (step item) (other item)) :
    Tracks relocation id start (list.forM step) (list.forM other) := by
  induction list generalizing start with
  | nil => rfl
  | cons item rest ih => exact tracks_bind (hstep item start) fun _ _ => ih

/-! ### Tables -/

theorem tracks_buildTables (id : ClassId) :
    Tracks relocation (fun done => done) start (buildTables id) (buildTables id) := by
  apply tracks_get_bind
  have hrecord : (relocation.classes start).registry.record? id =
      (start.registry.record? id).map (·.rename relocation.pair) :=
    start.registry.record?_rename relocation.pair id
  rw [hrecord]
  cases start.registry.record? id with
  | none => rfl
  | some record =>
    refine tracks_lift_bind (g := relocation.heap)
      (relocation.publishTables_heap start.heap start.registry record) fun heap => ?_
    rfl

theorem tracks_rebuild (id : ClassId) :
    Tracks relocation (fun done => done) start (rebuild id) (rebuild id) := by
  apply tracks_get_bind
  have hrecord : (relocation.classes start).registry.record? id =
      (start.registry.record? id).map (·.rename relocation.pair) :=
    start.registry.record?_rename relocation.pair id
  have hsubtree : (relocation.classes start).registry.subtree id = start.registry.subtree id :=
    start.registry.subtree_rename relocation.pair id
  dsimp only
  rw [hrecord, hsubtree]
  cases start.registry.record? id with
  | none => rfl
  | some record =>
    change Tracks _ _ _ (if record.isLinked then _ else _) (if record.isLinked then _ else _)
    split
    · exact tracks_bind (tracks_forM fun id _ => tracks_buildTables id) fun _ _ => tracks_report _
    · rfl

/-! ### Registering -/

theorem record?_classes (id : ClassId) :
    (relocation.classes start).registry.record? id =
      (start.registry.record? id).map (·.rename relocation.pair) :=
  start.registry.record?_rename relocation.pair id

theorem tracks_linkOne (id : ClassId) :
    Tracks relocation (fun name => name) start (linkOne id) (linkOne id) := by
  apply tracks_get_bind
  rw [record?_classes]
  cases start.registry.record? id with
  | none => rfl
  | some record =>
    change Tracks _ _ _ (if record.isLinked then _ else _) (if record.isLinked then _ else _)
    split
    · rfl
    · refine tracks_lift_bind (start.registry.superclassToLink_rename relocation.pair record) ?_
      intro parent
      refine tracks_bind (tracks_onHeap ?_) fun _ _ => tracks_bind (tracks_onRegistry ?_) fun _ _ =>
        tracks_bind (tracks_buildTables id) fun _ _ => tracks_bind (tracks_report _) fun _ _ => rfl
      · cases parent with
        | none => exact relocation.setLink_heap start.heap record.pair .root
        | some found =>
          have hroot : ((relocation.heap start.heap).pair (relocation.pair found.2.pair)).rootOf
              (relocation.pair found.2.pair) =
              relocation.pair ((start.heap.pair found.2.pair).rootOf found.2.pair) := by
            rw [relocation.pair_heap, ClassPair.rootOf_rename]
          refine Eq.trans ?_ (relocation.setLink_heap start.heap record.pair
            (.child found.2.pair ((start.heap.pair found.2.pair).rootOf found.2.pair)))
          exact congrArg (fun root => (relocation.heap start.heap).setLink
            (relocation.pair record.pair) (.child (relocation.pair found.2.pair) root)) hroot
      · refine Eq.trans ?_ (Registry.markLinked_rename relocation.pair _ id (parent.map (·.1)))
        cases parent <;> rfl

theorem tracks_linkAll (left : Nat) (queue : List ClassId) :
    Tracks relocation (fun linked => linked) start (linkAll left queue) (linkAll left queue) := by
  induction left generalizing queue start with
  | zero => rfl
  | succ left ih =>
    cases queue with
    | nil => rfl
    | cons id queue =>
      refine tracks_bind (tracks_linkOne id) fun name _ => ?_
      cases name with
      | none => exact ih queue
      | some name =>
        refine tracks_get_bind (tracks_bind (tracks_onRegistry rfl) fun _ _ => ?_)
        exact tracks_bind (ih _) fun _ _ => rfl

theorem tracks_link (id : ClassId) :
    Tracks relocation (fun linked => linked) start (link id) (link id) := by
  apply tracks_get_bind
  have hsize : (relocation.classes start).registry.records.size = start.registry.records.size :=
    Array.size_map
  rw [hsize]
  exact tracks_linkAll _ _

theorem nextId_classes : (relocation.classes start).registry.nextId = start.registry.nextId :=
  congrArg ClassId.mk Array.size_map

theorem newRecord_classes (definition : ClassDefinition) :
    (relocation.classes start).newRecord definition =
      (start.newRecord definition).rename relocation.pair := by
  have hadd := relocation.add_heap start.heap start.registry.nextId definition.name definition.size
  rw [Classes.newRecord, nextId_classes]
  change Record.mk ((relocation.heap start.heap).addPair _ _ _).1 _ _ _ _ _ _ _ = _
  rw [hadd]
  rfl

theorem entered_classes (definition : ClassDefinition) :
    (relocation.classes start).entered definition =
      relocation.classes (start.entered definition) := by
  have hadd := relocation.add_heap start.heap start.registry.nextId definition.name definition.size
  have hrecords := start.registry.addRecord_rename relocation.pair (start.newRecord definition)
  rw [Classes.entered, newRecord_classes, nextId_classes]
  change Classes.mk ((relocation.heap start.heap).addPair _ _ _).2
    ((start.registry.rename relocation.pair).addRecord _) _ = _
  rw [hadd, hrecords]
  rfl

theorem tracks_enter (definition : ClassDefinition) :
    Tracks relocation (fun entered => (relocation.pair entered.1, entered.2)) start
      (enter definition) (enter definition) := by
  have henter : ∀ classes : Classes, enter definition classes =
      .ok (((classes.newRecord definition).pair, classes.registry.nextId),
        classes.entered definition) := fun _ => rfl
  rw [Tracks, henter, henter, newRecord_classes, nextId_classes, entered_classes]
  rfl

theorem tracks_register (definition : ClassDefinition) :
    Tracks relocation (fun answer => (relocation.pair answer.1, answer.2)) start
      (register definition) (register definition) := by
  refine tracks_bind (tracks_enter definition) fun entered middle => ?_
  apply tracks_get_bind
  have hready : (relocation.classes middle).registry.isReady definition.superclass =
      middle.registry.isReady definition.superclass := by
    have hstate := fun name => middle.registry.stateOf?_rename relocation.pair name
    simp only [Registry.isReady, Relocation.classes, hstate]
  rw [hready]
  split
  · exact tracks_bind (tracks_link _) fun _ _ => rfl
  · cases definition.superclass with
    | none => rfl
    | some awaited =>
      exact tracks_bind (tracks_report _) fun _ _ =>
        tracks_bind (tracks_onRegistry rfl) fun _ _ => rfl

/-! ### Changing methods -/

theorem tracks_applyCategory (category : CategoryDefinition) :
    Tracks relocation (fun status => status) start (applyCategory category)
      (applyCategory category) := by
  apply tracks_get_bind
  have hid : (relocation.classes start).registry.idOf? category.className =
      start.registry.idOf? category.className := rfl
  rw [hid]
  cases start.registry.idOf? category.className with
  | none =>
    exact tracks_bind (tracks_report _) fun _ _ =>
      tracks_bind (tracks_onRegistry rfl) fun _ _ => rfl
  | some id =>
    refine tracks_bind (tracks_report _) fun _ _ => tracks_bind (tracks_onRegistry ?_) fun _ _ =>
      tracks_bind (tracks_rebuild id) fun _ _ => rfl
    exact Registry.modifyRecord_rename _ _ _ fun _ => rfl

theorem tracks_addMethod (id : ClassId) (kind : ClassKind) (definition : MethodDefinition) :
    Tracks relocation (fun added => added) start (addMethod id kind definition)
      (addMethod id kind definition) := by
  apply tracks_get_bind
  rw [record?_classes]
  cases start.registry.record? id with
  | none => rfl
  | some record =>
    change Tracks _ _ _ (if record.defines kind definition.sel then _ else _)
      (if record.defines kind definition.sel then _ else _)
    split
    · rfl
    · let changed : Record := { record with
        methods := record.methods.set kind (record.methods.get kind ++ [definition]) }
      exact tracks_bind (tracks_onRegistry (start.registry.setRecord_rename _ id (some changed)))
        fun _ _ => tracks_bind (tracks_rebuild id) fun _ _ => rfl

theorem tracks_replaceMethod (id : ClassId) (kind : ClassKind) (definition : MethodDefinition) :
    Tracks relocation (fun old => old) start (replaceMethod id kind definition)
      (replaceMethod id kind definition) := by
  apply tracks_get_bind
  dsimp only
  rw [record?_classes]
  cases start.registry.record? id with
  | none => rfl
  | some record =>
    have hreplaced := record.replaceMethod_rename relocation.pair start.registry.policy kind definition
    have hpolicy : (relocation.classes start).registry.policy = start.registry.policy := rfl
    simp only [Option.map_some, hpolicy, hreplaced]
    refine tracks_bind (tracks_onRegistry ?_) fun _ _ =>
      tracks_bind (tracks_rebuild id) fun _ _ => rfl
    exact start.registry.setRecord_rename _ id (some _)

/-! ### Removing -/

theorem tracks_removeOne (id : ClassId) (record : Record) :
    Tracks relocation (fun done => done) start (removeOne id record)
      (removeOne id (record.rename relocation.pair)) :=
  tracks_bind (tracks_onRegistry (Registry.takeOut_rename _ _ _ _)) fun _ _ =>
    tracks_bind (tracks_onHeap (relocation.withdraw_heap _ _)) fun _ _ => tracks_report _

theorem tracks_removeAll (left : Nat) (stack : List ClassId) :
    Tracks relocation (List.map relocation.pair) start (removeAll left stack)
      (removeAll left stack) := by
  induction left generalizing stack start with
  | zero => rfl
  | succ left ih =>
    cases stack with
    | nil => rfl
    | cons head tail =>
      apply tracks_get_bind
      have hregistered : ∀ id, (relocation.classes start).registry.isRegistered id =
          start.registry.isRegistered id := by
        intro id
        rw [Registry.isRegistered, record?_classes, Option.isSome_map]
        rfl
      simp only [hregistered]
      cases (head :: tail).dropWhile fun id => !start.registry.isRegistered id with
      | nil => rfl
      | cons id rest =>
        dsimp only
        rw [record?_classes]
        cases start.registry.record? id with
        | none => rfl
        | some record =>
          exact tracks_bind (tracks_removeOne id record) fun _ _ =>
            tracks_bind (ih _) fun _ _ => rfl

theorem tracks_unregister (id : ClassId) :
    Tracks relocation (List.map relocation.pair) start (unregister id) (unregister id) := by
  apply tracks_get_bind
  have hsize : (relocation.classes start).registry.records.size = start.registry.records.size :=
    Array.size_map
  rw [hsize]
  exact tracks_removeAll _ _

theorem tracks_clear : Tracks relocation (fun done => done) start clear clear := by
  apply tracks_get_bind
  refine tracks_bind (tracks_onHeap ?_) fun _ _ => tracks_onRegistry ?_
  · have hclasses : (relocation.classes start).registry.classes =
        start.registry.classes.map (·.rename relocation.pair) := Registry.classes_rename _ _
    rw [hclasses, List.foldl_map]
    exact List.foldl_hom relocation.heap fun heap record => relocation.withdraw_heap heap record.pair
  · exact (Registry.rename_empty _ _).symm

end Linking

end LateBinding
