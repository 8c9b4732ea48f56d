import LateBinding.Proofs.Registry.Changes

/-!
# What a change leaves alone

Linking a class gives it a place and tables. What a class was declared with and has taken over stays
as it was, and so do the objects. Changes of definitions leave alone who is linked.
-/

namespace LateBinding

/-- All of a record that linking leaves alone. -/
structure Content where
  pair : PairId
  name : String
  superclassName : Option String
  methods : Sided (List MethodDefinition)
  protocols : List Protocol
  categories : List CategoryDefinition

def Record.content (record : Record) : Content :=
  ⟨record.pair, record.name, record.superclassName, record.methods, record.protocols,
    record.categories⟩

namespace Registry

variable {registry : Registry}

def content? (registry : Registry) (id : ClassId) : Option Content :=
  (registry.record? id).map Record.content

theorem content?_of_record {id : ClassId} {record : Record}
    (hrecord : registry.record? id = some record) :
    registry.content? id = some record.content := by
  rw [content?, hrecord, Option.map_some]

def IsLinked (registry : Registry) (id : ClassId) : Prop :=
  ∃ record, registry.record? id = some record ∧ record.state ≠ .pending

theorem content?_markLinked {id : ClassId} {superclass : Option ClassId}
    (hother : superclass ≠ some id) :
    (registry.markLinked id superclass).content? = registry.content? := by
  funext other
  rw [content?, registry.record?_markLinked hother]
  split
  · rw [Option.map_map]
    rfl
  · split
    · rw [Option.map_map]
      rfl
    · rfl

theorem isLinked_markLinked {id : ClassId} {superclass : Option ClassId}
    (hother : superclass ≠ some id) {record : Record} (hrecord : registry.record? id = some record)
    (other : ClassId) : (registry.markLinked id superclass).IsLinked other ↔
      registry.IsLinked other ∨ other = id := by
  rw [IsLinked, registry.record?_markLinked hother]
  by_cases hid : id = other
  · subst hid
    simp [hrecord]
  · rw [if_neg hid]
    have hne : ¬ other = id := Ne.symm hid
    rw [or_iff_left hne, IsLinked]
    split
    · cases registry.record? other <;> simp
    · rfl

theorem classForName?_eq_some_iff (name : String) (cls : ClassRef) :
    registry.classForName? name = some cls ↔ ∃ id content, registry.idOf? name = some id ∧
      registry.IsLinked id ∧ registry.content? id = some content ∧ cls = ⟨content.pair, .plain⟩ := by
  rw [classForName?, Option.bind_eq_some_iff]
  constructor
  · intro h
    obtain ⟨record, hrecord, hcls⟩ := h
    obtain ⟨id, hid, hrecord⟩ := Option.bind_eq_some_iff.mp hrecord
    split at hcls
    · next hlinked =>
      cases hcls
      exact ⟨id, record.content, hid, ⟨record, hrecord, of_decide_eq_true hlinked⟩,
        content?_of_record hrecord, rfl⟩
    · cases hcls
  · intro h
    obtain ⟨id, content, hid, ⟨record, hrecord, hlinked⟩, hcontent, rfl⟩ := h
    cases (content?_of_record hrecord).symm.trans hcontent
    refine ⟨record, Option.bind_eq_some_iff.mpr ⟨id, hid, hrecord⟩, ?_⟩
    have hisLinked : record.isLinked = true := decide_eq_true hlinked
    rw [if_pos hisLinked]
    rfl

theorem classForName?_congr {changed : Registry} (hid : changed.idOf? = registry.idOf?)
    (hlinked : ∀ id, changed.IsLinked id ↔ registry.IsLinked id)
    (hpair : ∀ id, (changed.content? id).map (·.pair) = (registry.content? id).map (·.pair)) :
    changed.classForName? = registry.classForName? := by
  funext name
  apply Option.ext
  intro cls
  rw [classForName?_eq_some_iff, classForName?_eq_some_iff, hid]
  have hcontent : ∀ id, (∃ content, changed.content? id = some content ∧
      cls = ⟨content.pair, .plain⟩) ↔ ∃ content, registry.content? id = some content ∧
      cls = ⟨content.pair, .plain⟩ := by
    intro id
    have hsome : ∀ kept : Option Content, (∃ content, kept = some content ∧
        cls = ⟨content.pair, .plain⟩) ↔ ∃ pair, kept.map (·.pair) = some pair ∧
        cls = ⟨pair, .plain⟩ := by
      intro kept
      cases kept <;> simp
    rw [hsome, hsome, hpair]
  simp only [exists_and_left, hlinked, hcontent]

end Registry

/-- The objects are the same, and so are the removed classes that are still held. -/
structure Heap.SameObjects (heap other : Heap) : Prop where
  objects : other.objects = heap.objects
  loose : other.loose = heap.loose

theorem Heap.SameObjects.trans {heap other third : Heap} (first : heap.SameObjects other)
    (second : other.SameObjects third) : heap.SameObjects third :=
  ⟨second.objects.trans first.objects, second.loose.trans first.loose⟩

namespace Classes

variable {start final : Classes}

open Registry

/-! ### Linking -/

theorem Links.sameObjects {linked : Classes} {id : ClassId} {record : Record}
    {superclass : Option ClassId} (links : start.Links id record superclass linked) :
    start.heap.SameObjects linked.heap := by
  obtain ⟨built, hbuilt, rfl⟩ := links.built
  obtain ⟨plain, metaclass, hheap, -⟩ := hbuilt.heap
  dsimp only
  rw [hheap]
  exact ⟨rfl, rfl⟩

theorem Cascade.sameObjects {queue order : List ClassId}
    (cascade : start.Cascade queue order final) : start.heap.SameObjects final.heap := by
  induction cascade with
  | done => exact ⟨rfl, rfl⟩
  | link links _ ih => exact links.sameObjects.trans ih

theorem Cascade.policy_eq {queue order : List ClassId}
    (cascade : start.Cascade queue order final) :
    final.registry.policy = start.registry.policy := by
  induction cascade with
  | done => rfl
  | link links _ ih =>
    rw [ih, released, releaseWaiters, links.registry_eq]
    exact policy_markLinked _ _ _

theorem Cascade.idOf?_eq {queue order : List ClassId}
    (cascade : start.Cascade queue order final) :
    final.registry.idOf? = start.registry.idOf? := by
  induction cascade with
  | done => rfl
  | link links _ ih =>
    rw [ih, released, idOf?_releaseWaiters, links.registry_eq]
    exact idOf?_markLinked _ _ _

theorem Cascade.heldBack_eq {queue order : List ClassId}
    (cascade : start.Cascade queue order final) :
    final.registry.heldBack = start.registry.heldBack := by
  induction cascade with
  | done => rfl
  | link links _ ih =>
    rw [ih, released, releaseWaiters, links.registry_eq]
    exact heldBack_markLinked _ _ _

theorem Cascade.content?_eq {queue order : List ClassId}
    (cascade : start.Cascade queue order final) :
    final.registry.content? = start.registry.content? := by
  induction cascade with
  | done => rfl
  | link links _ ih =>
    rw [ih, released, releaseWaiters, links.registry_eq]
    exact content?_markLinked links.ne

theorem Cascade.isLinked_iff {queue order : List ClassId}
    (cascade : start.Cascade queue order final) (id : ClassId) :
    final.registry.IsLinked id ↔ start.registry.IsLinked id ∨ id ∈ order := by
  induction cascade with
  | done => simp
  | @link start linked final other queue order record superclass links _ ih =>
    have hlinked : (linked.released record.name).registry.IsLinked id ↔
        (start.registry.markLinked other superclass).IsLinked id := by
      rw [released, IsLinked, record?_releaseWaiters, links.registry_eq]
      rfl
    rw [ih, hlinked, isLinked_markLinked links.ne links.registered, List.mem_cons, or_assoc]

theorem Cascade.links_once {queue order : List ClassId}
    (cascade : start.Cascade queue order final) :
    order.Nodup ∧ ∀ id ∈ order, ¬ start.registry.IsLinked id := by
  induction cascade with
  | done => exact ⟨List.nodup_nil, fun id hid => absurd hid List.not_mem_nil⟩
  | @link start linked final other queue order record superclass links _ ih =>
    have hlinked : ∀ id, (linked.released record.name).registry.IsLinked id ↔
        start.registry.IsLinked id ∨ id = other := by
      intro id
      rw [← isLinked_markLinked links.ne links.registered, released, IsLinked,
        record?_releaseWaiters, links.registry_eq]
      rfl
    obtain ⟨hnodup, hpending⟩ := ih
    constructor
    · rw [List.nodup_cons]
      exact ⟨fun hmem => hpending other hmem ((hlinked other).mpr (.inr rfl)), hnodup⟩
    · intro id hid hbefore
      rcases List.mem_cons.mp hid with rfl | hmem
      · obtain ⟨own, hown, hstate⟩ := hbefore
        cases links.registered.symm.trans hown
        exact hstate links.pending
      · exact hpending id hmem ((hlinked id).mpr (.inl hbefore))

/-! ### Altering definitions -/

/-- Building tables changes nothing in a registry but the number of tables built. -/
theorem BuildsAll.registry_eq {ids : List ClassId} (builds : start.BuildsAll ids final) :
    final.registry = { start.registry with builds := final.registry.builds } := by
  induction builds with
  | done => rfl
  | skip _ _ ih => exact ih
  | build built _ ih =>
    rw [ih, built.registry]

theorem Rebuilds.registry_eq {id : ClassId} {record : Record}
    (rebuilds : start.Rebuilds id record final) :
    final.registry = { start.registry with builds := final.registry.builds } := by
  cases rebuilds with
  | pending => rfl
  | linked _ builds => exact builds.registry_eq

section

variable {id : ClassId} {old new : Record} (alters : start.Alters id old new final)

include alters

theorem Alters.record?_eq (other : ClassId) : final.registry.record? other =
    if id = other then some new else start.registry.record? other := by
  rw [alters.rebuilds.registry_eq]
  exact start.registry.record?_setRecord alters.registered (some new) other

theorem Alters.idOf?_eq : final.registry.idOf? = start.registry.idOf? := by
  rw [alters.rebuilds.registry_eq]
  rfl

theorem Alters.heldBack_eq : final.registry.heldBack = start.registry.heldBack := by
  rw [alters.rebuilds.registry_eq]
  rfl

theorem Alters.content?_eq (other : ClassId) : final.registry.content? other =
    if id = other then some new.content else start.registry.content? other := by
  rw [content?, alters.record?_eq]
  split <;> rfl

theorem Alters.isLinked_iff (other : ClassId) :
    final.registry.IsLinked other ↔ start.registry.IsLinked other := by
  have hstate : new.state = old.state := congrArg Standing.state alters.standing
  rw [IsLinked, alters.record?_eq, IsLinked]
  by_cases hid : id = other
  · subst hid
    simp [alters.registered, hstate]
  · rw [if_neg hid]

end

theorem BuildsAll.sameObjects {ids : List ClassId} (builds : start.BuildsAll ids final) :
    start.heap.SameObjects final.heap := by
  induction builds with
  | done => exact ⟨rfl, rfl⟩
  | skip _ _ ih => exact ih
  | build built _ ih =>
    obtain ⟨plain, metaclass, hheap, -⟩ := built.heap
    refine .trans ?_ ih
    rw [hheap]
    exact ⟨rfl, rfl⟩

theorem Alters.sameObjects {id : ClassId} {old new : Record} (alters : start.Alters id old new final) :
    start.heap.SameObjects final.heap := by
  obtain ⟨-, -, -, rebuilds⟩ := alters
  cases rebuilds with
  | pending => exact ⟨rfl, rfl⟩
  | linked _ builds => exact builds.sameObjects

theorem Alters.classForName?_eq {id : ClassId} {old new : Record}
    (alters : start.Alters id old new final) :
    final.registry.classForName? = start.registry.classForName? := by
  apply classForName?_congr alters.idOf?_eq alters.isLinked_iff
  intro other
  rw [alters.content?_eq]
  split
  · next heq =>
    subst heq
    have hpair : new.content.pair = old.content.pair := alters.pair
    rw [content?, alters.registered, Option.map_some, Option.map_some, Option.map_some, hpair]
  · rfl

theorem Applies.isLinked_iff {category : CategoryDefinition} {status : CategoryStatus}
    (applies : start.Applies category status final) (id : ClassId) :
    final.registry.IsLinked id ↔ start.registry.IsLinked id := by
  cases applies with
  | waits => exact Iff.rfl
  | merges _ alters => exact alters.isLinked_iff id

theorem Applies.classForName?_eq {category : CategoryDefinition} {status : CategoryStatus}
    (applies : start.Applies category status final) :
    final.registry.classForName? = start.registry.classForName? := by
  cases applies with
  | waits => rfl
  | merges _ alters => exact alters.classForName?_eq

theorem Applies.sameObjects {category : CategoryDefinition} {status : CategoryStatus}
    (applies : start.Applies category status final) : start.heap.SameObjects final.heap := by
  cases applies with
  | waits => exact ⟨rfl, rfl⟩
  | merges _ alters => exact alters.sameObjects

/-! ### Entering and removing classes -/

theorem Registers.content?_eq {definition : ClassDefinition} {order : List ClassId}
    (registers : start.Registers definition order final) (id : ClassId) :
    final.registry.content? id =
      if start.registry.nextId = id then some (start.newRecord definition).content
      else start.registry.content? id := by
  have hentered : (start.entered definition).registry.content? id =
      if start.registry.nextId = id then some (start.newRecord definition).content
      else start.registry.content? id := by
    rw [content?, entered, record?_addRecord]
    split <;> rfl
  rw [← hentered]
  cases registers with
  | links _ cascade => rw [cascade.content?_eq]
  | waits => rfl

theorem Registers.heldBack_eq {definition : ClassDefinition} {order : List ClassId}
    (registers : start.Registers definition order final) (name : String) :
    final.registry.heldBack[name]? =
      if definition.name = name then none else start.registry.heldBack[name]? := by
  have hentered : (start.entered definition).registry.heldBack[name]? =
      if definition.name = name then none else start.registry.heldBack[name]? :=
    heldBack_addRecord _ _ _
  rw [← hentered]
  cases registers with
  | links _ cascade => rw [cascade.heldBack_eq]
  | waits => rfl

theorem Registers.idOf?_eq {definition : ClassDefinition} {order : List ClassId}
    (registers : start.Registers definition order final) (name : String) :
    final.registry.idOf? name =
      if definition.name = name then some start.registry.nextId
      else start.registry.idOf? name := by
  have hentered : (start.entered definition).registry.idOf? name =
      if definition.name = name then some start.registry.nextId
      else start.registry.idOf? name := idOf?_addRecord _ _ _
  rw [← hentered]
  cases registers with
  | links _ cascade => rw [cascade.idOf?_eq]
  | waits => rfl

theorem Registers.isLinked_iff {definition : ClassDefinition} {order : List ClassId}
    (registers : start.Registers definition order final) (id : ClassId) :
    final.registry.IsLinked id ↔ start.registry.IsLinked id ∨ id ∈ order := by
  have hentered : (start.entered definition).registry.IsLinked id ↔ start.registry.IsLinked id := by
    rw [IsLinked, entered, record?_addRecord, IsLinked]
    by_cases hnew : start.registry.nextId = id
    · subst hnew
      simp [newRecord]
    · rw [if_neg hnew]
  cases registers with
  | links _ cascade => rw [cascade.isLinked_iff, hentered]
  | waits => exact hentered.trans (or_iff_left List.not_mem_nil).symm

theorem Registers.links_once {definition : ClassDefinition} {order : List ClassId}
    (registers : start.Registers definition order final) :
    order.Nodup ∧ ∀ id ∈ order, ¬ start.registry.IsLinked id := by
  cases registers with
  | links _ cascade =>
    refine ⟨cascade.links_once.1, ?_⟩
    intro id hid hbefore
    obtain ⟨record, hrecord, hlinked⟩ := hbefore
    apply cascade.links_once.2 id hid
    refine ⟨record, ?_, hlinked⟩
    rw [entered, record?_addRecord, if_neg, hrecord]
    intro heq
    subst heq
    rw [record?_nextId] at hrecord
    cases hrecord
  | waits => exact ⟨List.nodup_nil, fun id hid => absurd hid List.not_mem_nil⟩

theorem Registers.sameObjects {definition : ClassDefinition} {order : List ClassId}
    (registers : start.Registers definition order final) :
    start.heap.SameObjects final.heap := by
  have hentered : start.heap.SameObjects (start.entered definition).heap := ⟨rfl, rfl⟩
  cases registers with
  | links _ cascade => exact hentered.trans cascade.sameObjects
  | waits => exact hentered

theorem Removal.policy_eq {stack : List ClassId} {pairs : List PairId}
    (removal : start.Removal stack pairs final) :
    final.registry.policy = start.registry.policy := by
  induction removal with
  | done => rfl
  | skip _ _ ih => exact ih
  | remove _ _ ih => exact ih.trans (policy_takeOut _ _ _)

end Classes

end LateBinding
