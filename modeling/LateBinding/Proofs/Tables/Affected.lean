import LateBinding.Proofs.Tables.Linked
import LateBinding.Proofs.Tables.Rebuilding

/-!
# Which tables are built anew

When the definitions of a linked class change, the tables of that class are built anew and those of
all linked classes below it, each class once and after the one right above it, and no others. The
walk down has no record of where it has been; it comes to an end, and nowhere twice, because the
linked classes form trees. Nothing but linking builds tables besides.
-/

namespace LateBinding

open Registry

namespace Registry

variable {registry changed : Registry} {queue order visited : List ClassId} {id top : ClassId}

/-! ### The way down -/

theorem Explores.subset (explores : registry.Explores queue order) : queue ⊆ order := by
  induction explores with
  | done => exact List.Subset.refl _
  | visit _ ih =>
    intro other hother
    rcases List.mem_cons.mp hother with rfl | hqueue
    · exact List.mem_cons_self
    · exact List.mem_cons_of_mem _ (ih (List.mem_append_left _ hqueue))

/-- Along with a class those right below it are visited. -/
theorem Explores.closed (explores : registry.Explores queue order) :
    ∀ id ∈ order, ∀ child ∈ registry.children id, child ∈ order := by
  induction explores with
  | done => exact fun id hid => absurd hid List.not_mem_nil
  | visit rest ih =>
    intro id hid child hchild
    apply List.mem_cons_of_mem
    rcases List.mem_cons.mp hid with rfl | hrest
    · exact rest.subset (List.mem_append_right _ hchild)
    · exact ih id hrest child hchild

/-- A class that is visited after one right below it has the latter visited once more. -/
theorem Explores.sorted (explores : registry.Explores queue order) (nodup : order.Nodup) :
    order.Pairwise fun earlier later => earlier ∉ registry.children later := by
  induction explores with
  | done => exact .nil
  | visit rest ih =>
    obtain ⟨hnew, hrest⟩ := List.nodup_cons.mp nodup
    refine List.pairwise_cons.mpr ⟨?_, ih hrest⟩
    intro later hlater hchild
    exact hnew (rest.closed later hlater _ hchild)

theorem Explores.exploring {rank : ClassId → Nat} (explores : registry.Explores queue order)
    (hierarchy : registry.Hierarchy)
    (hrank : ∀ child parent, registry.IsBelow child parent → rank parent < rank child)
    (exploring : registry.Exploring rank top visited queue) :
    registry.Exploring rank top (visited ++ order) [] := by
  induction explores generalizing visited with
  | done => rwa [List.append_nil]
  | visit _ ih =>
    have hvisited := ih (exploring.visit hierarchy hrank)
    rwa [List.append_assoc, List.singleton_append] at hvisited

/-- The linked classes from a class downward, each once and after the one right above it. A queue of
which the class is the first comes to its end after them. -/
structure Downward (registry : Registry) (id : ClassId) (order : List ClassId) : Prop where
  explores : registry.Explores [id] order
  once : order.Nodup
  mem_iff : ∀ other, other ∈ order ↔ Relation.ReflTransGen registry.IsBelow other id
  linked : ∀ other ∈ order, registry.IsLinked other
  superclassesFirst : registry.SuperclassesFirst order

theorem Hierarchy.downward (hierarchy : registry.Hierarchy) (linked : registry.IsLinked id) :
    registry.Downward id (registry.subtree id) := by
  obtain ⟨record, hrecord, hlinked⟩ := linked
  obtain ⟨rank, hrank⟩ := hierarchy.ranked
  have explores := hierarchy.explores_subtree hrecord
  have exploring := explores.exploring hierarchy hrank (.start rank hrecord)
  rw [List.nil_append] at exploring
  have hnodup := exploring.nodup
  rw [List.append_nil] at hnodup
  have hregistered : ∀ other ∈ registry.subtree id, ∃ own, registry.record? other = some own :=
    fun other hother => exploring.registered other (List.mem_append_left _ hother)
  have hbelow : ∀ other ∈ registry.subtree id, Relation.ReflTransGen registry.IsBelow other id := by
    refine @Explores.all _ _ _ explores (Relation.ReflTransGen registry.IsBelow · id) ?_ ?_
    · intro other hother
      rw [List.mem_singleton.mp hother]
    · intro above habove child hchild
      exact .head (hierarchy.isBelow_of_mem_children hchild) habove
  refine ⟨explores, hnodup, fun other => ⟨hbelow other, ?_⟩, ?_, ?_⟩
  · intro hpath
    induction hpath using Relation.ReflTransGen.head_induction_on with
    | refl => exact explores.subset List.mem_cons_self
    | @head lower upper hstep _ ih =>
      exact explores.closed upper ih lower
        ((hierarchy.mem_children lower (hregistered upper ih)).mpr hstep)
  · intro other hother
    obtain ⟨own, hown⟩ := hregistered other hother
    exact ⟨own, hown, hierarchy.linked_of_mem_subtree hrecord hlinked other hother own hown⟩
  · apply hierarchy.superclassesFirst
    refine (explores.sorted hnodup).imp_of_mem ?_
    intro earlier later _ hlater hnot hbelow
    exact hnot ((hierarchy.mem_children earlier (hregistered later hlater)).mpr hbelow)

/-- Whose tables are built when the definitions of a class change. -/
def affected (registry : Registry) (id : ClassId) : List ClassId :=
  if (registry.record? id).any (·.isLinked) then registry.subtree id else []

def affectedByName (registry : Registry) (name : String) : List ClassId :=
  (registry.idOf? name).elim [] registry.affected

theorem isLinked_iff_any :
    registry.IsLinked id ↔ (registry.record? id).any (·.isLinked) = true := by
  cases hrecord : registry.record? id <;> simp [IsLinked, hrecord, Record.isLinked]

theorem affected_eq_subtree (linked : registry.IsLinked id) :
    registry.affected id = registry.subtree id := if_pos (isLinked_iff_any.mp linked)

theorem affected_of_unlinked (unlinked : ¬ registry.IsLinked id) : registry.affected id = [] :=
  if_neg fun hany => unlinked (isLinked_iff_any.mpr hany)

theorem affectedByName_congr (hid : changed.idOf? = registry.idOf?)
    (hlinked : ∀ id, changed.IsLinked id ↔ registry.IsLinked id)
    (hsubtree : changed.subtree = registry.subtree) :
    changed.affectedByName = registry.affectedByName := by
  funext name
  rw [affectedByName, affectedByName, hid]
  cases registry.idOf? name with
  | none => rfl
  | some id =>
    change changed.affected id = registry.affected id
    by_cases linked : registry.IsLinked id
    · rw [affected_eq_subtree linked, affected_eq_subtree ((hlinked id).mpr linked), hsubtree]
    · rw [affected_of_unlinked linked,
        affected_of_unlinked fun h => linked ((hlinked id).mp h)]

theorem subtree_of_records (hrecords : changed.records = registry.records) :
    changed.subtree = registry.subtree := by
  have hrecord : changed.record? = registry.record? := by
    funext id
    rw [record?, record?, hrecords]
  funext id
  exact subtree_congr (children_congr hrecord) (congrArg Array.size hrecords) id

theorem subtree_setRecord {old new : Record} (hrecord : registry.record? id = some old)
    (hstanding : new.standing = old.standing) :
    (registry.setRecord id (some new)).subtree = registry.subtree := by
  funext other
  refine subtree_congr ?_ Array.size_setIfInBounds other
  funext other
  rw [children, registry.record?_setRecord hrecord, children]
  split
  · next heq =>
    subst heq
    rw [hrecord]
    exact congrArg Standing.subclasses hstanding
  · rfl

end Registry

namespace Classes

variable {policy : CategoryConflictPolicy} {start final : Classes} {id : ClassId}
  {queue order ids : List ClassId} {old new : Record}

/-! ### How many tables are built -/

theorem Builds.builds_eq {record : Record} (builds : start.Builds id record final) :
    final.registry.builds = start.registry.builds + 2 := by
  rw [builds.registry]

theorem BuildsAll.builds_eq (builds : start.BuildsAll ids final)
    (hregistered : ∀ id ∈ ids, ∃ record, start.registry.record? id = some record) :
    final.registry.builds = start.registry.builds + 2 * ids.length := by
  induction builds with
  | done => rfl
  | skip gone =>
    obtain ⟨record, hrecord⟩ := hregistered _ List.mem_cons_self
    cases gone.symm.trans hrecord
  | build built _ ih =>
    have hrest := ih fun other hother => by
      rw [built.record?_eq]
      exact hregistered other (List.mem_cons_of_mem _ hother)
    rw [hrest, built.builds_eq, List.length_cons]
    omega

theorem Links.builds_eq {record : Record} {superclass : Option ClassId}
    (links : start.Links id record superclass final) :
    final.registry.builds = start.registry.builds + 2 := by
  rw [links.registry_eq]
  exact congrArg (· + 2) (start.registry.builds_markLinked id superclass)

theorem Cascade.builds_eq (cascade : start.Cascade queue order final) :
    final.registry.builds = start.registry.builds + 2 * order.length := by
  induction cascade with
  | done => rfl
  | @link start linked final id queue order record superclass links _ ih =>
    have hreleased : (linked.released record.name).registry.builds = linked.registry.builds := rfl
    rw [ih, hreleased, links.builds_eq, List.length_cons]
    omega

theorem Registers.builds_eq {definition : ClassDefinition}
    (registers : start.Registers definition order final) :
    final.registry.builds = start.registry.builds + 2 * order.length := by
  cases registers with
  | links _ cascade => exact cascade.builds_eq
  | waits => rfl

theorem Removal.builds_eq {stack : List ClassId} {pairs : List PairId}
    (removal : start.Removal stack pairs final) :
    final.registry.builds = start.registry.builds := by
  induction removal with
  | done => rfl
  | skip _ _ ih => exact ih
  | remove _ _ ih => exact ih.trans (builds_takeOut _ _ _)

/-! ### What is built when a definition changes -/

theorem BuildsAll.table?_eq (builds : start.BuildsAll ids final) {pair : PairId}
    (hpair : ∀ id ∈ ids, ∀ record, start.registry.record? id = some record → record.pair ≠ pair)
    (kind : ClassKind) : final.heap.table? ⟨pair, kind⟩ = start.heap.table? ⟨pair, kind⟩ := by
  induction builds with
  | done => rfl
  | skip _ _ ih => exact ih fun id hid => hpair id (List.mem_cons_of_mem _ hid)
  | @build start built final id rest record builds _ ih =>
    have hrest := ih fun other hother lower hlower => by
      rw [builds.record?_eq] at hlower
      exact hpair other (List.mem_cons_of_mem _ hother) lower hlower
    obtain ⟨plain, metaclass, hheap, -⟩ := builds.heap
    rw [hrest, hheap]
    exact start.heap.table?_withTables_of_ne
      (hpair id List.mem_cons_self record builds.registered) plain metaclass kind

/-- The record of a class is exchanged for one that stands where it stood. Then the tables of some
classes are built, one class after the other, and nobody else's. -/
structure Refreshes (start : Classes) (id : ClassId) (order : List ClassId) (final : Classes) :
    Prop where
  builds : ∃ log old new built, start.registry.record? id = some old ∧ new.pair = old.pair ∧
    new.standing = old.standing ∧
    (Classes.mk start.heap (start.registry.setRecord id (some new)) log).BuildsAll order built ∧
    final = { built with log := built.log.push (.tablesRebuilt old.name order.length) }
  published : ∀ other ∈ order, ∃ record,
    final.registry.record? other = some record ∧ final.registry.Published final.heap record
  others : ∀ pair, (∀ other ∈ order, ∀ record,
    start.registry.record? other = some record → record.pair ≠ pair) → ∀ kind,
      final.heap.table? ⟨pair, kind⟩ = start.heap.table? ⟨pair, kind⟩
  count : final.registry.builds = start.registry.builds + 2 * order.length

theorem Alters.published (alters : start.Alters id old new final) (atRest : start.AtRest policy)
    {other : ClassId} (linked : start.registry.IsLinked other) : ∃ record,
      final.registry.record? other = some record ∧ final.registry.Published final.heap record := by
  obtain ⟨record, hrecord, hlinked⟩ := (alters.isLinked_iff other).mpr linked
  exact ⟨record, hrecord, (alters.atRest atRest).upToDate.published other record hrecord hlinked
    List.not_mem_nil⟩

theorem Alters.refreshes (alters : start.Alters id old new final) (atRest : start.AtRest policy)
    (linked : start.registry.IsLinked id) :
    start.Refreshes id (start.registry.affected id) final := by
  rw [affected_eq_subtree linked]
  have downward := atRest.hierarchy.downward linked
  have hpublished := fun other hother => alters.published atRest (downward.linked other hother)
  obtain ⟨hrecord, hpair, hstanding, rebuilds⟩ := alters
  have hrecords := start.registry.record?_setRecord hrecord (some new)
  cases rebuilds with
  | pending hpending =>
    obtain ⟨record, hsame, hlinked⟩ := linked
    cases hrecord.symm.trans hsame
    exact absurd ((congrArg Standing.state hstanding).symm.trans hpending) hlinked
  | @linked built _ builds =>
    have hname : new.name = old.name := congrArg Standing.name hstanding
    dsimp only at builds hpublished ⊢
    rw [subtree_setRecord hrecord hstanding] at builds ⊢
    rw [hname]
    refine ⟨⟨start.log, old, new, built, hrecord, hpair, hstanding, builds, rfl⟩, hpublished, ?_, ?_⟩
    · intro pair hothers kind
      refine builds.table?_eq ?_ kind
      intro other hother record hown
      rw [hrecords] at hown
      split at hown
      · next heq =>
        subst heq
        cases hown
        rw [hpair]
        exact hothers id hother old hrecord
      · exact hothers other hother record hown
    · refine builds.builds_eq ?_
      intro other hother
      rw [hrecords]
      split
      · exact ⟨new, rfl⟩
      · obtain ⟨record, hrecord, -⟩ := downward.linked other hother
        exact ⟨record, hrecord⟩

/-- The definitions of a pending class change, and no table is built. -/
theorem Alters.of_unlinked (alters : start.Alters id old new final)
    (unlinked : ¬ start.registry.IsLinked id) :
    final.heap = start.heap ∧ final.registry.builds = start.registry.builds := by
  obtain ⟨hrecord, -, hstanding, rebuilds⟩ := alters
  cases rebuilds with
  | pending => exact ⟨rfl, rfl⟩
  | linked hlinked =>
    rw [show new.state = old.state from congrArg Standing.state hstanding] at hlinked
    exact absurd ⟨old, hrecord, hlinked⟩ unlinked

theorem Alters.builds_eq (alters : start.Alters id old new final) (atRest : start.AtRest policy) :
    final.registry.builds = start.registry.builds + 2 * (start.registry.affected id).length := by
  by_cases linked : start.registry.IsLinked id
  · exact (alters.refreshes atRest linked).count
  · rw [affected_of_unlinked linked]
    exact (alters.of_unlinked linked).2

theorem Refreshes.of_same {middle : Classes} (refreshes : middle.Refreshes id order final)
    (hheap : middle.heap = start.heap) (hregistry : middle.registry = start.registry) :
    start.Refreshes id order final := by
  obtain ⟨heap, registry, log⟩ := middle
  subst hheap hregistry
  exact ⟨refreshes.builds, refreshes.published, refreshes.others, refreshes.count⟩

theorem AtRest.of_same {middle : Classes} (atRest : start.AtRest policy)
    (hheap : middle.heap = start.heap) (hregistry : middle.registry = start.registry) :
    middle.AtRest policy := by
  obtain ⟨heap, registry, log⟩ := middle
  subst hheap hregistry
  exact ⟨atRest.policy_eq, atRest.consistent, atRest.upToDate⟩

theorem Alters.subtree_eq (alters : start.Alters id old new final) :
    final.registry.subtree = start.registry.subtree := by
  rw [← subtree_setRecord alters.registered alters.standing, alters.rebuilds.registry_eq]
  exact subtree_of_records rfl

/-! ### Which changes alter definitions -/

theorem Applies.alters {category : CategoryDefinition} {status : CategoryStatus}
    (applies : start.Applies category status final)
    (known : start.registry.idOf? category.className = some id) :
    ∃ log old new, ({ start with log } : Classes).Alters id old new final := by
  cases applies with
  | waits unknown => cases unknown.symm.trans known
  | merges hknown alters =>
    cases hknown.symm.trans known
    exact ⟨_, _, _, alters⟩

theorem Adds.alters {kind : ClassKind} {method : MethodDefinition}
    (adds : start.Adds id kind method true final) : ∃ old new, start.Alters id old new final := by
  cases adds with
  | adds _ alters => exact ⟨_, _, alters⟩

theorem Adds.eq_of_false {kind : ClassKind} {method : MethodDefinition}
    (adds : start.Adds id kind method false final) : final = start := by
  cases adds with
  | unknown => rfl
  | defined => rfl

theorem Replaces.alters {kind : ClassKind} {method : MethodDefinition} {replaced : Option Imp}
    (replaces : start.Replaces id kind method replaced final) {record : Record}
    (hrecord : start.registry.record? id = some record) :
    ∃ old new, start.Alters id old new final := by
  cases replaces with
  | unknown gone => cases gone.symm.trans hrecord
  | replaces alters => exact ⟨_, _, alters⟩

theorem Applies.affectedByName_eq {category : CategoryDefinition} {status : CategoryStatus}
    (applies : start.Applies category status final) :
    final.registry.affectedByName = start.registry.affectedByName := by
  have hlinked := applies.isLinked_iff
  cases applies with
  | waits => exact affectedByName_congr rfl hlinked (subtree_of_records rfl)
  | merges _ alters => exact affectedByName_congr alters.idOf?_eq hlinked alters.subtree_eq

theorem Applies.builds_eq {category : CategoryDefinition} {status : CategoryStatus}
    (applies : start.Applies category status final) (atRest : start.AtRest policy) :
    final.registry.builds =
      start.registry.builds + 2 * (start.registry.affectedByName category.className).length := by
  cases applies with
  | waits unknown =>
    rw [affectedByName, unknown]
    rfl
  | merges known alters =>
    rw [affectedByName, known]
    exact alters.builds_eq (atRest.of_same rfl rfl)

end Classes

end LateBinding
