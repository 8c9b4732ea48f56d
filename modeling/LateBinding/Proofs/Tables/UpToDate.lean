import LateBinding.Proofs.Registry.Hierarchy
import LateBinding.Proofs.Registry.Linker

/-!
# Tables that are up to date

The tables of a class are *up to date* if they follow from its own definitions and the tables right
above it. A change of a class makes its tables stale, and building them makes stale those right
below, until the bottom of the hierarchy is reached. Every operation leaves all tables up to date.
-/

namespace LateBinding

open Registry

/-- A registered class lives in a pair of its own, which has its number and name. -/
structure Registry.Housed (registry : Registry) (heap : Heap) : Prop where
  hasPair : ∀ id record, registry.record? id = some record → heap.HasPair record.pair
  pairId : ∀ id record, registry.record? id = some record → (heap.pair record.pair).id = id
  pairName : ∀ id record, registry.record? id = some record →
    (heap.pair record.pair).name = record.name

theorem Registry.Housed.id_unique {registry : Registry} {heap : Heap}
    (housed : registry.Housed heap) {id other : ClassId} {record another : Record}
    (hid : registry.record? id = some record) (hother : registry.record? other = some another)
    (hpair : record.pair = another.pair) : id = other := by
  have hfirst := housed.pairId id record hid
  rw [hpair, housed.pairId other another hother] at hfirst
  exact hfirst.symm

theorem Registry.Housed.pair_ne {registry : Registry} {heap : Heap} (housed : registry.Housed heap)
    {id other : ClassId} {record another : Record} (hid : registry.record? id = some record)
    (hother : registry.record? other = some another) (hne : id ≠ other) :
    record.pair ≠ another.pair := fun hpair => hne (housed.id_unique hid hother hpair)

theorem Registry.Housed.resolve_eq {registry : Registry} {heap : Heap}
    (housed : registry.Housed heap) {id : ClassId} {record : Record}
    (hrecord : registry.record? id = some record) (kind : ClassKind) :
    registry.resolve heap ⟨record.pair, kind⟩ = .ok id := by
  have hid := housed.pairId id record hrecord
  rw [Registry.resolve, hid, hrecord]
  exact if_pos rfl

theorem Registry.record?_of_resolve {registry : Registry} {heap : Heap} {cls : ClassRef}
    {id : ClassId} (hresolve : registry.resolve heap cls = .ok id) :
    ∃ record, registry.record? id = some record ∧ record.pair = cls.pair := by
  rw [Registry.resolve] at hresolve
  split at hresolve
  · next record hrecord =>
    split at hresolve
    · next hpair =>
      cases hresolve
      exact ⟨record, hrecord, hpair⟩
    · cases hresolve
  · cases hresolve

/-- Classes stay in their pairs if neither changes its number or name. -/
theorem Registry.Housed.transfer {registry changed : Registry} {heap other : Heap}
    (housed : registry.Housed heap) (same : heap.SamePairs other)
    (hold : ∀ id new, changed.record? id = some new → ∃ record,
      registry.record? id = some record ∧ new.pair = record.pair ∧ new.name = record.name) :
    changed.Housed other where
  hasPair := by
    intro id new hnew
    obtain ⟨record, hrecord, hpair, -⟩ := hold id new hnew
    rw [hpair]
    exact same.hasPair _ (housed.hasPair id record hrecord)
  pairId := by
    intro id new hnew
    obtain ⟨record, hrecord, hpair, -⟩ := hold id new hnew
    rw [hpair, same.id _ (housed.hasPair id record hrecord)]
    exact housed.pairId id record hrecord
  pairName := by
    intro id new hnew
    obtain ⟨record, hrecord, hpair, hname⟩ := hold id new hnew
    rw [hpair, hname, same.name _ (housed.hasPair id record hrecord)]
    exact housed.pairName id record hrecord

/-- The tables of a class are published and follow from those above. -/
def Registry.Published (registry : Registry) (heap : Heap) (record : Record) : Prop :=
  ∃ plain metaclass, heap.table? ⟨record.pair, .plain⟩ = some plain ∧
    heap.table? ⟨record.pair, .metaclass⟩ = some metaclass ∧
    registry.Publishes record heap plain metaclass

/-- All linked classes but the stale ones have their tables up to date. -/
structure Registry.UpToDate (registry : Registry) (heap : Heap) (stale : List ClassId) : Prop where
  housed : registry.Housed heap
  published : ∀ id record, registry.record? id = some record → record.state ≠ .pending →
    id ∉ stale → registry.Published heap record

namespace Registry

variable {registry changed : Registry} {heap other : Heap} {record : Record}

/-- What the tables of a class follow from: its definitions and the tables of its superclass. -/
structure SameSources (registry changed : Registry) (heap other : Heap) (record new : Record) :
    Prop where
  policy : changed.policy = registry.policy
  pair : new.pair = record.pair
  methods : new.methods = record.methods
  categories : new.categories = record.categories
  parent : changed.parentPair? new = registry.parentPair? record
  tables : ∀ kind, other.table? ⟨record.pair, kind⟩ = heap.table? ⟨record.pair, kind⟩
  above : ∀ pair, registry.parentPair? record = some pair → ∀ kind,
    other.table? ⟨pair, kind⟩ = heap.table? ⟨pair, kind⟩

theorem SameSources.implementation?_eq {new : Record}
    (same : SameSources registry changed heap other record new) :
    new.implementation? changed.policy = record.implementation? registry.policy := by
  funext kind sel
  unfold Record.implementation? Record.strongest?
  rw [same.policy, same.methods, same.categories]

theorem Publishes.congr {new : Record} {plain metaclass : DispatchTable}
    (publishes : registry.Publishes record heap plain metaclass)
    (himplementation : new.implementation? changed.policy = record.implementation? registry.policy)
    (hparent : changed.parentPair? new = registry.parentPair? record)
    (habove : ∀ pair, registry.parentPair? record = some pair → ∀ kind,
      other.table? ⟨pair, kind⟩ = heap.table? ⟨pair, kind⟩) :
    changed.Publishes new other plain metaclass where
  instances := by
    intro sel
    rw [publishes.instances, himplementation, hparent]
    cases hpair : registry.parentPair? record with
    | none => rfl
    | some pair => simp only [Option.bind_some, Heap.lookup, habove pair hpair]
  classObject := by
    intro sel
    rw [publishes.classObject, himplementation, hparent]
    cases hpair : registry.parentPair? record with
    | none => rfl
    | some pair => simp only [Heap.lookup, habove pair hpair]

theorem Published.transfer {new : Record} (published : registry.Published heap record)
    (same : SameSources registry changed heap other record new) :
    changed.Published other new := by
  obtain ⟨plain, metaclass, hplain, hmetaclass, hpublishes⟩ := published
  refine ⟨plain, metaclass, ?_, ?_,
    hpublishes.congr same.implementation?_eq same.parent same.above⟩
  · rw [same.pair, same.tables, hplain]
  · rw [same.pair, same.tables, hmetaclass]

theorem parentPair?_eq_some_iff (pair : PairId) : registry.parentPair? record = some pair ↔
    ∃ parent above, record.superclass? = some parent ∧ registry.record? parent = some above ∧
      above.pair = pair := by
  simp only [parentPair?, Option.map_eq_some_iff, Option.bind_eq_some_iff]
  constructor
  · intro h
    obtain ⟨above, ⟨parent, hparent, habove⟩, hpair⟩ := h
    exact ⟨parent, above, hparent, habove, hpair⟩
  · intro h
    obtain ⟨parent, above, hparent, habove, hpair⟩ := h
    exact ⟨above, ⟨parent, hparent, habove⟩, hpair⟩

theorem parentPair?_congr {new : Record} (hstate : new.state = record.state)
    (hparents : ∀ parent, record.superclass? = some parent →
      (changed.record? parent).map (·.pair) = (registry.record? parent).map (·.pair)) :
    changed.parentPair? new = registry.parentPair? record := by
  unfold parentPair?
  rw [Record.superclass?_congr hstate]
  cases hparent : record.superclass? with
  | none => rfl
  | some parent => exact hparents parent hparent

/-- Tables stay up to date if all that they follow from stays as it is. -/
theorem UpToDate.alter {stale stale' : List ClassId} (upToDate : registry.UpToDate heap stale)
    (same : heap.SameTables other) (hpolicy : changed.policy = registry.policy)
    (hpairs : ∀ id, (changed.record? id).map (fun record => (record.pair, record.name)) =
      (registry.record? id).map fun record => (record.pair, record.name))
    (hkept : ∀ id new, changed.record? id = some new → new.state ≠ .pending → id ∉ stale' →
      ∃ record, registry.record? id = some record ∧ id ∉ stale ∧ new.state = record.state ∧
        new.methods = record.methods ∧ new.categories = record.categories) :
    changed.UpToDate other stale' where
  housed := by
    apply upToDate.housed.transfer same.samePairs
    intro id new hnew
    have hpair := hpairs id
    rw [hnew, Option.map_some] at hpair
    obtain ⟨record, hrecord, heq⟩ := Option.map_eq_some_iff.mp hpair.symm
    obtain ⟨heqPair, heqName⟩ := Prod.mk.inj heq
    exact ⟨record, hrecord, heqPair.symm, heqName.symm⟩
  published := by
    intro id new hnew hlinked hnotStale
    obtain ⟨record, hrecord, hfresh, hstate, hmethods, hcategories⟩ :=
      hkept id new hnew hlinked hnotStale
    have hpair : new.pair = record.pair := by
      have hpair := hpairs id
      rw [hnew, hrecord] at hpair
      exact (Prod.mk.inj (Option.some.inj hpair)).1
    rw [hstate] at hlinked
    refine (upToDate.published id record hrecord hlinked hfresh).transfer
      ⟨hpolicy, hpair, hmethods, hcategories, parentPair?_congr hstate ?_, ?_, ?_⟩
    · intro parent _
      have hparent := congrArg (Option.map Prod.fst) (hpairs parent)
      rwa [Option.map_map, Option.map_map] at hparent
    · intro kind
      exact same.table?_eq ⟨record.pair, kind⟩
    · intro pair _ kind
      exact same.table?_eq ⟨pair, kind⟩

theorem UpToDate.transfer {stale : List ClassId} (upToDate : registry.UpToDate heap stale)
    (same : heap.SameTables other) (hrecord : changed.record? = registry.record?)
    (hpolicy : changed.policy = registry.policy) : changed.UpToDate other stale := by
  apply upToDate.alter same hpolicy
  · intro id
    rw [hrecord]
  · intro id record hid _ hfresh
    rw [hrecord] at hid
    exact ⟨record, hid, hfresh, rfl, rfl, rfl⟩

/-- What is stale without being linked does not count. -/
theorem UpToDate.widen {stale stale' : List ClassId} (upToDate : registry.UpToDate heap stale)
    (hstale : ∀ id ∈ stale, ∀ record, registry.record? id = some record →
      record.state ≠ .pending → id ∈ stale') : registry.UpToDate heap stale' := by
  apply upToDate.alter .refl rfl fun _ => rfl
  intro id record hid hlinked hnotStale
  have hfresh : id ∉ stale := fun hmem => hnotStale (hstale id hmem record hid hlinked)
  exact ⟨record, hid, hfresh, rfl, rfl, rfl⟩

theorem UpToDate.pass {id : ClassId} {stale : List ClassId}
    (upToDate : registry.UpToDate heap (id :: stale)) (gone : registry.record? id = none) :
    registry.UpToDate heap stale := by
  apply upToDate.widen
  intro other hother record hrecord _
  rcases List.mem_cons.mp hother with rfl | hmem
  · rw [gone] at hrecord
    cases hrecord
  · exact hmem

theorem UpToDate.empty (policy : CategoryConflictPolicy) (heap : Heap) :
    (Registry.empty policy).UpToDate heap [] := by
  refine ⟨⟨?_, ?_, ?_⟩, ?_⟩ <;>
  · intro id record hid
    cases hid

end Registry

namespace Classes

variable {start built final : Classes} {id : ClassId} {record : Record}

theorem Builds.record?_eq (builds : start.Builds id record built) :
    built.registry.record? = start.registry.record? := by
  rw [builds.registry]
  rfl

theorem Builds.policy_eq (builds : start.Builds id record built) :
    built.registry.policy = start.registry.policy := by
  rw [builds.registry]

theorem Builds.parentPair?_eq (builds : start.Builds id record built) (lower : Record) :
    built.registry.parentPair? lower = start.registry.parentPair? lower := by
  simp only [parentPair?, builds.record?_eq]

theorem Builds.table?_of_ne (builds : start.Builds id record built)
    (housed : start.registry.Housed start.heap) {other : ClassId} {another : Record}
    (hother : start.registry.record? other = some another) (hne : other ≠ id) (kind : ClassKind) :
    built.heap.table? ⟨another.pair, kind⟩ = start.heap.table? ⟨another.pair, kind⟩ := by
  obtain ⟨plain, metaclass, hheap, -⟩ := builds.heap
  rw [hheap]
  exact start.heap.table?_withTables_of_ne (housed.pair_ne builds.registered hother hne.symm) plain
    metaclass kind

/-- The tables above a class are untouched unless it is right below the class that is built. -/
theorem Builds.table?_above (builds : start.Builds id record built)
    (housed : start.registry.Housed start.heap) {other : ClassId} {lower : Record}
    (hother : start.registry.record? other = some lower)
    (hnot : ¬ start.registry.IsBelow other id) {pair : PairId}
    (hpair : start.registry.parentPair? lower = some pair) (kind : ClassKind) :
    built.heap.table? ⟨pair, kind⟩ = start.heap.table? ⟨pair, kind⟩ := by
  obtain ⟨parent, above, hsuper, habove, rfl⟩ := (parentPair?_eq_some_iff pair).mp hpair
  apply builds.table?_of_ne housed habove
  intro heq
  subst heq
  exact hnot ⟨lower, hother, hsuper⟩

/-- The tables that are built follow from those above, which they leave alone. -/
theorem Builds.published (builds : start.Builds id record built)
    (hierarchy : start.registry.Hierarchy) (housed : start.registry.Housed start.heap) :
    built.registry.Published built.heap record := by
  obtain ⟨plain, metaclass, hheap, hpublishes⟩ := builds.heap
  have hself : ¬ start.registry.IsBelow id id := fun hcycle =>
    hierarchy.acyclic id (.single hcycle)
  have hget := start.heap.table?_withTables_self (housed.hasPair id record builds.registered) plain
    metaclass
  refine ⟨plain, metaclass, ?_, ?_, hpublishes.congr ?_ (builds.parentPair?_eq record) ?_⟩
  · rw [hheap, hget]
    rfl
  · rw [hheap, hget]
    rfl
  · rw [builds.policy_eq]
  · intro pair hpair
    exact builds.table?_above housed builds.registered hself hpair

/-- The tables that are built are up to date, and those right below are not any more. -/
theorem Builds.upToDate {stale stale' : List ClassId} (builds : start.Builds id record built)
    (hierarchy : start.registry.Hierarchy)
    (upToDate : start.registry.UpToDate start.heap stale)
    (hstale : ∀ other ∈ stale, other = id ∨ other ∈ stale')
    (hbelow : ∀ other, start.registry.IsBelow other id → other ∈ stale') :
    built.registry.UpToDate built.heap stale' where
  housed := by
    obtain ⟨plain, metaclass, hheap, -⟩ := builds.heap
    rw [hheap]
    apply upToDate.housed.transfer (start.heap.samePairs_withTables _ _ _)
    intro other another hother
    rw [builds.record?_eq] at hother
    exact ⟨another, hother, rfl, rfl⟩
  published := by
    have housed := upToDate.housed
    intro other another hother hlinked hnotStale
    rw [builds.record?_eq] at hother
    by_cases heq : other = id
    · subst heq
      cases builds.registered.symm.trans hother
      exact builds.published hierarchy housed
    · have hfresh : other ∉ stale := by
        intro hmem
        rcases hstale other hmem with h | h
        · exact heq h
        · exact hnotStale h
      refine (upToDate.published other another hother hlinked hfresh).transfer
        ⟨builds.policy_eq, rfl, rfl, rfl, builds.parentPair?_eq another, ?_, ?_⟩
      · exact builds.table?_of_ne housed hother heq
      · intro pair hpair
        exact builds.table?_above housed hother
          (fun hbelow' => hnotStale (hbelow other hbelow')) hpair

/-- Built breadth first, the tables of a queue of classes and of all below are up to date. -/
theorem BuildsAll.upToDate {registry : Registry} {queue order : List ClassId}
    (explores : registry.Explores queue order) (hierarchy : registry.Hierarchy)
    (builds : start.BuildsAll order final) (hrecord : start.registry.record? = registry.record?)
    (upToDate : start.registry.UpToDate start.heap queue) :
    final.registry.UpToDate final.heap [] := by
  induction explores generalizing start with
  | done =>
    cases builds
    exact upToDate
  | @visit id queue order _ ih =>
    cases builds with
    | skip gone others =>
      apply ih others hrecord
      exact (upToDate.pass gone).widen fun other hother _ _ _ => List.mem_append_left _ hother
    | build built others =>
      refine ih others ?_ (built.upToDate (hierarchy.transfer hrecord) upToDate ?_ ?_)
      · rw [← hrecord, built.registry]
        rfl
      · intro other hother
        exact (List.mem_cons.mp hother).imp_right (List.mem_append_left _)
      · intro other hother
        rw [isBelow_congr hrecord] at hother
        refine List.mem_append_right _ ((hierarchy.mem_children other ?_).mpr hother)
        exact ⟨_, by rw [← hrecord]; exact built.registered⟩

end Classes

end LateBinding
