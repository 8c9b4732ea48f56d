import LateBinding.Proofs.Tables.UpToDate

/-!
# Every change keeps the tables up to date

A class that links gets tables that follow from those of its superclass. When the definitions of a
class are altered its tables and all below it are built anew. When classes are removed nobody is
left right below them. So all that a change makes stale is up to date again at its end.
-/

namespace LateBinding

open Registry

namespace Registry

variable {registry : Registry} {heap : Heap} {record new : Record} {id : ClassId}

/-- Nothing is below a class that is not linked. -/
theorem Hierarchy.not_isBelow (hierarchy : registry.Hierarchy)
    (hrecord : registry.record? id = some record) (hpending : record.state = .pending)
    (child : ClassId) : ¬ registry.IsBelow child id := by
  intro hbelow
  obtain ⟨above, habove, hlinked⟩ := hierarchy.above child id hbelow
  rw [hrecord] at habove
  cases habove
  exact hlinked hpending

theorem Consistent.hierarchy_of_ready {loose : List ClassId} (consistent : registry.Consistent loose)
    (ready : registry.Ready loose) : registry.Hierarchy := by
  apply consistent.hierarchy
  intro id hid standing hstanding
  exact ready.pending hid hstanding

theorem UpToDate.setRecord (upToDate : registry.UpToDate heap [])
    (hrecord : registry.record? id = some record) (hpair : new.pair = record.pair)
    (hname : new.name = record.name) : (registry.setRecord id (some new)).UpToDate heap [id] := by
  have hget := registry.record?_setRecord hrecord (some new)
  apply upToDate.alter .refl
  · rfl
  · intro other
    rw [hget]
    split
    · next heq => rw [← heq, hrecord, Option.map_some, Option.map_some, hpair, hname]
    · rfl
  · intro other after hafter _ hnotStale
    have hne : id ≠ other := fun heq => hnotStale (List.mem_singleton.mpr heq.symm)
    rw [hget, if_neg hne] at hafter
    exact ⟨after, hafter, List.not_mem_nil, rfl, rfl, rfl⟩

/-- A class that takes its place has no tables yet, and the others keep theirs. -/
theorem UpToDate.markLinked {superclass : Option ClassId} (upToDate : registry.UpToDate heap [])
    (hother : superclass ≠ some id) (pair : PairId) (link : Link) :
    (registry.markLinked id superclass).UpToDate (heap.setLink pair link) [id] := by
  have hget := registry.record?_markLinked hother
  apply upToDate.alter (heap.sameTables_setLink pair link)
  · cases superclass <;> rfl
  · intro other
    rw [hget]
    split
    · rw [Option.map_map]
      rfl
    · split
      · rw [Option.map_map]
        rfl
      · rfl
  · intro other after hafter _ hnotStale
    have hne : id ≠ other := fun heq => hnotStale (List.mem_singleton.mpr heq.symm)
    rw [hget, if_neg hne] at hafter
    split at hafter
    · obtain ⟨before, hbefore, rfl⟩ := Option.map_eq_some_iff.mp hafter
      exact ⟨before, hbefore, List.not_mem_nil, rfl, rfl, rfl⟩
    · exact ⟨after, hafter, List.not_mem_nil, rfl, rfl, rfl⟩

end Registry

namespace Classes

variable {start final : Classes}

/-! ### Linking -/

theorem Links.upToDate {linked : Classes} {id : ClassId} {queue : List ClassId} {record : Record}
    {superclass : Option ClassId} (links : start.Links id record superclass linked)
    (consistent : start.registry.Consistent (id :: queue))
    (ready : start.registry.Ready (id :: queue))
    (upToDate : start.registry.UpToDate start.heap []) :
    (linked.released record.name).registry.UpToDate (linked.released record.name).heap [] := by
  obtain ⟨built, hbuilt, heq⟩ := links.built
  have hlinked : (linked.released record.name).registry.record? =
      (start.placed id record.pair superclass).registry.record? := by
    funext other
    rw [released, record?_releaseWaiters, links.registry_eq]
    rfl
  have hierarchy : (start.placed id record.pair superclass).registry.Hierarchy :=
    ((links.consistent consistent ready).hierarchy_of_ready
      (links.ready consistent ready)).transfer hlinked.symm
  have hbefore := consistent.hierarchy_of_ready ready
  have hbuiltUpToDate : built.registry.UpToDate built.heap [] := by
    apply hbuilt.upToDate hierarchy (upToDate.markLinked links.ne record.pair _)
    · intro other hother
      exact .inl (List.mem_singleton.mp hother)
    · -- a class that was pending until now has nobody below it
      intro other h
      obtain ⟨lower, hlower, hsuper⟩ := h
      change (start.registry.markLinked id superclass).record? other = some lower at hlower
      rw [start.registry.record?_markLinked links.ne] at hlower
      split at hlower
      · obtain ⟨old, -, rfl⟩ := Option.map_eq_some_iff.mp hlower
        exact absurd hsuper links.ne
      · have hold : start.registry.IsBelow other id := by
          split at hlower
          · obtain ⟨old, hold, rfl⟩ := Option.map_eq_some_iff.mp hlower
            exact ⟨old, hold, hsuper⟩
          · exact ⟨lower, hlower, hsuper⟩
        exact absurd hold (hbefore.not_isBelow links.registered links.pending other)
  subst heq
  exact hbuiltUpToDate.transfer .refl rfl rfl

theorem Cascade.upToDate {queue order : List ClassId} (cascade : start.Cascade queue order final)
    (consistent : start.registry.Consistent queue) (ready : start.registry.Ready queue)
    (upToDate : start.registry.UpToDate start.heap []) :
    final.registry.UpToDate final.heap [] := by
  induction cascade with
  | done => exact upToDate
  | link links _ ih =>
    exact ih (links.consistent consistent ready) (links.ready consistent ready)
      (links.upToDate consistent ready upToDate)

/-! ### Altering definitions -/

theorem Rebuilds.upToDate {id : ClassId} {record : Record}
    (rebuilds : start.Rebuilds id record final) (hrecord : start.registry.record? id = some record)
    (hierarchy : start.registry.Hierarchy)
    (upToDate : start.registry.UpToDate start.heap [id]) :
    final.registry.UpToDate final.heap [] := by
  cases rebuilds with
  | pending hpending =>
    apply upToDate.widen
    intro other hother record' hrecord' hlinked
    rw [List.mem_singleton.mp hother, hrecord] at hrecord'
    cases hrecord'
    exact absurd hpending hlinked
  | @linked built _ builds =>
    have hbuilt := builds.upToDate (hierarchy.explores_subtree hrecord) hierarchy rfl upToDate
    exact hbuilt.transfer .refl rfl rfl

theorem Alters.record?_altered {id : ClassId} {old new : Record}
    (alters : start.Alters id old new final) :
    (start.registry.setRecord id (some new)).record? id = some new := by
  rw [start.registry.record?_setRecord alters.registered, if_pos rfl]

theorem Alters.hierarchy_altered {id : ClassId} {old new : Record}
    (alters : start.Alters id old new final) (consistent : start.registry.Consistent []) :
    (start.registry.setRecord id (some new)).Hierarchy := by
  have haltered : (start.registry.setRecord id (some new)).Consistent [] :=
    consistent.transfer (start.registry.standing?_setRecord alters.registered alters.standing)
      rfl rfl rfl
  exact haltered.hierarchy_of_ready (.nil _)

theorem Alters.upToDate {id : ClassId} {old new : Record} (alters : start.Alters id old new final)
    (consistent : start.registry.Consistent [])
    (upToDate : start.registry.UpToDate start.heap []) :
    final.registry.UpToDate final.heap [] :=
  alters.rebuilds.upToDate alters.record?_altered (alters.hierarchy_altered consistent)
    (upToDate.setRecord alters.registered alters.pair (congrArg Standing.name alters.standing))

/-! ### Entering and removing classes -/

/-- A class is entered as a pending one, in a pair of its own. -/
theorem upToDate_entered (definition : ClassDefinition) (hierarchy : start.registry.Hierarchy)
    (upToDate : start.registry.UpToDate start.heap []) :
    (start.entered definition).registry.UpToDate (start.entered definition).heap [] := by
  have same := start.heap.sameTables_addPair start.registry.nextId definition.name definition.size
  have hget := start.registry.record?_addRecord (start.newRecord definition)
  constructor
  · constructor
    · intro id record hrecord
      rw [entered, hget] at hrecord
      split at hrecord
      · cases hrecord
        exact (start.heap.hasPair_addPair _ _ _ _).mpr (.inr rfl)
      · exact same.hasPair _ (upToDate.housed.hasPair id record hrecord)
    · intro id record hrecord
      rw [entered, hget] at hrecord
      split at hrecord
      · next heq =>
        cases hrecord
        rw [← heq]
        exact congrArg ClassPair.id (start.heap.pair_addPair_fst _ _ _)
      · rw [entered, same.id _ (upToDate.housed.hasPair id record hrecord)]
        exact upToDate.housed.pairId id record hrecord
    · intro id record hrecord
      rw [entered, hget] at hrecord
      split at hrecord
      · cases hrecord
        exact congrArg ClassPair.name (start.heap.pair_addPair_fst _ _ _)
      · rw [entered, same.name _ (upToDate.housed.hasPair id record hrecord)]
        exact upToDate.housed.pairName id record hrecord
  · intro id record hrecord hlinked _
    rw [entered, hget] at hrecord
    split at hrecord
    · cases hrecord
      exact absurd rfl hlinked
    · refine (upToDate.published id record hrecord hlinked List.not_mem_nil).transfer
        ⟨rfl, rfl, rfl, rfl, ?_, ?_, ?_⟩
      · apply parentPair?_congr rfl
        intro parent hsuper
        obtain ⟨above, habove, -⟩ := hierarchy.above id parent ⟨record, hrecord, hsuper⟩
        have hne : start.registry.nextId ≠ parent := by
          intro heq
          subst heq
          rw [record?_nextId] at habove
          cases habove
        rw [entered, hget, if_neg hne]
      · exact fun kind => same.table?_eq ⟨record.pair, kind⟩
      · exact fun pair _ kind => same.table?_eq ⟨pair, kind⟩

section

variable {id : ClassId} {record : Record} (registered : start.registry.record? id = some record)

include registered in
theorem record?_of_without {other : ClassId} {after : Record}
    (hafter : (start.without id record).registry.record? other = some after) :
    id ≠ other ∧ ∃ before, start.registry.record? other = some before ∧
      after.pair = before.pair ∧ after.name = before.name ∧ after.state = before.state ∧
      after.methods = before.methods ∧ after.categories = before.categories := by
  rw [without, start.registry.record?_takeOut registered] at hafter
  split at hafter
  · cases hafter
  · next hne =>
    refine ⟨hne, ?_⟩
    split at hafter
    · obtain ⟨before, hbefore, rfl⟩ := Option.map_eq_some_iff.mp hafter
      exact ⟨before, hbefore, rfl, rfl, rfl, rfl, rfl⟩
    · exact ⟨after, hafter, rfl, rfl, rfl, rfl, rfl⟩

include registered in
theorem pair?_without_of_ne {other : ClassId} (hne : id ≠ other) :
    ((start.without id record).registry.record? other).map (·.pair) =
      (start.registry.record? other).map (·.pair) := by
  rw [without, start.registry.record?_takeOut registered, if_neg hne]
  split
  · rw [Option.map_map]
    rfl
  · rfl

include registered in
theorem not_isBelow_of_stays {stack : List ClassId} {other : ClassId}
    (consistent : start.registry.Consistent (id :: stack))
    (stays : other ∉ (start.registry.followers record).reverse ++ stack) :
    ¬ start.registry.IsBelow other id := by
  intro hbelow
  have hchild : other ∈ record.subclasses :=
    (consistent.subclasses id record.standing other (standing?_of_record registered)).mpr
      (isBelow_iff.mp hbelow)
  exact stays (List.mem_append_left _ (List.mem_reverse.mpr (List.mem_append_left _ hchild)))

/-- A class is taken out, and the tables of the classes right below it are stale. -/
theorem upToDate_without {stack : List ClassId}
    (consistent : start.registry.Consistent (id :: stack))
    (registered : start.registry.record? id = some record)
    (upToDate : start.registry.UpToDate start.heap (id :: stack)) :
    (start.without id record).registry.UpToDate (start.without id record).heap
      ((start.registry.followers record).reverse ++ stack) where
  housed := by
    apply upToDate.housed.transfer (start.heap.samePairs_withdraw record.pair)
    intro other after hafter
    obtain ⟨-, before, hbefore, hpair, hname, -⟩ := record?_of_without registered hafter
    exact ⟨before, hbefore, hpair, hname⟩
  published := by
    have housed := upToDate.housed
    intro other after hafter hlinked stays
    obtain ⟨hne, before, hbefore, hpair, -, hstate, hmethods, hcategories⟩ :=
      record?_of_without registered hafter
    have hfresh : other ∉ id :: stack :=
      List.not_mem_cons_of_ne_of_not_mem hne.symm fun hstack =>
        stays (List.mem_append_right _ hstack)
    have hparentNe : ∀ parent, before.superclass? = some parent → id ≠ parent := by
      intro parent hparent heq
      subst heq
      exact not_isBelow_of_stays registered consistent stays ⟨before, hbefore, hparent⟩
    rw [hstate] at hlinked
    refine (upToDate.published other before hbefore hlinked hfresh).transfer
      ⟨start.registry.policy_takeOut id record, hpair, hmethods, hcategories,
        parentPair?_congr hstate ?_, ?_, ?_⟩
    · intro parent hparent
      exact pair?_without_of_ne registered (hparentNe parent hparent)
    · exact start.heap.table?_withdraw_of_ne (housed.pair_ne registered hbefore hne)
    · intro pair hpair
      obtain ⟨parent, above, hparent, habove, rfl⟩ := (parentPair?_eq_some_iff pair).mp hpair
      exact start.heap.table?_withdraw_of_ne
        (housed.pair_ne registered habove (hparentNe parent hparent))

end

theorem Removal.upToDate {stack : List ClassId} {pairs : List PairId}
    (removal : start.Removal stack pairs final) (consistent : start.registry.Consistent stack)
    (upToDate : start.registry.UpToDate start.heap stack) :
    final.registry.UpToDate final.heap [] := by
  induction removal with
  | done => exact upToDate
  | skip gone _ ih => exact ih (consistent.pass gone) (upToDate.pass gone)
  | remove registered _ ih =>
    exact ih (consistent.takeOut registered) (upToDate_without consistent registered upToDate)

/-! ### Whole operations -/

/-- What holds of the classes of a system between operations. -/
structure AtRest (policy : CategoryConflictPolicy) (classes : Classes) : Prop where
  policy_eq : classes.registry.policy = policy
  consistent : classes.registry.Consistent []
  upToDate : classes.registry.UpToDate classes.heap []

variable {policy : CategoryConflictPolicy}

theorem AtRest.hierarchy (atRest : start.AtRest policy) : start.registry.Hierarchy :=
  atRest.consistent.hierarchy_of_ready (.nil _)

/-- Whatever the heap is like, nothing is owed by a registry without classes. -/
theorem AtRest.empty (policy : CategoryConflictPolicy) (heap : Heap) (log : Array Event) :
    AtRest policy ⟨heap, .empty policy, log⟩ := ⟨rfl, .empty policy, .empty policy heap⟩

theorem Alters.atRest {id : ClassId} {old new : Record} (alters : start.Alters id old new final)
    (atRest : start.AtRest policy) : final.AtRest policy where
  policy_eq := by
    rw [alters.rebuilds.registry_eq]
    exact atRest.policy_eq
  consistent := alters.consistent atRest.consistent
  upToDate := alters.upToDate atRest.consistent atRest.upToDate

theorem Registers.atRest {definition : ClassDefinition} {order : List ClassId}
    (registers : start.Registers definition order final)
    (hname : start.registry.idOf? definition.name = none) (atRest : start.AtRest policy) :
    final.AtRest policy where
  policy_eq := by
    cases registers with
    | links _ cascade => exact cascade.policy_eq.trans atRest.policy_eq
    | waits => exact atRest.policy_eq
  consistent := registers.consistent hname atRest.consistent
  upToDate := by
    have hentered := upToDate_entered definition atRest.hierarchy atRest.upToDate
    cases registers with
    | links ready cascade =>
      exact cascade.upToDate (consistent_entered atRest.consistent hname) ready hentered
    | waits => exact hentered.transfer .refl (record?_await _ _ _) rfl

theorem Applies.atRest {category : CategoryDefinition} {status : CategoryStatus}
    (applies : start.Applies category status final) (atRest : start.AtRest policy) :
    final.AtRest policy := by
  cases applies with
  | waits unknown =>
    exact ⟨atRest.policy_eq, atRest.consistent.holdBack unknown,
      atRest.upToDate.transfer .refl (record?_holdBack _ _) rfl⟩
  | merges _ alters =>
    exact alters.atRest ⟨atRest.policy_eq, atRest.consistent, atRest.upToDate⟩

theorem Adds.atRest {id : ClassId} {kind : ClassKind} {method : MethodDefinition} {added : Bool}
    (adds : start.Adds id kind method added final) (atRest : start.AtRest policy) :
    final.AtRest policy := by
  cases adds with
  | unknown => exact atRest
  | defined => exact atRest
  | adds _ alters => exact alters.atRest atRest

theorem Replaces.atRest {id : ClassId} {kind : ClassKind} {method : MethodDefinition}
    {replaced : Option Imp} (replaces : start.Replaces id kind method replaced final)
    (atRest : start.AtRest policy) : final.AtRest policy := by
  cases replaces with
  | unknown => exact atRest
  | replaces alters => exact alters.atRest atRest

theorem Removal.atRest {stack : List ClassId} {pairs : List PairId}
    (removal : start.Removal stack pairs final) (atRest : start.AtRest policy) :
    final.AtRest policy := by
  have hconsistent : start.registry.Consistent stack := atRest.consistent.loosen stack
  have hupToDate : start.registry.UpToDate start.heap stack :=
    atRest.upToDate.widen fun _ hid _ _ _ => absurd hid List.not_mem_nil
  exact ⟨removal.policy_eq.trans atRest.policy_eq, removal.consistent hconsistent,
    removal.upToDate hconsistent hupToDate⟩

end Classes

end LateBinding
