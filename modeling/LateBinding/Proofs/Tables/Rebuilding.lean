import LateBinding.Proofs.Tables.UpToDate

/-!
# Building tables that are built already

The tables of a class *stand* if they are just those that building them would give. Built breadth
first, the tables of all classes below a class stand in the end, since each is built after those right
above it. To build them once more only counts them once more. So a category that has been applied can
be applied again, and nothing else happens.
-/

namespace LateBinding

open Registry

/-! ### Publishing what is published -/

theorem Sided.set_get {α : Type} (sides : Sided α) (kind : ClassKind) :
    sides.set kind (sides.get kind) = sides := by
  cases kind <;> rfl

namespace Heap

variable {heap : Heap}

theorem modifyPair_eq_self {id : PairId} {change : ClassPair → ClassPair}
    (hchange : change (heap.pair id) = heap.pair id) : heap.modifyPair id change = heap := by
  have hpairs : heap.pairs.modify id.index change = heap.pairs := by
    apply Array.ext
    · exact Array.size_modify
    · intro index hleft hright
      rw [Array.getElem_modify]
      split
      · next heq =>
        subst heq
        have hpair : heap.pair id = heap.pairs[id.index] := by
          rw [pair, Array.getD, dif_pos hright]
          rfl
        rw [← hpair, hchange]
      · rfl
  rw [modifyPair, hpairs]

theorem publish_eq_self {cls : ClassRef} {table : DispatchTable}
    (htable : heap.table? cls = some table) : heap.publish cls table = heap := by
  apply modifyPair_eq_self
  rw [table?] at htable
  rw [← htable, Sided.set_get]

end Heap

namespace Registry

variable {registry changed : Registry} {heap other : Heap} {record : Record}

/-- The tables of a class are those that follow from its definitions and the tables right above. -/
structure Stands (registry : Registry) (heap : Heap) (record : Record)
    (plain metaclass : DispatchTable) : Prop where
  instances : DispatchTable.compose ((registry.parentPair? record).bind fun pair =>
    heap.table? ⟨pair, .plain⟩) (record.layers registry.policy .plain) = .ok plain
  classObject : DispatchTable.compose (registry.aboveMeta heap record plain)
    (record.layers registry.policy .metaclass) = .ok metaclass
  plainTable : heap.table? ⟨record.pair, .plain⟩ = some plain
  metaclassTable : heap.table? ⟨record.pair, .metaclass⟩ = some metaclass

variable {plain metaclass : DispatchTable}

theorem aboveMeta_congr (hparent : changed.parentPair? record = registry.parentPair? record)
    (habove : ∀ pair, registry.parentPair? record = some pair → ∀ kind,
      other.table? ⟨pair, kind⟩ = heap.table? ⟨pair, kind⟩) (table : DispatchTable) :
    changed.aboveMeta other record table = registry.aboveMeta heap record table := by
  unfold aboveMeta
  rw [hparent]
  cases hpair : registry.parentPair? record with
  | none => rfl
  | some pair =>
    dsimp only
    rw [Heap.table?_publish_plain, Heap.table?_publish_plain, habove pair hpair]

/-- Tables stand as long as they stay, and those right above. -/
theorem Stands.transfer (stands : registry.Stands heap record plain metaclass)
    (hpolicy : changed.policy = registry.policy)
    (hparent : changed.parentPair? record = registry.parentPair? record)
    (htables : ∀ kind, other.table? ⟨record.pair, kind⟩ = heap.table? ⟨record.pair, kind⟩)
    (habove : ∀ pair, registry.parentPair? record = some pair → ∀ kind,
      other.table? ⟨pair, kind⟩ = heap.table? ⟨pair, kind⟩) :
    changed.Stands other record plain metaclass where
  instances := by
    rw [hpolicy, hparent, ← stands.instances]
    cases hpair : registry.parentPair? record with
    | none => rfl
    | some pair => rw [Option.bind_some, Option.bind_some, habove pair hpair]
  classObject := by
    rw [hpolicy, aboveMeta_congr hparent habove, stands.classObject]
  plainTable := (htables .plain).trans stands.plainTable
  metaclassTable := (htables .metaclass).trans stands.metaclassTable

/-- Tables that stand are published again, and the heap stays as it is. -/
theorem Stands.publishTables_eq (stands : registry.Stands heap record plain metaclass) :
    registry.publishTables record heap = .ok heap := by
  rw [Registry.publishTables_eq, stands.instances]
  change DispatchTable.compose _ _ >>= _ = _
  rw [stands.classObject]
  change Except.ok _ = _
  rw [Heap.publish_eq_self stands.plainTable, Heap.publish_eq_self stands.metaclassTable]

/-- Tables that are published stand from then on. -/
theorem stands_of_publishTables (hpair : heap.HasPair record.pair)
    (hparent : registry.parentPair? record ≠ some record.pair)
    (hrun : registry.publishTables record heap = .ok other) :
    ∃ plain metaclass, other = heap.withTables record.pair plain metaclass ∧
      registry.Stands other record plain metaclass := by
  rw [publishTables_eq] at hrun
  cases hplain : DispatchTable.compose ((registry.parentPair? record).bind fun pair =>
      heap.table? ⟨pair, .plain⟩) (record.layers registry.policy .plain) with
  | error reason =>
    rw [hplain] at hrun
    cases hrun
  | ok plain =>
    rw [hplain] at hrun
    change DispatchTable.compose _ _ >>= _ = _ at hrun
    cases hmetaclass : DispatchTable.compose (registry.aboveMeta heap record plain)
        (record.layers registry.policy .metaclass) with
    | error reason =>
      rw [hmetaclass] at hrun
      cases hrun
    | ok metaclass =>
      rw [hmetaclass] at hrun
      cases hrun
      rw [Heap.publish_publish]
      have hself := heap.table?_withTables_self hpair plain metaclass
      have habove : ∀ pair, registry.parentPair? record = some pair → ∀ kind,
          (heap.withTables record.pair plain metaclass).table? ⟨pair, kind⟩ =
            heap.table? ⟨pair, kind⟩ := by
        intro pair habove kind
        refine heap.table?_withTables_of_ne ?_ plain metaclass kind
        rintro rfl
        exact hparent habove
      refine ⟨plain, metaclass, rfl, ?_, ?_, hself .plain, hself .metaclass⟩
      · rw [← hplain]
        cases hpair : registry.parentPair? record with
        | none => rfl
        | some pair => rw [Option.bind_some, Option.bind_some, habove pair hpair]
      · rw [aboveMeta_congr rfl habove, hmetaclass]

theorem subtree_congr (hchildren : changed.children = registry.children)
    (hsize : changed.records.size = registry.records.size) (id : ClassId) :
    changed.subtree id = registry.subtree id := by
  have hwithin : ∀ (fuel : Nat) (queue : List ClassId),
      changed.subtreeWithin fuel queue = registry.subtreeWithin fuel queue := by
    intro fuel
    induction fuel with
    | zero => exact fun _ => rfl
    | succ fuel ih =>
      intro queue
      cases queue with
      | nil => rfl
      | cons top rest =>
        rw [subtreeWithin, subtreeWithin, ih]
        exact congrArg (fun below => top :: registry.subtreeWithin fuel (rest ++ below))
          (congrFun hchildren top)
  rw [subtree, subtree, hsize, hwithin]

theorem children_congr (hrecord : changed.record? = registry.record?) :
    changed.children = registry.children := by
  funext id
  rw [children, children, hrecord]

end Registry

namespace Classes

variable {start built : Classes} {id : ClassId} {record : Record}

/-- The tables of a class stand, if it is registered. -/
def StandsAt (classes : Classes) (id : ClassId) : Prop :=
  ∀ record, classes.registry.record? id = some record →
    ∃ plain metaclass, classes.registry.Stands classes.heap record plain metaclass

/-- Only the number of tables built has changed in the registry. -/
def CountsOn (start final : Classes) : Prop :=
  final.registry = { start.registry with builds := final.registry.builds }

theorem CountsOn.record?_eq (counts : start.CountsOn built) :
    built.registry.record? = start.registry.record? := by
  rw [counts]
  rfl

theorem CountsOn.trans {final : Classes} (first : start.CountsOn built)
    (second : built.CountsOn final) : start.CountsOn final := by
  rw [CountsOn, second, first]

/-- Nothing has changed but what is noted, and the number of tables built. -/
structure OnlyCounts (start final : Classes) : Prop where
  heap : final.heap = start.heap
  counts : start.CountsOn final

end Classes

namespace Linking

variable {start : Classes} {id : ClassId} {record : Record}

theorem buildTables_standsAt (hrecord : start.registry.record? id = some record)
    (hpair : start.heap.HasPair record.pair)
    (hparent : start.registry.parentPair? record ≠ some record.pair) :
    (buildTables id).Leads True start fun _ built => start.CountsOn built ∧
      ∃ plain metaclass, built.heap = start.heap.withTables record.pair plain metaclass ∧
        start.registry.Stands built.heap record plain metaclass := by
  rw [buildTables, leads_bind, leads_get, hrecord]
  dsimp only
  rw [leads_bind, leads_lift]
  cases hpublished : start.registry.publishTables record start.heap with
  | error reason => trivial
  | ok heap => exact ⟨rfl, stands_of_publishTables hpair hparent hpublished⟩

/-- Tables that stand are built again for nothing. -/
theorem buildTables_again (stands : start.StandsAt id) :
    (buildTables id).Leads False start fun _ built => start.OnlyCounts built := by
  rw [buildTables, leads_bind, leads_get]
  cases hrecord : start.registry.record? id with
  | none => exact ⟨rfl, rfl⟩
  | some record =>
    obtain ⟨plain, metaclass, hstands⟩ := stands record hrecord
    dsimp only
    rw [leads_bind, leads_lift, hstands.publishTables_eq]
    exact ⟨rfl, rfl⟩

/-- Each class is built after the one right above it, and what stood before is left alone. -/
theorem forM_buildTables_standsAt {registry : Registry} {queue order visited : List ClassId}
    (explores : registry.Explores queue order) (hierarchy : registry.Hierarchy)
    (counts : start.registry = { registry with builds := start.registry.builds })
    (housed : registry.Housed start.heap)
    (hvisited : ∀ other ∈ visited, other ∉ queue → start.StandsAt other) :
    (order.forM buildTables).Leads True start fun _ final => start.CountsOn final ∧
      ∀ other ∈ visited ++ order, final.StandsAt other := by
  induction explores generalizing start visited with
  | done =>
    refine ⟨rfl, fun other hother => hvisited other ?_ List.not_mem_nil⟩
    rwa [List.append_nil] at hother
  | @visit top queue order _ ih =>
    have hrecords : start.registry.record? = registry.record? := by
      rw [counts]
      rfl
    have hassoc : visited ++ top :: order = (visited ++ [top]) ++ order := by
      rw [List.append_assoc, List.singleton_append]
    change (buildTables top >>= fun _ => order.forM buildTables).Leads True start _
    rw [leads_bind, hassoc]
    cases hrecord : registry.record? top with
    | none =>
      rw [buildTables, leads_bind, leads_get, hrecords, hrecord]
      refine ih counts housed fun other hother hnot => ?_
      rcases List.mem_append.mp hother with hold | htop
      · by_cases heq : other = top
        · subst heq
          intro record hsome
          rw [hrecords, hrecord] at hsome
          cases hsome
        · exact hvisited other hold (List.not_mem_cons_of_ne_of_not_mem heq
            fun hmem => hnot (List.mem_append_left _ hmem))
      · rw [List.mem_singleton.mp htop]
        intro record hsome
        rw [hrecords, hrecord] at hsome
        cases hsome
    | some record =>
      have hparentNe : registry.parentPair? record ≠ some record.pair := by
        intro hparent
        obtain ⟨parent, above, hsuper, habove, hpair⟩ := (parentPair?_eq_some_iff _).mp hparent
        by_cases heq : parent = top
        · exact hierarchy.acyclic top (.single ⟨record, hrecord, heq ▸ hsuper⟩)
        · exact housed.pair_ne habove hrecord heq hpair
      have hparents : start.registry.parentPair? record = registry.parentPair? record := by
        simp only [parentPair?, hrecords]
      refine (buildTables_standsAt (hrecords ▸ hrecord) (housed.hasPair top record hrecord)
        (hparents ▸ hparentNe)).mono ?_
      rintro _ built ⟨hcounts, plain, metaclass, hheap, hstands⟩
      have hbuiltRecords := hcounts.record?_eq
      have hbuiltParents : ∀ lower : Record,
          built.registry.parentPair? lower = start.registry.parentPair? lower := by
        intro lower
        simp only [parentPair?, hbuiltRecords]
      have hbuiltPolicy : built.registry.policy = start.registry.policy := by
        rw [hcounts]
      have hothers : ∀ other another, registry.record? other = some another → other ≠ top →
          ∀ kind, built.heap.table? ⟨another.pair, kind⟩ =
            start.heap.table? ⟨another.pair, kind⟩ := by
        intro other another hanother hne kind
        rw [hheap]
        exact start.heap.table?_withTables_of_ne (housed.pair_ne hrecord hanother (Ne.symm hne))
          plain metaclass kind
      have hbuiltCounts : built.registry = { registry with builds := built.registry.builds } := by
        rw [hcounts, counts]
      have hbuiltHoused : registry.Housed built.heap := by
        rw [hheap]
        exact housed.transfer (start.heap.samePairs_withTables _ _ _)
          fun other another hanother => ⟨another, hanother, rfl, rfl⟩
      refine (ih hbuiltCounts hbuiltHoused ?_).mono fun _ final h => ⟨hcounts.trans h.1, h.2⟩
      intro other hother hnot own hown
      rw [hbuiltRecords, hrecords] at hown
      by_cases heq : other = top
      · subst heq
        cases hrecord.symm.trans hown
        exact ⟨plain, metaclass, hstands.transfer hbuiltPolicy (hbuiltParents record)
          (fun _ => rfl) fun _ _ _ => rfl⟩
      · have hold : other ∈ visited :=
          (List.mem_append.mp hother).resolve_right fun h => heq (List.mem_singleton.mp h)
        obtain ⟨ownPlain, ownMetaclass, hownStands⟩ := hvisited other hold
          (List.not_mem_cons_of_ne_of_not_mem heq fun hmem => hnot (List.mem_append_left _ hmem))
          own (hrecords ▸ hown)
        refine ⟨ownPlain, ownMetaclass, hownStands.transfer hbuiltPolicy (hbuiltParents own)
          (hothers other own hown heq) ?_⟩
        -- the class right above is not the one that is built, or this one would be on the queue
        intro pair hpair kind
        rw [show start.registry.parentPair? own = registry.parentPair? own by
          simp only [parentPair?, hrecords]] at hpair
        obtain ⟨parent, above, hsuper, habove, rfl⟩ := (parentPair?_eq_some_iff pair).mp hpair
        refine hothers parent above habove ?_ kind
        rintro rfl
        exact hnot (List.mem_append_right _
          ((hierarchy.mem_children other ⟨record, hrecord⟩).mpr ⟨own, hown, hsuper⟩))

theorem forM_buildTables_again {order : List ClassId}
    (stands : ∀ id ∈ order, start.StandsAt id) :
    (order.forM buildTables).Leads False start fun _ final => start.OnlyCounts final := by
  induction order generalizing start with
  | nil => exact ⟨rfl, rfl⟩
  | cons id rest ih =>
    change (buildTables id >>= fun _ => rest.forM buildTables).Leads False start _
    rw [leads_bind]
    refine (buildTables_again (stands id List.mem_cons_self)).mono ?_
    rintro _ built ⟨hheap, hcounts⟩
    refine (ih fun other hother record hrecord => ?_).mono fun _ final only =>
      ⟨only.heap.trans hheap, hcounts.trans only.counts⟩
    rw [hcounts.record?_eq] at hrecord
    obtain ⟨plain, metaclass, hstands⟩ := stands other (List.mem_cons_of_mem _ hother) record hrecord
    refine ⟨plain, metaclass, hstands.transfer ?_ ?_ ?_ ?_⟩
    · rw [hcounts]
    · simp only [parentPair?, hcounts.record?_eq]
    · rw [hheap]
      exact fun _ => rfl
    · rw [hheap]
      exact fun _ _ _ => rfl

end Linking

end LateBinding
