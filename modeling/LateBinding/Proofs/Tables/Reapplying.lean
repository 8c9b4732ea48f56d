import LateBinding.Proofs.Registry.Categories
import LateBinding.Proofs.Tables.Rebuilding

/-!
# Applying a category once more

Right after a category was applied its class holds it, and the tables of the class and of all below
it stand. Applied again, it takes its own place, and the tables are built as they are.
-/

namespace LateBinding

open Registry

namespace Registry

variable {registry : Registry}

theorem setRecord_eq_self {id : ClassId} {record : Record}
    (hrecord : registry.record? id = some record) :
    registry.setRecord id (some record) = registry := by
  have hentry : registry.records[id.index]? = some (some record) := by
    rw [record?, Option.join_eq_some_iff] at hrecord
    exact hrecord
  have hrecords : registry.records.setIfInBounds id.index (some record) = registry.records := by
    apply Array.ext_getElem?
    intro index
    rw [Array.getElem?_setIfInBounds]
    split
    · next heq =>
      rw [if_pos (registry.index_lt_of_record? hrecord), ← heq, hentry]
    · rfl
  rw [setRecord, hrecords]

theorem holdBack_eq_self {category : CategoryDefinition}
    (hheld : registry.heldBack[category.className]? =
      some (category.merge (registry.categoriesFor category.className))) :
    registry.holdBack category = registry := by
  have hsame : registry.heldBack.insert category.className
      (category.merge (registry.categoriesFor category.className)) = registry.heldBack := by
    apply Std.ExtTreeMap.ext_getElem?
    intro name
    rw [getElem?_insert_name]
    split
    · next heq => rw [← heq, hheld]
    · rfl
  rw [holdBack, hsame]

end Registry

/-- To apply a category to the classes would put everything where it is. -/
inductive Classes.Includes (classes : Classes) (category : CategoryDefinition) :
    CategoryStatus → Prop
  | waiting (unknown : classes.registry.idOf? category.className = none)
      (held : classes.registry.heldBack[category.className]? =
        some (category.merge (classes.registry.categoriesFor category.className))) :
      Includes classes category .pending
  | merged {id : ClassId} {record : Record}
      (known : classes.registry.idOf? category.className = some id)
      (registered : classes.registry.record? id = some record)
      (held : category.merge record.categories = record.categories)
      (stands : record.isLinked = true →
        ∀ lower ∈ classes.registry.subtree id, classes.StandsAt lower) :
      Includes classes category .applied

namespace Linking

variable {start : Classes} {id : ClassId} {record : Record} {category : CategoryDefinition}
  {status : CategoryStatus}

theorem rebuild_standsAt (hrecord : start.registry.record? id = some record)
    (hierarchy : start.registry.Hierarchy) (housed : start.registry.Housed start.heap) :
    (rebuild id).Leads True start fun _ final => start.CountsOn final ∧
      (record.isLinked = true → ∀ lower ∈ start.registry.subtree id, final.StandsAt lower) := by
  rw [rebuild, leads_bind, leads_get]
  dsimp only
  rw [hrecord]
  dsimp only
  split
  · simp only [leads_bind, leads_report]
    have hnone : ∀ other ∈ ([] : List ClassId), other ∉ [id] → start.StandsAt other :=
      fun other hother => absurd hother List.not_mem_nil
    exact (forM_buildTables_standsAt (hierarchy.explores_subtree hrecord) hierarchy rfl housed
      hnone).mono fun _ final h => ⟨h.1, fun _ => h.2⟩
  · next hpending => exact ⟨rfl, fun hlinked => absurd hlinked hpending⟩

theorem rebuild_again (hrecord : start.registry.record? id = some record)
    (stands : record.isLinked = true →
      ∀ lower ∈ start.registry.subtree id, start.StandsAt lower) :
    (rebuild id).Leads False start fun _ final => start.OnlyCounts final := by
  rw [rebuild, leads_bind, leads_get]
  dsimp only
  rw [hrecord]
  dsimp only
  split
  · next hlinked =>
    simp only [leads_bind, leads_report]
    exact (forM_buildTables_again (stands hlinked)).mono fun _ _ only => ⟨only.heap, only.counts⟩
  · exact ⟨rfl, rfl⟩

theorem applyCategory_includes (consistent : start.registry.Consistent [])
    (housed : start.registry.Housed start.heap) :
    (applyCategory category).Leads True start fun status final => final.Includes category status := by
  rw [applyCategory, leads_bind, leads_get]
  cases hid : start.registry.idOf? category.className with
  | none =>
    simp only [leads_bind, leads_report, leads_onRegistry, leads_pure]
    refine .waiting hid ?_
    rw [categoriesFor, heldBack_holdBack, if_pos rfl, Option.getD_some, category.merge_merge]
  | some id =>
    obtain ⟨standing, hstanding, -⟩ := (consistent.names category.className id).mp hid
    obtain ⟨record, hrecord, -⟩ := Option.map_eq_some_iff.mp hstanding
    simp only [leads_bind, leads_report, leads_onRegistry, leads_pure]
    rw [start.registry.modifyRecord_eq_setRecord hrecord]
    let changed : Record := { record with categories := category.merge record.categories }
    have hget := start.registry.record?_setRecord hrecord (some changed)
    have hchanged : (start.registry.setRecord id (some changed)).record? id = some changed := by
      rw [hget, if_pos rfl]
    have haltered : (start.registry.setRecord id (some changed)).Consistent [] :=
      consistent.transfer (start.registry.standing?_setRecord hrecord rfl) rfl rfl rfl
    have hhoused : (start.registry.setRecord id (some changed)).Housed start.heap := by
      refine housed.transfer Heap.SameTables.refl.samePairs fun other new hnew => ?_
      rw [hget] at hnew
      split at hnew
      · next heq =>
        cases hnew
        exact ⟨record, heq ▸ hrecord, rfl, rfl⟩
      · exact ⟨new, hnew, rfl, rfl⟩
    have hierarchy := haltered.hierarchy fun _ hloose => absurd hloose List.not_mem_nil
    refine (rebuild_standsAt hchanged hierarchy hhoused).mono ?_
    rintro _ final ⟨hcounts, hstands⟩
    have hfinal : final.registry.record? id = some changed := by
      rw [hcounts.record?_eq]
      exact hchanged
    refine .merged ?_ hfinal (category.merge_merge record.categories) ?_
    · rw [hcounts]
      exact hid
    · rw [subtree_congr (children_congr hcounts.record?_eq) (by rw [hcounts])]
      exact hstands

end Linking

theorem Classes.Includes.transfer {start final : Classes} {category : CategoryDefinition}
    {status : CategoryStatus} (includes : start.Includes category status)
    (hheap : final.heap = start.heap) (hregistry : final.registry = start.registry) :
    final.Includes category status := by
  obtain ⟨heap, registry, log⟩ := final
  subst hheap hregistry
  cases includes with
  | waiting unknown held => exact .waiting unknown held
  | merged known registered held stands => exact .merged known registered held stands

theorem Classes.Includes.applyCategory_again {start : Classes} {category : CategoryDefinition}
    {status : CategoryStatus} (includes : start.Includes category status) :
    (Linking.applyCategory category).Leads False start fun reply final =>
      reply = status ∧ start.OnlyCounts final := by
  rw [Linking.applyCategory, Linking.leads_bind, Linking.leads_get]
  cases includes with
  | waiting unknown held =>
    rw [unknown]
    simp only [Linking.leads_bind, Linking.leads_report, Linking.leads_onRegistry, Linking.leads_pure]
    rw [holdBack_eq_self held]
    exact ⟨trivial, rfl, rfl⟩
  | @merged id record known registered held stands =>
    rw [known]
    simp only [Linking.leads_bind, Linking.leads_report, Linking.leads_onRegistry, Linking.leads_pure]
    have hsame : start.registry.modifyRecord id (fun record =>
        { record with categories := category.merge record.categories }) = start.registry := by
      rw [start.registry.modifyRecord_eq_setRecord registered, held, setRecord_eq_self registered]
    rw [hsame]
    let noted : Classes :=
      { start with log := start.log.push (.applied category.name category.className) }
    have hregistered : noted.registry.record? id = some record := registered
    exact (Linking.rebuild_again hregistered stands).mono
      fun _ _ only => ⟨trivial, only.heap, only.counts⟩

end LateBinding
