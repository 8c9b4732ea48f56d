import LateBinding.Proofs.Execution.Linked

/-!
# Superclasses link first

A class links only when its superclass is linked, and keeps the superclass that it got. So whatever
links in one call, be it by one class that is registered or by several, one after the other, comes
after its superclass.
-/

namespace LateBinding

open Registry

namespace Registry

variable {start middle final : Registry} {order others : List ClassId} {id : ClassId}
  {superclass other : Option ClassId}

/-- The class is linked and stands below the given one, or below none. -/
def LinkedTo (registry : Registry) (id : ClassId) (superclass : Option ClassId) : Prop :=
  ∃ standing, registry.standing? id = some standing ∧ standing.state = .linked superclass

theorem LinkedTo.unique (linkedTo : final.LinkedTo id superclass)
    (another : final.LinkedTo id other) : superclass = other := by
  obtain ⟨standing, hstanding, hstate⟩ := linkedTo
  obtain ⟨standing', hstanding', hstate'⟩ := another
  cases hstanding.symm.trans hstanding'
  cases hstate.symm.trans hstate'
  rfl

theorem isLinked_iff_linkedTo : final.IsLinked id ↔ ∃ superclass, final.LinkedTo id superclass := by
  constructor
  · intro linked
    obtain ⟨record, hrecord, hne⟩ := linked
    cases hstate : record.state with
    | pending => exact absurd hstate hne
    | linked superclass => exact ⟨superclass, record.standing, standing?_of_record hrecord, hstate⟩
  · intro linked
    obtain ⟨superclass, standing, hstanding, hstate⟩ := linked
    obtain ⟨record, hrecord, rfl⟩ := Option.map_eq_some_iff.mp hstanding
    exact ⟨record, hrecord, Record.ne_pending_of_linked hstate⟩

/-- The classes of a list link and no others do, and none of them links before its superclass. -/
structure LinksTopDown (start final : Registry) (order : List ClassId) : Prop where
  anew : start.LinksAnew final order
  nodup : order.Nodup
  stays : ∀ id superclass, start.LinkedTo id superclass → final.LinkedTo id superclass
  sorted : order.Pairwise fun earlier later => ¬ final.IsBelow earlier later

theorem LinksTopDown.of_stays (hiff : ∀ id, final.IsLinked id ↔ start.IsLinked id)
    (stays : ∀ id superclass, start.LinkedTo id superclass → final.LinkedTo id superclass) :
    start.LinksTopDown final [] where
  anew := .of_isLinked_iff hiff
  nodup := List.nodup_nil
  stays := stays
  sorted := .nil

/-- Who is linked already when the others link stands below none of them. -/
theorem LinksTopDown.trans (first : start.LinksTopDown middle order)
    (hierarchy : middle.Hierarchy) (second : middle.LinksTopDown final others) :
    start.LinksTopDown final (order ++ others) := by
  have hlinked : ∀ id ∈ order, middle.IsLinked id := fun id hid =>
    ((first.anew.mem_iff id).mp hid).1
  have hunlinked : ∀ id ∈ others, ¬ middle.IsLinked id := fun id hid =>
    ((second.anew.mem_iff id).mp hid).2
  have hbelow : ∀ id ∈ order, ∀ parent, final.IsBelow id parent → middle.IsBelow id parent := by
    intro id hid parent hbelow
    obtain ⟨superclass, linkedTo⟩ := isLinked_iff_linkedTo.mp (hlinked id hid)
    have hfinal := isBelow_iff.mp hbelow
    rw [(second.stays id superclass linkedTo).unique hfinal] at linkedTo
    exact isBelow_iff.mpr linkedTo
  constructor
  · exact first.anew.trans second.anew
  · refine List.nodup_append.mpr ⟨first.nodup, second.nodup, ?_⟩
    intro id hid _ hother heq
    exact hunlinked id (heq ▸ hother) (hlinked id hid)
  · exact fun id superclass linkedTo => second.stays id superclass (first.stays id _ linkedTo)
  · refine List.pairwise_append.mpr ⟨?_, second.sorted, ?_⟩
    · refine first.sorted.imp_of_mem fun {earlier later} hmem _ hnot hfinal => ?_
      exact hnot (hbelow earlier hmem later hfinal)
    · intro id hid parent hparent hfinal
      obtain ⟨above, habove, hne⟩ := hierarchy.above id parent (hbelow id hid parent hfinal)
      exact hunlinked parent hparent ⟨above, habove, hne⟩

end Registry

namespace Classes

variable {start final : Classes} {queue order : List ClassId}

theorem Links.linkedTo_iff {linked : Classes} {id : ClassId} {record : Record}
    {superclass : Option ClassId} (links : start.Links id record superclass linked)
    (other : ClassId) (above : Option ClassId) :
    (linked.released record.name).registry.LinkedTo other above ↔
      start.registry.LinkedTo other above ∨ other = id ∧ above = superclass := by
  have hstanding : (linked.released record.name).registry.standing? other =
      (start.registry.markLinked id superclass).standing? other := by
    rw [standing?, released, record?_releaseWaiters, links.registry_eq]
    rfl
  rw [LinkedTo, hstanding, start.registry.standing?_markLinked links.ne, LinkedTo]
  by_cases hid : id = other
  · subst hid
    simp [links.standing, Record.standing, links.pending, eq_comm]
  · have hne : ¬ other = id := Ne.symm hid
    simp [hid, hne]

theorem Cascade.stays (cascade : start.Cascade queue order final) {id : ClassId}
    {superclass : Option ClassId} (linkedTo : start.registry.LinkedTo id superclass) :
    final.registry.LinkedTo id superclass := by
  induction cascade with
  | done => exact linkedTo
  | link links _ ih => exact ih ((links.linkedTo_iff _ _).mpr (.inl linkedTo))

theorem Cascade.sorted (cascade : start.Cascade queue order final) :
    order.Pairwise fun earlier later => ¬ final.registry.IsBelow earlier later := by
  induction cascade with
  | done => exact .nil
  | @link start linked final id queue order record superclass links rest ih =>
    refine List.pairwise_cons.mpr ⟨?_, ih⟩
    intro later hlater hbelow
    have hown := rest.stays ((links.linkedTo_iff id superclass).mpr (.inr ⟨rfl, rfl⟩))
    obtain rfl := hown.unique (isBelow_iff.mp hbelow)
    -- the superclass was linked before the class, so it does not link after it
    obtain ⟨standing, hstanding, hlinked, -⟩ := links.fits
    obtain ⟨above, habove, rfl⟩ := Option.map_eq_some_iff.mp hstanding
    obtain ⟨upper, linkedTo⟩ := isLinked_iff_linkedTo.mp ⟨above, habove, hlinked⟩
    have hstays := (links.linkedTo_iff later upper).mpr (.inl linkedTo)
    exact rest.links_once.2 later hlater (isLinked_iff_linkedTo.mpr ⟨upper, hstays⟩)

theorem Registers.linksTopDown {definition : ClassDefinition}
    (registers : start.Registers definition order final) :
    start.registry.LinksTopDown final.registry order where
  anew := registers.linksAnew
  nodup := registers.links_once.1
  stays id superclass linkedTo := by
    have hentered : (start.entered definition).registry.LinkedTo id superclass := by
      obtain ⟨standing, hstanding, hstate⟩ := linkedTo
      exact ⟨standing, standing?_addRecord_of hstanding, hstate⟩
    cases registers with
    | links _ cascade => exact cascade.stays hentered
    | waits => exact hentered
  sorted := by
    cases registers with
    | links _ cascade => exact cascade.sorted
    | waits => exact .nil

theorem Applies.linksTopDown {category : CategoryDefinition} {status : CategoryStatus}
    (applies : start.Applies category status final) :
    start.registry.LinksTopDown final.registry [] := by
  refine .of_stays applies.isLinked_iff ?_
  cases applies with
  | waits => exact fun _ _ linkedTo => linkedTo
  | merges _ alters =>
    intro other superclass linkedTo
    rw [LinkedTo, alters.rebuilds.registry_eq]
    have hsame := start.registry.standing?_setRecord alters.registered alters.standing
    rw [LinkedTo, ← hsame] at linkedTo
    exact linkedTo

end Classes

end LateBinding
