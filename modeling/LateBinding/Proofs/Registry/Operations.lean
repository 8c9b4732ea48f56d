import LateBinding.Proofs.Registry.Changes
import LateBinding.Proofs.Registry.Definitions

/-!
# What each operation on the classes does

Every operation on a consistent registry without loose classes goes through with one of the changes
of its kind. It can only end everything if it is given, or the registry keeps, a selector that no
table can hold.
-/

namespace LateBinding

open Registry

/-- Both sides of a class have selectors that a table can hold. -/
def ClassDefinition.Addressable (definition : ClassDefinition) : Prop :=
  ∀ kind, LateBinding.Addressable (definition.methods.get kind)

namespace Classes

variable {start : Classes} {definition : ClassDefinition}

theorem consistent_entered (consistent : start.registry.Consistent [])
    (hname : start.registry.idOf? definition.name = none) :
    (start.entered definition).registry.Consistent [start.registry.nextId] :=
  consistent.addRecord hname rfl rfl

theorem standing?_entered (start : Classes) (definition : ClassDefinition) :
    (start.entered definition).registry.standing? start.registry.nextId =
      some (start.newRecord definition).standing := by
  rw [entered, standing?_addRecord, if_pos rfl]

theorem not_mem_waitersOf_entered (consistent : start.registry.Consistent []) (awaited : String) :
    start.registry.nextId ∉ (start.entered definition).registry.waitersOf awaited := by
  intro hwaits
  obtain ⟨standing, hstanding, -⟩ := consistent.waiter awaited _ hwaits
  rw [standing?_nextId] at hstanding
  cases hstanding

theorem addressable_entered (addressable : start.registry.Addressable)
    (hdefinition : definition.Addressable) : (start.entered definition).registry.Addressable where
  records := by
    intro id record hrecord
    rw [entered, record?_addRecord] at hrecord
    split at hrecord
    · cases hrecord
      rw [Record.addressable_iff]
      exact ⟨hdefinition, addressable.heldBack definition.name⟩
    · exact addressable.records id record hrecord
  heldBack := by
    intro name category hcategory
    rw [entered, categoriesFor, heldBack_addRecord] at hcategory
    split at hcategory
    · cases hcategory
    · exact addressable.heldBack name category hcategory

end Classes

theorem Registry.isReady_iff {registry : Registry} {loose : List ClassId}
    (consistent : registry.Consistent loose) (superclass : Option String) :
    registry.isReady superclass = true ↔ ∀ name, superclass = some name →
      ∃ parent above, registry.standing? parent = some above ∧ above.isLinked ∧
        above.name = name := by
  cases superclass with
  | none => simp [isReady]
  | some name =>
    have hstate : registry.isReady (some name) = true ↔
        ∃ parent, registry.idOf? name = some parent ∧
          ∃ record, registry.record? parent = some record ∧ record.state ≠ .pending := by
      simp only [isReady, stateOf?, Option.all_some, Option.any_map, Option.any_eq_true,
        Option.bind_eq_some_iff, decide_eq_true_eq]
      constructor
      · intro h
        obtain ⟨record, ⟨parent, hparent, hrecord⟩, hlinked⟩ := h
        exact ⟨parent, hparent, record, hrecord, hlinked⟩
      · intro h
        obtain ⟨parent, hparent, record, hrecord, hlinked⟩ := h
        exact ⟨record, ⟨parent, hparent, hrecord⟩, hlinked⟩
    rw [hstate]
    constructor
    · rintro ⟨parent, hparent, record, hrecord, hlinked⟩ other heq
      cases heq
      obtain ⟨standing, hstanding, hname⟩ := (consistent.names name parent).mp hparent
      have hget := standing?_of_record hrecord
      rw [hstanding] at hget
      cases hget
      exact ⟨parent, record.standing, hstanding, hlinked, hname⟩
    · intro hlinked
      obtain ⟨parent, above, habove, haboveLinked, hname⟩ := hlinked name rfl
      obtain ⟨record, hrecord, rfl⟩ := Option.map_eq_some_iff.mp habove
      exact ⟨parent, (consistent.names name parent).mpr ⟨_, habove, hname⟩, record, hrecord,
        haboveLinked⟩

namespace Linking

variable {fault : Prop} {start : Classes}

theorem register_leads {definition : ClassDefinition} (consistent : start.registry.Consistent [])
    (hname : start.registry.idOf? definition.name = none)
    (hsafe : fault ∨ start.registry.Addressable ∧ definition.Addressable) :
    (register definition).Leads fault start fun answer final =>
      answer.1 = (start.newRecord definition).pair ∧
        start.Registers definition answer.2 final := by
  have hentered := Classes.consistent_entered consistent hname
  have hnew := start.standing?_entered definition
  have hiff := isReady_iff hentered definition.superclass
  rw [register, leads_bind]
  change Leads _ fault (start.entered definition) _
  dsimp only
  rw [leads_bind, leads_get]
  by_cases hready : (start.entered definition).registry.isReady definition.superclass = true
  · rw [if_pos hready, leads_bind]
    have hfits : ∃ superclass, (start.entered definition).registry.Fits
        (start.newRecord definition).standing superclass := by
      cases hsuper : definition.superclass with
      | none => exact ⟨none, hsuper⟩
      | some name =>
        obtain ⟨parent, above, habove, hlinked, haboveName⟩ := hiff.mp hready name hsuper
        refine ⟨some parent, above, habove, hlinked, ?_⟩
        rw [haboveName]
        exact hsuper
    have ready : (start.entered definition).registry.Ready [start.registry.nextId] := by
      refine ⟨List.nodup_singleton _, ?_, ?_⟩
      · intro id hid
        rw [List.mem_singleton.mp hid]
        exact ⟨_, hnew, rfl, hfits⟩
      · intro id hid
        rw [List.mem_singleton.mp hid]
        exact Classes.not_mem_waitersOf_entered consistent
    have henteredSafe := hsafe.imp_right fun addressable =>
      Classes.addressable_entered addressable.1 addressable.2
    exact (link_leads hentered ready henteredSafe).mono fun order final cascade =>
      ⟨rfl, .links ready cascade⟩
  · rw [if_neg hready]
    cases hsuper : definition.superclass with
    | none =>
      rw [hsuper] at hready
      exact absurd rfl hready
    | some awaited =>
      simp only [leads_bind, leads_report, leads_onRegistry, leads_pure]
      refine ⟨rfl, .waits hsuper ?_⟩
      intro parent above habove hlinked haboveName
      apply hready
      rw [hiff]
      intro name hname
      rw [hsuper] at hname
      cases hname
      exact ⟨parent, above, habove, hlinked, haboveName⟩

theorem applyCategory_leads {category : CategoryDefinition}
    (consistent : start.registry.Consistent [])
    (hsafe : fault ∨ start.registry.Addressable ∧ category.Addressable) :
    (applyCategory category).Leads fault start fun status final =>
      start.Applies category status final := by
  rw [applyCategory, leads_bind, leads_get]
  cases hid : start.registry.idOf? category.className with
  | none =>
    simp only [leads_bind, leads_report, leads_onRegistry, leads_pure]
    exact .waits hid
  | some id =>
    obtain ⟨standing, hstanding, -⟩ := (consistent.names category.className id).mp hid
    obtain ⟨record, hrecord, -⟩ := Option.map_eq_some_iff.mp hstanding
    simp only [leads_bind, leads_report, leads_onRegistry, leads_pure]
    rw [start.registry.modifyRecord_eq_setRecord hrecord]
    let noted : Classes :=
      { start with log := start.log.push (.applied category.name category.className) }
    have hnoted : noted.registry.record? id = some record := hrecord
    have hmerged := hsafe.imp_right fun addressable => And.intro addressable.1
      ((addressable.1.records id record hrecord).merge addressable.2)
    exact (alter_leads hnoted hmerged rfl rfl).mono fun _ final alters => .merges hid alters

theorem addMethod_leads {id : ClassId} {kind : ClassKind} {method : MethodDefinition}
    (hsafe : fault ∨ start.registry.Addressable ∧ method.sel.uid ≤ maxUid) :
    (addMethod id kind method).Leads fault start fun added final =>
      start.Adds id kind method added final := by
  rw [addMethod, leads_bind, leads_get]
  cases hrecord : start.registry.record? id with
  | none => exact .unknown hrecord
  | some record =>
    dsimp only
    cases hdefines : record.defines kind method.sel with
    | true => exact .defined hrecord hdefines
    | false =>
      rw [if_neg Bool.false_ne_true]
      simp only [leads_bind, leads_onRegistry, leads_pure]
      have hadded := hsafe.imp_right fun addressable => And.intro addressable.1
        ((addressable.1.records id record hrecord).add kind addressable.2)
      exact (alter_leads hrecord hadded rfl rfl).mono fun _ final alters => .adds hdefines alters

theorem replaceMethod_leads {id : ClassId} {kind : ClassKind} {method : MethodDefinition}
    (hsafe : fault ∨ start.registry.Addressable ∧ method.sel.uid ≤ maxUid) :
    (replaceMethod id kind method).Leads fault start fun replaced final =>
      start.Replaces id kind method replaced final := by
  rw [replaceMethod, leads_bind, leads_get]
  dsimp only
  cases hrecord : start.registry.record? id with
  | none => exact .unknown hrecord
  | some record =>
    simp only [leads_bind, leads_onRegistry, leads_pure]
    have hreplaced := hsafe.imp_right fun addressable => And.intro addressable.1
      ((addressable.1.records id record hrecord).replaceMethod start.registry.policy kind
        addressable.2)
    exact (alter_leads hrecord hreplaced (record.pair_replaceMethod _ kind method)
      (record.standing_replaceMethod _ kind method)).mono fun _ final alters => .replaces alters

theorem clear_leads : clear.Leads False start fun _ final =>
    final = { start with
      heap := start.registry.classes.foldl (fun heap record => heap.withdraw record.pair) start.heap
      registry := .empty start.registry.policy } := rfl

end Linking

end LateBinding
