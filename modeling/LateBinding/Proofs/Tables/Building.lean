import LateBinding.Proofs.Heap.Pairs
import LateBinding.Proofs.Registry.Outcome
import LateBinding.Proofs.Tables.Composition

/-!
# What building tables changes

Building the tables of a class changes the two tables of its pair and a counter, and nothing else.
Both tables follow from what the class implements itself and from the tables above it as they are at
that time.
-/

namespace LateBinding

namespace Registry

/-- The tables of a class follow those above it, the one of a root metaclass that of the class
itself. -/
structure Publishes (registry : Registry) (record : Record) (heap : Heap)
    (plain metaclass : DispatchTable) : Prop where
  instances : ∀ sel, plain.get? sel =
    (record.implementation? registry.policy .plain sel).or
      ((registry.parentPair? record).bind fun parent => heap.lookup ⟨parent, .plain⟩ sel)
  classObject : ∀ sel, metaclass.get? sel =
    (record.implementation? registry.policy .metaclass sel).or
      (match registry.parentPair? record with
      | some parent => heap.lookup ⟨parent, .metaclass⟩ sel
      | none => plain.get? sel)

variable (registry : Registry) {record : Record} (heap : Heap)

def aboveMeta (record : Record) (plain : DispatchTable) : Option DispatchTable :=
  match registry.parentPair? record with
  | some pair => (heap.publish ⟨record.pair, .plain⟩ plain).table? ⟨pair, .metaclass⟩
  | none => some plain

theorem publishTables_eq (record : Record) :
    registry.publishTables record heap =
      (DispatchTable.compose ((registry.parentPair? record).bind fun pair =>
          heap.table? ⟨pair, .plain⟩) (record.layers registry.policy .plain)) >>= fun plain =>
        DispatchTable.compose (registry.aboveMeta heap record plain)
          (record.layers registry.policy .metaclass) >>= fun metaclass =>
          .ok ((heap.publish ⟨record.pair, .plain⟩ plain).publish ⟨record.pair, .metaclass⟩
            metaclass) := rfl

theorem publishTables_ok (haddressable : record.Addressable) :
    ∃ plain metaclass, registry.publishTables record heap =
        .ok (heap.withTables record.pair plain metaclass) ∧
      registry.Publishes record heap plain metaclass := by
  have hlayers := (record.addressable_layers_iff registry.policy).mpr haddressable
  obtain ⟨plain, hplain, hplainGet⟩ := (DispatchTable.holds_compose
    ((registry.parentPair? record).bind fun pair => heap.table? ⟨pair, .plain⟩)
    (record.layers registry.policy .plain)).ok (hlayers .plain)
  obtain ⟨metaclass, hmetaclass, hmetaclassGet⟩ := (DispatchTable.holds_compose
    (registry.aboveMeta heap record plain)
    (record.layers registry.policy .metaclass)).ok (hlayers .metaclass)
  refine ⟨plain, metaclass, ?_, ?_, ?_⟩
  · rw [publishTables_eq, hplain]
    change DispatchTable.compose _ _ >>= _ = _
    rw [hmetaclass, ← heap.publish_publish]
    rfl
  · intro sel
    rw [hplainGet, Record.findSome?_layers, Option.bind_assoc]
    rfl
  · intro sel
    rw [hmetaclassGet, Record.findSome?_layers, aboveMeta]
    congr 1
    cases registry.parentPair? record with
    | none => rfl
    | some pair =>
      dsimp only
      rw [Heap.table?_publish_plain]
      rfl

theorem publishTables_error (hunaddressable : ¬ record.Addressable) :
    ∃ reason, registry.publishTables record heap = .error reason := by
  rw [← record.addressable_layers_iff registry.policy] at hunaddressable
  have hplain := DispatchTable.holds_compose
    ((registry.parentPair? record).bind fun pair => heap.table? ⟨pair, .plain⟩)
    (record.layers registry.policy .plain)
  rw [publishTables_eq]
  cases hmade : DispatchTable.compose ((registry.parentPair? record).bind fun pair =>
      heap.table? ⟨pair, .plain⟩) (record.layers registry.policy .plain) with
  | error reason => exact ⟨reason, rfl⟩
  | ok plain =>
    rw [hmade] at hplain
    have hmetaclass := DispatchTable.holds_compose (registry.aboveMeta heap record plain)
      (record.layers registry.policy .metaclass)
    have hnot : ¬ ∀ methods ∈ record.layers registry.policy .metaclass,
        LateBinding.Addressable methods := by
      intro hmeta
      apply hunaddressable
      intro h
      rcases h with _ | _
      · exact hplain.1
      · exact hmeta
    obtain ⟨reason, hreason⟩ := hmetaclass.error hnot
    refine ⟨reason, ?_⟩
    change DispatchTable.compose _ _ >>= _ = _
    rw [hreason]
    rfl

end Registry

structure Classes.Builds (start : Classes) (id : ClassId) (record : Record) (built : Classes) :
    Prop where
  registered : start.registry.record? id = some record
  addressable : record.Addressable
  registry : built.registry = { start.registry with builds := start.registry.builds + 2 }
  log : built.log = start.log
  heap : ∃ plain metaclass, built.heap = start.heap.withTables record.pair plain metaclass ∧
    start.registry.Publishes record start.heap plain metaclass

namespace Linking

theorem buildTables_leads {fault : Prop} {start : Classes} {id : ClassId} {record : Record}
    (hrecord : start.registry.record? id = some record)
    (hsafe : fault ∨ record.Addressable) :
    (buildTables id).Leads fault start fun _ built => start.Builds id record built := by
  rw [buildTables, leads_bind, leads_get, hrecord]
  dsimp only
  rw [leads_bind, leads_lift]
  by_cases haddressable : record.Addressable
  · obtain ⟨plain, metaclass, hpublished, hpublishes⟩ :=
      start.registry.publishTables_ok start.heap haddressable
    rw [hpublished]
    exact ⟨hrecord, haddressable, rfl, rfl, plain, metaclass, rfl, hpublishes⟩
  · obtain ⟨reason, hreason⟩ := start.registry.publishTables_error start.heap haddressable
    rw [hreason]
    exact hsafe.resolve_right haddressable

end Linking

end LateBinding
