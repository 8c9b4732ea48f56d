import LateBinding.Proofs.Heap.Pairs
import LateBinding.Proofs.SparseIndex.Compact
import LateBinding.Proofs.Tables.Building

/-!
# Tables without empty leaves

No definition is ever taken out of a table. A table is made from the one above it, or from an empty
one, by storing definitions; when definitions are dropped the table is made anew, and so are all
below it, those above first. So whatever is done to the classes, all tables stay without empty
leaves.
-/

namespace LateBinding

/-- What holds of the result of each step holds of the result of all. -/
theorem Except.of_foldlM_eq_ok {ε α β : Type} {step : β → α → Except ε β} {holds : β → Prop}
    (hstep : ∀ value item next, holds value → step value item = .ok next → holds next)
    {items : List α} {start final : β} (hstart : holds start)
    (hrun : items.foldlM step start = .ok final) : holds final := by
  induction items generalizing start with
  | nil =>
    cases hrun
    exact hstart
  | cons item rest ih =>
    rw [List.foldlM_cons] at hrun
    obtain ⟨next, hnext, hrest⟩ := Except.bind_eq_ok_iff.mp hrun
    exact ih (hstep start item next hstart hnext) hrest

namespace DispatchTable

variable {table made : DispatchTable}

theorem Compact.overlay (compact : table.Compact) {methods : List MethodDefinition}
    (h : table.overlay methods = .ok made) : made.Compact :=
  Except.of_foldlM_eq_ok (fun _ _ _ holds hset => Compact.set holds hset) compact h

theorem compact_compose {above : Option DispatchTable} {layers : List (List MethodDefinition)}
    (habove : ∀ table, above = some table → table.Compact)
    (h : compose above layers = .ok made) : made.Compact := by
  have hstart : (above.getD empty).Compact := by
    cases above with
    | none => exact compact_empty
    | some table => exact habove table rfl
  exact Except.of_foldlM_eq_ok (fun _ _ _ holds hlayer => Compact.overlay holds hlayer) hstart h

end DispatchTable

namespace Heap

variable {heap later : Heap}

/-- All published tables are without empty leaves. -/
def Compact (heap : Heap) : Prop := ∀ cls table, heap.table? cls = some table → table.Compact

theorem compact_empty : Heap.empty.Compact := by
  rintro ⟨pair, kind⟩ table htable
  cases kind <;> cases htable

theorem Compact.transfer (compact : heap.Compact)
    (htables : ∀ cls, later.table? cls = heap.table? cls) : later.Compact := by
  intro cls table htable
  rw [htables] at htable
  exact compact cls table htable

theorem Compact.publish (compact : heap.Compact) (cls : ClassRef) {table : DispatchTable}
    (htable : table.Compact) : (heap.publish cls table).Compact := by
  intro other found hfound
  rw [Heap.table?, Heap.publish, Heap.pair_modifyPair] at hfound
  split at hfound
  · rw [Sided.get_set] at hfound
    split at hfound
    · cases hfound
      exact htable
    · exact compact other found hfound
  · exact compact other found hfound

theorem Compact.withdraw (compact : heap.Compact) (id : PairId) : (heap.withdraw id).Compact := by
  rintro ⟨other, kind⟩ table htable
  by_cases hsame : id = other
  · subst hsame
    rw [heap.table?_withdraw_self] at htable
    cases htable
  · rw [heap.table?_withdraw_of_ne hsame] at htable
    exact compact _ table htable

/-- The two tables of a class are made from tables without empty leaves. -/
theorem Compact.publishTables (compact : heap.Compact) {registry : Registry} {record : Record}
    (h : registry.publishTables record heap = .ok later) : later.Compact := by
  rw [Registry.publishTables_eq] at h
  obtain ⟨plain, hplain, h⟩ := Except.bind_eq_ok_iff.mp h
  obtain ⟨metaclass, hmetaclass, h⟩ := Except.bind_eq_ok_iff.mp h
  cases h
  have plainCompact : plain.Compact := by
    refine DispatchTable.compact_compose ?_ hplain
    intro table habove
    obtain ⟨pair, -, htable⟩ := Option.bind_eq_some_iff.mp habove
    exact compact _ table htable
  have plainPublished := compact.publish ⟨record.pair, .plain⟩ plainCompact
  refine plainPublished.publish _ (DispatchTable.compact_compose ?_ hmetaclass)
  intro table habove
  unfold Registry.aboveMeta at habove
  split at habove
  · exact plainPublished _ table habove
  · cases habove
    exact plainCompact

end Heap

namespace Linking

/-! ### Changes of the classes -/

theorem keepsCompact_buildTables (id : ClassId) : (buildTables id).Keeps Heap.Compact := by
  intro classes compact
  rw [buildTables, leads_bind, leads_get]
  cases classes.registry.record? id with
  | none => exact compact
  | some record =>
    dsimp only
    rw [leads_bind, leads_lift]
    cases hpublish : classes.registry.publishTables record classes.heap with
    | error reason => trivial
    | ok heap => exact compact.publishTables hpublish

theorem keepsCompact_rebuild (id : ClassId) : (rebuild id).Keeps Heap.Compact := by
  apply keeps_get_bind
  intro classes
  dsimp only
  cases classes.registry.record? id with
  | none => exact keeps_pure ()
  | some record =>
    dsimp only
    split
    · exact (Keeps.forM keepsCompact_buildTables _).bind fun _ => keeps_report _
    · exact keeps_pure ()

theorem keepsCompact_linkOne (id : ClassId) : (linkOne id).Keeps Heap.Compact := by
  apply keeps_get_bind
  intro classes
  cases classes.registry.record? id with
  | none => exact keeps_pure none
  | some record =>
    dsimp only
    split
    · exact keeps_pure none
    · have hsetLink : ∀ link, (onHeap (·.setLink record.pair link)).Keeps Heap.Compact :=
        fun link => keeps_onHeap fun heap compact =>
          compact.transfer (heap.sameTables_setLink record.pair link).table?_eq
      refine (keeps_lift _).bind fun parent => ?_
      exact (hsetLink _).bind fun _ => (keeps_onRegistry _).bind fun _ =>
        (keepsCompact_buildTables id).bind fun _ => (keeps_report _).bind fun _ => keeps_pure _

theorem keepsCompact_linkAll (left : Nat) (queue : List ClassId) :
    (linkAll left queue).Keeps Heap.Compact := by
  induction left generalizing queue with
  | zero => exact keeps_pure []
  | succ left ih =>
    cases queue with
    | nil => exact keeps_pure []
    | cons id queue =>
      refine (keepsCompact_linkOne id).bind fun linked => ?_
      cases linked with
      | none => exact ih queue
      | some name =>
        apply keeps_get_bind
        intro classes
        exact (keeps_onRegistry _).bind fun _ => (ih _).bind fun _ => keeps_pure _

theorem keepsCompact_enter (definition : ClassDefinition) :
    (enter definition).Keeps Heap.Compact := by
  intro classes compact
  have same := classes.heap.sameTables_addPair classes.registry.nextId definition.name
    definition.size
  exact compact.transfer same.table?_eq

theorem keepsCompact_register (definition : ClassDefinition) :
    (register definition).Keeps Heap.Compact := by
  refine (keepsCompact_enter definition).bind fun entered => ?_
  apply keeps_get_bind
  intro classes
  dsimp only
  split
  · exact (keeps_get_bind fun _ => keepsCompact_linkAll _ _).bind fun _ => keeps_pure _
  · cases definition.superclass with
    | none => exact keeps_pure _
    | some awaited =>
      exact (keeps_report _).bind fun _ =>
        (keeps_onRegistry (·.await awaited entered.2)).bind fun _ => keeps_pure _

theorem keepsCompact_applyCategory (category : CategoryDefinition) :
    (applyCategory category).Keeps Heap.Compact := by
  apply keeps_get_bind
  intro classes
  cases classes.registry.idOf? category.className with
  | none =>
    exact (keeps_report _).bind fun _ => (keeps_onRegistry _).bind fun _ => keeps_pure _
  | some id =>
    exact (keeps_report _).bind fun _ => (keeps_onRegistry _).bind fun _ =>
      (keepsCompact_rebuild id).bind fun _ => keeps_pure _

theorem keepsCompact_addMethod (id : ClassId) (kind : ClassKind) (definition : MethodDefinition) :
    (addMethod id kind definition).Keeps Heap.Compact := by
  apply keeps_get_bind
  intro classes
  cases classes.registry.record? id with
  | none => exact keeps_pure _
  | some record =>
    dsimp only
    split
    · exact keeps_pure _
    · exact (keeps_onRegistry _).bind fun _ => (keepsCompact_rebuild id).bind fun _ => keeps_pure _

theorem keepsCompact_replaceMethod (id : ClassId) (kind : ClassKind)
    (definition : MethodDefinition) : (replaceMethod id kind definition).Keeps Heap.Compact := by
  apply keeps_get_bind
  intro classes
  dsimp only
  cases classes.registry.record? id with
  | none => exact keeps_pure _
  | some record =>
    exact (keeps_onRegistry _).bind fun _ => (keepsCompact_rebuild id).bind fun _ => keeps_pure _

theorem keepsCompact_removeOne (id : ClassId) (record : Record) :
    (removeOne id record).Keeps Heap.Compact := by
  have hwithdraw : (onHeap (·.withdraw record.pair)).Keeps Heap.Compact :=
    keeps_onHeap fun heap compact => compact.withdraw record.pair
  exact (keeps_onRegistry _).bind fun _ => hwithdraw.bind fun _ => keeps_report _

theorem keepsCompact_removeAll (left : Nat) (stack : List ClassId) :
    (removeAll left stack).Keeps Heap.Compact := by
  induction left generalizing stack with
  | zero => exact keeps_pure []
  | succ left ih =>
    cases stack with
    | nil => exact keeps_pure []
    | cons top stack =>
      apply keeps_get_bind
      intro classes
      dsimp only
      split
      · exact keeps_pure []
      · next id rest _ =>
        cases classes.registry.record? id with
        | none => exact keeps_pure []
        | some record =>
          exact (keepsCompact_removeOne id record).bind fun _ => (ih _).bind fun _ => keeps_pure _

theorem keepsCompact_unregister (id : ClassId) : (unregister id).Keeps Heap.Compact :=
  keeps_get_bind fun _ => keepsCompact_removeAll _ _

theorem keepsCompact_clear : clear.Keeps Heap.Compact := by
  apply keeps_get_bind
  intro classes
  have hwithdraw : ∀ (records : List Record) (heap : Heap), heap.Compact →
      (records.foldl (fun heap record => heap.withdraw record.pair) heap).Compact := by
    intro records
    induction records with
    | nil => exact fun heap compact => compact
    | cons record rest ih => exact fun heap compact => ih _ (compact.withdraw record.pair)
  exact (keeps_onHeap (hwithdraw _)).bind fun _ => keeps_onRegistry _

end Linking

end LateBinding
