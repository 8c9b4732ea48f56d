import LateBinding.Proofs.Execution.Onward
import LateBinding.Proofs.Tables.Compact

/-!
# What tables take up

In every reachable session the published tables have as many leaves as the selectors that they
implement have different high parts, and as many entries as there are selectors that walking up the
superclasses finds something for. That stays so when a category is applied again with fewer methods.
-/

namespace LateBinding

/-- All published tables of a session are without empty leaves. -/
def Session.Compact (session : Session) : Prop := session.heap.Compact

namespace Act

variable {α : Type}

theorem compact_of_same (start final : Session) (same : start.SameClasses final)
    (compact : start.Compact) : final.Compact :=
  Heap.Compact.transfer compact same.tables.table?_eq

theorem keepsCompact_onClasses {change : Linking α} (keeps : change.Keeps Heap.Compact) :
    (onClasses change).Keeps Session.Compact := by
  intro session compact
  rw [leads_onClasses]
  exact keeps session.classes compact

theorem keepsCompact_enterClass (spec : ClassSpec) : (enterClass spec).Keeps Session.Compact :=
  (keeps_defineMethods compact_of_same spec.methods).bind fun _ =>
    keepsCompact_onClasses (Linking.keepsCompact_register _)

theorem keepsCompact_enterClasses (specs : List ClassSpec) :
    (enterClasses specs).Keeps Session.Compact := by
  have keeps : ∀ spec, (Prod.snd <$> enterClass spec).Keeps Session.Compact := fun spec =>
    (keepsCompact_enterClass spec).map _
  exact (Keeps.mapM keeps).bind fun _ => keeps_pure _

theorem keepsCompact_register (spec : ClassSpec) : (register spec).Keeps Session.Compact := by
  apply keeps_get_bind
  intro session compact
  split
  · exact compact
  · have keeps : (do
        let entered ← enterClass spec
        let pairs ← finishLinking entered.2
        return .ok (entered.1, pairs) :
          Act (Except RegistryError (PairId × List PairId))).Keeps Session.Compact :=
      (keepsCompact_enterClass spec).bind fun entered =>
        (keeps_finishLinking compact_of_same entered.2).bind fun _ => keeps_pure _
    exact keeps session compact

theorem keepsCompact_applyCategory (spec : CategorySpec) :
    (applyCategory spec).Keeps Session.Compact :=
  (keeps_defineMethods compact_of_same spec.methods).bind fun _ =>
    keepsCompact_onClasses (Linking.keepsCompact_applyCategory _)

theorem keepsCompact_unregister (name : String) : (unregister name).Keeps Session.Compact := by
  apply keeps_get_bind
  intro session compact
  cases session.system.registry.idOf? name with
  | none => exact compact
  | some id =>
    have keeps := (keepsCompact_onClasses (Linking.keepsCompact_unregister id)).bind fun pairs =>
      keeps_pure (.ok pairs : Except RegistryError (List PairId))
    exact keeps session compact

theorem keepsCompact_addMethod (cls : ClassRef) (sel : Sel) (imp : Imp) (types : Option String) :
    (addMethod cls sel imp types).Keeps Session.Compact := by
  refine (keeps_resolveMethod compact_of_same cls sel imp types).bind fun resolved => ?_
  cases resolved with
  | error error => exact keeps_pure _
  | ok target =>
    exact (keepsCompact_onClasses (Linking.keepsCompact_addMethod target.1 cls.kind target.2)).bind
      fun _ => keeps_pure _

theorem keepsCompact_replaceMethod (cls : ClassRef) (sel : Sel) (imp : Imp)
    (types : Option String) : (replaceMethod cls sel imp types).Keeps Session.Compact := by
  refine (keeps_resolveMethod compact_of_same cls sel imp types).bind fun resolved => ?_
  cases resolved with
  | error error => exact keeps_pure _
  | ok target =>
    exact (keepsCompact_onClasses
      (Linking.keepsCompact_replaceMethod target.1 cls.kind target.2)).bind fun _ => keeps_pure _

theorem keepsCompact_shutdown : shutdown.Keeps Session.Compact := by
  apply keeps_get_bind
  intro session compact
  have keeps : (do
      session.system.shutdownReport.events.forM report
      onClasses Linking.clear
      onSystem fun system =>
        { system with selectors := system.selectors.clear, statics := [], forward := none }
      return session.system.shutdownReport : Act ShutdownReport).Keeps Session.Compact :=
    (Keeps.forM (keeps_report compact_of_same)).bind fun _ =>
      (keepsCompact_onClasses Linking.keepsCompact_clear).bind fun _ =>
        Keeps.bind (fun _ h => h) fun _ => keeps_pure _
  exact keeps session compact

theorem keepsCompact_execute (unit : LoadUnit) (classes : List ClassSpec)
    (categories : List CategorySpec) : (execute unit classes categories).Keeps Session.Compact := by
  have hintern : ∀ ref : SelectorRef,
      (discard (intern ref.name ref.types) : Act PUnit).Keeps Session.Compact := fun ref =>
    (keeps_intern compact_of_same ref.name ref.types).map _
  refine (Keeps.forM hintern).bind fun _ => ?_
  refine (keepsCompact_enterClasses classes).bind fun linked => ?_
  refine (Keeps.mapM keepsCompact_applyCategory).bind fun statuses => ?_
  refine (keeps_finishLinking compact_of_same linked).bind fun pairs => ?_
  refine (Keeps.mapM (keeps_createStatics compact_of_same)).bind fun statics => ?_
  apply keeps_get_bind
  intro session compact
  exact ((keeps_report compact_of_same _).bind fun _ => keeps_pure _) session compact

theorem keepsCompact_load (unit : LoadUnit) (imps : String → Option Imp) :
    (load unit imps).Keeps Session.Compact := by
  apply keeps_get_bind
  intro session compact
  cases unit.resolve imps session.system.registry with
  | error error => exact compact
  | ok declared =>
    have keeps := (keepsCompact_execute unit declared.1 declared.2).bind fun answer =>
      keeps_pure (.ok answer : Except LoadError (LoadReport × List PairId))
    exact keeps session compact

theorem keepsCompact_perform (operation : Operation) : operation.perform.Keeps Session.Compact := by
  cases operation with
  | intern name types => exact keeps_intern compact_of_same name types
  | internAll names => exact keeps_internAll compact_of_same names
  | applyCategory spec => exact keepsCompact_applyCategory spec
  | unregister name => exact keepsCompact_unregister name
  | addMethod cls sel imp types => exact keepsCompact_addMethod cls sel imp types
  | replaceMethod cls sel imp types => exact keepsCompact_replaceMethod cls sel imp types
  | createInstance cls => exact keeps_createInstance compact_of_same cls
  | createLiteral slots => exact keeps_createLiteral compact_of_same slots
  | setSlot object index value => exact keeps_setSlot compact_of_same object index value
  | registerStatics className objects =>
    exact keeps_registerStatics compact_of_same className objects
  | setForward handler => exact keeps_setForward compact_of_same handler
  | shutdown => exact keepsCompact_shutdown

end Act

namespace Session

variable {options : Options} {start session final : Session}

theorem Move.compact (move : start.Move final) (compact : start.Compact) : final.Compact := by
  cases move with
  | @perform _ operation reply run =>
    exact (Act.keepsCompact_perform operation start compact).of_ok run
  | @register _ spec _ run => exact (Act.keepsCompact_register spec start compact).of_ok run
  | @load _ unit imps _ run => exact (Act.keepsCompact_load unit imps start compact).of_ok run
  | report event => exact compact
  | markInitialized id =>
    exact Heap.Compact.transfer compact (start.heap.sameTables_markInitialized id).table?_eq
  | release held =>
    exact Heap.Compact.transfer compact (start.heap.sameTables_release held).table?_eq

theorem Reachable.compact (reachable : session.Reachable options) : session.Compact := by
  induction reachable with
  | start => exact Heap.compact_empty
  | move _ move ih => exact move.compact ih

/-- In every reachable session a published table has as many leaves as the selectors that it
implements have different high parts, and as many entries as walking up from its class finds
selectors. After a category was applied, even again with fewer methods, no table has a leaf that
holds nothing. -/
theorem Reachable.memory_follows_selectors (reachable : session.Reachable options) :
    (∀ cls table, session.heap.table? cls = some table →
      table.leafCount = (table.implemented.image fun sel => sel.uid / 256).card ∧
      table.size = table.implemented.card ∧
      (∀ sel, sel ∈ table.implemented ↔ table.get? sel ≠ none) ∧
      ∃ id record, session.system.registry.record? id = some record ∧ record.pair = cls.pair ∧
        session.system.registry.Ancestry id (session.system.registry.chain id) ∧
        ∀ sel, sel ∈ table.implemented ↔ walkUp options.categoryConflicts cls.kind
          (session.system.registry.chain id) sel ≠ none) ∧
    ∀ spec status final, (Operation.applyCategory spec).perform session = .ok status final →
      ∀ cls table, final.heap.table? cls = some table → ∀ leaf, table.index.HasLeaf leaf →
        ∃ uid, SparseIndex.leafOf uid = leaf ∧ table.index.lookup uid ≠ none := by
  constructor
  · intro cls table htable
    have compact := reachable.compact cls table htable
    refine ⟨compact.leafCount_eq_card, table.size_eq_card,
      fun _ => DispatchTable.mem_implemented, ?_⟩
    have hlinked : session.heap.isLinked cls = true := by
      rw [Heap.isLinked, htable]
      rfl
    obtain ⟨id, record, hrecord, hpair, hstate⟩ :=
      (Classes.Steady.isLinked_iff reachable.steady cls).mp hlinked
    obtain ⟨ancestry, htables⟩ := reachable.atRest.exists_tables hrecord (decide_eq_true hstate)
    obtain ⟨found, hfound, hget⟩ := htables cls.kind
    rw [hpair] at hfound
    cases htable.symm.trans hfound
    refine ⟨id, record, hrecord, hpair, ancestry, ?_⟩
    intro sel
    rw [DispatchTable.mem_implemented, hget]
  · intro spec status final hrun cls table htable
    exact (reachable.move (.perform hrun)).compact cls table htable

def bareSample : ClassSpec :=
  { name := "Bare", superclass := none, size := 0, methods := ⟨[], []⟩, protocols := [] }

def barePingSample : CategorySpec :=
  { name := "Extra", className := "Bare", methods := ⟨[⟨"ping", none, ⟨1⟩⟩], []⟩, protocols := [] }

/-- A category brings the only method of a class, and no longer does when it is applied again: the
table had one leaf and has none. -/
theorem memory_follows_selectors_dropped :
    let before := ((Session.start {}).afterRegister bareSample).afterPerform
      (.applyCategory barePingSample)
    let dropped : CategorySpec := { barePingSample with methods := ⟨[], []⟩ }
    let after := before.afterPerform (.applyCategory dropped)
    before.Reachable {} ∧ (∃ table, before.heap.table? ⟨⟨0⟩, .plain⟩ = some table ∧
      table.leafCount = 1 ∧ (table.implemented.image fun sel => sel.uid / 256).card = 1) ∧
    ∃ table, after.heap.table? ⟨⟨0⟩, .plain⟩ = some table ∧ table.leafCount = 0 ∧
      ∀ leaf, table.index.HasLeaf leaf →
        ∃ uid, SparseIndex.leafOf uid = leaf ∧ table.index.lookup uid ≠ none := by
  intro before dropped after
  have reachable : before.Reachable {} :=
    (Reachable.start.afterRegister bareSample).afterPerform (.applyCategory barePingSample)
  obtain ⟨hfull, happlied⟩ := reachable.memory_follows_selectors
  have hcounts : (before.heap.table? ⟨⟨0⟩, .plain⟩).map (·.leafCount) = some 1 ∧
      (after.heap.table? ⟨⟨0⟩, .plain⟩).map (·.leafCount) = some 0 ∧
      ((Operation.applyCategory dropped).perform.run' before).isSome = true := by
    decide +kernel
  obtain ⟨hbefore, hafter, hreplies⟩ := hcounts
  obtain ⟨table, htable, hone⟩ := Option.map_eq_some_iff.mp hbefore
  obtain ⟨emptied, hemptied, hzero⟩ := Option.map_eq_some_iff.mp hafter
  obtain ⟨status, hstatus⟩ := Option.isSome_iff_exists.mp hreplies
  refine ⟨reachable, ⟨table, htable, hone, (hfull _ table htable).1.symm.trans hone⟩, emptied,
    hemptied, hzero, ?_⟩
  exact happlied dropped status after (perform_of_reply hstatus) _ emptied hemptied

end Session

end LateBinding
