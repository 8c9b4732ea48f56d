import LateBinding.Proofs.Registry.Frames
import LateBinding.Proofs.Registry.Hierarchy
import LateBinding.Proofs.Registry.Operations

/-!
# The linker keeps all that waits awake

Whatever operations a registry has gone through, its maps and records agree, and a class is linked
as soon as its chain of superclasses is complete: no class is left waiting for one that has linked,
in whatever order the classes arrive, and none is linked on the strength of a chain that has an end
missing or goes round in a circle.
-/

namespace LateBinding

open Registry

namespace Classes

variable {start final : Classes}

theorem Alters.consistent {id : ClassId} {old new : Record} {loose : List ClassId}
    (alters : start.Alters id old new final) (consistent : start.registry.Consistent loose) :
    final.registry.Consistent loose := by
  rw [alters.rebuilds.registry_eq]
  exact consistent.transfer
    (start.registry.standing?_setRecord alters.registered alters.standing) rfl rfl rfl

theorem Registers.consistent {definition : ClassDefinition} {order : List ClassId}
    (registers : start.Registers definition order final)
    (hname : start.registry.idOf? definition.name = none)
    (consistent : start.registry.Consistent []) : final.registry.Consistent [] := by
  have hentered := consistent_entered consistent hname
  cases registers with
  | links ready cascade => exact cascade.consistent hentered ready
  | waits superclass unlinked =>
    exact hentered.await (start.standing?_entered definition) rfl superclass
      (not_mem_waitersOf_entered consistent) unlinked

theorem Applies.consistent {category : CategoryDefinition} {status : CategoryStatus}
    (applies : start.Applies category status final)
    (consistent : start.registry.Consistent []) : final.registry.Consistent [] := by
  cases applies with
  | waits unknown => exact consistent.holdBack unknown
  | merges _ alters => exact alters.consistent consistent

theorem Adds.consistent {id : ClassId} {kind : ClassKind} {method : MethodDefinition}
    {added : Bool} (adds : start.Adds id kind method added final)
    (consistent : start.registry.Consistent []) : final.registry.Consistent [] := by
  cases adds with
  | unknown => exact consistent
  | defined => exact consistent
  | adds _ alters => exact alters.consistent consistent

theorem Replaces.consistent {id : ClassId} {kind : ClassKind} {method : MethodDefinition}
    {replaced : Option Imp} (replaces : start.Replaces id kind method replaced final)
    (consistent : start.registry.Consistent []) : final.registry.Consistent [] := by
  cases replaces with
  | unknown => exact consistent
  | replaces alters => exact alters.consistent consistent

theorem Removal.consistent {stack : List ClassId} {pairs : List PairId}
    (removal : start.Removal stack pairs final) (consistent : start.registry.Consistent stack) :
    final.registry.Consistent [] := by
  induction removal with
  | done => exact consistent
  | skip gone _ ih => exact ih (consistent.pass gone)
  | remove registered _ ih => exact ih (consistent.takeOut registered)

end Classes

namespace Registry

/-- The registries that an empty one becomes by operations, whatever heap and log go with it. -/
inductive Reachable : Registry → Prop
  | empty (policy : CategoryConflictPolicy) : Reachable (.empty policy)
  | register {start final : Classes} {definition : ClassDefinition} {answer : PairId × List ClassId}
      (reachable : Reachable start.registry) (free : start.registry.idOf? definition.name = none)
      (run : Linking.register definition start = .ok (answer, final)) : Reachable final.registry
  | applyCategory {start final : Classes} {category : CategoryDefinition} {status : CategoryStatus}
      (reachable : Reachable start.registry)
      (run : Linking.applyCategory category start = .ok (status, final)) :
      Reachable final.registry
  | addMethod {start final : Classes} {id : ClassId} {kind : ClassKind}
      {method : MethodDefinition} {added : Bool} (reachable : Reachable start.registry)
      (run : Linking.addMethod id kind method start = .ok (added, final)) :
      Reachable final.registry
  | replaceMethod {start final : Classes} {id : ClassId} {kind : ClassKind}
      {method : MethodDefinition} {replaced : Option Imp} (reachable : Reachable start.registry)
      (run : Linking.replaceMethod id kind method start = .ok (replaced, final)) :
      Reachable final.registry
  | unregister {start final : Classes} {name : String} {id : ClassId} {pairs : List PairId}
      (reachable : Reachable start.registry) (known : start.registry.idOf? name = some id)
      (run : Linking.unregister id start = .ok (pairs, final)) : Reachable final.registry
  | clear {start final : Classes} (reachable : Reachable start.registry)
      (run : Linking.clear start = .ok ((), final)) : Reachable final.registry

theorem Reachable.consistent {registry : Registry} (reachable : registry.Reachable) :
    registry.Consistent [] := by
  induction reachable with
  | empty policy => exact .empty policy
  | register _ free run ih =>
    have registers := ((Linking.register_leads ih free (.inl trivial)).of_ok run).2
    exact registers.consistent free ih
  | applyCategory _ run ih =>
    exact ((Linking.applyCategory_leads ih (.inl trivial)).of_ok run).consistent ih
  | addMethod _ run ih =>
    exact ((Linking.addMethod_leads (.inl trivial)).of_ok run).consistent ih
  | replaceMethod _ run ih =>
    exact ((Linking.replaceMethod_leads (.inl trivial)).of_ok run).consistent ih
  | unregister _ _ run ih =>
    have removal := (Linking.unregister_leads _).of_ok run
    exact removal.consistent (ih.widen fun other hother _ => absurd hother List.not_mem_nil)
  | @clear start final _ run _ =>
    have hfinal := Linking.clear_leads.of_ok run
    rw [hfinal]
    exact .empty start.registry.policy

/-- Following the names of superclasses from a class leads through registered classes to one that
has no superclass. -/
inductive Complete (registry : Registry) : ClassId → Prop
  | root {id : ClassId} {record : Record} (registered : registry.record? id = some record)
      (top : record.superclassName = none) : Complete registry id
  | under {id parent : ClassId} {record : Record} {name : String}
      (registered : registry.record? id = some record)
      (awaited : record.superclassName = some name) (known : registry.idOf? name = some parent)
      (above : Complete registry parent) : Complete registry id

/-- What the maps and records of a registry have in common. -/
structure LinkerSound (registry : Registry) : Prop where
  /-- The names are those of the registered classes, and stand for their numbers. -/
  names : ∀ name id, registry.names[name]? = some id ↔
    ∃ record, registry.record? id = some record ∧ record.name = name
  /-- A class is linked if and only if its chain of superclasses is complete. -/
  linked : ∀ id record, registry.record? id = some record →
    (record.isLinked = true ↔ registry.Complete id)
  /-- A class is pending if and only if it waits under some name. -/
  pending : ∀ id record, registry.record? id = some record →
    (record.state = .pending ↔ ∃ awaited, id ∈ registry.waitersOf awaited)
  /-- Under a name wait, each once, pending classes whose superclass has this name; and names that
  no class waits under are not kept. -/
  waiting : ∀ (awaited : String) waiters, registry.waiting[awaited]? = some waiters →
    waiters ≠ [] ∧ waiters.Nodup ∧ ∀ id ∈ waiters, ∃ record, registry.record? id = some record ∧
      record.state = .pending ∧ record.superclassName = some awaited
  /-- A record lists the linked classes right below it, each once. -/
  subclasses : ∀ id record, registry.record? id = some record → record.subclasses.Nodup ∧
    ∀ child, child ∈ record.subclasses ↔ registry.IsBelow child id
  /-- The superclass of a linked class is linked and has the declared name. -/
  above : ∀ id record parent, registry.record? id = some record →
    record.superclass? = some parent → ∃ above, registry.record? parent = some above ∧
      above.isLinked = true ∧ record.superclassName = some above.name
  /-- No class is above itself. -/
  acyclic : ∀ id, ¬ Relation.TransGen registry.IsBelow id id
  /-- No category is held back for a class that is registered. -/
  heldBack : ∀ name ∈ registry.heldBack, name ∉ registry.names
  /-- Every registered class is counted as linked or as waiting. -/
  counts : registry.linkedCount + registry.pendingCount = registry.size

namespace Consistent

variable {registry : Registry} (consistent : registry.Consistent [])

include consistent

theorem complete_of_linked {id : ClassId} {standing : Standing}
    (hstanding : registry.standing? id = some standing) (hlinked : standing.isLinked) :
    registry.Complete id := by
  obtain ⟨rank, hrank⟩ := consistent.ranked
  -- the superclass of a linked class has a smaller rank
  induction hn : rank id using Nat.strongRecOn generalizing id standing with
  | ind n ih =>
    obtain ⟨record, hrecord, rfl⟩ := Option.map_eq_some_iff.mp hstanding
    cases hstate : record.state with
    | pending => exact absurd hstate hlinked
    | linked superclass =>
      have hfits := consistent.linked id _ superclass hstanding hstate List.not_mem_nil
      cases superclass with
      | none => exact .root hrecord hfits
      | some parent =>
        obtain ⟨above, habove, haboveLinked, hname⟩ := hfits
        have hsmaller : rank parent < n := by
          rw [← hn]
          exact hrank id _ parent hstanding hstate
        exact .under hrecord hname ((consistent.names _ _).mpr ⟨above, habove, rfl⟩)
          (ih (rank parent) hsmaller habove haboveLinked rfl)

theorem linked_of_complete {id : ClassId} (complete : registry.Complete id) {record : Record}
    (hrecord : registry.record? id = some record) : record.state ≠ .pending := by
  induction complete generalizing record with
  | @root id record registered top =>
    intro hpending
    rw [registered] at hrecord
    cases hrecord
    obtain ⟨awaited, hawaited, -⟩ := consistent.pending _ record.standing
      (by rw [standing?, registered, Option.map_some]) hpending List.not_mem_nil
    rw [show record.standing.superclassName = none from top] at hawaited
    cases hawaited
  | @under id parent record name registered awaited known _ ih =>
    intro hpending
    rw [registered] at hrecord
    cases hrecord
    obtain ⟨_, hawaited, hwaits⟩ := consistent.pending _ record.standing
      (by rw [standing?, registered, Option.map_some]) hpending List.not_mem_nil
    cases awaited.symm.trans hawaited
    obtain ⟨standing, hstanding, rfl⟩ := (consistent.names name parent).mp known
    obtain ⟨above, habove, rfl⟩ := Option.map_eq_some_iff.mp hstanding
    rw [consistent.awake parent _ hstanding (ih habove)] at hwaits
    cases hwaits

end Consistent

/-- No operation loses a wake-up or breaks the agreement of the maps with the records. -/
theorem Reachable.linkerSound {registry : Registry} (reachable : registry.Reachable) :
    registry.LinkerSound := by
  have consistent := reachable.consistent
  have hierarchy := consistent.hierarchy fun id hid => absurd hid List.not_mem_nil
  constructor
  case names =>
    intro name id
    change registry.idOf? name = some id ↔ _
    rw [consistent.names]
    simp [standing?, Record.standing]
  case linked =>
    intro id record hrecord
    rw [Record.isLinked, decide_eq_true_eq]
    constructor
    · intro hlinked
      exact consistent.complete_of_linked (standing?_of_record hrecord) hlinked
    · intro complete
      exact consistent.linked_of_complete complete hrecord
  case pending =>
    intro id record hrecord
    constructor
    · intro hpending
      obtain ⟨awaited, -, hwaits⟩ :=
        consistent.pending id _ (standing?_of_record hrecord) hpending List.not_mem_nil
      exact ⟨awaited, hwaits⟩
    · intro h
      obtain ⟨awaited, hwaits⟩ := h
      obtain ⟨standing, hstanding, hpending, -⟩ := consistent.waiter awaited id hwaits
      cases (standing?_of_record hrecord).symm.trans hstanding
      exact hpending
  case waiting =>
    intro awaited waiters hwaiters
    have heq : registry.waitersOf awaited = waiters := by
      rw [waitersOf, hwaiters, Option.getD_some]
    refine ⟨?_, ?_, ?_⟩
    · intro heq
      subst heq
      exact consistent.waitingKept awaited hwaiters
    · rw [← heq]
      exact consistent.waitersNodup awaited
    · intro id hid
      rw [← heq] at hid
      obtain ⟨standing, hstanding, hpending, hawaited⟩ := consistent.waiter awaited id hid
      obtain ⟨record, hrecord, rfl⟩ := Option.map_eq_some_iff.mp hstanding
      exact ⟨record, hrecord, hpending, hawaited⟩
  case subclasses => exact hierarchy.subclasses
  case above =>
    intro id record parent hrecord hparent
    obtain ⟨standing, hstanding, hlinked, hname⟩ := consistent.linked id _ (some parent)
      (standing?_of_record hrecord) ((record.superclass?_eq_some_iff parent).mp hparent) List.not_mem_nil
    obtain ⟨above, habove, rfl⟩ := Option.map_eq_some_iff.mp hstanding
    exact ⟨above, habove, decide_eq_true hlinked, hname⟩
  case acyclic => exact hierarchy.acyclic
  case heldBack =>
    intro name hheld hname
    have hnone := consistent.heldBack name (by
      rw [idOf?, Std.ExtTreeMap.getElem?_eq_some_getElem hname]
      simp)
    rw [Std.ExtTreeMap.getElem?_eq_some_getElem hheld] at hnone
    cases hnone
  case counts =>
    rw [consistent.pendingCount_eq, consistent.size_eq, linkedCount_add_length_pendingIds]

def leafSample : ClassDefinition := ⟨"Leaf", some "Root", 0, .both [], []⟩

def rootSample : ClassDefinition := ⟨"Root", none, 0, .both [], []⟩

/-- The leaf waits, and links along with its superclass. -/
theorem linkerSound_leafFirst : ∃ first second,
    Linking.register leafSample ⟨.empty, .empty .lastApplied, #[]⟩ = .ok first ∧
      first.2.registry.pendingCount = 1 ∧ Linking.register rootSample first.2 = .ok second ∧
      second.2.registry.linkedCount = 2 ∧ second.2.registry.LinkerSound := by
  have hboth : ((Linking.register leafSample ⟨.empty, .empty .lastApplied, #[]⟩).bind fun first =>
      (Linking.register rootSample first.2).map fun second =>
        (first.2.registry.pendingCount, first.2.registry.idOf? "Root",
          second.2.registry.linkedCount)) = .ok (1, none, 2) := by
    decide +kernel
  cases hfirst : Linking.register leafSample ⟨.empty, .empty .lastApplied, #[]⟩ with
  | error reason =>
    rw [hfirst] at hboth
    cases hboth
  | ok first =>
    rw [hfirst] at hboth
    change (Linking.register rootSample first.2).map _ = _ at hboth
    cases hsecond : Linking.register rootSample first.2 with
    | error reason =>
      rw [hsecond] at hboth
      cases hboth
    | ok second =>
      rw [hsecond] at hboth
      have hvalues := Except.ok.inj hboth
      simp only [Prod.mk.injEq] at hvalues
      obtain ⟨hpending, hfree, hlinked⟩ := hvalues
      have hleaf : first.2.registry.Reachable := .register (.empty .lastApplied) rfl hfirst
      have hroot : second.2.registry.Reachable := .register hleaf hfree hsecond
      exact ⟨first, second, rfl, hpending, hsecond, hlinked, hroot.linkerSound⟩

end Registry

end LateBinding
