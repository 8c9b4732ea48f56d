import LateBinding.Proofs.Execution.Moves
import LateBinding.Proofs.System.Sound
import LateBinding.Proofs.Tables.Resolution

/-!
# What dispatch sees in every reachable session

A session is *reachable* if moves lead to it from the start of a fresh system. Initializers, methods
and forward handlers that run in between make moves as well, so the sessions that they see are
reachable too. In all of them the published tables hold what resolution along the superclasses
finds.
-/

namespace LateBinding

namespace Session

/-- The sessions that moves lead to from a fresh system. -/
inductive Reachable (options : Options) : Session → Prop
  | start : Reachable options (.start options)
  | move {session final : Session} (reachable : Reachable options session)
      (move : session.Move final) : Reachable options final

theorem Move.atRest {start final : Session} {policy : CategoryConflictPolicy}
    (move : start.Move final) (atRest : start.AtRest policy) : final.AtRest policy := by
  have hclosed := fun (before after : Session) (same : before.SameClasses after)
    (h : before.AtRest policy) => h.transfer same
  cases move with
  | @perform _ operation reply run =>
    have keeps : operation.perform.Keeps (Session.AtRest policy) := by
      cases operation with
      | intern name types => exact Act.keeps_intern hclosed name types
      | internAll names => exact Act.keeps_internAll hclosed names
      | applyCategory spec => exact Act.keeps_applyCategory spec
      | unregister name => exact Act.keeps_unregister name
      | addMethod cls sel imp types => exact Act.keeps_addMethod cls sel imp types
      | replaceMethod cls sel imp types => exact Act.keeps_replaceMethod cls sel imp types
      | createInstance cls => exact Act.keeps_createInstance hclosed cls
      | createLiteral slots => exact Act.keeps_createLiteral hclosed slots
      | setSlot object index value => exact Act.keeps_setSlot hclosed object index value
      | registerStatics className objects =>
        exact Act.keeps_registerStatics hclosed className objects
      | setForward handler => exact Act.keeps_setForward hclosed handler
      | shutdown => exact Act.keeps_shutdown
    exact (keeps start atRest).of_ok run
  | @register _ spec _ run => exact (Act.keeps_register spec start atRest).of_ok run
  | @load _ unit imps _ run => exact (Act.keeps_load unit imps start atRest).of_ok run
  | report event => exact atRest.transfer ⟨.refl, rfl⟩
  | markInitialized id => exact atRest.transfer ⟨start.heap.sameTables_markInitialized id, rfl⟩
  | release held => exact atRest.transfer ⟨start.heap.sameTables_release held, rfl⟩

theorem Reachable.atRest {options : Options} {session : Session}
    (reachable : session.Reachable options) : session.AtRest options.categoryConflicts := by
  induction reachable with
  | start => exact atRest_start options
  | move _ move ih => exact move.atRest ih

theorem Reachable.onward {options : Options} {session final : Session}
    (reachable : session.Reachable options) (onward : session.Onward final) :
    final.Reachable options := by
  induction onward with
  | refl => exact reachable
  | tail _ move ih => exact ih.move move

/-- Whatever the programs of a host do, a run that begins in a reachable session ends in one, and so
does one that is cut short. -/
theorem Reachable.run {σ α : Type} {options : Options} {world final : World σ}
    (reachable : world.session.Reachable options) (host : Host σ) (depth : Nat)
    (program : Program σ α) (hrun : (∃ value, host.run depth program world = .ok value final) ∨
      host.run depth program world = .error .tooDeep final) : final.session.Reachable options :=
  reachable.onward (onward_run host depth program hrun)

/-- The chain of a linked class is that of its superclasses, and the tables hold what is found on
it. -/
theorem AtRest.exists_tables {policy : CategoryConflictPolicy} {session : Session}
    (atRest : session.AtRest policy) {id : ClassId} {record : Record}
    (hrecord : session.system.registry.record? id = some record)
    (hlinked : record.isLinked = true) :
    session.system.registry.Ancestry id (session.system.registry.chain id) ∧
      ∀ kind, ∃ table, session.heap.table? ⟨record.pair, kind⟩ = some table ∧ ∀ sel,
        table.get? sel = walkUp policy kind (session.system.registry.chain id) sel := by
  have ancestry := atRest.hierarchy.ancestry_chain hrecord (of_decide_eq_true hlinked)
  refine ⟨ancestry, ?_⟩
  intro kind
  rw [← atRest.policy_eq]
  exact atRest.upToDate.exists_table ancestry hrecord kind

/-- The tables of every linked class hold what walking up its superclasses finds, and so does that
of its metaclass. -/
theorem Reachable.table_eq_walkUp {options : Options} {session : Session}
    (reachable : session.Reachable options) {id : ClassId} {record : Record}
    (hrecord : session.system.registry.record? id = some record)
    (hlinked : record.isLinked = true) :
    session.system.registry.Ancestry id (session.system.registry.chain id) ∧
      ∀ kind, ∃ table, session.heap.table? ⟨record.pair, kind⟩ = some table ∧ ∀ sel,
        table.get? sel = walkUp options.categoryConflicts kind (session.system.registry.chain id)
          sel :=
  reachable.atRest.exists_tables hrecord hlinked

def afterRegister (session : Session) (spec : ClassSpec) : Session :=
  match Act.register spec session with
  | .ok _ final => final
  | .error _ _ => session

theorem Reachable.afterRegister {options : Options} {session : Session}
    (reachable : session.Reachable options) (spec : ClassSpec) :
    (session.afterRegister spec).Reachable options := by
  unfold Session.afterRegister
  cases hrun : Act.register spec session with
  | ok reply final => exact reachable.move (.register hrun)
  | error reason final => exact reachable

def afterPerform (session : Session) (operation : Operation) : Session :=
  match operation.perform session with
  | .ok _ final => final
  | .error _ _ => session

theorem Reachable.afterPerform {options : Options} {session : Session}
    (reachable : session.Reachable options) (operation : Operation) :
    (session.afterPerform operation).Reachable options := by
  unfold Session.afterPerform
  cases hrun : operation.perform session with
  | ok reply final => exact reachable.move (.perform hrun)
  | error reason final => exact reachable

theorem perform_of_reply {session : Session} {operation : Operation} {reply : operation.Reply}
    (hreply : operation.perform.run' session = some reply) :
    operation.perform session = .ok reply (session.afterPerform operation) := by
  unfold EStateM.run' EStateM.run at hreply
  unfold afterPerform
  cases hrun : operation.perform session with
  | ok other final =>
    rw [hrun] at hreply
    cases hreply
    rfl
  | error reason final =>
    rw [hrun] at hreply
    cases hreply

theorem exists_run_of_value {ε α : Type} {session : Session} {action : Act (Except ε α)}
    {value : α} (hvalue : (action.run' session).bind Except.toOption = some value) :
    ∃ final, action session = .ok (.ok value) final := by
  unfold EStateM.run' EStateM.run at hvalue
  cases hrun : action session with
  | ok reply final =>
    rw [hrun] at hvalue
    cases reply with
    | ok other =>
      cases hvalue
      exact ⟨final, rfl⟩
    | error error => cases hvalue
  | error reason final =>
    rw [hrun] at hvalue
    cases hvalue

def leafSample : ClassSpec :=
  { name := "Leaf", superclass := some "Root", size := 0
    methods := ⟨[⟨"ping", none, ⟨1⟩⟩], []⟩, protocols := [] }

def rootSample : ClassSpec :=
  { name := "Root", superclass := none, size := 0
    methods := ⟨[⟨"ping", none, ⟨2⟩⟩, ⟨"pong", none, ⟨3⟩⟩], [⟨"pong", none, ⟨4⟩⟩]⟩
    protocols := [] }

/-- A class that comes before its superclass: the class object inherits `pong` from the metaclass of
the root, and `ping` from the root itself. -/
theorem table_eq_walkUp_leafFirst :
    let session := ((start {}).afterRegister leafSample).afterRegister rootSample
    ∃ record, session.system.registry.record? ⟨0⟩ = some record ∧ record.isLinked = true ∧
      (∃ table, session.heap.table? ⟨record.pair, .metaclass⟩ = some table ∧
        table.get? ⟨1⟩ = some ⟨2⟩ ∧ table.get? ⟨2⟩ = some ⟨4⟩) := by
  intro session
  have hsession : session.Reachable {} :=
    (Reachable.start.afterRegister leafSample).afterRegister rootSample
  have hfound : ((session.system.registry.record? ⟨0⟩).any (·.isLinked)) = true ∧
      walkUp .lastApplied .metaclass (session.system.registry.chain ⟨0⟩) ⟨1⟩ = some ⟨2⟩ ∧
      walkUp .lastApplied .metaclass (session.system.registry.chain ⟨0⟩) ⟨2⟩ = some ⟨4⟩ := by
    decide +kernel
  obtain ⟨hany, hping, hpong⟩ := hfound
  obtain ⟨record, hrecord, hlinked⟩ := (Option.any_eq_true _ _).mp hany
  obtain ⟨-, htables⟩ := hsession.table_eq_walkUp hrecord hlinked
  obtain ⟨table, htable, hget⟩ := htables .metaclass
  exact ⟨record, hrecord, hlinked, table, htable, (hget ⟨1⟩).trans hping, (hget ⟨2⟩).trans hpong⟩

end Session

end LateBinding
