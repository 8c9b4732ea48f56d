import LateBinding.Proofs.Execution.Onward
import LateBinding.Proofs.Registry.Climbing

/-!
# The metaclasses stand beside their classes

Whatever order the classes came in, a linked class stands right below the class that is registered
under the name of its superclass, and its metaclass right below the metaclass of that. The metaclass of
a root stands below the root itself. All metaclasses below a root are instances of its metaclass, the
metaclass of the root among them.
-/

namespace LateBinding

namespace Classes

variable {policy : CategoryConflictPolicy} {classes : Classes} {id : ClassId}
  {record root : Record}

/-- Where the two sides of a linked class stand, and below which root. -/
structure StandsUnder (classes : Classes) (id : ClassId) (record root : Record) : Prop where
  ancestry : classes.registry.Ancestry id (classes.registry.chain id)
  top : (classes.registry.chain id).getLast? = some root
  tables : ∀ kind, ∃ table, classes.heap.table? ⟨record.pair, kind⟩ = some table
  isa : classes.heap.isa? ⟨record.pair, .plain⟩ = some ⟨record.pair, .metaclass⟩
  isaMetaclass : classes.heap.isa? ⟨record.pair, .metaclass⟩ = some ⟨root.pair, .metaclass⟩
  below : ∀ name, record.superclassName = some name → ∃ parent above,
    classes.registry.idOf? name = some parent ∧ classes.registry.record? parent = some above ∧
      classes.registry.classForName? name = some ⟨above.pair, .plain⟩ ∧
      classes.registry.chain id = record :: classes.registry.chain parent ∧
      ∀ kind, classes.heap.superclass? ⟨record.pair, kind⟩ = some ⟨above.pair, kind⟩
  atTop : record.superclassName = none → root = record ∧
    classes.heap.superclass? ⟨record.pair, .plain⟩ = none ∧
      classes.heap.superclass? ⟨record.pair, .metaclass⟩ = some ⟨record.pair, .plain⟩
  climbs : classes.heap.Climbs ⟨record.pair, .metaclass⟩
    ((classes.registry.chain id).map (·.side .metaclass) ++ [root.side .plain])

theorem Steady.table?_of_pending (steady : classes.Steady policy)
    (hrecord : classes.registry.record? id = some record) (hpending : record.state = .pending)
    (kind : ClassKind) : classes.heap.table? ⟨record.pair, kind⟩ = none := by
  obtain ⟨order, lineage⟩ := steady.settled
  exact steady.onlyLinked _ ((lineage.link_eq_none_iff hrecord).mpr hpending) kind

theorem Steady.below_of_superclassName (steady : classes.Steady policy)
    (hrecord : classes.registry.record? id = some record) (hlinked : record.state ≠ .pending)
    {name : String} (hname : record.superclassName = some name) : ∃ parent above,
      classes.registry.idOf? name = some parent ∧ classes.registry.record? parent = some above ∧
        classes.registry.classForName? name = some ⟨above.pair, .plain⟩ ∧
        classes.registry.chain id = record :: classes.registry.chain parent ∧
        ∀ kind, classes.heap.superclass? ⟨record.pair, kind⟩ = some ⟨above.pair, kind⟩ := by
  have consistent := steady.atRest.consistent
  have hierarchy := steady.atRest.hierarchy
  obtain ⟨htop, hbelow⟩ := consistent.superclassName_eq hrecord
  cases hstate : record.state with
  | pending => exact absurd hstate hlinked
  | linked superclass =>
    cases superclass with
    | none =>
      rw [htop hstate] at hname
      cases hname
    | some parent =>
      have hsuper := (record.superclass?_eq_some_iff parent).mpr hstate
      obtain ⟨above, habove, haboveLinked⟩ := hierarchy.above id parent ⟨record, hrecord, hsuper⟩
      rw [hbelow parent above hstate habove] at hname
      cases hname
      have hid : classes.registry.idOf? above.name = some parent :=
        (consistent.names above.name parent).mpr
          ⟨above.standing, Registry.standing?_of_record habove, rfl⟩
      refine ⟨parent, above, hid, habove, ?_, (hierarchy.chain_of_under hrecord hstate).2,
        steady.inPlace.superclass?_of_under steady.held hrecord hstate habove⟩
      rw [Registry.classForName?, hid, Option.bind_some, habove, Option.bind_some]
      exact if_pos (decide_eq_true haboveLinked)

theorem Steady.top_of_superclassName (steady : classes.Steady policy)
    (hrecord : classes.registry.record? id = some record) (hlinked : record.state ≠ .pending)
    (hname : record.superclassName = none) : record.state = .linked none := by
  obtain ⟨-, hbelow⟩ := steady.atRest.consistent.superclassName_eq hrecord
  cases hstate : record.state with
  | pending => exact absurd hstate hlinked
  | linked superclass =>
    cases superclass with
    | none => rfl
    | some parent =>
      have hsuper := (record.superclass?_eq_some_iff parent).mpr hstate
      obtain ⟨above, habove, -⟩ :=
        steady.atRest.hierarchy.above id parent ⟨record, hrecord, hsuper⟩
      cases hname.symm.trans (hbelow parent above hstate habove)

theorem Steady.standsUnder (steady : classes.Steady policy)
    (hrecord : classes.registry.record? id = some record) (hlinked : record.state ≠ .pending) :
    ∃ root, classes.StandsUnder id record root := by
  have ancestry := steady.atRest.hierarchy.ancestry_chain hrecord hlinked
  obtain ⟨root, hroot⟩ : ∃ root, (classes.registry.chain id).getLast? = some root :=
    ⟨_, List.getLast?_eq_some_getLast ancestry.ne_nil⟩
  refine ⟨root, ancestry, hroot, ?_, steady.held.isa?_plain hrecord,
    steady.inPlace.isa?_metaclass steady.held ancestry hrecord hroot, ?_, ?_,
    steady.inPlace.climbs_metaclass steady.held ancestry hrecord hroot⟩
  · intro kind
    obtain ⟨table, htable, -⟩ := steady.atRest.upToDate.exists_table ancestry hrecord kind
    exact ⟨table, htable⟩
  · intro name hname
    exact steady.below_of_superclassName hrecord hlinked hname
  · intro hname
    have htop := steady.top_of_superclassName hrecord hlinked hname
    rw [steady.atRest.hierarchy.chain_of_root hrecord htop] at hroot
    exact ⟨(Option.some.inj hroot).symm,
      steady.inPlace.superclass?_of_root steady.held hrecord htop⟩

end Classes

namespace Session

variable {options : Options} {session : Session}

/-- In every reachable session a linked class and its metaclass stand in their places, with tables, and
a pending class has no tables. -/
theorem Reachable.stands_in_place (reachable : session.Reachable options) {id : ClassId}
    {record : Record} (hrecord : session.system.registry.record? id = some record) :
    (record.isLinked = true → ∃ root, session.classes.StandsUnder id record root) ∧
      (record.isLinked = false → ∀ kind, session.heap.table? ⟨record.pair, kind⟩ = none) := by
  have steady := reachable.steady
  constructor
  · intro hlinked
    exact Classes.Steady.standsUnder steady hrecord (of_decide_eq_true hlinked)
  · intro hpending
    exact Classes.Steady.table?_of_pending steady hrecord
      (Decidable.not_not.mp (of_decide_eq_false hpending))

/-- The leaf came first. From its metaclass one comes to the metaclass of the root, and then to the
root. -/
theorem stands_in_place_leafFirst :
    let session := ((start {}).afterRegister leafSample).afterRegister rootSample
    session.heap.isa? ⟨⟨0⟩, .metaclass⟩ = some ⟨⟨1⟩, .metaclass⟩ ∧
      session.heap.Climbs ⟨⟨0⟩, .metaclass⟩
        [⟨⟨0⟩, .metaclass⟩, ⟨⟨1⟩, .metaclass⟩, ⟨⟨1⟩, .plain⟩] := by
  intro session
  have reachable : session.Reachable {} :=
    (Reachable.start.afterRegister leafSample).afterRegister rootSample
  have hfacts : (session.system.registry.record? ⟨0⟩).any
        (fun record => record.isLinked && record.pair = ⟨0⟩) = true ∧
      (session.system.registry.chain ⟨0⟩).map (·.pair) = [⟨0⟩, ⟨1⟩] := by
    decide +kernel
  obtain ⟨hany, hchain⟩ := hfacts
  obtain ⟨record, hrecord, hboth⟩ := (Option.any_eq_true _ _).mp hany
  obtain ⟨hlinked, hpair⟩ := Bool.and_eq_true_iff.mp hboth
  obtain ⟨root, stands⟩ := (reachable.stands_in_place hrecord).1 hlinked
  have hroot : root.pair = ⟨1⟩ := by
    have hlast := congrArg (Option.map Record.pair) stands.top
    rw [← List.getLast?_map] at hlast
    exact (Option.some.inj (hlast.symm.trans (congrArg List.getLast? hchain)))
  have hisa := stands.isaMetaclass
  have hclimbs := stands.climbs
  rw [show (fun record : Record => record.side .metaclass) =
      (fun pair : PairId => (⟨pair, .metaclass⟩ : ClassRef)) ∘ Record.pair from rfl,
    ← List.map_map] at hclimbs
  rw [of_decide_eq_true hpair, hroot] at hisa
  rw [of_decide_eq_true hpair, Record.side, hroot,
    show (session.classes.registry.chain ⟨0⟩).map Record.pair = [⟨0⟩, ⟨1⟩] from hchain] at hclimbs
  exact ⟨hisa, hclimbs⟩

end Session

end LateBinding
