import LateBinding.Proofs.Execution.Aborts
import LateBinding.Proofs.Execution.Onward
import LateBinding.Proofs.Tables.Providers

/-!
# Adding and replacing methods

A method that is replaced, or added where there was none, changes one definition of one class. The new
implementation is found wherever the search for the selector comes to that side of the class, on either
side of all classes below, and on the class side of all if the class is a root. Every other lookup
finds what it found before.
-/

namespace LateBinding

open Registry

/-- The search for a selector on the way up from a side of a linked class ends at a side. -/
def Registry.ResolvesTo (registry : Registry) (cls : ClassRef) (sel : Sel) (place : ClassRef) : Prop :=
  ∃ id record, registry.record? id = some record ∧ record.isLinked = true ∧
    record.pair = cls.pair ∧ provider? cls.kind (registry.chain id) sel = some place

namespace Classes

variable {policy : CategoryConflictPolicy} {start final : Classes} {id other : ClassId}
  {old new record : Record} {kind : ClassKind} {sel : Sel} {imp : Imp}

/-- One side of one class implements one selector anew. -/
structure Redefines (start final : Classes) (policy : CategoryConflictPolicy) (id : ClassId)
    (old : Record) (kind : ClassKind) (sel : Sel) (imp : Imp) : Prop where
  own : ∃ new, final.registry.record? id = some new ∧ old.Redefines new policy kind sel imp
  others : ∀ other, other ≠ id → final.registry.record? other = start.registry.record? other
  heldBack : final.registry.heldBack = start.registry.heldBack
  table : old.isLinked = true → final.heap.lookup (old.side kind) sel = some imp
  through : ∀ cls, start.registry.ResolvesTo cls sel (old.side kind) ∨
    final.registry.ResolvesTo cls sel (old.side kind) → final.heap.lookup cls sel = some imp
  elsewhere : ∀ cls other, (other = sel → ¬ start.registry.ResolvesTo cls sel (old.side kind) ∧
    ¬ final.registry.ResolvesTo cls sel (old.side kind)) →
      final.heap.lookup cls other = start.heap.lookup cls other

theorem Steady.lookup_eq_walkUp (steady : start.Steady policy)
    (hrecord : start.registry.record? id = some record) (hlinked : record.state ≠ .pending)
    (kind : ClassKind) (sel : Sel) : start.heap.lookup (record.side kind) sel =
      walkUp policy kind (start.registry.chain id) sel := by
  have ancestry := steady.atRest.hierarchy.ancestry_chain hrecord hlinked
  obtain ⟨table, htable, hget⟩ := steady.atRest.upToDate.exists_table ancestry hrecord kind
  rw [Heap.lookup, Record.side, htable, Option.bind_some, hget, steady.atRest.policy_eq]

theorem Steady.resolvesTo_iff (steady : start.Steady policy)
    (hrecord : start.registry.record? id = some record) (hlinked : record.state ≠ .pending)
    (kind : ClassKind) (sel : Sel) (place : ClassRef) :
    start.registry.ResolvesTo (record.side kind) sel place ↔
      provider? kind (start.registry.chain id) sel = some place := by
  constructor
  · rintro ⟨other, another, hother, -, hpair, hplace⟩
    rw [← steady.atRest.upToDate.housed.id_unique hother hrecord hpair]
    exact hplace
  · intro hplace
    exact ⟨id, record, hrecord, decide_eq_true hlinked, rfl, hplace⟩

/-- Where no linked class is, nothing is found and no search begins. -/
theorem Steady.lookup_of_unlinked (steady : start.Steady policy) {cls : ClassRef}
    (hnone : start.heap.isLinked cls = false) (sel : Sel) (place : ClassRef) :
    start.heap.lookup cls sel = none ∧ ¬ start.registry.ResolvesTo cls sel place := by
  constructor
  · rw [Heap.isLinked, Option.isSome_eq_false_iff, Option.isNone_iff_eq_none] at hnone
    rw [Heap.lookup, hnone, Option.bind_none]
  · rintro ⟨id, record, hrecord, hlinked, hpair, -⟩
    rw [(steady.isLinked_iff cls).mpr ⟨id, record, hrecord, hpair, of_decide_eq_true hlinked⟩]
      at hnone
    cases hnone

/-! ### The chains afterwards -/

theorem Alters.record?_succeed (alters : start.Alters id old new final)
    (housed : start.registry.Housed start.heap)
    (hrecord : start.registry.record? other = some record) :
    final.registry.record? other = some (record.succeed old new) ∧
      (record.succeed old new).state = record.state := by
  rw [alters.record?_eq]
  by_cases heq : id = other
  · subst heq
    cases alters.registered.symm.trans hrecord
    rw [if_pos rfl, Record.succeed, if_pos rfl]
    exact ⟨rfl, congrArg Standing.state alters.standing⟩
  · have hpair := housed.pair_ne hrecord alters.registered (Ne.symm heq)
    rw [if_neg heq, Record.succeed, if_neg hpair]
    exact ⟨hrecord, rfl⟩

/-- A class that is altered keeps its place, so the chains lead through the same classes. -/
theorem Alters.ancestry (alters : start.Alters id old new final)
    (housed : start.registry.Housed start.heap) {chain : List Record}
    (ancestry : start.registry.Ancestry other chain) :
    final.registry.Ancestry other (chain.map (·.succeed old new)) := by
  induction ancestry with
  | root registered top =>
    obtain ⟨hrecord, hstate⟩ := alters.record?_succeed housed registered
    exact .root hrecord (hstate.trans top)
  | under registered linked _ ih =>
    obtain ⟨hrecord, hstate⟩ := alters.record?_succeed housed registered
    exact .under hrecord (hstate.trans linked) ih

/-- What is found on the way up from the sides of a linked class, before and after. -/
theorem Alters.lookup_cases (alters : start.Alters id old new final) (steady : start.Steady policy)
    (steadyFinal : final.Steady policy) (redefines : old.Redefines new policy kind sel imp)
    (hrecord : start.registry.record? other = some record) (hlinked : record.state ≠ .pending)
    (side : ClassKind) (asked : Sel) :
    asked = sel ∧ final.registry.ResolvesTo (record.side side) sel (old.side kind) ∧
        final.heap.lookup (record.side side) asked = some imp ∨
      (asked = sel → ¬ start.registry.ResolvesTo (record.side side) sel (old.side kind) ∧
        ¬ final.registry.ResolvesTo (record.side side) sel (old.side kind)) ∧
        final.heap.lookup (record.side side) asked = start.heap.lookup (record.side side) asked := by
  have housed := steady.atRest.upToDate.housed
  have ancestry := steady.atRest.hierarchy.ancestry_chain hrecord hlinked
  have hlater := alters.ancestry housed ancestry
  obtain ⟨hrecordLater, hstate⟩ := alters.record?_succeed housed hrecord
  rw [← hstate] at hlinked
  have hchain := (steadyFinal.atRest.hierarchy.ancestry_chain hrecordLater hlinked).unique hlater
  have hown : ∀ lower ∈ start.registry.chain other, lower.pair = old.pair → lower = old := by
    intro lower hmem hpair
    obtain ⟨own, hlower⟩ := ancestry.registered lower hmem
    obtain rfl : own = id := housed.id_unique hlower alters.registered hpair
    exact Option.some.inj (hlower.symm.trans alters.registered)
  have hside := Record.side_succeed redefines.pair record side
  rw [steady.resolvesTo_iff hrecord (hstate ▸ hlinked),
    steady.lookup_eq_walkUp hrecord (hstate ▸ hlinked), ← hside,
    steadyFinal.resolvesTo_iff hrecordLater hlinked,
    steadyFinal.lookup_eq_walkUp hrecordLater hlinked, hchain]
  exact redefines.walkUp_cases hown side asked

theorem Alters.redefines (alters : start.Alters id old new final) (steady : start.Steady policy)
    (steadyFinal : final.Steady policy) (redefines : old.Redefines new policy kind sel imp) :
    start.Redefines final policy id old kind sel imp := by
  have hnew : final.registry.record? id = some new := by
    rw [alters.record?_eq, if_pos rfl]
  have hstate : new.state = old.state := congrArg Standing.state alters.standing
  -- a handle stands for a linked class in both states or in neither
  have hunlinked : ∀ cls, start.heap.isLinked cls = false → final.heap.isLinked cls = false := by
    intro cls hnone
    rw [← Bool.not_eq_true, steadyFinal.isLinked_iff]
    rintro ⟨other, record, hrecord, hpair, hlinked⟩
    rw [alters.record?_eq] at hrecord
    rw [← Bool.not_eq_true, steady.isLinked_iff] at hnone
    split at hrecord
    · cases hrecord
      exact hnone ⟨id, old, alters.registered, alters.pair.symm.trans hpair, hstate ▸ hlinked⟩
    · exact hnone ⟨other, record, hrecord, hpair, hlinked⟩
  have hcases : ∀ cls asked,
      asked = sel ∧ final.registry.ResolvesTo cls sel (old.side kind) ∧
          final.heap.lookup cls asked = some imp ∨
        (asked = sel → ¬ start.registry.ResolvesTo cls sel (old.side kind) ∧
          ¬ final.registry.ResolvesTo cls sel (old.side kind)) ∧
          final.heap.lookup cls asked = start.heap.lookup cls asked := by
    intro cls asked
    cases hlinked : start.heap.isLinked cls with
    | true =>
      obtain ⟨other, record, hrecord, hpair, hstate⟩ := (steady.isLinked_iff cls).mp hlinked
      have hcls : cls = record.side cls.kind := by rw [Record.side, hpair]
      rw [hcls]
      exact alters.lookup_cases steady steadyFinal redefines hrecord hstate cls.kind asked
    | false =>
      obtain ⟨hbefore, hnot⟩ := steady.lookup_of_unlinked hlinked asked (old.side kind)
      obtain ⟨hafter, hnotAfter⟩ :=
        steadyFinal.lookup_of_unlinked (hunlinked cls hlinked) asked (old.side kind)
      refine .inr ⟨?_, hafter.trans hbefore.symm⟩
      rintro rfl
      exact ⟨hnot, hnotAfter⟩
  refine ⟨⟨new, hnew, redefines⟩, ?_, alters.heldBack_eq, ?_, ?_, ?_⟩
  · intro other hne
    rw [alters.record?_eq, if_neg (Ne.symm hne)]
  · intro hlinked
    have hlinkedNew : new.state ≠ .pending := hstate ▸ of_decide_eq_true hlinked
    have hside : new.side kind = old.side kind := by
      rw [Record.side, Record.side, redefines.pair]
    obtain ⟨own, rest, hchain, hown, -⟩ :=
      (steadyFinal.atRest.hierarchy.ancestry_chain hnew hlinkedNew).head
    cases hown.symm.trans hnew
    rw [← hside, steadyFinal.lookup_eq_walkUp hnew hlinkedNew, hchain]
    apply walkUp_of_own
    rw [redefines.implementation, if_pos ⟨rfl, rfl⟩]
  · intro cls hthrough
    rcases hcases cls sel with ⟨-, -, hfound⟩ | ⟨hnot, -⟩
    · exact hfound
    · exact absurd hthrough (not_or.mpr (hnot rfl))
  · intro cls asked hnot
    rcases hcases cls asked with ⟨heq, hresolves, -⟩ | ⟨-, hsame⟩
    · exact absurd hresolves (hnot heq).2
    · exact hsame

theorem Redefines.of_same {middle : Classes} (redefines : middle.Redefines final policy id old kind
    sel imp) (hheap : middle.heap = start.heap) (hregistry : middle.registry = start.registry) :
    start.Redefines final policy id old kind sel imp := by
  obtain ⟨heap, registry, log⟩ := middle
  subst hheap hregistry
  exact ⟨redefines.own, redefines.others, redefines.heldBack, redefines.table, redefines.through,
    redefines.elsewhere⟩

/-- What is replaced is what counted before. -/
theorem Steady.redefines_of_replaces (steady : start.Steady policy)
    (hrecord : start.registry.record? id = some record) {definition : MethodDefinition}
    {replaced : Option Imp} (replaces : start.Replaces id kind definition replaced final) :
    replaced = record.implementation? policy kind definition.sel ∧
      start.Redefines final policy id record kind definition.sel definition.imp := by
  have steadyFinal := (Change.replaces replaces).steady steady
  cases replaces with
  | unknown hgone => cases hgone.symm.trans hrecord
  | replaces alters =>
    cases alters.registered.symm.trans hrecord
    obtain ⟨hold, redefines⟩ := record.redefines_replaceMethod start.registry.policy kind definition
    rw [steady.atRest.policy_eq] at hold redefines alters
    rw [steady.atRest.policy_eq]
    exact ⟨hold, alters.redefines steady steadyFinal redefines⟩

/-- A method is added if the class had none, and else nothing happens. -/
theorem Steady.redefines_of_adds (steady : start.Steady policy)
    (hrecord : start.registry.record? id = some record) {definition : MethodDefinition}
    {added : Bool} (adds : start.Adds id kind definition added final) :
    added = !record.defines kind definition.sel ∧
      (record.defines kind definition.sel = false →
        start.Redefines final policy id record kind definition.sel definition.imp) ∧
      (record.defines kind definition.sel = true → final = start) := by
  have steadyFinal := (Change.adds adds).steady steady
  cases adds with
  | unknown hgone => cases hgone.symm.trans hrecord
  | defined registered hdefines =>
    cases registered.symm.trans hrecord
    rw [hdefines]
    exact ⟨rfl, nofun, fun _ => rfl⟩
  | adds hundefined alters =>
    cases alters.registered.symm.trans hrecord
    rw [hundefined]
    have redefines := record.redefines_add policy kind definition hundefined
    exact ⟨rfl, fun _ => alters.redefines steady steadyFinal redefines, nofun⟩

end Classes

namespace Act

variable {session : Session} {cls : ClassRef} {id : ClassId} {sel : Sel}

/-- The method of a registered class and an interned selector, whose types are noted at most. -/
theorem resolveMethod_leads (hresolve : session.system.registry.resolve session.heap cls = .ok id)
    (hsel : session.system.selectors.contains sel = true) (imp : Imp) (types : Option String) :
    (resolveMethod cls sel imp types).Leads False session fun reply final =>
      reply = .ok (id, ⟨sel, someTypes types, imp⟩) ∧ final.heap = session.heap ∧
        final.system.registry = session.system.registry := by
  rw [resolveMethod, leads_bind, leads_get]
  dsimp only
  rw [hresolve]
  dsimp only
  rw [if_pos hsel]
  simp only [reconcile, reportConflict, leads_bind, leads_get, leads_onSystem]
  cases (session.system.selectors.reconcile sel (someTypes types)).2 with
  | none => exact ⟨rfl, rfl, rfl⟩
  | some conflict => exact ⟨rfl, rfl, rfl⟩

/-- What is done with the method of a registered class. -/
theorem alterMethod_leads {α : Type} (change : ClassId → MethodDefinition → Linking α)
    {post : Classes → α → Classes → Prop}
    (hresolve : session.system.registry.resolve session.heap cls = .ok id)
    (hsel : session.system.selectors.contains sel = true) (imp : Imp) (types : Option String)
    (hchange : ∀ start : Classes, start.heap = session.heap →
      start.registry = session.system.registry →
        (change id ⟨sel, someTypes types, imp⟩).Leads False start (post start)) :
    (do match ← resolveMethod cls sel imp types with
      | .error error => return .error error
      | .ok (id, definition) =>
        return .ok (← onClasses (change id definition)) : Act (Except RegistryError α)).Leads False
      session fun reply final => ∃ start answer, start.heap = session.heap ∧
        start.registry = session.system.registry ∧ reply = .ok answer ∧
          post start answer final.classes := by
  rw [leads_bind]
  refine (resolveMethod_leads hresolve hsel imp types).mono ?_
  rintro _ middle ⟨rfl, hheap, hregistry⟩
  dsimp only
  rw [leads_bind, leads_onClasses]
  exact (hchange middle.classes hheap hregistry).mono fun answer classes hpost =>
    ⟨middle.classes, answer, hheap, hregistry, rfl, hpost⟩

end Act

namespace Session

variable {options : Options} {session : Session} {id : ClassId} {record : Record} {sel : Sel}

/-- A method that is replaced, or added because there was none, changes what one side of one class
implements one selector by, and with it what is found wherever the search comes there. Nothing else is
changed: not if the class has the method already when one is to be added. -/
theorem Reachable.redefines_one (reachable : session.Reachable options)
    (hrecord : session.system.registry.record? id = some record)
    (hsel : session.system.selectors.contains sel = true) (kind : ClassKind) (imp : Imp)
    (types : Option String) :
    let policy := options.categoryConflicts
    let cls := record.side kind
    (∃ final, (Operation.replaceMethod cls sel imp types).perform session =
        .ok (.ok (record.implementation? policy kind sel)) final ∧
      session.classes.Redefines final.classes policy id record kind sel imp) ∧
    (∃ final, (Operation.addMethod cls sel imp types).perform session =
        .ok (.ok (!record.defines kind sel)) final ∧
      (record.defines kind sel = false →
        session.classes.Redefines final.classes policy id record kind sel imp) ∧
      (record.defines kind sel = true → final.heap = session.heap ∧
        final.system.registry = session.system.registry)) ∧
    (record.implementation? policy kind sel).isSome = record.defines kind sel := by
  intro policy cls
  have indexed := reachable.indexed
  have steady := reachable.steady
  have huid := (indexed.sound.uid_of_contains hsel).2
  have hresolve : session.system.registry.resolve session.heap cls = .ok id :=
    steady.atRest.upToDate.housed.resolve_eq hrecord kind
  -- noting the types of the method leaves the classes as they are
  have hsteady : ∀ start : Classes, start.heap = session.heap →
      start.registry = session.system.registry →
        start.Steady policy ∧ start.registry.record? id = some record ∧
          start.registry.Addressable := by
    intro start hheap hregistry
    refine ⟨steady.of_pairs hregistry (congrArg Heap.pairs hheap) (congrArg Heap.loose hheap), ?_, ?_⟩
    · rw [hregistry]
      exact hrecord
    · rw [hregistry]
      exact indexed.addressable
  refine ⟨?_, ?_, record.implementation?_isSome policy kind sel⟩
  · obtain ⟨_, final, hrun, middle, replaced, hheap, hregistry, rfl, rfl, redefines⟩ :=
      (Act.alterMethod_leads (fun id => Linking.replaceMethod id cls.kind) hresolve hsel imp types
        fun start hheap hregistry => by
          obtain ⟨hstart, hrecordStart, haddressable⟩ := hsteady start hheap hregistry
          exact (Linking.replaceMethod_leads (.inr ⟨haddressable, huid⟩)).mono
            fun _ _ replaces => hstart.redefines_of_replaces hrecordStart replaces).exists_ok
    exact ⟨final, hrun, redefines.of_same hheap hregistry⟩
  · obtain ⟨_, final, hrun, middle, added, hheap, hregistry, rfl, rfl, hadds, hdefined⟩ :=
      (Act.alterMethod_leads (fun id => Linking.addMethod id cls.kind) hresolve hsel imp types
        fun start hheap hregistry => by
          obtain ⟨hstart, hrecordStart, haddressable⟩ := hsteady start hheap hregistry
          exact (Linking.addMethod_leads (.inr ⟨haddressable, huid⟩)).mono
            fun _ _ adds => hstart.redefines_of_adds hrecordStart adds).exists_ok
    refine ⟨final, hrun, fun hundefined => (hadds hundefined).of_same hheap hregistry, ?_⟩
    intro hdefines
    have hsame := hdefined hdefines
    exact ⟨(congrArg Classes.heap hsame).trans hheap,
      (congrArg Classes.registry hsame).trans hregistry⟩

/-- The class object of the leaf is asked for what the root's metaclass has now. -/
theorem redefines_one_leafFirst :
    let session := ((start {}).afterRegister leafSample).afterRegister rootSample
    ∃ final, (Operation.replaceMethod ⟨⟨1⟩, .metaclass⟩ ⟨2⟩ ⟨9⟩ none).perform session =
        .ok (.ok (some ⟨4⟩)) final ∧
      final.heap.lookup ⟨⟨0⟩, .metaclass⟩ ⟨2⟩ = some ⟨9⟩ := by
  intro session
  have reachable : session.Reachable {} :=
    (Reachable.start.afterRegister leafSample).afterRegister rootSample
  have hfacts : (session.system.registry.record? ⟨1⟩).any (fun record =>
        record.pair = ⟨1⟩ &&
          record.implementation? .lastApplied .metaclass ⟨2⟩ = some ⟨4⟩) = true ∧
      (session.system.registry.record? ⟨0⟩).any (fun record =>
        record.isLinked && record.pair = ⟨0⟩) = true ∧
      provider? .metaclass (session.system.registry.chain ⟨0⟩) ⟨2⟩ = some ⟨⟨1⟩, .metaclass⟩ ∧
      session.system.selectors.contains ⟨2⟩ = true := by
    decide +kernel
  obtain ⟨hroot, hleaf, hplace, hsel⟩ := hfacts
  obtain ⟨record, hrecord, hchecks⟩ := (Option.any_eq_true _ _).mp hroot
  obtain ⟨leaf, hleaf, hleafChecks⟩ := (Option.any_eq_true _ _).mp hleaf
  simp only [Bool.and_eq_true, decide_eq_true_eq] at hchecks hleafChecks
  obtain ⟨hpair, hold⟩ := hchecks
  obtain ⟨⟨final, hrun, redefines⟩, -⟩ :=
    reachable.redefines_one hrecord hsel .metaclass ⟨9⟩ none
  rw [show ({} : Options).categoryConflicts = .lastApplied from rfl, hold, Record.side, hpair] at hrun
  have hcomes : session.system.registry.ResolvesTo ⟨⟨0⟩, .metaclass⟩ ⟨2⟩
      (record.side .metaclass) := by
    rw [Record.side, hpair]
    exact ⟨⟨0⟩, leaf, hleaf, hleafChecks.1, hleafChecks.2, hplace⟩
  exact ⟨final, hrun, redefines.through _ (.inl hcomes)⟩

end Session

end LateBinding
