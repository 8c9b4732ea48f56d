import LateBinding.Proofs.Execution.Conformance
import LateBinding.Proofs.Execution.Gathering
import LateBinding.Proofs.Execution.LinkOrder
import LateBinding.Proofs.Tables.Affected
import Mathlib.Algebra.Ring.Nat

/-!
# What operations build anew

An operation that changes the definitions of a linked class builds the tables of that class and of
all linked classes below it, superclasses first, and nobody else's. Other than that tables are built
only when a class links. So the number of tables built tells what was done since the start.
-/

namespace LateBinding

open Registry

/-- The class whose definitions an operation has changed. -/
def Operation.alters? (session : Session) :
    (operation : Operation) → operation.Reply → Option ClassId
  | .applyCategory spec, _ => session.system.registry.idOf? spec.className
  | .addMethod cls _ _ _, .ok true => (session.system.registry.resolve session.heap cls).toOption
  | .replaceMethod cls _ _ _, .ok _ => (session.system.registry.resolve session.heap cls).toOption
  | _, _ => none

namespace Act

variable {policy : CategoryConflictPolicy} {start final : Session}

theorem applyCategory_cases {spec : CategorySpec} {status : CategoryStatus}
    (indexed : start.Indexed policy) (hrun : applyCategory spec start = .ok status final) :
    ∃ category, ∃ middle : Classes, category.className = spec.className ∧
      middle.heap = start.heap ∧ middle.registry = start.system.registry ∧
      middle.Applies category status final.classes := by
  obtain ⟨category, defined, interned, definedAs, -, applies, -⟩ :=
    (applyCategory_applies spec indexed.sound indexed.atRest.consistent
      indexed.atRest.upToDate.housed).of_ok hrun
  exact ⟨category, defined.classes, congrArg NamedCategory.className definedAs.named,
    interned.heap, interned.registry_eq, applies⟩

/-- No category changes whose tables any other category would have built. -/
theorem applyCategory_builds {spec : CategorySpec} {status : CategoryStatus}
    (atRest : start.AtRest policy) (hrun : applyCategory spec start = .ok status final) :
    final.AtRest policy ∧
      final.system.registry.affectedByName = start.system.registry.affectedByName ∧
      final.system.registry.builds = start.system.registry.builds +
        2 * (start.system.registry.affectedByName spec.className).length := by
  have leads : (applyCategory spec).Leads True start fun _ final =>
      final.system.registry.affectedByName = start.system.registry.affectedByName ∧
        final.system.registry.builds = start.system.registry.builds +
          2 * (start.system.registry.affectedByName spec.className).length := by
    rw [applyCategory, leads_bind]
    refine (keeps_defineMethods keeps_atRest_of_same spec.methods start ⟨atRest, rfl⟩).mono ?_
    intro methods defined h
    obtain ⟨hdefined, hregistry⟩ := h
    rw [leads_onClasses, ← hregistry]
    exact (Linking.applyCategory_leads hdefined.consistent (.inl trivial)).mono
      fun _ _ applies => ⟨applies.affectedByName_eq, applies.builds_eq hdefined⟩
  exact ⟨(keeps_applyCategory spec start atRest).of_ok hrun, leads.of_ok hrun⟩

theorem applyCategories_builds {specs : List CategorySpec} {statuses : List CategoryStatus}
    (atRest : start.AtRest policy) (hrun : specs.mapM applyCategory start = .ok statuses final) :
    final.system.registry.affectedByName = start.system.registry.affectedByName ∧
      final.system.registry.builds = start.system.registry.builds + 2 *
        (specs.map fun spec =>
          (start.system.registry.affectedByName spec.className).length).sum := by
  induction specs generalizing start statuses with
  | nil =>
    cases hrun
    exact ⟨rfl, rfl⟩
  | cons spec rest ih =>
    rw [List.mapM_cons] at hrun
    obtain ⟨status, middle, hfirst, hrun⟩ := EStateM.bind_eq_ok_iff.mp hrun
    obtain ⟨others, after, hothers, hpure⟩ := EStateM.bind_eq_ok_iff.mp hrun
    cases hpure
    obtain ⟨hmiddle, haffected, hcount⟩ := applyCategory_builds atRest hfirst
    obtain ⟨hlater, hcounts⟩ := ih hmiddle hothers
    rw [haffected] at hlater hcounts
    refine ⟨hlater, ?_⟩
    rw [hcounts, hcount, List.map_cons, List.sum_cons]
    omega

theorem enterClass_builds {spec : ClassSpec} {answer : PairId × List ClassId}
    (atRest : start.AtRest policy) (hfree : start.system.registry.idOf? spec.name = none)
    (hrun : enterClass spec start = .ok answer final) :
    final.system.registry.builds = start.system.registry.builds + 2 * answer.2.length := by
  obtain ⟨defined, definition, -, hregistry, -, -, registers⟩ :=
    (enterClass_registers spec atRest hfree).of_ok hrun
  rw [← hregistry]
  exact registers.builds_eq

theorem enterClasses_builds {specs : List ClassSpec} {linked : List ClassId}
    (atRest : start.AtRest policy) (hnodup : (specs.map (·.name)).Nodup)
    (hfree : ∀ spec ∈ specs, start.system.registry.idOf? spec.name = none)
    (hrun : enterClasses specs start = .ok linked final) :
    final.AtRest policy ∧
      final.system.registry.builds = start.system.registry.builds + 2 * linked.length := by
  refine enterClasses_reaches (fun first linked last =>
    last.system.registry.builds = first.system.registry.builds + 2 * linked.length)
    (fun _ => rfl) ?_ ?_ atRest hnodup hfree hrun
  · intro first middle last linked others _ hfirst hothers
    rw [hothers, hfirst, List.length_append]
    omega
  · exact fun _ _ _ _ hfirst hhere hentered => enterClass_builds hfirst hhere hentered

theorem register_builds {spec : ClassSpec} {made : PairId} {pairs : List PairId}
    (atRest : start.AtRest policy) (hrun : register spec start = .ok (.ok (made, pairs)) final) :
    final.system.registry.builds = start.system.registry.builds + 2 * pairs.length := by
  obtain ⟨hreply, -⟩ | ⟨answer, entered, hfree, hentered, hreply, rfl⟩ := register_cases hrun
  · cases hreply
  cases hreply
  have known : entered.Knows answer.2 :=
    Session.knows_of_topDown (enterClass_linksTopDown atRest hfree hentered)
  rw [entered.registry_bound, known.length_pairsOf]
  exact enterClass_builds atRest hfree hentered

theorem load_builds {unit : LoadUnit} {imps : String → Option Imp} {report : LoadReport}
    {pairs : List PairId} (atRest : start.AtRest policy)
    (hrun : load unit imps start = .ok (.ok (report, pairs)) final) :
    final.system.registry.builds = start.system.registry.builds + 2 * (pairs.length +
      (unit.categories.map fun category =>
        (final.system.registry.affectedByName category.className).length).sum) := by
  obtain ⟨classes, specs, linked, statuses, interned, entered, applied, hresolve, hinterned,
    hregistry, hentered, happlied, hfinal, rfl, -⟩ := load_parts atRest hrun
  obtain ⟨hnodup, hfree⟩ := LoadUnit.resolve_names hresolve
  obtain ⟨-, supplied⟩ := LoadUnit.supplied_of_resolve hresolve
  rw [← hregistry] at hfree
  obtain ⟨henteredAtRest, hlinked⟩ := enterClasses_builds hinterned hnodup hfree hentered
  obtain ⟨haffected, hcategories⟩ := applyCategories_builds henteredAtRest happlied
  have known : applied.Knows linked :=
    Session.knows_of_topDown (applied_linksTopDown hinterned hnodup hfree hentered happlied)
  have hnames : specs.map (fun spec =>
      (entered.system.registry.affectedByName spec.className).length) =
      unit.categories.map fun category =>
        (entered.system.registry.affectedByName category.className).length := by
    rw [← List.forall₂_eq_eq_eq, List.forall₂_map_left_iff, List.forall₂_map_right_iff]
    refine supplied.flip.imp fun spec category same => ?_
    rw [same.className]
  have hlength : (final.pairsOf linked).length = linked.length := by
    rw [← known.length_pairsOf, Session.pairsOf, Session.pairsOf, hfinal]
  rw [hfinal, hlength, haffected, hcategories, hlinked, hregistry, hnames]
  omega

theorem unregister_builds {name : String} {reply : Except RegistryError (List PairId)}
    (hrun : unregister name start = .ok reply final) :
    final.system.registry.builds = start.system.registry.builds := by
  have leads : (unregister name).Leads True start fun _ final =>
      final.system.registry.builds = start.system.registry.builds := by
    rw [unregister, leads_bind, leads_get]
    cases start.system.registry.idOf? name with
    | none => rfl
    | some id =>
      dsimp only
      rw [leads_bind, leads_onClasses]
      exact (Linking.unregister_leads id).of_false.mono fun _ _ removal => removal.builds_eq
  exact leads.of_ok hrun

end Act

namespace Operation

variable {policy : CategoryConflictPolicy} {start final : Session} {operation : Operation}
  {reply : operation.Reply}

theorem alters_of_some (indexed : start.Indexed policy)
    (hrun : operation.perform start = .ok reply final) {id : ClassId}
    (halters : operation.alters? start reply = some id) :
    ∃ old new, ∃ middle : Classes, middle.heap = start.heap ∧
      middle.registry = start.system.registry ∧ middle.Alters id old new final.classes := by
  cases operation with
  | applyCategory spec =>
    obtain ⟨category, middle, hname, hheap, hregistry, applies⟩ :=
      Act.applyCategory_cases indexed hrun
    have known : middle.registry.idOf? category.className = some id := by
      rw [hname, hregistry]
      exact halters
    obtain ⟨log, old, new, alters⟩ := applies.alters known
    exact ⟨old, new, { middle with log }, hheap, hregistry, alters⟩
  | addMethod cls sel imp types =>
    obtain ⟨⟨error, rfl⟩, -⟩ | ⟨top, added, middle, hresolve, hheap, hregistry, rfl, adds⟩ :=
      Act.addMethod_cases indexed hrun
    · cases halters
    · cases added with
      | false => cases halters
      | true =>
        change (start.system.registry.resolve start.heap cls).toOption = _ at halters
        rw [hresolve] at halters
        cases halters
        obtain ⟨old, new, alters⟩ := adds.alters
        exact ⟨old, new, middle, hheap, hregistry, alters⟩
  | replaceMethod cls sel imp types =>
    obtain ⟨⟨error, rfl⟩, -⟩ | ⟨top, replaced, middle, hresolve, hheap, hregistry, rfl, replaces⟩ :=
      Act.replaceMethod_cases indexed hrun
    · cases halters
    · change (start.system.registry.resolve start.heap cls).toOption = _ at halters
      rw [hresolve] at halters
      cases halters
      obtain ⟨record, hrecord, -⟩ := record?_of_resolve hresolve
      rw [← hregistry] at hrecord
      obtain ⟨old, new, alters⟩ := replaces.alters hrecord
      exact ⟨old, new, middle, hheap, hregistry, alters⟩
  | _ => cases halters

theorem builds_of_none (indexed : start.Indexed policy)
    (hrun : operation.perform start = .ok reply final)
    (halters : operation.alters? start reply = none) (hne : operation ≠ .shutdown) :
    final.system.registry.builds = start.system.registry.builds := by
  have hclosed := Act.keeps_registry_of_same start.system.registry
  cases operation with
  | intern name types => rw [(Act.keeps_intern hclosed name types start rfl).of_ok hrun]
  | internAll names => rw [(Act.keeps_internAll hclosed names start rfl).of_ok hrun]
  | applyCategory spec =>
    obtain ⟨-, -, hcount⟩ := Act.applyCategory_builds indexed.atRest hrun
    rw [affectedByName, show start.system.registry.idOf? spec.className = none from halters] at hcount
    exact hcount
  | unregister name => exact Act.unregister_builds hrun
  | addMethod cls sel imp types =>
    obtain ⟨⟨error, rfl⟩, rfl⟩ | ⟨top, added, middle, hresolve, -, hregistry, rfl, adds⟩ :=
      Act.addMethod_cases indexed hrun
    · rfl
    · cases added with
      | false => rw [← hregistry, ← adds.eq_of_false]; rfl
      | true =>
        change (start.system.registry.resolve start.heap cls).toOption = _ at halters
        rw [hresolve] at halters
        cases halters
  | replaceMethod cls sel imp types =>
    obtain ⟨⟨error, rfl⟩, rfl⟩ | ⟨top, replaced, middle, hresolve, -, -, rfl, -⟩ :=
      Act.replaceMethod_cases indexed hrun
    · rfl
    · change (start.system.registry.resolve start.heap cls).toOption = _ at halters
      rw [hresolve] at halters
      cases halters
  | createInstance cls => rw [(Act.keeps_createInstance hclosed cls start rfl).of_ok hrun]
  | createLiteral slots => rw [(Act.keeps_createLiteral hclosed slots start rfl).of_ok hrun]
  | setSlot object index value =>
    rw [(Act.keeps_setSlot hclosed object index value start rfl).of_ok hrun]
  | registerStatics className objects =>
    rw [(Act.keeps_registerStatics hclosed className objects start rfl).of_ok hrun]
  | setForward handler => rw [(Act.keeps_setForward hclosed handler start rfl).of_ok hrun]
  | shutdown => exact absurd rfl hne

end Operation

/-- To build the tables of a class and of all below it comes to an end. -/
theorem Session.Indexed.rebuild_ends {policy : CategoryConflictPolicy} {session : Session}
    (indexed : session.Indexed policy) (id : ClassId) :
    ∃ built, Linking.rebuild id session.classes = .ok ((), built) := by
  have leads : (Linking.rebuild id).Leads False session.classes fun _ _ => True := by
    cases hrecord : session.classes.registry.record? id with
    | none =>
      rw [Linking.rebuild, Linking.leads_bind, Linking.leads_get]
      dsimp only
      rw [hrecord]
      trivial
    | some record =>
      exact (Linking.rebuild_leads hrecord (.inr indexed.addressable)).mono fun _ _ _ => trivial
  obtain ⟨⟨⟩, built, hrun, -⟩ := leads.exists_ok
  exact ⟨built, hrun⟩

namespace Session

variable {options : Options} {session start middle final : Session} {count more : Nat}

/-! ### What moves count -/

/-- How many classes a move builds the tables of: those that link, and those that are affected by a
change of definitions. A shutdown has no place here, for it begins to count anew. -/
inductive Spends (start : Session) : Nat → Session → Prop
  | perform {operation : Operation} {reply : operation.Reply} {final : Session}
      (run : operation.perform start = .ok reply final) (goesOn : operation ≠ .shutdown) :
      Spends start ((operation.alters? start reply).elim 0 fun id =>
        (start.system.registry.affected id).length) final
  | register {spec : ClassSpec} {reply : Except RegistryError (PairId × List PairId)}
      {final : Session} (run : Act.register spec start = .ok reply final) :
      Spends start (reply.toOption.elim 0 fun answer => answer.2.length) final
  | load {unit : LoadUnit} {imps : String → Option Imp}
      {reply : Except LoadError (LoadReport × List PairId)} {final : Session}
      (run : Act.load unit imps start = .ok reply final) :
      Spends start (reply.toOption.elim 0 fun answer => answer.2.length +
        (unit.categories.map fun category =>
          (final.system.registry.affectedByName category.className).length).sum) final
  | report (event : Event) : Spends start 0 { start with log := start.log.push event }
  | markInitialized (id : PairId) :
      Spends start 0 { start with heap := start.heap.markInitialized id }
  | release (held : List Value) : Spends start 0 { start with heap := start.heap.release held }

theorem Spends.move (spends : start.Spends count final) : start.Move final := by
  cases spends with
  | perform run => exact .perform run
  | register run => exact .register run
  | load run => exact .load run
  | report event => exact .report start event
  | markInitialized id => exact .markInitialized start id
  | release held => exact .release start held

theorem Move.exists_spends (move : start.Move final) :
    (∃ count, start.Spends count final) ∨
      ∃ report, Operation.shutdown.perform start = .ok report final := by
  cases move with
  | @perform _ operation reply run =>
    by_cases hshutdown : operation = .shutdown
    · subst hshutdown
      exact .inr ⟨reply, run⟩
    · exact .inl ⟨_, .perform run hshutdown⟩
  | register run => exact .inl ⟨_, .register run⟩
  | load run => exact .inl ⟨_, .load run⟩
  | report event => exact .inl ⟨_, .report event⟩
  | markInitialized id => exact .inl ⟨_, .markInitialized id⟩
  | release held => exact .inl ⟨_, .release held⟩

theorem Spends.builds_eq (spends : start.Spends count final) (reachable : start.Reachable options) :
    final.system.registry.builds = start.system.registry.builds + 2 * count := by
  have indexed := reachable.indexed
  have atRest := reachable.atRest
  cases spends with
  | @perform operation reply _ run goesOn =>
    cases halters : operation.alters? start reply with
    | none => exact Operation.builds_of_none indexed run halters goesOn
    | some id =>
      obtain ⟨old, new, middle, hheap, hregistry, alters⟩ :=
        Operation.alters_of_some indexed run halters
      have hcount := alters.builds_eq (atRest.of_same hheap hregistry)
      rw [hregistry] at hcount
      exact hcount
  | @register spec reply _ run =>
    cases reply with
    | error error => rw [(Act.atomic_register spec start).of_ok run error rfl]; rfl
    | ok answer => exact Act.register_builds atRest run
  | @load unit imps reply _ run =>
    cases reply with
    | error error => rw [(Act.atomic_load unit imps start).of_ok run error rfl]; rfl
    | ok answer => exact Act.load_builds atRest run
  | report => rfl
  | markInitialized => rfl
  | release => rfl

/-- Moves one after the other, and how many classes they build the tables of altogether. -/
inductive SpendsAll (start : Session) : Nat → Session → Prop
  | refl : SpendsAll start 0 start
  | tail {middle final : Session} {count more : Nat} (before : SpendsAll start count middle)
      (spends : middle.Spends more final) : SpendsAll start (count + more) final

theorem SpendsAll.builds_eq (spends : start.SpendsAll count final)
    (reachable : start.Reachable options) : final.Reachable options ∧
      final.system.registry.builds = start.system.registry.builds + 2 * count := by
  induction spends with
  | refl => exact ⟨reachable, rfl⟩
  | tail _ spends ih =>
    obtain ⟨hmiddle, hcount⟩ := ih
    refine ⟨hmiddle.move spends.move, ?_⟩
    rw [spends.builds_eq hmiddle, hcount]
    omega

/-- An operation that changes the definitions of a linked class builds the tables of that class and
of all linked classes below it, each class once and after its superclass, and nobody else's. None are
built if the class is pending. Besides that, only what links is built, so what was built can be told
from what was done. -/
theorem Reachable.rebuilds_affected (reachable : session.Reachable options) :
    (∀ id, (session.system.registry.IsLinked id →
        session.system.registry.Downward id (session.system.registry.affected id)) ∧
      (¬ session.system.registry.IsLinked id → session.system.registry.affected id = [])) ∧
    (∀ (operation : Operation) reply final id, operation.perform session = .ok reply final →
      operation.alters? session reply = some id →
        (session.system.registry.IsLinked id →
          session.classes.Refreshes id (session.system.registry.affected id) final.classes) ∧
        (¬ session.system.registry.IsLinked id → final.heap = session.heap ∧
          final.system.registry.builds = session.system.registry.builds)) ∧
    (∀ final, session.Move final → (∃ count, session.Spends count final) ∨
      ∃ report, Operation.shutdown.perform session = .ok report final) ∧
    (∀ count final, session.SpendsAll count final →
      final.system.registry.builds = session.system.registry.builds + 2 * count) ∧
    (∀ (operation : Operation) reason final, operation.perform session = .error reason final →
      session.system.selectors.Exhausts operation.names reason) ∧
    ∀ id, ∃ built, Linking.rebuild id session.classes = .ok ((), built) := by
  have indexed := reachable.indexed
  have atRest := reachable.atRest
  refine ⟨?_, ?_, fun _ => Move.exists_spends, fun _ _ spends => (spends.builds_eq reachable).2,
    fun _ _ _ hrun => indexed.exhausts hrun, indexed.rebuild_ends⟩
  · intro id
    refine ⟨fun linked => ?_, affected_of_unlinked⟩
    rw [affected_eq_subtree linked]
    exact atRest.hierarchy.downward linked
  · intro operation reply final id hrun halters
    obtain ⟨old, new, middle, hheap, hregistry, alters⟩ :=
      Operation.alters_of_some indexed hrun halters
    have hmiddle : middle.AtRest options.categoryConflicts := atRest.of_same hheap hregistry
    rw [← hregistry]
    refine ⟨fun linked => (alters.refreshes hmiddle linked).of_same hheap hregistry, ?_⟩
    intro unlinked
    obtain ⟨hsame, hcount⟩ := alters.of_unlinked unlinked
    exact ⟨hsame.trans hheap, hcount⟩

/-- As long as the leaf waits for the root, a category of the leaf has no table built. Then the root
links with the leaf, the twig and the bud. Applied again, the category concerns the leaf and the
bud. -/
theorem rebuilds_affected_below :
    let waiting := (((Session.start {}).afterRegister leafSample).afterRegister
      budSample).afterRegister twigSample
    let session := waiting.afterRegister rootSample
    let spec : CategorySpec := { printingSample with className := "Leaf" }
    waiting.Reachable {} ∧ session.Reachable {} ∧
    (∃ final, (Operation.applyCategory spec).perform waiting = .ok .applied final ∧
      final.heap = waiting.heap ∧ final.system.registry.builds = 0) ∧
    (∃ final, (Operation.applyCategory spec).perform session = .ok .applied final ∧
      session.system.registry.Downward ⟨0⟩ [⟨0⟩, ⟨1⟩] ∧
      session.classes.Refreshes ⟨0⟩ [⟨0⟩, ⟨1⟩] final.classes ∧
      waiting.SpendsAll 6 final ∧ final.system.registry.builds = 12) := by
  intro waiting session spec
  have hwaiting : waiting.Reachable {} :=
    ((Reachable.start.afterRegister leafSample).afterRegister budSample).afterRegister twigSample
  have hsession : session.Reachable {} := hwaiting.afterRegister rootSample
  have hbefore : (Act.applyCategory spec).run' waiting = some .applied ∧
      waiting.system.registry.idOf? "Leaf" = some ⟨0⟩ ∧
      (waiting.system.registry.record? ⟨0⟩).any (·.isLinked) = false ∧
      waiting.system.registry.builds = 0 := by decide +kernel
  have hafter : ((Act.register rootSample).run' waiting).bind Except.toOption =
        some (⟨3⟩, [⟨3⟩, ⟨0⟩, ⟨2⟩, ⟨1⟩]) ∧
      (Act.applyCategory spec).run' session = some .applied ∧
      session.system.registry.idOf? "Leaf" = some ⟨0⟩ ∧
      (session.system.registry.record? ⟨0⟩).any (·.isLinked) = true ∧
      session.system.registry.affected ⟨0⟩ = [⟨0⟩, ⟨1⟩] := by decide +kernel
  obtain ⟨hreply, hleaf, hpending, hnone⟩ := hbefore
  obtain ⟨hvalue, hreplyAfter, hleafAfter, hany, haffected⟩ := hafter
  have hrun : (Operation.applyCategory spec).perform waiting = .ok .applied
      (waiting.afterPerform (.applyCategory spec)) := perform_of_reply hreply
  have hrunAfter : (Operation.applyCategory spec).perform session = .ok .applied
      (session.afterPerform (.applyCategory spec)) := perform_of_reply hreplyAfter
  obtain ⟨-, hoperation, -, hcounts, -⟩ := hwaiting.rebuilds_affected
  obtain ⟨hdown, hoperationAfter, -⟩ := hsession.rebuilds_affected
  refine ⟨hwaiting, hsession, ?_, ?_⟩
  · have unlinked : ¬ waiting.system.registry.IsLinked ⟨0⟩ := by
      rw [isLinked_iff_any, hpending]
      exact Bool.false_ne_true
    obtain ⟨hheap, hcount⟩ := (hoperation _ _ _ ⟨0⟩ hrun hleaf).2 unlinked
    exact ⟨_, hrun, hheap, hcount.trans hnone⟩
  · have linked := isLinked_iff_any.mpr hany
    have downward := (hdown ⟨0⟩).1 linked
    have refreshes := (hoperationAfter _ _ _ ⟨0⟩ hrunAfter hleafAfter).1 linked
    rw [haffected] at downward refreshes
    obtain ⟨next, hregister⟩ := exists_run_of_value hvalue
    obtain rfl : session = next := by
      change waiting.afterRegister rootSample = next
      rw [afterRegister, hregister]
    have hspends : session.Spends 2 (session.afterPerform (.applyCategory spec)) := by
      have halters : (Operation.applyCategory spec).alters? session CategoryStatus.applied =
          some ⟨0⟩ := hleafAfter
      have hperform := Spends.perform hrunAfter nofun
      rw [halters, Option.elim_some, haffected] at hperform
      exact hperform
    have hall : waiting.SpendsAll 6 (session.afterPerform (.applyCategory spec)) :=
      .tail (.tail .refl (.register hregister)) hspends
    have hcount := hcounts 6 _ hall
    rw [hnone] at hcount
    exact ⟨_, hrunAfter, downward, refreshes, hall, hcount⟩

end Session

end LateBinding
