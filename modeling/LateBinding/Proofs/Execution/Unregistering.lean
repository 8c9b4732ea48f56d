import LateBinding.Proofs.Execution.Onward

/-!
# Unregistering a class

A registered class is unregistered together with the classes under it, each once and no others, and
everything else stays as it was. The handles of the classes that went have no tables in any later
session and stand for no class any more: nothing can be added to them, whatever is registered later
under their names or, after a shutdown, under their numbers.
-/

namespace LateBinding

theorem Classes.TakesOut.nodup_pairs {start final : Classes} {ids : List ClassId}
    {pairs : List PairId} (takesOut : start.TakesOut ids pairs final) (settled : start.Settled) :
    pairs.Nodup := by
  obtain ⟨order, lineage⟩ := settled
  apply List.Nodup.of_map some
  rw [← takesOut.pairs]
  refine takesOut.nodup.map_on ?_
  intro id hid other hother hsame
  obtain ⟨record, hrecord⟩ := takesOut.exists_record hid
  obtain ⟨another, hanother⟩ := takesOut.exists_record hother
  rw [hrecord, hanother] at hsame
  by_contra hne
  exact lineage.pair_ne (Registry.seat?_of_record hrecord) (Registry.seat?_of_record hanother) hne
    (Option.some.inj hsame)

/-- A handle of a pair that houses no registered class stands for none. -/
theorem Registry.resolve_of_not_houses {registry : Registry} (heap : Heap) (cls : ClassRef)
    (hgone : ¬ registry.Houses cls.pair) :
    registry.resolve heap cls = .error (.classNotFound (heap.className cls)) := by
  rw [resolve]
  cases hrecord : registry.record? (heap.pair cls.pair).id with
  | none => rfl
  | some record =>
    dsimp only
    rw [if_neg]
    · rfl
    · rintro hpair
      exact hgone (hpair ▸ houses_of_record hrecord)

namespace Session

variable {options : Options} {policy : CategoryConflictPolicy}
  {session start final later : Session}

/-- A pair whose class was removed: it has no tables, and methods can be added to neither side. -/
structure Disowns (session : Session) (name : String) (pair : PairId) : Prop where
  table? : ∀ kind, session.heap.table? ⟨pair, kind⟩ = none
  addMethod : ∀ kind sel imp types,
    (Operation.addMethod ⟨pair, kind⟩ sel imp types).perform session =
      .ok (.error (.classNotFound name)) session
  replaceMethod : ∀ kind sel imp types,
    (Operation.replaceMethod ⟨pair, kind⟩ sel imp types).perform session =
      .ok (.error (.classNotFound name)) session

theorem Steady.table?_of_not_houses (steady : session.Steady policy) {cls : ClassRef}
    (hgone : ¬ session.system.registry.Houses cls.pair) : session.heap.table? cls = none := by
  obtain ⟨order, lineage⟩ := steady.settled
  exact lineage.withdrawn cls.pair hgone cls.kind

theorem Steady.disowns (steady : session.Steady policy) {pair : PairId}
    (hgone : ¬ session.system.registry.Houses pair) :
    session.Disowns (session.heap.pair pair).name pair where
  table? _ := steady.table?_of_not_houses hgone
  addMethod kind sel imp types := by
    have hresolve := Registry.resolve_of_not_houses session.heap ⟨pair, kind⟩ hgone
    rw [Operation.perform, Act.addMethod, Act.resolveMethod, bind_assoc,
      Act.bind_of_ok (Act.run_get session), hresolve]
    rfl
  replaceMethod kind sel imp types := by
    have hresolve := Registry.resolve_of_not_houses session.heap ⟨pair, kind⟩ hgone
    rw [Operation.perform, Act.replaceMethod, Act.resolveMethod, bind_assoc,
      Act.bind_of_ok (Act.run_get session), hresolve]
    rfl

/-- A class is unregistered along with all under it: their numbers, and their pairs in the order in
which they went. -/
structure Unregisters (start : Session) (top : ClassId) (ids : List ClassId)
    (pairs : List PairId) (final : Session) : Prop where
  subtree : ∀ id, id ∈ ids ↔ start.system.registry.Under top id
  once : ids.Nodup
  inOrder : ids.map (fun id => (start.system.registry.record? id).map (·.pair)) = pairs.map some
  pairsOnce : pairs.Nodup
  registry : start.system.registry.Loses ids final.system.registry
  unnamed : ∀ id record awaited, final.system.registry.record? id = some record →
    record.superclassName = some awaited → ∀ gone ∈ ids,
      start.system.registry.idOf? awaited ≠ some gone
  heap : start.heap.Withdraws pairs final.heap
  system : final.system = { start.system with registry := final.system.registry }

theorem unregister_takesOut {name : String} {top : ClassId} (steady : start.Steady policy)
    (known : start.system.registry.idOf? name = some top) :
    ∃ ids pairs final, (Operation.unregister name).perform start = .ok (.ok pairs) final ∧
      start.classes.TakesOut ids pairs final.classes ∧
      (∀ id, id ∈ ids ↔ start.system.registry.Under top id) ∧
      final.system = { start.system with registry := final.system.registry } := by
  have consistent : start.classes.registry.Consistent [] := steady.atRest.consistent
  obtain ⟨standing, hstanding, -⟩ := (consistent.names name top).mp known
  obtain ⟨record, hrecord, -⟩ := Option.map_eq_some_iff.mp hstanding
  have hleads : (Act.onClasses (Linking.unregister top)).Leads False start fun pairs final =>
      ∃ classes, start.classes.Removal [top] pairs classes ∧ final = start.withClasses classes := by
    rw [Act.leads_onClasses]
    exact (Linking.unregister_leads top).mono fun pairs classes removal => ⟨classes, removal, rfl⟩
  obtain ⟨pairs, final, hrun, classes, removal, rfl⟩ := hleads.exists_ok
  obtain ⟨ids, takesOut, hsubtree⟩ := removal.subtree consistent hrecord
  refine ⟨ids, pairs, start.withClasses classes, ?_, takesOut, hsubtree, rfl⟩
  rw [Operation.perform, Act.unregister, Act.bind_of_ok (Act.run_get start), known]
  dsimp only
  rw [Act.bind_of_ok hrun]
  rfl

theorem exists_idOf?_of_unregister {name : String} {pairs : List PairId}
    (hrun : (Operation.unregister name).perform start = .ok (.ok pairs) final) :
    ∃ top, start.system.registry.idOf? name = some top := by
  cases known : start.system.registry.idOf? name with
  | some top => exact ⟨top, rfl⟩
  | none =>
    rw [Operation.perform, Act.unregister, Act.bind_of_ok (Act.run_get start), known] at hrun
    cases hrun

theorem Unregisters.of_takesOut {top : ClassId} {ids : List ClassId} {pairs : List PairId}
    (settled : start.classes.Settled) (takesOut : start.classes.TakesOut ids pairs final.classes)
    (hsubtree : ∀ id, id ∈ ids ↔ start.system.registry.Under top id)
    (hsystem : final.system = { start.system with registry := final.system.registry }) :
    start.Unregisters top ids pairs final where
  subtree := hsubtree
  once := takesOut.nodup
  inOrder := takesOut.pairs
  pairsOnce := takesOut.nodup_pairs settled
  registry := takesOut.registry
  unnamed := by
    intro id record awaited hrecord hname gone hgone hknown
    rw [show final.system.registry = final.classes.registry from rfl,
      takesOut.registry.record?] at hrecord
    split at hrecord
    · cases hrecord
    · next hstays =>
      obtain ⟨before, hbefore, rfl⟩ := Option.map_eq_some_iff.mp hrecord
      have names : start.system.registry.NamesAbove id gone := ⟨before, awaited, hbefore, hname, hknown⟩
      exact hstays ((hsubtree id).mpr (.head names ((hsubtree gone).mp hgone)))
  heap := takesOut.heap
  system := hsystem

theorem Remembers.link_eq (remembers : start.Remembers final) {pair : PairId}
    (hpair : start.heap.HasPair pair) (hgone : ¬ start.system.registry.Houses pair) :
    (final.heap.pair pair).link = (start.heap.pair pair).link := by
  cases hlink : (start.heap.pair pair).link with
  | none => exact remembers.unlinked pair hpair hgone hlink
  | some link => exact remembers.ages.link pair link hlink

/-- A class that is removed keeps its name and its link, and its pair stays empty. -/
theorem Reachable.removed (reachable : session.Reachable options) {name : String}
    {pairs : List PairId} (hrun : (Operation.unregister name).perform session = .ok (.ok pairs) final)
    {id : ClassId} {record : Record}
    (hrecord : session.system.registry.record? id = some record) (hremoved : record.pair ∈ pairs)
    (onward : final.Onward later) :
    later.Reachable options ∧ session.Remembers later ∧
      ¬ later.system.registry.Houses record.pair ∧
      (later.heap.pair record.pair).name = record.name ∧
      (later.heap.pair record.pair).link = (session.heap.pair record.pair).link := by
  have steady := reachable.steady
  have hfinal : final.Reachable options := reachable.move (.perform hrun)
  obtain ⟨hlater, hafter⟩ := onward.spec hfinal
  have hbefore : session.Remembers final := (Move.spec (.perform hrun) steady).2
  have remembers := hbefore.trans hafter
  obtain ⟨top, known⟩ := exists_idOf?_of_unregister hrun
  obtain ⟨ids, taken, other, hother, takesOut, -, -⟩ := unregister_takesOut steady known
  cases hrun.symm.trans hother
  have hgone := (takesOut.not_houses steady.settled hremoved).2
  have housed := steady.atRest.upToDate.housed
  have hmade := housed.hasPair id record hrecord
  have hmadeAfter := hbefore.ages.hasPair _ hmade
  refine ⟨hlater, remembers, hafter.gone _ hmadeAfter hgone, ?_, ?_⟩
  · exact (remembers.name _ hmade).trans (housed.pairName id record hrecord)
  · rw [hafter.link_eq hmadeAfter hgone]
    exact takesOut.heap.link_eq record.pair

/-- In every reachable session a registered class is unregistered with just the classes under it, and
in every later session these are disowned. -/
theorem Reachable.unregister_removes_subtree (reachable : session.Reachable options) {name : String}
    {top : ClassId} (known : session.system.registry.idOf? name = some top) :
    ∃ ids pairs final, (Operation.unregister name).perform session = .ok (.ok pairs) final ∧
      session.Unregisters top ids pairs final ∧
      ∀ later, final.Onward later → ∀ id ∈ ids, ∀ record,
        session.system.registry.record? id = some record →
          later.Disowns record.name record.pair := by
  have steady := reachable.steady
  obtain ⟨ids, pairs, final, hrun, takesOut, hsubtree, hsystem⟩ :=
    unregister_takesOut steady known
  refine ⟨ids, pairs, final, hrun, .of_takesOut steady.settled takesOut hsubtree hsystem, ?_⟩
  intro later onward id hid record hrecord
  have hremoved := (takesOut.mem_pairs_iff record.pair).mpr ⟨id, hid, record, hrecord, rfl⟩
  obtain ⟨hlater, -, hgone, hname, -⟩ := reachable.removed hrun hrecord hremoved onward
  rw [← hname]
  exact hlater.steady.disowns hgone

theorem perform_unregister_of_reply {name : String} {pairs : List PairId}
    (hreply : ((Act.unregister name).run' session).any
      (fun reply => reply.toOption == some pairs) = true) :
    (Operation.unregister name).perform session =
      .ok (.ok pairs) (session.afterPerform (.unregister name)) := by
  unfold EStateM.run' EStateM.run at hreply
  unfold afterPerform
  cases hrun : (Operation.unregister name).perform session with
  | error reason final =>
    rw [show Act.unregister name session = .error reason final from hrun] at hreply
    cases hreply
  | ok reply final =>
    rw [show Act.unregister name session = .ok reply final from hrun] at hreply
    change Except RegistryError (List PairId) at reply
    cases reply with
    | error error => cases hreply
    | ok removed =>
      have hpairs : removed = pairs := Option.some.inj (eq_of_beq hreply)
      rw [hpairs]

theorem onward_afterRegister (session : Session) (spec : ClassSpec) :
    session.Onward (session.afterRegister spec) := by
  unfold afterRegister
  cases hrun : Act.register spec session with
  | ok reply final => exact .single (.register hrun)
  | error reason final => exact .refl

/-- The root goes with the class below it. Another root of the same name changes nothing for that
class, whose handle stays disowned. -/
theorem unregister_removes_subtree_again :
    let session := ((Session.start {}).afterRegister rootSample).afterRegister leafSample
    ∃ ids final, (Operation.unregister "Root").perform session = .ok (.ok [⟨0⟩, ⟨1⟩]) final ∧
      session.Unregisters ⟨0⟩ ids [⟨0⟩, ⟨1⟩] final ∧
      (final.afterRegister rootSample).Disowns "Root" ⟨0⟩ := by
  intro session
  have reachable : session.Reachable {} :=
    (Reachable.start.afterRegister rootSample).afterRegister leafSample
  have hfacts : session.system.registry.idOf? "Root" = some ⟨0⟩ ∧
      ((Act.unregister "Root").run' session).any
        (fun reply => reply.toOption == some [⟨0⟩, ⟨1⟩]) = true ∧
      (session.system.registry.record? ⟨0⟩).any
        (fun record => record.name == "Root" && record.pair == ⟨0⟩) = true := by decide +kernel
  obtain ⟨known, hreply, hany⟩ := hfacts
  obtain ⟨ids, pairs, final, hrun, unregisters, hlater⟩ :=
    reachable.unregister_removes_subtree known
  obtain ⟨record, hrecord, hboth⟩ := (Option.any_eq_true _ _).mp hany
  rw [Bool.and_eq_true] at hboth
  have hdisowns := hlater _ (onward_afterRegister final rootSample) ⟨0⟩
    ((unregisters.subtree _).mpr .refl) record hrecord
  rw [eq_of_beq hboth.1, eq_of_beq hboth.2] at hdisowns
  cases hrun.symm.trans (perform_unregister_of_reply hreply)
  exact ⟨ids, _, hrun, unregisters, hdisowns⟩

end Session

end LateBinding
