import LateBinding.Proofs.Execution.Gathering
import LateBinding.Proofs.Execution.Unregistering

/-!
# The categories of a class over a whole run

A category is told by its class and its name. What a run does with categories is a list of
changes, and what is held for the class of some name is what these changes make of nothing. Whether
or not the class was registered in between, the names stand in the order in which they were applied
first, and each category is as it was applied last, but for the methods of it that were replaced
since.
-/

namespace LateBinding

open Registry

/-- The operation does nothing with categories, given what it replied. -/
def Operation.sparesCategories : (operation : Operation) → operation.Reply → Bool
  | .applyCategory _, _ => false
  | .unregister _, .ok _ => false
  | .replaceMethod .., .ok _ => false
  | .shutdown, _ => false
  | _, _ => true

namespace Session

variable {options : Options} {policy : CategoryConflictPolicy} {start final session : Session}
  {changes : List CategoryChange}

/-- A session takes a move, by which something is done with categories. -/
inductive Makes (start : Session) : List CategoryChange → Session → Prop
  | applies {spec : CategorySpec} {status : CategoryStatus} {category : CategoryDefinition}
      {final : Session} (run : (Operation.applyCategory spec).perform start = .ok status final)
      (named : category.named final.system.selectors = spec.named) :
      Makes start [.applied category] final
  | replaces {cls : ClassRef} {sel : Sel} {imp : Imp} {types : Option String}
      {replaced : Option Imp} {final : Session}
      (run : (Operation.replaceMethod cls sel imp types).perform start =
        .ok (.ok replaced) final) :
      Makes start
        [.replaced (start.heap.className cls) cls.kind ⟨sel, someTypes types, imp⟩] final
  | unregisters {name : String} {pairs : List PairId} {final : Session}
      (run : (Operation.unregister name).perform start = .ok (.ok pairs) final) :
      Makes start (pairs.map fun pair => .removed (start.heap.pair pair).name) final
  | shutsDown {report : ShutdownReport} {final : Session}
      (run : Operation.shutdown.perform start = .ok report final) : Makes start [.cleared] final
  | performs {operation : Operation} {reply : operation.Reply} {final : Session}
      (spares : operation.sparesCategories reply = true)
      (run : operation.perform start = .ok reply final) : Makes start [] final
  | registers {spec : ClassSpec} {reply : Except RegistryError (PairId × List PairId)}
      {final : Session} (run : Act.register spec start = .ok reply final) : Makes start [] final
  | loads {unit : LoadUnit} {imps : String → Option Imp} {classes : List ClassSpec}
      {specs : List CategorySpec} {reply : Except LoadError (LoadReport × List PairId)}
      {categories : List CategoryDefinition} {final : Session}
      (resolved : unit.resolve imps start.system.registry = .ok (classes, specs))
      (run : Act.load unit imps start = .ok reply final)
      (named : categories.map (·.named final.system.selectors) = specs.map CategorySpec.named) :
      Makes start (categories.map .applied) final
  | refuses {unit : LoadUnit} {imps : String → Option Imp} {error : LoadError}
      {reply : Except LoadError (LoadReport × List PairId)} {final : Session}
      (refused : unit.resolve imps start.system.registry = .error error)
      (run : Act.load unit imps start = .ok reply final) : Makes start [] final
  | report (event : Event) : Makes start [] { start with log := start.log.push event }
  | markInitialized (id : PairId) :
      Makes start [] { start with heap := start.heap.markInitialized id }
  | release (held : List Value) : Makes start [] { start with heap := start.heap.release held }

theorem Makes.move (makes : start.Makes changes final) : start.Move final := by
  cases makes with
  | applies run => exact .perform run
  | replaces run => exact .perform run
  | unregisters run => exact .perform run
  | shutsDown run => exact .perform run
  | performs _ run => exact .perform run
  | registers run => exact .register run
  | loads _ run => exact .load run
  | refuses _ run => exact .load run
  | report event => exact .report start event
  | markInitialized id => exact .markInitialized start id
  | release held => exact .release start held

/-- Every move does something with categories, or nothing. -/
theorem Move.exists_makes (move : start.Move final) (reachable : start.Reachable options) :
    ∃ changes, start.Makes changes final := by
  have indexed := reachable.indexed
  cases move with
  | @perform _ operation reply run =>
    cases hspares : operation.sparesCategories reply with
    | true => exact ⟨[], .performs hspares run⟩
    | false =>
      cases operation with
      | applyCategory spec =>
        obtain ⟨categories, hnamed, -⟩ := (Act.applyCategory_gathers indexed run).holds
        obtain ⟨category, rfl, hcategory⟩ := List.map_eq_singleton_iff.mp hnamed
        exact ⟨_, .applies run hcategory⟩
      | unregister name =>
        cases reply with
        | error error => cases hspares
        | ok pairs => exact ⟨_, .unregisters run⟩
      | replaceMethod cls sel imp types =>
        cases reply with
        | error error => cases hspares
        | ok replaced => exact ⟨_, .replaces run⟩
      | shutdown => exact ⟨_, .shutsDown run⟩
      | _ => cases hspares
  | register run => exact ⟨[], .registers run⟩
  | @load _ unit imps reply run =>
    cases hresolve : unit.resolve imps start.system.registry with
    | error error => exact ⟨[], .refuses hresolve run⟩
    | ok declared =>
      obtain ⟨classes, specs⟩ := declared
      obtain ⟨categories, hnamed, -⟩ :=
        (Act.load_gathers indexed reachable.steady hresolve run).holds
      exact ⟨_, .loads hresolve run hnamed⟩
  | report event => exact ⟨[], .report event⟩
  | markInitialized id => exact ⟨[], .markInitialized id⟩
  | release held => exact ⟨[], .release held⟩

/-! ### What a move makes of the categories -/

theorem Indexed.categoriesOf_eq_of_spared {operation : Operation} {reply : operation.Reply}
    (indexed : start.Indexed policy) (spares : operation.sparesCategories reply = true)
    (hrun : operation.perform start = .ok reply final) (name : String) :
    final.categoriesOf name = start.categoriesOf name := by
  have hsame := fun registry => Act.keeps_registry_of_same registry
  have hspared : operation.perform.Spares policy →
      final.categoriesOf name = start.categoriesOf name := fun spares =>
    (spares start final reply indexed hrun).categoriesOf_same name
  cases operation with
  | intern name types => exact hspared (Act.spares_intern name types)
  | internAll names =>
    exact hspared (Act.spares_of_keeps _ (Act.interns_internAll names)
      fun registry => Act.keeps_internAll (hsame registry) names)
  | applyCategory spec => cases spares
  | unregister className =>
    cases reply with
    | ok pairs => cases spares
    | error error =>
      rw [Operation.perform, Act.unregister, Act.bind_of_ok (Act.run_get start)] at hrun
      cases hid : start.system.registry.idOf? className with
      | none =>
        rw [hid] at hrun
        cases hrun
        rfl
      | some id =>
        rw [hid] at hrun
        obtain ⟨_, _, -, hpure⟩ := EStateM.bind_eq_ok_iff.mp hrun
        cases hpure
  | addMethod cls sel imp types => exact Act.addMethod_categoriesOf indexed hrun name
  | replaceMethod cls sel imp types =>
    cases reply with
    | ok replaced => cases spares
    | error error =>
      rcases Act.replaceMethod_categoriesOf indexed hrun with ⟨-, rfl⟩ | ⟨⟨_, hreply⟩, -⟩
      · rfl
      · cases hreply
  | createInstance cls =>
    exact hspared (Act.spares_of_keeps [] (Act.interns_createInstance cls)
      fun registry => Act.keeps_createInstance (hsame registry) cls)
  | createLiteral slots =>
    exact hspared (Act.spares_of_keeps [] (Act.interns_createLiteral slots)
      fun registry => Act.keeps_createLiteral (hsame registry) slots)
  | setSlot object index value =>
    exact hspared (Act.spares_of_keeps [] (Act.interns_setSlot object index value)
      fun registry => Act.keeps_setSlot (hsame registry) object index value)
  | registerStatics className objects =>
    exact hspared (Act.spares_of_keeps [] (Act.interns_registerStatics className objects)
      fun registry => Act.keeps_registerStatics (hsame registry) className objects)
  | setForward handler =>
    exact hspared (Act.spares_of_keeps [] (Act.interns_setForward handler)
      fun registry => Act.keeps_setForward (hsame registry) handler)
  | shutdown => cases spares

theorem categoriesOf_shutDown (session : Session) (name : String) :
    session.shutDown.categoriesOf name = [] := session.classes.categoriesOf_cleared name

/-- What is held after a move is what the changes that it makes lead to. -/
theorem Makes.categoriesOf_eq (makes : start.Makes changes final)
    (reachable : start.Reachable options) (name : String) :
    final.categoriesOf name =
      CategoryChange.holdAll options.categoryConflicts name changes (start.categoriesOf name) := by
  have indexed := reachable.indexed
  cases makes with
  | @applies spec status category _ run named =>
    exact (Act.applyCategory_gathers indexed run).categoriesOf_eq
      (List.map_eq_singleton_iff.mpr ⟨category, rfl, named⟩) name
  | replaces run =>
    rcases Act.replaceMethod_categoriesOf indexed run with ⟨⟨_, hreply⟩, -⟩ | ⟨-, hreplaced⟩
    · cases hreply
    · exact hreplaced name
  | unregisters run =>
    have steady := reachable.steady
    obtain ⟨top, known⟩ := exists_idOf?_of_unregister run
    obtain ⟨ids, pairs, _, hother, takesOut, -, -⟩ := unregister_takesOut steady known
    cases run.symm.trans hother
    exact takesOut.categoriesOf_eq indexed.atRest.consistent indexed.atRest.upToDate.housed name
  | shutsDown run =>
    cases (Act.shutdown_eq start).symm.trans run
    exact start.categoriesOf_shutDown name
  | performs spares run => exact indexed.categoriesOf_eq_of_spared spares run name
  | registers run => exact (Act.spares_register _ _ _ _ indexed run).categoriesOf_same name
  | loads resolved run named =>
    exact (Act.load_gathers indexed reachable.steady resolved run).categoriesOf_eq named name
  | refuses refused run =>
    rw [Act.load, Act.bind_of_ok (Act.run_get start), refused] at run
    cases run
    rfl
  | report => rfl
  | markInitialized => rfl
  | release => rfl

/-! ### What a run makes of the categories -/

/-- The moves of a run, from a fresh system on, make the changes, one after the other. -/
inductive Filed (options : Options) : List CategoryChange → Session → Prop
  | start : Filed options [] (.start options)
  | makes {earlier changes : List CategoryChange} {session final : Session}
      (before : Filed options earlier session) (makes : session.Makes changes final) :
      Filed options (earlier ++ changes) final

theorem Filed.reachable (filed : Filed options changes session) : session.Reachable options := by
  induction filed with
  | start => exact .start
  | makes _ makes ih => exact ih.move makes.move

theorem Reachable.exists_filed (reachable : session.Reachable options) :
    ∃ changes, Filed options changes session := by
  induction reachable with
  | start => exact ⟨[], .start⟩
  | move before move ih =>
    obtain ⟨earlier, filed⟩ := ih
    obtain ⟨changes, makes⟩ := move.exists_makes before
    exact ⟨earlier ++ changes, filed.makes makes⟩

theorem Filed.categoriesOf_eq (filed : Filed options changes session) (name : String) :
    session.categoriesOf name =
      CategoryChange.holdAll options.categoryConflicts name changes [] := by
  induction filed with
  | start => exact Registry.categoriesOf_empty _ name
  | makes before makes ih =>
    rw [makes.categoriesOf_eq before.reachable, ih, CategoryChange.holdAll_append]

theorem Filed.upholds (filed : Filed options changes session) (name : String) :
    Upholds name (CategoryChange.since name changes) (session.categoriesOf name) := by
  rw [filed.categoriesOf_eq]
  exact CategoryChange.upholds_holdAll options.categoryConflicts name changes

/-! ### Every reachable session -/

/-- A class is registered and takes over the categories that wait for it. -/
structure HandsOver (start : Session) (name : String) (pair : PairId) (final : Session) : Prop where
  free : start.system.registry.idOf? name = none
  registered : ∃ id record, final.system.registry.idOf? name = some id ∧
    final.system.registry.record? id = some record ∧ record.pair = pair ∧
    record.categories = start.system.registry.categoriesFor name
  emptied : final.system.registry.categoriesFor name = []

/-- What holds of the categories in a session, whatever was done with them before. -/
structure KeepsCategories (options : Options) (session : Session) : Prop where
  filed : ∃ changes, Filed options changes session
  held : ∀ changes, Filed options changes session → ∀ name, session.categoriesOf name =
    CategoryChange.holdAll options.categoryConflicts name changes []
  upholds : ∀ changes, Filed options changes session → ∀ name,
    Upholds name (CategoryChange.since name changes) (session.categoriesOf name)
  handsOver : ∀ spec pair linked final,
    Act.register spec session = .ok (.ok (pair, linked)) final →
      session.HandsOver spec.name pair final
  again : ∀ spec status middle,
    (Operation.applyCategory spec).perform session = .ok status middle →
      ∃ final builds, (Operation.applyCategory spec).perform middle = .ok status final ∧
        final.heap = middle.heap ∧ final.system =
          { middle.system with registry := { middle.system.registry with builds } }
  supersedes : ∀ spec status final category old,
    (Operation.applyCategory spec).perform session = .ok status final →
      category.named final.system.selectors = spec.named →
      old ∈ session.categoriesOf spec.className → old.name = spec.name →
        Supersedes options.categoryConflicts old category (session.categoriesOf spec.className)
          (final.categoriesOf spec.className)
  superseded : ∀ earlier category later old,
    Filed options (earlier ++ .applied category :: later) session →
      old ∈ CategoryChange.holdAll options.categoryConflicts category.className earlier [] →
      old.name = category.name → Supersedes options.categoryConflicts old category
        (CategoryChange.holdAll options.categoryConflicts category.className earlier [])
        (CategoryChange.holdAll options.categoryConflicts category.className
          (earlier ++ [.applied category]) [])
  implements : ∀ id record kind sel category, session.system.registry.record? id = some record →
    record.isLinked = true →
      options.categoryConflicts.decider? (session.categoriesOf record.name) kind sel =
        some category →
      session.heap.lookup (record.side kind) sel = lastImp? (category.methods.get kind) sel

theorem Reachable.handsOver (reachable : session.Reachable options) {spec : ClassSpec}
    {pair : PairId} {linked : List PairId}
    (hrun : Act.register spec session = .ok (.ok (pair, linked)) final) :
    session.HandsOver spec.name pair final := by
  have hfinal : final.Reachable options := reachable.move (.register hrun)
  rcases Act.register_cases hrun with ⟨hreply, -⟩ | ⟨answer, entered, hfree, hentered, hreply, rfl⟩
  · cases hreply
  · cases hreply
    obtain ⟨defined, definition, -, hregistry, hname, hpair, registers⟩ :=
      (Act.enterClass_registers spec reachable.atRest hfree).of_ok hentered
    obtain ⟨record, hid, hrecord, hsame, hcategories⟩ := registers.exists_record
    have hbound := entered.registry_bound (entered.pairsOf answer.2)
    rw [hname] at hid hcategories
    have hidFinal : (entered.bound (entered.pairsOf answer.2)).system.registry.idOf? spec.name =
        some defined.classes.registry.nextId := by
      rw [hbound]
      exact hid
    have hheld := hfinal.atRest.consistent.heldBack spec.name
      fun hnone => Option.some_ne_none _ (hidFinal.symm.trans hnone)
    refine ⟨hfree, ⟨_, record, hidFinal, ?_, hsame.trans hpair.symm, ?_⟩, ?_⟩
    · rw [hbound]
      exact hrecord
    · rw [← hregistry]
      exact hcategories
    · rw [categoriesFor]
      exact congrArg (Option.getD · []) hheld

/-- Right after a category was applied, applying it again leads to the same. -/
theorem Reachable.applies_again (reachable : session.Reachable options) {spec : CategorySpec}
    {status : CategoryStatus} {middle : Session}
    (hrun : (Operation.applyCategory spec).perform session = .ok status middle) :
    ∃ final builds, (Operation.applyCategory spec).perform middle = .ok status final ∧
      final.heap = middle.heap ∧ final.system =
        { middle.system with registry := { middle.system.registry with builds } } := by
  have indexed := reachable.indexed
  have hmiddle : middle.Reachable options := reachable.move (.perform hrun)
  obtain ⟨category, defined, -, definedAs, -, -, includes⟩ :=
    (Act.applyCategory_applies spec indexed.sound indexed.atRest.consistent
      indexed.atRest.upToDate.housed).of_ok hrun
  obtain ⟨_, final, hagain, rfl, hheap, builds, hsystem⟩ :=
    (Act.applyCategory_again hmiddle.indexed.sound definedAs includes).exists_ok
  exact ⟨final, builds, hagain, hheap, hsystem⟩

theorem supersedes_holdAll (policy : CategoryConflictPolicy) {earlier : List CategoryChange}
    {category old : CategoryDefinition}
    (hold : old ∈ CategoryChange.holdAll policy category.className earlier [])
    (hname : old.name = category.name) :
    Supersedes policy old category (CategoryChange.holdAll policy category.className earlier [])
      (CategoryChange.holdAll policy category.className (earlier ++ [.applied category]) []) := by
  have hnodup := (CategoryChange.upholds_holdAll policy category.className earlier).distinct
  have hmerged :
      CategoryChange.holdAll policy category.className (earlier ++ [.applied category]) [] =
        category.merge (CategoryChange.holdAll policy category.className earlier []) := by
    rw [CategoryChange.holdAll_append]
    exact if_pos rfl
  rw [hmerged]
  exact CategoryDefinition.supersedes_merge policy hnodup hold hname

theorem Reachable.supersedes (reachable : session.Reachable options) {spec : CategorySpec}
    {status : CategoryStatus} {category old : CategoryDefinition}
    (hrun : (Operation.applyCategory spec).perform session = .ok status final)
    (hnamed : category.named final.system.selectors = spec.named)
    (hold : old ∈ session.categoriesOf spec.className) (hname : old.name = spec.name) :
    Supersedes options.categoryConflicts old category (session.categoriesOf spec.className)
      (final.categoriesOf spec.className) := by
  obtain ⟨changes, filed⟩ := reachable.exists_filed
  have hclass : category.className = spec.className := congrArg NamedCategory.className hnamed
  have hnameSame : old.name = category.name :=
    hname.trans (congrArg NamedCategory.name hnamed).symm
  have hfinal := (filed.makes (Makes.applies hrun hnamed)).categoriesOf_eq category.className
  rw [← hclass] at hold ⊢
  rw [filed.categoriesOf_eq] at hold ⊢
  rw [hfinal]
  exact supersedes_holdAll options.categoryConflicts hold hnameSame

/-- A linked class implements a selector by what the category that decides has for it. -/
theorem Reachable.lookup_eq_decider (reachable : session.Reachable options) {id : ClassId}
    {record : Record} {kind : ClassKind} {sel : Sel} {category : CategoryDefinition}
    (hrecord : session.system.registry.record? id = some record) (hlinked : record.isLinked = true)
    (hdecides : options.categoryConflicts.decider? (session.categoriesOf record.name) kind sel =
      some category) :
    session.heap.lookup (record.side kind) sel = lastImp? (category.methods.get kind) sel := by
  have steady := reachable.steady
  have hcategories : session.categoriesOf record.name = record.categories :=
    steady.atRest.consistent.categoriesOf_eq hrecord
  have hlinked := of_decide_eq_true hlinked
  rw [hcategories] at hdecides
  have hstrongest : record.strongest? options.categoryConflicts kind sel = some category :=
    hdecides
  have hdefines : category.defines kind sel = true := by
    rw [Record.strongest?_eq] at hstrongest
    have hfound := List.find?_some hstrongest
    exact hfound
  -- the class itself implements the selector, so the walk upwards ends right where it begins
  obtain ⟨imp, himp⟩ : ∃ imp, lastImp? (category.methods.get kind) sel = some imp :=
    Option.isSome_iff_exists.mp ((lastImp?_isSome _ _).trans hdefines)
  obtain ⟨own, rest, hchain, hown, -⟩ :=
    (steady.atRest.hierarchy.ancestry_chain hrecord hlinked).head
  cases hown.symm.trans hrecord
  have hfound := Classes.Steady.lookup_eq_walkUp steady hrecord hlinked kind sel
  have himplements : record.implementation? options.categoryConflicts kind sel = some imp := by
    rw [Record.implementation?, hstrongest]
    exact himp
  rw [himp]
  refine hfound.trans ?_
  rw [show session.classes.registry.chain id = record :: rest from hchain]
  exact walkUp_of_own himplements rest

/-- In every reachable session the categories for a class keep their names apart and their places,
before it is registered and afterwards, and each is as it was applied last, but for the methods that
were replaced since. What waits is handed over when the class is registered. A category that is
applied again right away changes nothing but the number of tables built; one that is applied again
later never changes who decides about a selector that it defined before and defines now. -/
theorem Reachable.keeps_categories (reachable : session.Reachable options) :
    session.KeepsCategories options where
  filed := reachable.exists_filed
  held _ filed := filed.categoriesOf_eq
  upholds _ filed := filed.upholds
  handsOver _ _ _ _ hrun := reachable.handsOver hrun
  again _ _ _ hrun := reachable.applies_again hrun
  supersedes _ _ _ _ _ hrun hnamed hold hname := reachable.supersedes hrun hnamed hold hname
  superseded _ _ _ _ _ hold hname := supersedes_holdAll options.categoryConflicts hold hname
  implements _ _ _ _ _ hrecord hlinked hdecides :=
    reachable.lookup_eq_decider hrecord hlinked hdecides

/-- A category of the root that comes before it. -/
def moreSample : CategorySpec :=
  { name := "More", className := "Root", methods := ⟨[⟨"pong", none, ⟨5⟩⟩], []⟩, protocols := [] }

def extraSample : CategorySpec :=
  { name := "Extra", className := "Root", methods := ⟨[⟨"pong", none, ⟨6⟩⟩], []⟩, protocols := [] }

/-- Both categories wait for the root and are handed over to it. The first one is applied again: it
keeps its place, so that the other one still decides, and applied once more it changes nothing. -/
theorem keeps_categories_handedOver :
    let session := (((Session.start {}).afterPerform (.applyCategory moreSample)).afterPerform
      (.applyCategory extraSample)).afterRegister rootSample
    let middle := session.afterPerform (.applyCategory moreSample)
    session.Reachable {} ∧
      (∃ category old : CategoryDefinition,
        category.named middle.system.selectors = moreSample.named ∧
        Supersedes .lastApplied old category (session.categoriesOf "Root")
          (middle.categoriesOf "Root")) ∧
      (CategoryConflictPolicy.lastApplied.decider? (middle.categoriesOf "Root") .plain ⟨1⟩).map
        (·.name) = some "Extra" ∧
      ∃ final builds, (Operation.applyCategory moreSample).perform middle = .ok .applied final ∧
        final.heap = middle.heap ∧ final.system =
          { middle.system with registry := { middle.system.registry with builds } } := by
  intro session middle
  have reachable : session.Reachable {} :=
    ((Reachable.start.afterPerform _).afterPerform _).afterRegister rootSample
  have hfacts : (Act.applyCategory moreSample).run' session = some .applied ∧
      (session.categoriesOf "Root").map (·.name) = ["More", "Extra"] ∧
      (CategoryConflictPolicy.lastApplied.decider? (middle.categoriesOf "Root") .plain ⟨1⟩).map
        (·.name) = some "Extra" := by decide +kernel
  obtain ⟨hreply, hnames, hdecides⟩ := hfacts
  have hrun : (Operation.applyCategory moreSample).perform session = .ok .applied middle :=
    perform_of_reply hreply
  have keeps := reachable.keeps_categories
  obtain ⟨old, hold, hname⟩ : ∃ old ∈ session.categoriesOf "Root", old.name = "More" := by
    rw [← List.mem_map, hnames]
    exact List.mem_cons_self
  obtain ⟨categories, hnamed, -⟩ := (Act.applyCategory_gathers reachable.indexed hrun).holds
  obtain ⟨category, rfl, hcategory⟩ := List.map_eq_singleton_iff.mp hnamed
  exact ⟨reachable, ⟨category, old, hcategory, keeps.supersedes _ _ _ _ _ hrun hcategory hold hname⟩,
    hdecides, keeps.again _ _ _ hrun⟩

end Session

end LateBinding
