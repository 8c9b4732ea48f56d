import LateBinding.Proofs.Execution.Atomic
import LateBinding.Proofs.Execution.Onward
import LateBinding.Proofs.System.Interned
import LateBinding.Proofs.System.Shutdown

/-!
# What can end everything

Every reachable session is indexed: all selectors that its classes and categories mention are
interned, and so are those that its tables answer to. So no table is too small for a selector, and a
class that is released finds its superclass linked. What is left is an operation or a request that
declares a new name when all uids are taken.
-/

namespace LateBinding

def Operation.names : Operation → List String
  | .intern name _ => [name]
  | .internAll names => names
  | .applyCategory spec => Declaration.sidesNames spec.methods
  | _ => []

/-! ### Units -/

namespace LoadUnit

def sidesNames (methods : Sided (List MethodDef)) : List String :=
  methods.plain.map (·.name) ++ methods.metaclass.map (·.name)

/-- The names that a unit refers to: those of its selectors and of all its methods. -/
def names (unit : LoadUnit) : List String :=
  unit.selectors.map (·.name) ++ unit.classes.flatMap (sidesNames ·.methods) ++
    unit.categories.flatMap (sidesNames ·.methods)

variable {unit : String} {imps : String → Option Imp}

theorem resolveMethods_names {methods : List MethodDef} {specs : List MethodSpec}
    (hresolve : resolveMethods unit imps methods = .ok specs) :
    specs.map (·.name) = methods.map (·.name) := by
  induction methods generalizing specs with
  | nil =>
    cases hresolve
    rfl
  | cons method rest ih =>
    rw [resolveMethods, List.mapM_cons] at hresolve
    obtain ⟨spec, hspec, hresolve⟩ := Except.bind_eq_ok_iff.mp hresolve
    obtain ⟨others, hothers, hresolve⟩ := Except.bind_eq_ok_iff.mp hresolve
    cases hresolve
    rw [List.map_cons, List.map_cons, ih hothers]
    split at hspec
    · cases hspec
      rfl
    · cases hspec

theorem resolveSides_names {methods : Sided (List MethodDef)} {specs : Sided (List MethodSpec)}
    (hresolve : resolveSides unit imps methods = .ok specs) :
    Declaration.sidesNames specs = sidesNames methods := by
  obtain ⟨plain, hplain, hresolve⟩ := Except.bind_eq_ok_iff.mp hresolve
  obtain ⟨metaclass, hmetaclass, hresolve⟩ := Except.bind_eq_ok_iff.mp hresolve
  cases hresolve
  rw [Declaration.sidesNames, sidesNames, resolveMethods_names hplain,
    resolveMethods_names hmetaclass]

theorem resolveClasses_methods {earlier : List String} {classes : List ClassDef}
    {specs : List ClassSpec} (hresolve : resolveClasses unit imps earlier classes = .ok specs) :
    specs.flatMap (Declaration.sidesNames ·.methods) = classes.flatMap (sidesNames ·.methods) := by
  induction classes generalizing earlier specs with
  | nil =>
    cases hresolve
    rfl
  | cons cls rest ih =>
    rw [resolveClasses] at hresolve
    split at hresolve
    · cases hresolve
    · obtain ⟨methods, hmethods, hresolve⟩ := Except.bind_eq_ok_iff.mp hresolve
      obtain ⟨others, hothers, hresolve⟩ := Except.bind_eq_ok_iff.mp hresolve
      cases hresolve
      rw [List.flatMap_cons, List.flatMap_cons, ih hothers, resolveSides_names hmethods]

theorem resolveCategories_methods {categories : List CategoryDef} {specs : List CategorySpec}
    (hresolve : resolveCategories unit imps categories = .ok specs) :
    specs.flatMap (Declaration.sidesNames ·.methods) =
      categories.flatMap (sidesNames ·.methods) := by
  induction categories generalizing specs with
  | nil =>
    cases hresolve
    rfl
  | cons category rest ih =>
    rw [resolveCategories, List.mapM_cons] at hresolve
    obtain ⟨spec, hspec, hresolve⟩ := Except.bind_eq_ok_iff.mp hresolve
    obtain ⟨others, hothers, hresolve⟩ := Except.bind_eq_ok_iff.mp hresolve
    obtain ⟨methods, hmethods, hspec⟩ := Except.bind_eq_ok_iff.mp hspec
    cases hspec
    cases hresolve
    rw [List.flatMap_cons, List.flatMap_cons, ih hothers, resolveSides_names hmethods]

/-- What is declared for a unit mentions no other names than the unit does. -/
theorem resolve_methods {unit : LoadUnit} {registry : Registry} {classes : List ClassSpec}
    {categories : List CategorySpec}
    (hresolve : unit.resolve imps registry = .ok (classes, categories)) :
    (∀ spec ∈ classes, Declaration.sidesNames spec.methods ⊆ unit.names) ∧
      ∀ spec ∈ categories, Declaration.sidesNames spec.methods ⊆ unit.names := by
  obtain ⟨specs, hspecs, hresolve⟩ := Except.bind_eq_ok_iff.mp hresolve
  obtain ⟨others, hothers, hresolve⟩ := Except.bind_eq_ok_iff.mp hresolve
  obtain ⟨⟨⟩, -, hresolve⟩ := Except.bind_eq_ok_iff.mp hresolve
  cases hresolve
  rw [names, ← resolveClasses_methods hspecs, ← resolveCategories_methods hothers]
  constructor
  · intro spec hspec name hname
    exact List.mem_append_left _
      (List.mem_append_right _ (List.mem_flatMap.mpr ⟨spec, hspec, hname⟩))
  · intro spec hspec name hname
    exact List.mem_append_right _ (List.mem_flatMap.mpr ⟨spec, hspec, hname⟩)

end LoadUnit

namespace Act

variable {policy : CategoryConflictPolicy} {names : List String} {start : Session}

theorem enterClasses_internsFrom {specs : List ClassSpec} (indexed : start.Indexed policy)
    (hnodup : (specs.map (·.name)).Nodup)
    (hfree : ∀ spec ∈ specs, start.system.registry.idOf? spec.name = none)
    (hnames : ∀ spec ∈ specs, Declaration.sidesNames spec.methods ⊆ names) :
    (enterClasses specs).InternsFrom policy names start fun _ _ => True := by
  induction specs generalizing start with
  | nil => exact internsFrom_pure indexed trivial
  | cons spec rest ih =>
    rw [List.map_cons, List.nodup_cons] at hnodup
    have hhere := hfree spec List.mem_cons_self
    rw [enterClasses_cons]
    refine internsFrom_bind ((enterClass_internsFrom spec indexed hhere).weaken
      (hnames spec List.mem_cons_self) fun _ _ h => h) ?_
    intro answer entered hrun hentered _
    obtain ⟨-, hothers⟩ := (enterClass_leads spec indexed.atRest hhere).of_ok hrun
    rw [map_eq_pure_bind]
    refine internsFrom_bind (ih hentered hnodup.2 (free_of_enterClass hnodup.1 hfree hothers)
      fun other hother => hnames other (List.mem_cons_of_mem _ hother)) ?_
    exact fun _ _ _ hfinal _ => internsFrom_pure hfinal trivial

theorem interns_createStatics (group : StaticGroup) : (createStatics group).Interns policy names :=
  (Interns.mapM fun _ _ => interns_createLiteral _).bind fun objects =>
    (interns_registerStatics group.className objects).bind fun _ => interns_pure objects

theorem interns_finishUnit (unit : LoadUnit) (classes : List ClassSpec)
    {categories : List CategorySpec} (linked : List ClassId)
    (hnames : ∀ spec ∈ categories, Declaration.sidesNames spec.methods ⊆ names) :
    (finishUnit unit classes categories linked).Interns policy names := by
  have happlied : (categories.mapM applyCategory).Interns policy names :=
    Interns.mapM fun spec hspec => (interns_applyCategory spec).mono (hnames spec hspec)
  have hmade : (unit.statics.mapM createStatics).Interns policy names :=
    Interns.mapM fun group _ => interns_createStatics group
  refine happlied.bind fun statuses => (interns_finishLinking linked).bind fun pairs =>
    hmade.bind fun statics => ?_
  exact interns_get_bind fun session indexed =>
    ((interns_report _).bind fun _ => interns_pure _) session indexed

theorem execute_internsFrom (unit : LoadUnit) {classes : List ClassSpec}
    {categories : List CategorySpec} (indexed : start.Indexed policy)
    (hnodup : (classes.map (·.name)).Nodup)
    (hfree : ∀ spec ∈ classes, start.system.registry.idOf? spec.name = none)
    (hclasses : ∀ spec ∈ classes, Declaration.sidesNames spec.methods ⊆ unit.names)
    (hcategories : ∀ spec ∈ categories, Declaration.sidesNames spec.methods ⊆ unit.names) :
    (execute unit classes categories).InternsFrom policy unit.names start fun _ _ => True := by
  have hselector : ∀ ref ∈ unit.selectors,
      (discard (intern ref.name ref.types)).Interns policy unit.names := by
    intro ref href
    refine ((interns_intern ref.name ref.types).mono ?_).map _
    intro name hname
    rw [List.mem_singleton.mp hname]
    exact List.mem_append_left _ (List.mem_append_left _ (List.mem_map_of_mem href))
  rw [execute_eq]
  refine internsFrom_bind (Interns.forM hselector start indexed) ?_
  intro _ interned hrun hinterned _
  obtain ⟨-, hregistry⟩ := (keeps_selectors unit start ⟨indexed.atRest, rfl⟩).of_ok hrun
  refine internsFrom_bind (enterClasses_internsFrom hinterned hnodup (by rwa [hregistry])
    hclasses) ?_
  exact fun linked entered _ hentered _ =>
    interns_finishUnit unit classes linked hcategories entered hentered

theorem interns_load (unit : LoadUnit) (imps : String → Option Imp) :
    (load unit imps).Interns policy unit.names := by
  apply interns_get_bind
  intro session indexed
  cases hresolve : unit.resolve imps session.system.registry with
  | error error => exact internsFrom_pure indexed trivial
  | ok declared =>
    obtain ⟨classes, categories⟩ := declared
    obtain ⟨hnodup, hfree⟩ := LoadUnit.resolve_names hresolve
    obtain ⟨hclasses, hcategories⟩ := LoadUnit.resolve_methods hresolve
    exact internsFrom_bind
      (execute_internsFrom unit indexed hnodup hfree hclasses hcategories)
      fun _ _ _ hfinal _ => internsFrom_pure hfinal trivial

end Act

/-! ### Sessions -/

namespace Session

variable {options : Options} {policy : CategoryConflictPolicy} {session start final : Session}

theorem Indexed.shutDown (indexed : session.Indexed policy) : session.shutDown.Indexed policy where
  atRest := (Act.keeps_shutdown session indexed.atRest).of_ok (Act.shutdown_eq session)
  sound := indexed.sound.clear
  interned sel mentions := absurd mentions (Registry.not_mentions_empty _ sel)

theorem Indexed.interns_perform {operation : Operation} (hne : operation ≠ .shutdown) :
    operation.perform.Interns policy operation.names := by
  cases operation with
  | intern name types => exact Act.interns_intern name types
  | internAll names => exact Act.interns_internAll names
  | applyCategory spec => exact Act.interns_applyCategory spec
  | unregister name => exact Act.interns_unregister name
  | addMethod cls sel imp types => exact Act.interns_addMethod cls sel imp types
  | replaceMethod cls sel imp types => exact Act.interns_replaceMethod cls sel imp types
  | createInstance cls => exact Act.interns_createInstance cls
  | createLiteral slots => exact Act.interns_createLiteral slots
  | setSlot object index value => exact Act.interns_setSlot object index value
  | registerStatics className objects => exact Act.interns_registerStatics className objects
  | setForward handler => exact Act.interns_setForward handler
  | shutdown => exact absurd rfl hne

/-- A shutdown is the only operation that forgets selectors. -/
theorem Indexed.perform {operation : Operation} {reply : operation.Reply}
    (indexed : start.Indexed policy) (hrun : operation.perform start = .ok reply final) :
    final.Indexed policy := by
  by_cases hshutdown : operation = .shutdown
  · subst hshutdown
    cases (Act.shutdown_eq start).symm.trans hrun
    exact indexed.shutDown
  · exact ((Indexed.interns_perform hshutdown start indexed).of_ok hrun).1

theorem Indexed.exhausts {operation : Operation} {reason : Abort} (indexed : start.Indexed policy)
    (hrun : operation.perform start = .error reason final) :
    start.system.selectors.Exhausts operation.names reason := by
  by_cases hshutdown : operation = .shutdown
  · subst hshutdown
    cases (Act.shutdown_eq start).symm.trans hrun
  · exact (Indexed.interns_perform hshutdown start indexed).of_error hrun

theorem Move.indexed (move : start.Move final) (indexed : start.Indexed policy) :
    final.Indexed policy := by
  cases move with
  | perform run => exact indexed.perform run
  | @register _ spec _ run => exact ((Act.interns_register spec start indexed).of_ok run).1
  | @load _ unit imps _ run => exact ((Act.interns_load unit imps start indexed).of_ok run).1
  | report event => exact indexed.transfer ⟨.refl, rfl⟩ rfl
  | markInitialized id =>
    exact indexed.transfer ⟨start.heap.sameTables_markInitialized id, rfl⟩ rfl
  | release held => exact indexed.transfer ⟨start.heap.sameTables_release held, rfl⟩ rfl

theorem Reachable.indexed (reachable : session.Reachable options) :
    session.Indexed options.categoryConflicts := by
  induction reachable with
  | start => exact indexed_start options
  | move _ move ih => exact move.indexed ih

/-- What ends everything meets a new name when all uids are taken. -/
theorem Fails.exhausts {reason : Abort} (fails : session.Fails reason)
    (indexed : session.Indexed policy) :
    ∃ names, session.system.selectors.Exhausts names reason := by
  cases fails with
  | action primitive run =>
    cases primitive with
    | perform operation => exact ⟨_, indexed.exhausts run⟩
    | register spec => exact ⟨_, (Act.interns_register spec session indexed).of_error run⟩
    | load unit imps => exact ⟨_, (Act.interns_load unit imps session indexed).of_error run⟩
    | report event => cases run
    | markInitialized id => cases run

/-- A table answers only to selectors that its class or one above it mentions. -/
theorem Reachable.mentions_of_lookup (reachable : session.Reachable options) {cls : ClassRef}
    {sel : Sel} (hlookup : (session.heap.lookup cls sel).isSome = true) :
    session.system.registry.Mentions sel := by
  obtain ⟨imp, himp⟩ := Option.isSome_iff_exists.mp hlookup
  obtain ⟨table, htable, hget⟩ := Option.bind_eq_some_iff.mp himp
  have hlinked : session.heap.isLinked cls = true := by
    rw [Heap.isLinked, htable]
    rfl
  obtain ⟨id, record, hrecord, hpair, hstate⟩ := (reachable.steady.isLinked_iff cls).mp hlinked
  obtain ⟨ancestry, htables⟩ := reachable.atRest.exists_tables hrecord (decide_eq_true hstate)
  obtain ⟨published, hpublished, hwalk⟩ := htables cls.kind
  have hsame : published = table := by
    rw [hpair] at hpublished
    exact Option.some.inj (hpublished.symm.trans htable)
  rw [hsame] at hwalk
  exact ancestry.mentions_of_walkUp ((hwalk sel).symm.trans hget)

/-- In a reachable session, every selector that a class, a category or a table has is interned. What
is done in one go, and what a request leads to, ends everything only where it meets a new name when
all uids are taken. -/
theorem Reachable.ends_only_when_exhausted (reachable : session.Reachable options) :
    (∀ sel, (session.system.registry.Mentions sel ∨
        ∃ cls, (session.heap.lookup cls sel).isSome = true) →
      1 ≤ sel.uid ∧ sel.uid ≤ maxUid ∧ session.system.selectors.contains sel = true) ∧
    (∀ (operation : Operation) reason final, operation.perform session = .error reason final →
      session.system.selectors.Exhausts operation.names reason) ∧
    (∀ spec reason final, Act.register spec session = .error reason final →
      session.system.selectors.Exhausts (Declaration.sidesNames spec.methods) reason) ∧
    (∀ unit imps reason final, Act.load unit imps session = .error reason final →
      session.system.selectors.Exhausts unit.names reason) ∧
    ∀ {σ : Type} (host : Host σ) (depth : Nat) (request : Request) (world final : World σ) reason,
      world.session = session →
      host.answer depth request world = .error (.abort reason) final →
        ∃ before names, session.Onward before ∧ before.Fails reason ∧
          before.system.selectors.Exhausts names reason := by
  have indexed := reachable.indexed
  refine ⟨?_, ?_, ?_, ?_, ?_⟩
  · intro sel hsel
    have hmentions : session.system.registry.Mentions sel :=
      hsel.elim id fun ⟨_, hlookup⟩ => reachable.mentions_of_lookup hlookup
    have hcontains := indexed.interned sel hmentions
    obtain ⟨hpositive, hle⟩ := indexed.sound.uid_of_contains hcontains
    exact ⟨hpositive, hle, hcontains⟩
  · exact fun operation reason final hrun => indexed.exhausts hrun
  · exact fun spec reason final hrun => (Act.interns_register spec session indexed).of_error hrun
  · exact fun unit imps reason final hrun =>
      (Act.interns_load unit imps session indexed).of_error hrun
  · intro σ host depth request world final reason hsession hrun
    subst hsession
    have traced := (host.ofMoves_answer depth request).traced world
    rw [hrun] at traced
    obtain ⟨before, onward, fails⟩ := traced
    obtain ⟨names, exhausts⟩ := fails.exhausts (reachable.onward onward).indexed
    exact ⟨before, names, onward, fails, exhausts⟩

/-- One name more than there are uids. -/
def crowdSample : List String :=
  (List.range (maxUid + 1)).map fun length => String.ofList (List.replicate length 'a')

theorem nodup_crowdSample : crowdSample.Nodup := by
  apply List.nodup_range.map
  intro first second heq
  simpa using congrArg String.length heq

/-- After a class came before its superclass, the class object of the leaf answers to the selector
of `pong`. Interning too many names then ends everything, for a lack of selectors. -/
theorem ends_only_when_exhausted_crowd :
    let session := ((Session.start {}).afterRegister leafSample).afterRegister rootSample
    session.Reachable {} ∧
      (session.heap.lookup ⟨⟨0⟩, .metaclass⟩ ⟨2⟩).isSome = true ∧
      session.system.selectors.contains ⟨2⟩ = true ∧
      ∃ reason final, (Operation.internAll crowdSample).perform session = .error reason final ∧
        session.system.selectors.Exhausts crowdSample reason := by
  intro session
  have hsession : session.Reachable {} :=
    (Reachable.start.afterRegister leafSample).afterRegister rootSample
  have hlookup : (session.heap.lookup ⟨⟨0⟩, .metaclass⟩ ⟨2⟩).isSome = true := by decide +kernel
  obtain ⟨hinterned, hperform, -⟩ := hsession.ends_only_when_exhausted
  have hmany : maxUid < crowdSample.dedup.length := by
    rw [nodup_crowdSample.dedup, crowdSample, List.length_map, List.length_range]
    exact Nat.lt_succ_self maxUid
  obtain ⟨reason, hreason⟩ := hsession.indexed.sound.internAll_fails hmany
  have hrun : (Operation.internAll crowdSample).perform session = .error reason session := by
    rw [Operation.perform, Act.internAll, Act.bind_of_ok (Act.run_get session), hreason]
    rfl
  exact ⟨hsession, hlookup, (hinterned ⟨2⟩ (.inr ⟨_, hlookup⟩)).2.2, reason, session, hrun,
    hperform (.internAll crowdSample) reason session hrun⟩

end Session

end LateBinding
