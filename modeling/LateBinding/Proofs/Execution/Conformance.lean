import LateBinding.Proofs.Execution.Gathering
import LateBinding.Proofs.Execution.Unregistering
import LateBinding.Proofs.Registry.Adoption

/-!
# Protocols in every reachable session

A class conforms to what it, its categories and the classes above it adopt, down to every level of
the protocols. The classes and categories of a unit adopt the protocols that the unit has for them.
-/

namespace LateBinding

open Registry

/-! ### The protocols a class was declared with -/

namespace Registry

def protocolsOf? (registry : Registry) (name : String) : Option (List Protocol) :=
  ((registry.idOf? name).bind registry.content?).map (·.protocols)

theorem protocolsOf?_eq_some_iff {registry : Registry} {name : String} {protocols : List Protocol} :
    registry.protocolsOf? name = some protocols ↔ ∃ id record, registry.idOf? name = some id ∧
      registry.record? id = some record ∧ record.protocols = protocols := by
  simp [protocolsOf?, content?, Record.content, Option.bind_eq_some_iff]

end Registry

namespace Classes

variable {start final : Classes}

theorem Registers.protocolsOf?_eq {definition : ClassDefinition} {order : List ClassId}
    (registers : start.Registers definition order final)
    (consistent : start.registry.Consistent []) (name : String) :
    final.registry.protocolsOf? name =
      if definition.name = name then some definition.protocols
      else start.registry.protocolsOf? name := by
  rw [protocolsOf?, registers.idOf?_eq]
  split
  · rw [Option.bind_some, registers.content?_eq, if_pos rfl]
    rfl
  · rw [protocolsOf?]
    cases hid : start.registry.idOf? name with
    | none => rfl
    | some id =>
      obtain ⟨record, hrecord, -⟩ := consistent.exists_record hid
      have hne : start.registry.nextId ≠ id := by
        intro heq
        rw [← heq, record?_nextId] at hrecord
        cases hrecord
      rw [Option.bind_some, Option.bind_some, registers.content?_eq, if_neg hne]

/-- A category brings protocols of its own, but those of the class stay what they were. -/
theorem Applies.protocolsOf?_eq {category : CategoryDefinition} {status : CategoryStatus}
    (applies : start.Applies category status final) :
    final.registry.protocolsOf? = start.registry.protocolsOf? := by
  funext name
  cases applies with
  | waits => rfl
  | @merges id record _ _ alters =>
    rw [protocolsOf?, alters.idOf?_eq, protocolsOf?]
    cases hid : start.registry.idOf? name with
    | none => rfl
    | some other =>
      rw [Option.bind_some, Option.bind_some, alters.content?_eq]
      split
      · next heq =>
        subst heq
        rw [content?_of_record (show start.registry.record? id = some record from alters.registered)]
        rfl
      · rfl

end Classes

namespace Session

variable {policy : CategoryConflictPolicy} {specs others : List ClassSpec}
  {start middle final : Session}

/-- Classes are registered with the protocols they are declared with, and those that were registered
before keep theirs. -/
structure Introduces (policy : CategoryConflictPolicy) (specs : List ClassSpec)
    (start final : Session) : Prop where
  atRest : final.AtRest policy
  kept : ∀ name protocols, start.system.registry.protocolsOf? name = some protocols →
    final.system.registry.protocolsOf? name = some protocols
  own : ∀ spec ∈ specs, final.system.registry.protocolsOf? spec.name = some spec.protocols

theorem Introduces.of_same (atRest : final.AtRest policy)
    (hsame : final.system.registry.protocolsOf? = start.system.registry.protocolsOf?) :
    start.Introduces policy [] final where
  atRest := atRest
  kept name protocols h := by rw [hsame, h]
  own _ h := absurd h List.not_mem_nil

theorem Introduces.trans (first : start.Introduces policy specs middle)
    (second : middle.Introduces policy others final) :
    start.Introduces policy (specs ++ others) final where
  atRest := second.atRest
  kept name protocols h := second.kept name protocols (first.kept name protocols h)
  own := by
    intro spec hspec
    rcases List.mem_append.mp hspec with hearlier | hlater
    · exact second.kept _ _ (first.own spec hearlier)
    · exact second.own spec hlater

end Session

namespace Act

variable {α : Type} {policy : CategoryConflictPolicy} {start final : Session}

/-- The action introduces no classes. -/
def IntroducesNone (policy : CategoryConflictPolicy) (action : Act α) : Prop :=
  ∀ start : Session, action.Keeps (start.Introduces policy [])

theorem introducesNone_of {action : Act α} (hkeeps : action.Keeps (Session.AtRest policy))
    (hsame : ∀ (session final : Session) (reply : α), session.AtRest policy →
      action session = .ok reply final →
      final.system.registry.protocolsOf? = session.system.registry.protocolsOf?) :
    action.IntroducesNone policy := by
  intro start session introduces
  refine leads_of_ok fun reply final hrun => ?_
  exact introduces.trans (.of_same ((hkeeps session introduces.atRest).of_ok hrun)
    (hsame session final reply introduces.atRest hrun))

theorem introducesNone_intern (name : String) (types : Option String) :
    (intern name types).IntroducesNone policy := by
  refine introducesNone_of (keeps_intern (fun _ _ same h => h.transfer same) name types) ?_
  intro session final sel _ hrun
  rw [(keeps_intern (keeps_registry_of_same _) name types session rfl).of_ok hrun]

theorem introducesNone_createStatics (group : StaticGroup) :
    (createStatics group).IntroducesNone policy := by
  refine introducesNone_of (keeps_createStatics (fun _ _ same h => h.transfer same) group) ?_
  intro session final objects _ hrun
  rw [(keeps_createStatics (keeps_registry_of_same _) group session rfl).of_ok hrun]

theorem introducesNone_applyCategory (spec : CategorySpec) :
    (applyCategory spec).IntroducesNone policy := by
  refine introducesNone_of (keeps_applyCategory spec) ?_
  intro session final status atRest hrun
  have leads : (applyCategory spec).Leads True session fun _ final =>
      final.system.registry.protocolsOf? = session.system.registry.protocolsOf? := by
    rw [applyCategory, leads_bind]
    refine (keeps_defineMethods keeps_atRest_of_same spec.methods session ⟨atRest, rfl⟩).mono ?_
    rintro methods defined ⟨hdefined, hregistry⟩
    rw [leads_onClasses, ← hregistry]
    exact (Linking.applyCategory_leads hdefined.consistent (.inl trivial)).mono
      fun _ _ applies => applies.protocolsOf?_eq
  exact leads.of_ok hrun

theorem register_introduces {spec : ClassSpec} {call : PairId × List PairId}
    (atRest : start.AtRest policy) (hrun : register spec start = .ok (.ok call) final) :
    start.Introduces policy [spec] final := by
  have hfinal := (keeps_register spec start atRest).of_ok hrun
  rcases register_cases hrun with ⟨hreply, -⟩ | ⟨answer, entered, hfree, hentered, -, rfl⟩
  · cases hreply
  · obtain ⟨defined, methods, hdefined, hregistry, -, registers⟩ :=
      (enterClass_enters spec atRest hfree).of_ok hentered
    have hafter : (entered.bound (entered.pairsOf answer.2)).system.registry.protocolsOf? =
        entered.system.registry.protocolsOf? := by rw [entered.registry_bound]
    have henters : ∀ name, entered.system.registry.protocolsOf? name =
        if spec.name = name then some spec.protocols
        else start.system.registry.protocolsOf? name := by
      rw [← hregistry]
      exact registers.protocolsOf?_eq hdefined.consistent
    refine ⟨hfinal, ?_, ?_⟩
    · intro name protocols hbefore
      rw [hafter, henters, if_neg, hbefore]
      intro hname
      rw [protocolsOf?, ← hname, hfree] at hbefore
      cases hbefore
    · intro other hother
      rw [List.mem_singleton.mp hother, hafter, henters, if_pos rfl]

theorem mapM_register_introduces {specs : List ClassSpec} {calls : List (PairId × List PairId)}
    (atRest : start.AtRest policy) (hrun : specs.mapM register start = .ok (calls.map .ok) final) :
    start.Introduces policy specs final := by
  induction specs generalizing start calls with
  | nil =>
    obtain ⟨-, rfl⟩ := EStateM.Result.ok.inj hrun
    exact .of_same atRest rfl
  | cons spec rest ih =>
    rw [List.mapM_cons] at hrun
    obtain ⟨reply, middle, hfirst, hrun⟩ := EStateM.bind_eq_ok_iff.mp hrun
    obtain ⟨replies, after, hothers, hpure⟩ := EStateM.bind_eq_ok_iff.mp hrun
    obtain ⟨hreplies, rfl⟩ := EStateM.Result.ok.inj hpure
    obtain ⟨call, others, rfl, rfl, rfl⟩ := List.map_eq_cons_iff.mp hreplies.symm
    have introduces := register_introduces atRest hfirst
    exact introduces.trans (ih introduces.atRest hothers)

theorem declareEach_introduces {unit : LoadUnit} {classes : List ClassSpec}
    {categories : List CategorySpec} {calls : List (PairId × List PairId)}
    {statuses : List CategoryStatus} {statics : List (List ObjectId)}
    (atRest : start.AtRest policy)
    (hrun : declareEach unit classes categories start =
      .ok (calls.map .ok, statuses, statics) final) :
    start.Introduces policy classes final := by
  obtain ⟨_, interned, hinterned, hrun⟩ := EStateM.bind_eq_ok_iff.mp hrun
  obtain ⟨replies, entered, hentered, hrun⟩ := EStateM.bind_eq_ok_iff.mp hrun
  obtain ⟨_, applied, happlied, hrun⟩ := EStateM.bind_eq_ok_iff.mp hrun
  obtain ⟨_, after, hstatics, hpure⟩ := EStateM.bind_eq_ok_iff.mp hrun
  cases hpure
  have first : start.Introduces policy [] interned :=
    (Keeps.forM (fun ref : SelectorRef =>
      (introducesNone_intern ref.name ref.types start).map _) start (.of_same atRest rfl)).of_ok
        hinterned
  have second := mapM_register_introduces first.atRest hentered
  have third := (Keeps.mapM (introducesNone_applyCategory · entered) entered
    (.of_same second.atRest rfl)).of_ok happlied
  have last := (Keeps.mapM (introducesNone_createStatics · applied) applied
    (.of_same third.atRest rfl)).of_ok hstatics
  simpa using first.trans (second.trans (third.trans last))

theorem load_introduces {unit : LoadUnit} {imps : String → Option Imp}
    {classes : List ClassSpec} {specs : List CategorySpec} {answer : LoadReport × List PairId}
    (steady : start.Steady policy)
    (hresolve : unit.resolve imps start.system.registry = .ok (classes, specs))
    (hrun : load unit imps start = .ok (.ok answer) final) :
    start.Introduces policy classes final := by
  obtain ⟨hnodup, hfree⟩ := LoadUnit.resolve_names hresolve
  rw [load, bind_of_ok (run_get start), hresolve] at hrun
  obtain ⟨answered, executed, hexecute, hreply⟩ := EStateM.bind_eq_ok_iff.mp hrun
  cases hreply
  obtain ⟨registered, statuses, statics, after, hcalls, rfl, -⟩ :=
    declareEach_of_execute steady hnodup hfree hexecute
  obtain ⟨atRest, kept, own⟩ := declareEach_introduces steady.atRest hcalls
  exact ⟨atRest.transfer ⟨.refl, rfl⟩, kept, own⟩

end Act

/-! ### Every reachable session -/

/-- A category as the unit has it, with other methods at most. -/
structure CategoryDef.Stands (category : CategoryDef) (definition : CategoryDefinition) : Prop where
  name : definition.name = category.name
  className : definition.className = category.className
  protocols : definition.protocols = category.protocols

theorem ClassDef.exists_supplied {imps : String → Option Imp} {classes : List ClassDef}
    {specs : List ClassSpec} (supplied : List.Forall₂ (ClassDef.Supplied imps) classes specs)
    {cls : ClassDef} (hcls : cls ∈ classes) : ∃ spec ∈ specs, cls.Supplied imps spec := by
  induction supplied with
  | nil => cases hcls
  | cons head _ ih =>
    rcases List.mem_cons.mp hcls with rfl | hrest
    · exact ⟨_, List.mem_cons_self, head⟩
    · obtain ⟨spec, hspec, supplied⟩ := ih hrest
      exact ⟨spec, List.mem_cons_of_mem _ hspec, supplied⟩

theorem CategoryDef.stands_of_named {imps : String → Option Imp} {table : SelectorTable}
    {categories : List CategoryDef} {specs : List CategorySpec}
    {definitions : List CategoryDefinition}
    (supplied : List.Forall₂ (CategoryDef.Supplied imps) categories specs)
    (hnamed : definitions.map (·.named table) = specs.map CategorySpec.named) :
    List.Forall₂ CategoryDef.Stands categories definitions := by
  induction supplied generalizing definitions with
  | nil =>
    rw [List.map_eq_nil_iff.mp hnamed]
    exact .nil
  | cons supplied _ ih =>
    obtain ⟨definition, others, rfl, hhead, hothers⟩ := List.map_eq_cons_iff.mp hnamed
    refine .cons ?_ (ih hothers)
    constructor
    · exact (congrArg NamedCategory.name hhead).trans supplied.name
    · exact (congrArg NamedCategory.className hhead).trans supplied.className
    · exact (congrArg NamedCategory.protocols hhead).trans supplied.protocols

namespace Session

variable {options : Options} {policy : CategoryConflictPolicy} {session final : Session}

theorem AtRest.conformsTo_iff (atRest : session.AtRest policy) {id : ClassId} {record : Record}
    (hrecord : session.system.registry.record? id = some record) (kind : ClassKind)
    (name : String) : session.conformsTo (record.side kind) name = true ↔ ∃ holder protocol,
      session.system.registry.Reaches id holder ∧ holder.Adopts protocol ∧
        protocol.Names name := by
  have hresolve : session.system.registry.resolve session.heap (record.side kind) = .ok id :=
    atRest.upToDate.housed.resolve_eq hrecord kind
  rw [conformsTo, hresolve]
  exact atRest.hierarchy.conformsTo_iff hrecord

theorem conformsTo_of_not_houses {cls : ClassRef}
    (hgone : ¬ session.system.registry.Houses cls.pair) (name : String) :
    session.conformsTo cls name = false := by
  rw [conformsTo, resolve_of_not_houses session.heap cls hgone]

/-- What a class conforms to the classes below it conform to. -/
theorem Steady.conformsTo_of_superclass (steady : session.Steady policy) {cls above : ClassRef}
    (hhouses : session.system.registry.Houses cls.pair)
    (habove : session.heap.superclass? cls = some above) {name : String}
    (hconforms : session.conformsTo above name = true) : session.conformsTo cls name = true := by
  have atRest : session.AtRest policy := steady.atRest
  obtain ⟨id, record, hrecord, hpair⟩ := houses_iff.mp hhouses
  obtain ⟨pair, kind⟩ := cls
  subst hpair
  refine (atRest.conformsTo_iff hrecord kind name).mpr ?_
  cases hstate : record.state with
  | pending =>
    obtain ⟨order, lineage⟩ := steady.settled
    have hlink : (session.heap.pair record.pair).link = none :=
      (lineage.link_eq_none_iff hrecord).mpr hstate
    rw [Heap.superclass?, hlink] at habove
    cases habove
  | linked superclass =>
    cases superclass with
    | none =>
      obtain ⟨hplain, hmetaclass⟩ := steady.inPlace.superclass?_of_root steady.held hrecord hstate
      cases kind with
      | plain => cases hplain.symm.trans habove
      | metaclass =>
        cases hmetaclass.symm.trans habove
        exact (atRest.conformsTo_iff hrecord .plain name).mp hconforms
    | some parent =>
      have hsuper := (record.superclass?_eq_some_iff parent).mpr hstate
      obtain ⟨upper, hupper, -⟩ := atRest.hierarchy.above id parent ⟨record, hrecord, hsuper⟩
      cases (steady.inPlace.superclass?_of_under steady.held hrecord hstate hupper kind).symm.trans
        habove
      obtain ⟨holder, protocol, reaches, hadopts⟩ :=
        (atRest.conformsTo_iff hupper kind name).mp hconforms
      exact ⟨holder, protocol, .above hrecord hstate reaches, hadopts⟩

/-- The classes of a unit have the protocols that the unit has for them, and its categories were
applied with theirs, in the order of the unit. -/
structure AdoptsFrom (options : Options) (unit : LoadUnit) (start final : Session) : Prop where
  classes : ∀ cls ∈ unit.classes, ∃ id record, final.system.registry.idOf? cls.name = some id ∧
    final.system.registry.record? id = some record ∧ record.protocols = cls.protocols
  categories : ∃ categories, List.Forall₂ CategoryDef.Stands unit.categories categories ∧
    ∀ name, final.categoriesOf name = CategoryChange.holdAll options.categoryConflicts name
      (categories.map .applied) (start.categoriesOf name)

theorem Reachable.adoptsFrom (reachable : session.Reachable options) {unit : LoadUnit}
    {imps : String → Option Imp} {answer : LoadReport × List PairId}
    (hrun : Act.load unit imps session = .ok (.ok answer) final) :
    session.AdoptsFrom options unit final := by
  cases hresolve : unit.resolve imps session.system.registry with
  | error error =>
    rw [Act.load, Act.bind_of_ok (Act.run_get session), hresolve] at hrun
    cases hrun
  | ok declared =>
    obtain ⟨classes, specs⟩ := declared
    obtain ⟨hclasses, hspecs⟩ := LoadUnit.supplied_of_resolve hresolve
    have introduces := Act.load_introduces reachable.steady hresolve hrun
    obtain ⟨categories, hnamed, hholds⟩ :=
      (Act.load_gathers reachable.indexed reachable.steady hresolve hrun).holds
    constructor
    · intro cls hcls
      obtain ⟨spec, hspec, supplied⟩ := ClassDef.exists_supplied hclasses hcls
      have hown := introduces.own spec hspec
      rw [supplied.name, supplied.protocols, protocolsOf?_eq_some_iff] at hown
      exact hown
    · exact ⟨categories, CategoryDef.stands_of_named hspecs hnamed, hholds⟩

/-- A registered class conforms to the names in the trees of the protocols that it adopts, itself or
through a category that was merged into it, and, if it is linked, in those that the classes above it
adopt; so it conforms to all that its superclass conforms to. What is not registered conforms to
nothing. The classes and categories of a unit adopt the protocols of the unit, whose trees are taken
over as they are, so that a search of the copy finds what the unit has. -/
theorem Reachable.conformsTo_iff_adopts (reachable : session.Reachable options) :
    (∀ id record kind name, session.system.registry.record? id = some record →
      (session.conformsTo (record.side kind) name = true ↔ ∃ holder protocol,
        session.system.registry.Reaches id holder ∧ holder.Adopts protocol ∧
          protocol.Names name)) ∧
    (∀ cls name, ¬ session.system.registry.Houses cls.pair →
      session.conformsTo cls name = false) ∧
    (∀ cls above name, session.system.registry.Houses cls.pair →
      session.heap.superclass? cls = some above → session.conformsTo above name = true →
        session.conformsTo cls name = true) ∧
    (∀ unit imps answer final, Act.load unit imps session = .ok (.ok answer) final →
      session.AdoptsFrom options unit final) ∧
    ∀ (protocol : Protocol) name, protocol.copy = protocol ∧
      (protocol.copy.conformsTo name = true ↔ protocol.Names name) := by
  refine ⟨?_, ?_, ?_, ?_, ?_⟩
  · intro id record kind name hrecord
    exact reachable.atRest.conformsTo_iff hrecord kind name
  · intro cls name hgone
    exact conformsTo_of_not_houses hgone name
  · intro cls above name hhouses habove hconforms
    exact reachable.steady.conformsTo_of_superclass hhouses habove hconforms
  · intro unit imps answer final hrun
    exact reachable.adoptsFrom hrun
  · intro protocol name
    rw [Protocol.copy_eq]
    exact ⟨rfl, Protocol.conformsTo_iff⟩

def printingSample : CategorySpec :=
  { name := "Printing", className := "Root", methods := ⟨[], []⟩
    protocols := [.node "Draws" [.node "Shows" [], .node "Prints" [.node "Traces" []]]] }

/-- The category comes before the root, and the leaf before both link. -/
theorem conformsTo_through_category :
    let waiting := ((start {}).afterPerform (.applyCategory printingSample)).afterRegister leafSample
    let session := waiting.afterRegister rootSample
    session.Reachable {} ∧ waiting.conformsTo ⟨⟨0⟩, .plain⟩ "Traces" = false ∧
      session.conformsTo ⟨⟨0⟩, .plain⟩ "Traces" = true ∧ ∃ holder protocol,
        session.system.registry.Reaches ⟨0⟩ holder ∧ holder.Adopts protocol ∧
          protocol.Names "Traces" := by
  intro waiting session
  have reachable : session.Reachable {} :=
    ((Reachable.start.afterPerform _).afterRegister leafSample).afterRegister rootSample
  have hfacts : waiting.conformsTo ⟨⟨0⟩, .plain⟩ "Traces" = false ∧
      session.conformsTo ⟨⟨0⟩, .plain⟩ "Traces" = true ∧
      (session.system.registry.record? ⟨0⟩).any (·.pair == ⟨0⟩) = true := by decide +kernel
  obtain ⟨hbefore, hafter, hany⟩ := hfacts
  obtain ⟨record, hrecord, hpair⟩ := (Option.any_eq_true _ _).mp hany
  obtain ⟨hiff, -⟩ := reachable.conformsTo_iff_adopts
  have hleaf := hiff ⟨0⟩ record .plain "Traces" hrecord
  rw [Record.side, eq_of_beq hpair] at hleaf
  exact ⟨reachable, hbefore, hafter, hleaf.mp hafter⟩

end Session

end LateBinding
