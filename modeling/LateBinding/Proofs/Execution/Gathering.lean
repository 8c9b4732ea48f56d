import LateBinding.Proofs.Execution.Binding
import LateBinding.Proofs.Execution.Redefining
import LateBinding.Proofs.Registry.Held
import LateBinding.Proofs.System.Declaring

/-!
# What actions do with categories

To apply a category or to load a unit applies categories as they are declared, one after the other.
Most of what is done in one go, registering a class included, does nothing with categories: for every
name the same ones are held afterwards.
-/

namespace LateBinding

open Registry

namespace Session

variable {policy : CategoryConflictPolicy} {specs others : List CategorySpec}
  {start middle final : Session}

/-- The categories that are held for the class of some name. -/
def categoriesOf (session : Session) (name : String) : List CategoryDefinition :=
  session.system.registry.categoriesOf name

/-- Categories are applied as they are declared, and nothing else is done with any. -/
structure Gathers (policy : CategoryConflictPolicy) (specs : List CategorySpec)
    (start final : Session) : Prop where
  indexed : final.Indexed policy
  grows : start.system.selectors.Grows final.system.selectors
  holds : ∃ categories : List CategoryDefinition,
    categories.map (·.named final.system.selectors) = specs.map CategorySpec.named ∧
      ∀ name, final.categoriesOf name = CategoryChange.holdAll policy name
        (categories.map .applied) (start.categoriesOf name)

theorem Gathers.of_same (indexed : final.Indexed policy)
    (grows : start.system.selectors.Grows final.system.selectors)
    (hsame : ∀ name, final.categoriesOf name = start.categoriesOf name) :
    start.Gathers policy [] final := ⟨indexed, grows, [], rfl, hsame⟩

theorem Gathers.refl (indexed : start.Indexed policy) : start.Gathers policy [] start :=
  .of_same indexed .refl fun _ => rfl

theorem Gathers.trans (first : start.Gathers policy specs middle)
    (second : middle.Gathers policy others final) :
    start.Gathers policy (specs ++ others) final := by
  obtain ⟨earlier, hearlier, hfirst⟩ := first.holds
  obtain ⟨later, hlater, hsecond⟩ := second.holds
  refine ⟨second.indexed, first.grows.trans second.grows, earlier ++ later, ?_, ?_⟩
  · rw [List.map_append, List.map_append, second.grows.categories hearlier, hlater]
  · intro name
    rw [hsecond, hfirst, List.map_append, CategoryChange.holdAll_append]

/-- A declaration has one definition, so it does not matter which one is taken. -/
theorem Gathers.categoriesOf_eq (gathers : start.Gathers policy specs final)
    {categories : List CategoryDefinition}
    (hcategories : categories.map (·.named final.system.selectors) = specs.map CategorySpec.named)
    (name : String) : final.categoriesOf name = CategoryChange.holdAll policy name
      (categories.map .applied) (start.categoriesOf name) := by
  obtain ⟨own, hown, hholds⟩ := gathers.holds
  rw [gathers.indexed.sound.categories_unique hcategories hown, hholds]

theorem Gathers.categoriesOf_same (gathers : start.Gathers policy [] final) (name : String) :
    final.categoriesOf name = start.categoriesOf name := by
  have hnone : ([] : List CategoryDefinition).map (·.named final.system.selectors) =
      ([] : List CategorySpec).map CategorySpec.named := rfl
  exact gathers.categoriesOf_eq hnone name

theorem Gathers.noting (gathers : start.Gathers policy specs final) (log : Array Event) :
    start.Gathers policy specs { final with log } :=
  ⟨gathers.indexed.transfer ⟨.refl, rfl⟩ rfl, gathers.grows, gathers.holds⟩

end Session

namespace Act

variable {α β : Type} {policy : CategoryConflictPolicy} {start final : Session}

/-! ### What does nothing with categories -/

/-- The action does nothing with categories. -/
def Spares (policy : CategoryConflictPolicy) (action : Act α) : Prop :=
  ∀ start final reply, start.Indexed policy → action start = .ok reply final →
    start.Gathers policy [] final

theorem Spares.keeps {action : Act α} (spares : action.Spares policy) (start : Session) :
    action.Keeps (start.Gathers policy []) := by
  intro session gathers
  refine leads_of_ok fun reply final hrun => ?_
  exact gathers.trans (spares session final reply gathers.indexed hrun)

theorem Spares.map {action : Act α} (spares : action.Spares policy) (f : α → β) :
    (f <$> action).Spares policy := fun start _ _ indexed hrun =>
  (((spares.keeps start).map f) start (.refl indexed)).of_ok hrun

theorem Spares.mapM {list : List α} {step : α → Act β} (spares : ∀ item, (step item).Spares policy) :
    (list.mapM step).Spares policy := fun start _ _ indexed hrun =>
  (Keeps.mapM (fun item => (spares item).keeps start) start (.refl indexed)).of_ok hrun

theorem Spares.forM {list : List α} {step : α → Act PUnit}
    (spares : ∀ item, (step item).Spares policy) : (list.forM step).Spares policy :=
  fun start _ _ indexed hrun =>
    (Keeps.forM (fun item => (spares item).keeps start) start (.refl indexed)).of_ok hrun

/-- What leaves the classes alone does nothing with categories. -/
theorem spares_of_keeps {action : Act α} (names : List String)
    (interns : action.Interns policy names)
    (keeps : ∀ registry, action.Keeps fun session => session.system.registry = registry) :
    action.Spares policy := by
  intro start final reply indexed hrun
  obtain ⟨hfinal, extended, -⟩ := (interns start indexed).of_ok hrun
  have hregistry := (keeps start.system.registry start rfl).of_ok hrun
  refine .of_same hfinal extended.grows fun name => ?_
  rw [Session.categoriesOf, hregistry, Session.categoriesOf]

theorem spares_intern (name : String) (types : Option String) :
    (intern name types).Spares policy :=
  spares_of_keeps _ (interns_intern name types)
    fun registry => keeps_intern (keeps_registry_of_same registry) name types

theorem spares_createStatics (group : StaticGroup) : (createStatics group).Spares policy :=
  spares_of_keeps [] (interns_createStatics group)
    fun registry => keeps_createStatics (keeps_registry_of_same registry) group

/-- A class takes over what waits for it, so that nothing is lost. -/
theorem spares_register (spec : ClassSpec) : (register spec).Spares policy := by
  intro start final reply indexed hrun
  obtain ⟨hfinal, extended, -⟩ := (interns_register spec start indexed).of_ok hrun
  refine .of_same hfinal extended.grows fun name => ?_
  rcases register_cases hrun with ⟨-, rfl⟩ | ⟨answer, entered, hfree, hentered, -, rfl⟩
  · rfl
  · obtain ⟨defined, definition, hdefined, hregistry, hname, -, registers⟩ :=
      (enterClass_registers spec indexed.atRest hfree).of_ok hentered
    have hfreeDefined : defined.classes.registry.idOf? definition.name = none := by
      rw [hname, ← hfree, ← hregistry]
      rfl
    have hkept : entered.categoriesOf name = defined.categoriesOf name :=
      registers.categoriesOf_eq hdefined.consistent hfreeDefined name
    rw [Session.categoriesOf, entered.registry_bound]
    refine hkept.trans ?_
    rw [Session.categoriesOf, hregistry]
    rfl

/-! ### What applies categories -/

theorem applyCategory_gathers {spec : CategorySpec} {status : CategoryStatus}
    (indexed : start.Indexed policy) (hrun : applyCategory spec start = .ok status final) :
    start.Gathers policy [spec] final := by
  have consistent := indexed.atRest.consistent
  obtain ⟨hfinal, extended, -⟩ := (interns_applyCategory spec start indexed).of_ok hrun
  obtain ⟨category, defined, interned, definedAs, -, applies, -⟩ :=
    (applyCategory_applies spec indexed.sound consistent
      indexed.atRest.upToDate.housed).of_ok hrun
  have hregistry : defined.classes.registry = start.classes.registry := interned.registry_eq
  refine ⟨hfinal, extended.grows, [category], congrArg ([·]) definedAs.named, fun name => ?_⟩
  -- interning left the classes alone, so what was held then is what was held at first
  have hdefined : defined.classes.registry.Consistent [] := hregistry ▸ consistent
  have happlied : final.categoriesOf name = (CategoryChange.applied category).hold policy name
      (defined.classes.registry.categoriesOf name) := applies.categoriesOf_eq hdefined name
  rw [happlied, hregistry]
  rfl

theorem applyCategories_gathers {specs : List CategorySpec} {statuses : List CategoryStatus}
    (indexed : start.Indexed policy) (hrun : specs.mapM applyCategory start = .ok statuses final) :
    start.Gathers policy specs final := by
  induction specs generalizing start statuses with
  | nil =>
    cases hrun
    exact .refl indexed
  | cons spec rest ih =>
    rw [List.mapM_cons] at hrun
    obtain ⟨status, middle, hfirst, hrun⟩ := EStateM.bind_eq_ok_iff.mp hrun
    obtain ⟨others, after, hothers, hpure⟩ := EStateM.bind_eq_ok_iff.mp hrun
    cases hpure
    have gathers := applyCategory_gathers indexed hfirst
    exact gathers.trans (ih gathers.indexed hothers)

theorem declareEach_gathers {unit : LoadUnit} {classes : List ClassSpec}
    {specs : List CategorySpec} {registered : List (Except RegistryError (PairId × List PairId))}
    {statuses : List CategoryStatus} {statics : List (List ObjectId)}
    (indexed : start.Indexed policy)
    (hrun : declareEach unit classes specs start = .ok (registered, statuses, statics) final) :
    start.Gathers policy specs final := by
  obtain ⟨_, interned, hinterned, hrun⟩ := EStateM.bind_eq_ok_iff.mp hrun
  obtain ⟨_, entered, hentered, hrun⟩ := EStateM.bind_eq_ok_iff.mp hrun
  obtain ⟨_, applied, happlied, hrun⟩ := EStateM.bind_eq_ok_iff.mp hrun
  obtain ⟨_, after, hstatics, hpure⟩ := EStateM.bind_eq_ok_iff.mp hrun
  cases hpure
  have hselectors : (unit.selectors.forM fun ref => discard (intern ref.name ref.types)).Spares
      policy := Spares.forM fun ref => (spares_intern ref.name ref.types).map _
  have hclasses : (classes.mapM register).Spares policy := Spares.mapM spares_register
  have hobjects : (unit.statics.mapM createStatics).Spares policy :=
    Spares.mapM spares_createStatics
  have first := hselectors _ _ _ indexed hinterned
  have second := hclasses _ _ _ first.indexed hentered
  have third := applyCategories_gathers second.indexed happlied
  have last := hobjects _ _ _ third.indexed hstatics
  have hall := first.trans (second.trans (third.trans last))
  rwa [List.append_nil] at hall

theorem load_gathers {unit : LoadUnit} {imps : String → Option Imp} {classes : List ClassSpec}
    {specs : List CategorySpec} {reply : Except LoadError (LoadReport × List PairId)}
    (indexed : start.Indexed policy) (steady : start.Steady policy)
    (hresolve : unit.resolve imps start.system.registry = .ok (classes, specs))
    (hrun : load unit imps start = .ok reply final) : start.Gathers policy specs final := by
  obtain ⟨hnodup, hfree⟩ := LoadUnit.resolve_names hresolve
  rw [load, bind_of_ok (run_get start), hresolve] at hrun
  obtain ⟨answered, executed, hexecute, hreply⟩ := EStateM.bind_eq_ok_iff.mp hrun
  cases hreply
  obtain ⟨registered, statuses, statics, after, hcalls, rfl, -⟩ :=
    declareEach_of_execute steady hnodup hfree hexecute
  exact (declareEach_gathers indexed hcalls).noting _

/-! ### What concerns the methods of a class -/

/-- A method is refused before anything is done, or it is one of a registered class. -/
theorem resolveMethod_cases (start : Session) (cls : ClassRef) (sel : Sel) (imp : Imp)
    (types : Option String) :
    (∃ error, resolveMethod cls sel imp types start = .ok (.error error) start) ∨
      ∃ id record, start.system.registry.resolve start.heap cls = .ok id ∧
        start.system.selectors.contains sel = true ∧
        start.system.registry.record? id = some record ∧ record.pair = cls.pair := by
  rw [resolveMethod, bind_of_ok (run_get start)]
  cases hresolve : start.system.registry.resolve start.heap cls with
  | error error => exact .inl ⟨error, rfl⟩
  | ok id =>
    cases hsel : start.system.selectors.contains sel with
    | false => exact .inl ⟨.unknownSelector sel, rfl⟩
    | true =>
      obtain ⟨record, hrecord, hpair⟩ := record?_of_resolve hresolve
      exact .inr ⟨id, record, rfl, rfl, hrecord, hpair⟩

/-- What is done with the method, unless it is refused. -/
theorem alterMethod_cases {β : Type} {change : ClassId → MethodDefinition → Linking β}
    {cls : ClassRef} {sel : Sel} {imp : Imp} {types : Option String}
    {post : ClassId → Classes → β → Classes → Prop} {reply : Except RegistryError β}
    (indexed : start.Indexed policy)
    (hchange : ∀ id (classes : Classes), classes.registry.Addressable → sel.uid ≤ maxUid →
      (change id ⟨sel, someTypes types, imp⟩).Leads False classes (post id classes))
    (hrun : (do match ← resolveMethod cls sel imp types with
      | .error error => return .error error
      | .ok (id, definition) =>
        return .ok (← onClasses (change id definition)) : Act (Except RegistryError β)) start =
          .ok reply final) :
    ((∃ error, reply = .error error) ∧ final = start) ∨
      ∃ id answer, ∃ middle : Classes, start.system.registry.resolve start.heap cls = .ok id ∧
        middle.heap = start.heap ∧ middle.registry = start.system.registry ∧ reply = .ok answer ∧
        post id middle answer final.classes := by
  rcases resolveMethod_cases start cls sel imp types with
    ⟨error, hrefused⟩ | ⟨id, record, hresolve, hsel, hrecord, hpair⟩
  · rw [bind_of_ok hrefused] at hrun
    cases hrun
    exact .inl ⟨⟨error, rfl⟩, rfl⟩
  · have huid := (indexed.sound.uid_of_contains hsel).2
    obtain ⟨middle, answer, hheap, hregistry, hreply, hpost⟩ :=
      (alterMethod_leads change hresolve hsel imp types fun classes _ hregistry =>
        hchange id classes (hregistry ▸ indexed.addressable) huid).of_ok hrun
    exact .inr ⟨id, answer, middle, hresolve, hheap, hregistry, hreply, hpost⟩

section

variable {cls : ClassRef} {sel : Sel} {imp : Imp} {types : Option String}

theorem addMethod_cases {reply : Except RegistryError Bool} (indexed : start.Indexed policy)
    (hrun : addMethod cls sel imp types start = .ok reply final) :
    ((∃ error, reply = .error error) ∧ final = start) ∨
      ∃ id added, ∃ middle : Classes, start.system.registry.resolve start.heap cls = .ok id ∧
        middle.heap = start.heap ∧ middle.registry = start.system.registry ∧ reply = .ok added ∧
        middle.Adds id cls.kind ⟨sel, someTypes types, imp⟩ added final.classes := by
  have hchange : ∀ id (classes : Classes), classes.registry.Addressable → sel.uid ≤ maxUid →
      (Linking.addMethod id cls.kind ⟨sel, someTypes types, imp⟩).Leads False classes
        fun added final => classes.Adds id cls.kind ⟨sel, someTypes types, imp⟩ added final :=
    fun _ _ haddressable huid => Linking.addMethod_leads (.inr ⟨haddressable, huid⟩)
  exact alterMethod_cases indexed hchange hrun

theorem replaceMethod_cases {reply : Except RegistryError (Option Imp)}
    (indexed : start.Indexed policy)
    (hrun : replaceMethod cls sel imp types start = .ok reply final) :
    ((∃ error, reply = .error error) ∧ final = start) ∨
      ∃ id replaced, ∃ middle : Classes, start.system.registry.resolve start.heap cls = .ok id ∧
        middle.heap = start.heap ∧ middle.registry = start.system.registry ∧
        reply = .ok replaced ∧
        middle.Replaces id cls.kind ⟨sel, someTypes types, imp⟩ replaced final.classes := by
  have hchange : ∀ id (classes : Classes), classes.registry.Addressable → sel.uid ≤ maxUid →
      (Linking.replaceMethod id cls.kind ⟨sel, someTypes types, imp⟩).Leads False classes
        fun replaced final =>
          classes.Replaces id cls.kind ⟨sel, someTypes types, imp⟩ replaced final :=
    fun _ _ haddressable huid => Linking.replaceMethod_leads (.inr ⟨haddressable, huid⟩)
  exact alterMethod_cases indexed hchange hrun

/-- A method is added to the list of the class, which is none of its categories. -/
theorem addMethod_categoriesOf {reply : Except RegistryError Bool} (indexed : start.Indexed policy)
    (hrun : addMethod cls sel imp types start = .ok reply final) (name : String) :
    final.categoriesOf name = start.categoriesOf name := by
  rcases addMethod_cases indexed hrun with
    ⟨-, rfl⟩ | ⟨id, added, middle, -, -, hregistry, -, adds⟩
  · rfl
  · have consistent : middle.registry.Consistent [] := hregistry ▸ indexed.atRest.consistent
    have hadded : final.categoriesOf name = middle.registry.categoriesOf name :=
      adds.categoriesOf_eq consistent name
    rw [hadded, hregistry]
    rfl

/-- A method is replaced in the category that decides, if one does. -/
theorem replaceMethod_categoriesOf {reply : Except RegistryError (Option Imp)}
    (indexed : start.Indexed policy)
    (hrun : replaceMethod cls sel imp types start = .ok reply final) :
    ((∃ error, reply = .error error) ∧ final = start) ∨
      ((∃ replaced, reply = .ok replaced) ∧ ∀ name, final.categoriesOf name =
        (CategoryChange.replaced (start.heap.className cls) cls.kind
          ⟨sel, someTypes types, imp⟩).hold policy name (start.categoriesOf name)) := by
  refine (replaceMethod_cases indexed hrun).imp_right ?_
  rintro ⟨id, replaced, middle, hresolve, -, hregistry, hreply, replaces⟩
  obtain ⟨record, hrecord, hpair⟩ := record?_of_resolve hresolve
  refine ⟨⟨replaced, hreply⟩, fun name => ?_⟩
  have consistent : middle.registry.Consistent [] := hregistry ▸ indexed.atRest.consistent
  have hrecordMiddle : middle.registry.record? id = some record := hregistry ▸ hrecord
  have hpolicy : middle.registry.policy = policy := hregistry ▸ indexed.atRest.policy_eq
  have hname : start.heap.className cls = record.name := by
    rw [Heap.className, ← hpair]
    exact indexed.atRest.upToDate.housed.pairName id record hrecord
  have hreplaced : final.categoriesOf name =
      (CategoryChange.replaced record.name cls.kind ⟨sel, someTypes types, imp⟩).hold
        middle.registry.policy name (middle.registry.categoriesOf name) :=
    replaces.categoriesOf_eq consistent hrecordMiddle name
  rw [hreplaced, hname, hpolicy, hregistry]
  rfl

end

end Act

end LateBinding
