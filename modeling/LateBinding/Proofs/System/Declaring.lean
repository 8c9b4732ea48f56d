import LateBinding.Proofs.Order.Interning
import LateBinding.Proofs.Selectors.Settled
import LateBinding.Proofs.System.Sound
import LateBinding.Proofs.Tables.Reapplying

/-!
# Applying a category, and applying it again

The methods of a category are interned, and the category is then applied with their selectors. All
this leaves it declared: its names are settled, and the classes include it. To apply it again right
away changes nothing but the number of tables built and what is noted.
-/

namespace LateBinding

open Registry

/-- Names were interned and some of that was noted, and nothing else was done. -/
structure Session.Interned (start final : Session) : Prop where
  heap : final.heap = start.heap
  system : final.system = { start.system with selectors := final.system.selectors }
  sound : start.system.selectors.Sound → final.system.selectors.Sound
  retains : start.system.selectors.Retains final.system.selectors

/-- A session is as another one but for what is noted. -/
structure Session.SameBut (start final : Session) : Prop where
  heap : final.heap = start.heap
  system : final.system = start.system

/-- The definition is the method as it is declared, by name, and the declaration is settled. -/
structure MethodSpec.DefinedAs (spec : MethodSpec) (table : SelectorTable)
    (definition : MethodDefinition) : Prop where
  named : definition.named table = spec.named
  settles : table.Settles spec.name (someTypes spec.types)

theorem MethodSpec.DefinedAs.later {spec : MethodSpec} {table final : SelectorTable}
    {definition : MethodDefinition} (defined : spec.DefinedAs table definition)
    (retains : table.Retains final) : spec.DefinedAs final definition where
  named := by
    have hname : table.name? definition.sel = some spec.name :=
      congrArg NamedMethod.name defined.named
    rw [← defined.named, MethodDefinition.named, MethodDefinition.named, hname,
      retains.grows _ _ hname]
  settles := retains.settles defined.settles

theorem MethodSpec.DefinedAs.all {table : SelectorTable} {definitions : List MethodDefinition}
    {methods : List MethodSpec}
    (defined : List.Forall₂ (fun definition method => DefinedAs method table definition) definitions
      methods) :
    definitions.map (·.named table) = methods.map MethodSpec.named ∧
      ∀ method ∈ methods, table.Settles method.name (someTypes method.types) := by
  induction defined with
  | nil => exact ⟨rfl, fun _ h => absurd h List.not_mem_nil⟩
  | cons head _ ih =>
    rw [List.map_cons, List.map_cons, ih.1, head.named, List.forall_mem_cons]
    exact ⟨rfl, head.settles, ih.2⟩

/-- All methods of a category are defined as they are declared. -/
structure CategorySpec.DefinedAs (spec : CategorySpec) (table : SelectorTable)
    (category : CategoryDefinition) : Prop where
  named : category.named table = spec.named
  settles : ∀ kind, ∀ method ∈ spec.methods.get kind,
    table.Settles method.name (someTypes method.types)

theorem CategorySpec.definedAs (spec : CategorySpec) {table : SelectorTable}
    {methods : Sided (List MethodDefinition)}
    (defined : ∀ kind, List.Forall₂ (fun definition method => method.DefinedAs table definition)
      (methods.get kind) (spec.methods.get kind)) :
    spec.DefinedAs table ⟨spec.name, spec.className, methods, spec.protocols⟩ where
  named := by
    have hsides : methods.map (List.map (·.named table)) =
        spec.methods.map (List.map MethodSpec.named) :=
      congrArg₂ Sided.mk (MethodSpec.DefinedAs.all (defined .plain)).1
        (MethodSpec.DefinedAs.all (defined .metaclass)).1
    rw [CategoryDefinition.named, CategorySpec.named, hsides]
  settles kind := (MethodSpec.DefinedAs.all (defined kind)).2

/-- What is determined item by item is determined list by list. -/
theorem List.eq_of_map_eq_map {α β γ : Type} {f : α → γ} {g : β → γ}
    (hone : ∀ item first second, f first = g item → f second = g item → first = second)
    {items : List β} {firsts seconds : List α} (hfirsts : firsts.map f = items.map g)
    (hseconds : seconds.map f = items.map g) : firsts = seconds := by
  induction items generalizing firsts seconds with
  | nil => rw [List.map_eq_nil_iff.mp hfirsts, List.map_eq_nil_iff.mp hseconds]
  | cons item rest ih =>
    obtain ⟨first, firstRest, rfl, hfirst, hfirstRest⟩ := List.map_eq_cons_iff.mp hfirsts
    obtain ⟨second, secondRest, rfl, hsecond, hsecondRest⟩ := List.map_eq_cons_iff.mp hseconds
    rw [hone item first second hfirst hsecond, ih hfirstRest hsecondRest]

/-- Names stand for one selector each, so a declaration has one definition at most. -/
theorem SelectorTable.Sound.category_unique {table : SelectorTable} (sound : table.Sound)
    {spec : CategorySpec} {category other : CategoryDefinition}
    (hcategory : category.named table = spec.named) (hother : other.named table = spec.named) :
    category = other := by
  have hmethod : ∀ (spec : MethodSpec) (first second : MethodDefinition),
      first.named table = spec.named → second.named table = spec.named → first = second := by
    intro spec first second hfirst hsecond
    obtain ⟨hname, htypes, himp⟩ := NamedMethod.mk.inj (hfirst.trans hsecond.symm)
    have hsel : table.name? first.sel = some spec.name := congrArg NamedMethod.name hfirst
    obtain ⟨sel, types, imp⟩ := first
    obtain ⟨_, _, _⟩ := second
    cases htypes
    cases himp
    cases sound.unique hsel (hname.symm.trans hsel)
    rfl
  obtain ⟨hname, hclass, hsides, hprotocols⟩ := NamedCategory.mk.inj hcategory
  obtain ⟨hname', hclass', hsides', hprotocols'⟩ := NamedCategory.mk.inj hother
  obtain ⟨hplain, hmetaclass⟩ := Sided.mk.inj hsides
  obtain ⟨hplain', hmetaclass'⟩ := Sided.mk.inj hsides'
  obtain ⟨name, className, ⟨plain, metaclass⟩, protocols⟩ := category
  obtain ⟨_, _, ⟨_, _⟩, _⟩ := other
  cases hname.trans hname'.symm
  cases hclass.trans hclass'.symm
  cases hprotocols.trans hprotocols'.symm
  cases List.eq_of_map_eq_map hmethod hplain hplain'
  cases List.eq_of_map_eq_map hmethod hmetaclass hmetaclass'
  rfl

theorem SelectorTable.Sound.categories_unique {table : SelectorTable} (sound : table.Sound)
    {specs : List CategorySpec} {categories others : List CategoryDefinition}
    (hcategories : categories.map (·.named table) = specs.map CategorySpec.named)
    (hothers : others.map (·.named table) = specs.map CategorySpec.named) : categories = others :=
  List.eq_of_map_eq_map (fun _ _ _ => sound.category_unique) hcategories hothers

namespace Session

variable {start middle final : Session}

theorem Interned.refl : start.Interned start := ⟨rfl, rfl, id, .refl⟩

theorem Interned.trans (first : start.Interned middle) (second : middle.Interned final) :
    start.Interned final where
  heap := second.heap.trans first.heap
  system := by rw [second.system, first.system]
  sound h := second.sound (first.sound h)
  retains := first.retains.trans second.retains

theorem Interned.registry_eq (interned : start.Interned final) :
    final.system.registry = start.system.registry := by
  rw [interned.system]

theorem SameBut.refl : start.SameBut start := ⟨rfl, rfl⟩

theorem SameBut.trans (first : start.SameBut middle) (second : middle.SameBut final) :
    start.SameBut final :=
  ⟨second.heap.trans first.heap, second.system.trans first.system⟩

end Session

namespace Act

variable {start : Session} {fault : Prop}

/-! ### One method after the other -/

section

variable (reaches : Session → Session → Prop) (holds : Session → MethodDefinition → MethodSpec → Prop)
  (hrefl : ∀ session, reaches session session)
  (htrans : ∀ first second third, reaches first second → reaches second third →
    reaches first third)
  (hlater : ∀ first second definition method, reaches first second →
    holds first definition method → holds second definition method)

include hrefl htrans hlater

/-- What interning one method leads to, interning several does, one after the other. -/
theorem mapM_defineMethod_reaches {methods : List MethodSpec}
    (hone : ∀ method ∈ methods, ∀ middle, reaches start middle →
      (defineMethod method).Leads fault middle fun definition final =>
        reaches middle final ∧ holds final definition method) :
    (methods.mapM defineMethod).Leads fault start fun definitions final =>
      reaches start final ∧ List.Forall₂ (holds final) definitions methods := by
  induction methods generalizing start with
  | nil => exact ⟨hrefl start, .nil⟩
  | cons method rest ih =>
    rw [List.mapM_cons, leads_bind]
    refine (hone method List.mem_cons_self start (hrefl start)).mono ?_
    rintro definition middle ⟨hmiddle, hdefinition⟩
    rw [leads_bind]
    refine (ih fun other hother between hbetween => hone other (List.mem_cons_of_mem _ hother)
      between (htrans _ _ _ hmiddle hbetween)).mono ?_
    rintro definitions final ⟨hfinal, hdefinitions⟩
    exact ⟨htrans _ _ _ hmiddle hfinal, .cons (hlater _ _ _ _ hfinal hdefinition) hdefinitions⟩

theorem defineMethods_reaches {methods : Sided (List MethodSpec)}
    (hone : ∀ kind, ∀ method ∈ methods.get kind, ∀ middle, reaches start middle →
      (defineMethod method).Leads fault middle fun definition final =>
        reaches middle final ∧ holds final definition method) :
    (defineMethods methods).Leads fault start fun definitions final =>
      reaches start final ∧
        ∀ kind, List.Forall₂ (holds final) (definitions.get kind) (methods.get kind) := by
  rw [defineMethods, leads_bind]
  refine (mapM_defineMethod_reaches reaches holds hrefl htrans hlater (hone .plain)).mono ?_
  rintro plain middle ⟨hmiddle, hplain⟩
  rw [leads_bind]
  refine (mapM_defineMethod_reaches reaches holds hrefl htrans hlater
    fun method hmethod between hbetween =>
      hone .metaclass method hmethod between (htrans _ _ _ hmiddle hbetween)).mono ?_
  rintro metaclass final ⟨hfinal, hmetaclass⟩
  refine ⟨htrans _ _ _ hmiddle hfinal, fun kind => ?_⟩
  cases kind with
  | plain => exact hplain.imp fun definition method => hlater _ _ _ _ hfinal
  | metaclass => exact hmetaclass

end

/-! ### The first time -/

theorem intern_interned (name : String) (types : Option String)
    (sound : start.system.selectors.Sound) :
    (intern name types).Leads True start fun sel final => start.Interned final ∧
      final.system.selectors.name? sel = some name ∧ final.system.selectors.Settles name types := by
  rw [intern, leads_bind, leads_get]
  cases hintern : start.system.selectors.intern name types with
  | error reason => trivial
  | ok interned =>
    obtain ⟨sel, selectors, conflict⟩ := interned
    obtain ⟨hsound, retains, hname, settles⟩ := sound.settles_of_intern hintern
    simp only [leads_bind, leads_onSystem, leads_pure]
    have hfinal : ∀ final : Session, final.heap = start.heap →
        final.system = { start.system with selectors } → start.Interned final ∧
          final.system.selectors.name? sel = some name ∧
          final.system.selectors.Settles name types := by
      rintro ⟨heap, system, log⟩ rfl rfl
      exact ⟨⟨rfl, rfl, fun _ => hsound, retains⟩, hname, settles⟩
    cases conflict with
    | none => exact hfinal _ rfl rfl
    | some conflict => exact hfinal _ rfl rfl

theorem defineMethod_interned (method : MethodSpec) (sound : start.system.selectors.Sound) :
    (defineMethod method).Leads True start fun definition final => start.Interned final ∧
      method.DefinedAs final.system.selectors definition := by
  rw [defineMethod, leads_bind]
  refine (intern_interned method.name (someTypes method.types) sound).mono ?_
  rintro sel final ⟨interned, hname, settles⟩
  refine ⟨interned, ?_, settles⟩
  rw [MethodDefinition.named, hname, MethodSpec.named]

/-- A category is defined as it is declared, and applied so. -/
theorem applyCategory_applies (spec : CategorySpec) (sound : start.system.selectors.Sound)
    (consistent : start.system.registry.Consistent [])
    (housed : start.system.registry.Housed start.heap) :
    (applyCategory spec).Leads True start fun status final => ∃ category defined,
      start.Interned defined ∧ spec.DefinedAs final.system.selectors category ∧
        final.system = { defined.system with registry := final.system.registry } ∧
        defined.classes.Applies category status final.classes ∧
        final.classes.Includes category status := by
  have hone : ∀ kind, ∀ method ∈ spec.methods.get kind, ∀ middle, start.Interned middle →
      (defineMethod method).Leads True middle fun definition final => middle.Interned final ∧
        method.DefinedAs final.system.selectors definition :=
    fun _ method _ _ interned => defineMethod_interned method (interned.sound sound)
  rw [applyCategory, leads_bind]
  refine (defineMethods_reaches Session.Interned
    (fun session definition method => method.DefinedAs session.system.selectors definition)
    (fun _ => .refl) (fun _ _ _ => .trans)
    (fun _ _ _ _ interned defined => defined.later interned.retains) hone).mono ?_
  rintro methods defined ⟨interned, hmethods⟩
  have hregistry := interned.registry_eq
  let category : CategoryDefinition :=
    { name := spec.name, className := spec.className, methods, protocols := spec.protocols }
  have hcategory : spec.DefinedAs defined.system.selectors category := spec.definedAs hmethods
  rw [leads_onClasses]
  have hconsistent : defined.classes.registry.Consistent [] := by
    change defined.system.registry.Consistent []
    rw [hregistry]
    exact consistent
  have hhoused : defined.classes.registry.Housed defined.classes.heap := by
    change defined.system.registry.Housed defined.heap
    rw [hregistry, interned.heap]
    exact housed
  have happlies : (Linking.applyCategory category).Leads True defined.classes fun status final =>
      defined.classes.Applies category status final :=
    Linking.applyCategory_leads hconsistent (.inl trivial)
  exact (happlies.and (Linking.applyCategory_includes hconsistent hhoused)).mono
    fun status final ⟨applies, includes⟩ =>
      ⟨category, defined, interned, hcategory, rfl, applies, includes⟩

/-! ### Once more -/

theorem intern_again {name : String} {types : Option String} (sound : start.system.selectors.Sound)
    (settles : start.system.selectors.Settles name types) :
    (intern name types).Leads False start fun sel final => start.SameBut final ∧
      start.system.selectors.name? sel = some name := by
  obtain ⟨sel, conflict, hname, hintern⟩ := settles.intern_eq sound
  rw [intern, leads_bind, leads_get, hintern]
  simp only [leads_bind, leads_onSystem, leads_pure]
  cases conflict with
  | none => exact ⟨⟨rfl, rfl⟩, hname⟩
  | some conflict => exact ⟨⟨rfl, rfl⟩, hname⟩

theorem defineMethod_again {method : MethodSpec} (sound : start.system.selectors.Sound)
    (settles : start.system.selectors.Settles method.name (someTypes method.types)) :
    (defineMethod method).Leads False start fun definition final => start.SameBut final ∧
      method.DefinedAs final.system.selectors definition := by
  rw [defineMethod, leads_bind]
  refine (intern_again sound settles).mono ?_
  rintro sel final ⟨same, hname⟩
  refine ⟨same, ?_, ?_⟩
  · rw [same.system, MethodDefinition.named, hname, MethodSpec.named]
  · rw [same.system]
    exact settles

/-- A category that was applied is applied again. -/
theorem applyCategory_again {spec : CategorySpec} {category : CategoryDefinition}
    {status : CategoryStatus} (sound : start.system.selectors.Sound)
    (defined : spec.DefinedAs start.system.selectors category)
    (includes : start.classes.Includes category status) :
    (applyCategory spec).Leads False start fun reply final => reply = status ∧
      final.heap = start.heap ∧ ∃ builds, final.system =
        { start.system with registry := { start.system.registry with builds } } := by
  have hone : ∀ kind, ∀ method ∈ spec.methods.get kind, ∀ middle, start.SameBut middle →
      (defineMethod method).Leads False middle fun definition final => middle.SameBut final ∧
        method.DefinedAs final.system.selectors definition := by
    intro kind method hmethod middle same
    apply defineMethod_again
    · rw [same.system]
      exact sound
    · rw [same.system]
      exact defined.settles kind method hmethod
  rw [applyCategory, leads_bind]
  refine (defineMethods_reaches Session.SameBut
    (fun session definition method => method.DefinedAs session.system.selectors definition)
    (fun _ => .refl) (fun _ _ _ => .trans) ?_ hone).mono ?_
  · intro first second definition method same defined
    rw [same.system]
    exact defined
  rintro methods middle ⟨same, hmethods⟩
  obtain rfl : category = ⟨spec.name, spec.className, methods, spec.protocols⟩ := by
    apply sound.category_unique defined.named
    rw [← same.system]
    exact (spec.definedAs hmethods).named
  have hincludes : middle.classes.Includes _ status :=
    includes.transfer same.heap (congrArg System.registry same.system)
  rw [leads_onClasses]
  refine hincludes.applyCategory_again.mono ?_
  rintro reply final ⟨hreply, hheap, hcounts⟩
  refine ⟨hreply, hheap.trans same.heap, final.registry.builds, ?_⟩
  have hregistry : middle.classes.registry = start.system.registry :=
    congrArg System.registry same.system
  rw [Session.withClasses, hcounts, hregistry, same.system]

end Act

end LateBinding
