import LateBinding.Proofs.Order.Interning
import LateBinding.Proofs.Order.Literals
import LateBinding.Proofs.Registry.Frames
import LateBinding.Proofs.System.Sound

/-!
# What a session is like after declarations

A session *defines* what was declared if it has the declared classes with the categories that were
declared for them, and holds back all other categories. It is then known by name, though not by
number, what the session is like. Applying a category and registering static instances keep this up.
-/

namespace LateBinding

open Declaration

namespace Session

/-- The classes and categories of a session are the declared ones. -/
structure Defines (options : Options) (known : List String) (done : List Declaration)
    (session : Session) : Prop where
  options_eq : session.system.options = options
  atRest : session.AtRest options.categoryConflicts
  sound : session.system.selectors.Sound
  within : session.system.selectors.Within known
  registered : ∀ spec ∈ classSpecs done, session.system.registry.idOf? spec.name ≠ none
  contents : ∀ id content, session.system.registry.content? id = some content →
    ∃ spec ∈ classSpecs done,
      content.named session.system.selectors = spec.named (merged spec.name done)
  heldBack : ∀ name, session.system.registry.idOf? name = none →
    session.waitingFor name = (merged name done).map CategorySpec.named

/-- The classes, categories and static instances of a session are the declared ones. -/
structure Declared (options : Options) (known : List String) (objects : List ObjectId)
    (done : List Declaration) (session : Session) : Prop where
  defines : session.Defines options known done
  bindings : Bindings objects (done.flatMap literals) session.classForName? session.heap
    session.system.statics

variable {options : Options} {known : List String} {objects : List ObjectId}
  {done : List Declaration} {start final : Session}

theorem Defines.transfer (defines : start.Defines options known done)
    (same : start.SameClasses final) (hoptions : final.system.options = start.system.options)
    (sound : final.system.selectors.Sound) (within : final.system.selectors.Within known)
    (grows : start.system.selectors.Grows final.system.selectors) :
    final.Defines options known done where
  options_eq := hoptions.trans defines.options_eq
  atRest := defines.atRest.transfer same
  sound := sound
  within := within
  registered := by
    rw [same.registry]
    exact defines.registered
  contents := by
    intro id content hcontent
    rw [same.registry] at hcontent
    obtain ⟨spec, hspec, hnamed⟩ := defines.contents id content hcontent
    exact ⟨spec, hspec, grows.content hnamed⟩
  heldBack := by
    intro name hname
    rw [same.registry] at hname
    rw [waitingFor, same.registry]
    exact grows.categories (defines.heldBack name hname)

theorem Learns.sameClasses (learns : start.Learns known final) : start.SameClasses final where
  tables := .of_pairs (by rw [learns.heap])
  registry := by rw [learns.system]

theorem Defines.learn (defines : start.Defines options known done)
    (learns : start.Learns known final) : final.Defines options known done :=
  defines.transfer learns.sameClasses (by rw [learns.system]) learns.sound learns.within learns.grows

theorem Declared.learn (declared : start.Declared options known objects done)
    (learns : start.Learns known final) : final.Declared options known objects done where
  defines := declared.defines.learn learns
  bindings := by
    have hlinked : final.classForName? = start.classForName? := by
      funext name
      rw [classForName?, learns.sameClasses.registry]
      rfl
    rw [hlinked, learns.heap, learns.system]
    exact declared.bindings

theorem Declared.release (declared : start.Declared options known objects done)
    (held : List Value) :
    { start with heap := start.heap.release held }.Declared options known objects done where
  defines := declared.defines.transfer ⟨start.heap.sameTables_release held, rfl⟩ rfl
    declared.defines.sound declared.defines.within .refl
  bindings := declared.bindings.transfer (start.heap.objects_release held)

theorem Defines.content_of_idOf? (defines : start.Defines options known done) {name : String}
    {id : ClassId} (hid : start.system.registry.idOf? name = some id) :
    ∃ content, start.system.registry.content? id = some content ∧ content.name = name := by
  obtain ⟨standing, hstanding, hname⟩ := (defines.atRest.consistent.names name id).mp hid
  obtain ⟨record, hrecord, rfl⟩ := Option.map_eq_some_iff.mp hstanding
  exact ⟨record.content, Registry.content?_of_record hrecord, hname⟩

theorem Defines.idOf?_of_content (defines : start.Defines options known done) {id : ClassId}
    {content : Content} (hcontent : start.system.registry.content? id = some content) :
    start.system.registry.idOf? content.name = some id := by
  obtain ⟨record, hrecord, rfl⟩ := Option.map_eq_some_iff.mp hcontent
  exact (defines.atRest.consistent.names _ id).mpr
    ⟨record.standing, Registry.standing?_of_record hrecord, rfl⟩

/-- A class is registered if and only if it was declared. -/
theorem Defines.idOf?_eq_none_iff (defines : start.Defines options known done) (name : String) :
    start.system.registry.idOf? name = none ↔ name ∉ (classSpecs done).map (·.name) := by
  constructor
  · intro hnone hmem
    obtain ⟨spec, hspec, rfl⟩ := List.mem_map.mp hmem
    exact defines.registered spec hspec hnone
  · intro hnot
    cases hid : start.system.registry.idOf? name with
    | none => rfl
    | some id =>
      obtain ⟨content, hcontent, rfl⟩ := defines.content_of_idOf? hid
      obtain ⟨spec, hspec, hnamed⟩ := defines.contents id content hcontent
      have hname : content.name = spec.name := congrArg NamedClass.name hnamed
      exact absurd (List.mem_map.mpr ⟨spec, hspec, hname.symm⟩) hnot

theorem Defines.categoriesFor_eq_nil (defines : start.Defines options known done) {name : String}
    (hregistered : start.system.registry.idOf? name ≠ none) :
    start.system.registry.categoriesFor name = [] :=
  congrArg (Option.getD · []) (defines.atRest.consistent.heldBack name hregistered)

theorem Defines.waitingFor_eq_nil (defines : start.Defines options known done) {name : String}
    (hregistered : start.system.registry.idOf? name ≠ none) : start.waitingFor name = [] := by
  rw [waitingFor, defines.categoriesFor_eq_nil hregistered]
  rfl

/-- All that was declared fits into tables. -/
theorem Defines.addressable (defines : start.Defines options known done) :
    start.system.registry.Addressable where
  records := by
    intro id record hrecord
    obtain ⟨spec, -, hnamed⟩ := defines.contents id _ (Registry.content?_of_record hrecord)
    exact defines.sound.addressable_record hnamed
  heldBack := by
    intro name
    by_cases hid : start.system.registry.idOf? name = none
    · exact defines.sound.addressable_categories (defines.heldBack name hid)
    · intro category hcategory
      rw [defines.categoriesFor_eq_nil hid] at hcategory
      cases hcategory

/-! ### Applying a category -/

theorem Defines.content_unique (defines : start.Defines options known done) {id other : ClassId}
    {content another : Content} (hcontent : start.system.registry.content? id = some content)
    (hanother : start.system.registry.content? other = some another)
    (hname : content.name = another.name) : id = other := by
  have hid := defines.idOf?_of_content hcontent
  rw [hname, defines.idOf?_of_content hanother] at hid
  exact (Option.some.inj hid).symm

theorem merged_category_of_ne {name : String} {spec : CategorySpec} (hne : spec.className ≠ name) :
    merged name (done ++ [.category spec]) = merged name done := by
  rw [merged_append, categoryFor?, if_neg hne]

theorem merged_category_self (spec : CategorySpec) :
    merged spec.className (done ++ [.category spec]) =
      spec.merge (merged spec.className done) := by
  rw [merged_append, categoryFor?, if_pos rfl]

theorem classSpecs_category (spec : CategorySpec) :
    classSpecs (done ++ [.category spec]) = classSpecs done := by
  rw [classSpecs_append]
  exact List.append_nil _

/-- What is said of a class stands when a category for another class is declared. -/
theorem Defines.named_of_ne (defines : start.Defines options known done) {id : ClassId}
    {content : Content} (hcontent : start.system.registry.content? id = some content)
    {spec : CategorySpec} (hne : spec.className ≠ content.name) :
    ∃ own ∈ classSpecs done, content.named start.system.selectors =
      own.named (merged own.name (done ++ [.category spec])) := by
  obtain ⟨own, hown, hnamed⟩ := defines.contents id content hcontent
  have hname : content.name = own.name := congrArg NamedClass.name hnamed
  refine ⟨own, hown, ?_⟩
  rw [merged_category_of_ne]
  · exact hnamed
  · rw [← hname]
    exact hne

theorem Defines.holdBack (defines : start.Defines options known done) {spec : CategorySpec}
    {category : CategoryDefinition} (hcategory : category.named start.system.selectors = spec.named)
    (unknown : start.system.registry.idOf? spec.className = none) {log : Array Event}
    (hatRest : (start.withClasses { start.classes with
      registry := start.system.registry.holdBack category
      log := log }).AtRest options.categoryConflicts) :
    (start.withClasses { start.classes with
      registry := start.system.registry.holdBack category
      log := log }).Defines options known (done ++ [.category spec]) := by
  have hclass : category.className = spec.className := congrArg NamedCategory.className hcategory
  refine ⟨defines.options_eq, hatRest, defines.sound, defines.within, ?_, ?_, ?_⟩
  · rw [classSpecs_category]
    exact defines.registered
  · intro id content hcontent
    rw [classSpecs_category]
    refine defines.named_of_ne hcontent ?_
    intro heq
    have hid := defines.idOf?_of_content hcontent
    rw [← heq, unknown] at hid
    cases hid
  · intro name hname
    have hwaiting := defines.heldBack name hname
    change List.map _ ((start.system.registry.holdBack category).categoriesFor name) = _
    rw [Registry.categoriesFor, Registry.heldBack_holdBack, hclass]
    by_cases heq : spec.className = name
    · subst heq
      rw [if_pos rfl, merged_category_self]
      exact CategoryDefinition.named_merge hcategory hwaiting
    · rw [if_neg heq, merged_category_of_ne heq]
      exact hwaiting

theorem Defines.named_merge (defines : start.Defines options known done) {spec : CategorySpec}
    {category : CategoryDefinition} (hcategory : category.named start.system.selectors = spec.named)
    {id : ClassId} {content : Content}
    (hcontent : start.system.registry.content? id = some content)
    (hname : content.name = spec.className) :
    ∃ own ∈ classSpecs done,
      Content.named start.system.selectors
          { content with categories := category.merge content.categories } =
        own.named (merged own.name (done ++ [.category spec])) := by
  obtain ⟨own, hown, hnamed⟩ := defines.contents id content hcontent
  obtain ⟨hownName, hsuper, hmethods, hprotocols, hcategories⟩ := NamedClass.mk.inj hnamed
  have hsame : own.name = spec.className := hownName.symm.trans hname
  rw [hsame] at hcategories
  refine ⟨own, hown, ?_⟩
  rw [hsame, merged_category_self, Content.named, ClassSpec.named, hsame]
  refine NamedClass.mk.injEq .. |>.mpr ⟨hname, hsuper, hmethods, hprotocols, ?_⟩
  exact CategoryDefinition.named_merge hcategory hcategories

theorem Defines.merge (defines : start.Defines options known done) {spec : CategorySpec}
    {category : CategoryDefinition} (hcategory : category.named start.system.selectors = spec.named)
    {id : ClassId} {record : Record} {classes : Classes} {log : Array Event}
    (hknown : start.system.registry.idOf? spec.className = some id)
    (alters : ({ start.classes with log := log } : Classes).Alters id record
      { record with categories := category.merge record.categories } classes)
    (hatRest : (start.withClasses classes).AtRest options.categoryConflicts) :
    (start.withClasses classes).Defines options known (done ++ [.category spec]) := by
  have hidOf : classes.registry.idOf? = start.system.registry.idOf? := alters.idOf?_eq
  have hrecord := Registry.content?_of_record alters.registered
  obtain ⟨content, hcontent, hname⟩ := defines.content_of_idOf? hknown
  cases hrecord.symm.trans hcontent
  refine ⟨defines.options_eq, hatRest, defines.sound, defines.within, ?_, ?_, ?_⟩
  · rw [classSpecs_category]
    change ∀ own ∈ classSpecs done, classes.registry.idOf? own.name ≠ none
    rw [hidOf]
    exact defines.registered
  · intro other content hother
    change classes.registry.content? other = some content at hother
    rw [alters.content?_eq] at hother
    rw [classSpecs_category]
    split at hother
    · cases hother
      exact defines.named_merge hcategory hrecord hname
    · next hne =>
      refine defines.named_of_ne hother ?_
      intro heq
      exact hne (defines.content_unique hrecord hother (hname.trans heq))
  · intro name hunknown
    change classes.registry.idOf? name = none at hunknown
    rw [hidOf] at hunknown
    have hne : spec.className ≠ name := by
      intro heq
      subst heq
      exact Option.some_ne_none id (hknown.symm.trans hunknown)
    rw [merged_category_of_ne hne, ← defines.heldBack name hunknown]
    change List.map _ (classes.registry.categoriesFor name) = _
    rw [Registry.categoriesFor, alters.heldBack_eq]
    rfl

/-- A category is merged into its class or held back, whichever it is. -/
theorem Defines.applies (defines : start.Defines options known done) {spec : CategorySpec}
    {category : CategoryDefinition} (hcategory : category.named start.system.selectors = spec.named)
    {status : CategoryStatus} {classes : Classes}
    (applies : start.classes.Applies category status classes) :
    (start.withClasses classes).Defines options known (done ++ [.category spec]) := by
  have hclass : category.className = spec.className := congrArg NamedCategory.className hcategory
  have hatRest := applies.atRest defines.atRest
  cases applies with
  | waits unknown =>
    rw [hclass] at unknown
    exact defines.holdBack hcategory unknown hatRest
  | merges hknown alters =>
    rw [hclass] at hknown
    exact defines.merge hcategory hknown alters hatRest

/-! ### Declaring static instances -/

theorem classSpecs_statics (className : String) (more : List ObjectId) :
    classSpecs (done ++ [.statics className more]) = classSpecs done := by
  rw [classSpecs_append]
  exact List.append_nil _

theorem Defines.statics (defines : start.Defines options known done) {className : String}
    {more : List ObjectId} (same : start.SameClasses final)
    (hoptions : final.system.options = start.system.options)
    (hselectors : final.system.selectors = start.system.selectors) :
    final.Defines options known (done ++ [.statics className more]) := by
  have kept : final.Defines options known done := by
    refine defines.transfer same hoptions ?_ ?_ ?_
    · rw [hselectors]
      exact defines.sound
    · rw [hselectors]
      exact defines.within
    · rw [hselectors]
      exact .refl
  have hmerged : ∀ name, merged name (done ++ [.statics className more]) = merged name done :=
    fun name => merged_append done name _
  refine ⟨kept.options_eq, kept.atRest, kept.sound, kept.within, ?_, ?_, ?_⟩
  · rw [classSpecs_statics]
    exact kept.registered
  · simp only [classSpecs_statics, hmerged]
    exact kept.contents
  · simp only [hmerged]
    exact kept.heldBack

end Session

namespace Act

variable {options : Options} {known : List String} {objects : List ObjectId}
  {done : List Declaration} {start : Session} (hknown : known.dedup.length ≤ maxUid)

include hknown in
theorem applyCategory_declares {spec : CategorySpec}
    (declared : start.Declared options known objects done)
    (hnames : ∀ name ∈ sidesNames spec.methods, name ∈ known) :
    (applyCategory spec).Leads False start fun _ final =>
      final.Declared options known objects (done ++ [.category spec]) := by
  have defines := declared.defines
  rw [applyCategory, leads_bind]
  refine (defineMethods_leads hknown hnames defines.sound defines.within).mono ?_
  intro methods interned h
  obtain ⟨learns, hmethods⟩ := h
  have learned := declared.learn learns
  let category : CategoryDefinition := ⟨spec.name, spec.className, methods, spec.protocols⟩
  have hcategory : category.named interned.system.selectors = spec.named := by
    rw [CategoryDefinition.named, hmethods]
    rfl
  have hsafe : category.Addressable := learned.defines.sound.addressable_sides hmethods
  rw [leads_onClasses]
  refine (Linking.applyCategory_leads learned.defines.atRest.consistent
    (.inr ⟨learned.defines.addressable, hsafe⟩)).mono ?_
  intro status classes applies
  refine ⟨learned.defines.applies hcategory applies, ?_⟩
  have hliterals : (done ++ [Declaration.category spec]).flatMap literals =
      done.flatMap literals := by
    rw [literals_append]
    exact List.append_nil _
  have hlinked : (interned.withClasses classes).classForName? = interned.classForName? := by
    funext name
    exact congrFun applies.classForName?_eq name
  rw [hliterals, hlinked]
  exact learned.bindings.transfer applies.sameObjects.objects

/-! ### Registering static instances -/

theorem registerStatics_declares {className : String} {more : List ObjectId}
    (declared : start.Declared options known objects done)
    (hamong : ∀ object ∈ more, object ∈ objects)
    (hnew : ∀ name object, (name, object) ∈ done.flatMap literals → object ∉ more) :
    (registerStatics className more).Leads False start fun _ final =>
      final.Declared options known objects (done ++ [.statics className more]) := by
  rw [registerStatics, leads_bind, leads_get]
  dsimp only
  cases hcls : start.classForName? className with
  | some cls =>
    obtain ⟨id, content, -, -, -, rfl⟩ :=
      (Registry.classForName?_eq_some_iff className cls).mp hcls
    simp only [leads_bind, leads_modify, leads_pure]
    refine ⟨declared.defines.statics ⟨.of_pairs (Heap.stores_bindAll _ _ _).pairs, rfl⟩ rfl rfl, ?_⟩
    rw [literals_append]
    exact declared.bindings.declare_linked hamong hnew hcls
  | none =>
    simp only [leads_bind, leads_onSystem, leads_pure]
    refine ⟨declared.defines.statics ⟨.refl, rfl⟩ rfl rfl, ?_⟩
    rw [literals_append]
    exact declared.bindings.declare_waiting hamong hnew hcls

end Act

end LateBinding
