import LateBinding.Proofs.Registry.Definitions
import LateBinding.Proofs.Registry.Frames
import LateBinding.Proofs.Selectors

/-!
# Definitions by name

Two systems may give one name different selectors. Their definitions are compared with names in the
place of selectors. What a class implements a message by depends on its definitions by name only.
-/

namespace LateBinding

structure NamedMethod where
  name : Option String
  types : Option String
  imp : Imp
  deriving DecidableEq

structure NamedCategory where
  name : String
  className : String
  methods : Sided (List NamedMethod)
  protocols : List Protocol

structure NamedClass where
  name : String
  superclassName : Option String
  methods : Sided (List NamedMethod)
  protocols : List Protocol
  categories : List NamedCategory

def MethodDefinition.named (table : SelectorTable) (method : MethodDefinition) : NamedMethod :=
  ⟨table.name? method.sel, method.types, method.imp⟩

def CategoryDefinition.named (table : SelectorTable) (category : CategoryDefinition) :
    NamedCategory :=
  ⟨category.name, category.className, category.methods.map (List.map (·.named table)),
    category.protocols⟩

def Content.named (table : SelectorTable) (content : Content) : NamedClass :=
  ⟨content.name, content.superclassName, content.methods.map (List.map (·.named table)),
    content.protocols, content.categories.map (·.named table)⟩

/-! ### What a class implements -/

def lastNamed? (methods : List NamedMethod) (name : String) : Option Imp :=
  (methods.findRev? (·.name = some name)).map (·.imp)

def NamedCategory.defines (category : NamedCategory) (kind : ClassKind) (name : String) : Bool :=
  (category.methods.get kind).any (·.name = some name)

namespace NamedClass

def strongest? (cls : NamedClass) (policy : CategoryConflictPolicy) (kind : ClassKind)
    (name : String) : Option NamedCategory :=
  match policy with
  | .lastApplied => cls.categories.findRev? (·.defines kind name)
  | .firstApplied => cls.categories.find? (·.defines kind name)

def implementation? (cls : NamedClass) (policy : CategoryConflictPolicy) (kind : ClassKind)
    (name : String) : Option Imp :=
  match cls.strongest? policy kind name with
  | some category => lastNamed? (category.methods.get kind) name
  | none => lastNamed? (cls.methods.get kind) name

def adopts (cls : NamedClass) (protocol : String) : Bool :=
  cls.protocols.any (·.conformsTo protocol) ||
    cls.categories.any fun category => category.protocols.any (·.conformsTo protocol)

end NamedClass

section

variable {table : SelectorTable} {sel : Sel} {name : String}

/-- A selector that a name stands for is met where its name is. -/
theorem named_name_eq_some_iff (sound : table.Sound) (hsel : table.name? sel = some name)
    (method : MethodDefinition) : (method.named table).name = some name ↔ method.sel = sel := by
  constructor
  · intro hmethod
    exact sound.unique hmethod hsel
  · intro heq
    subst heq
    exact hsel

theorem lastImp?_eq_lastNamed? (sound : table.Sound) (hsel : table.name? sel = some name)
    (methods : List MethodDefinition) :
    lastImp? methods sel = lastNamed? (methods.map (·.named table)) name := by
  have hpredicate : ((fun method : NamedMethod => decide (method.name = some name)) ∘
      (MethodDefinition.named table ·)) = fun method => decide (method.sel = sel) := by
    funext method
    exact decide_eq_decide.mpr (named_name_eq_some_iff sound hsel method)
  rw [lastNamed?, List.findRev?_eq_find?_reverse, ← List.map_reverse, List.find?_map, hpredicate,
    Option.map_map, lastImp?, List.findRev?_eq_find?_reverse]
  rfl

theorem defines_eq_named (sound : table.Sound) (hsel : table.name? sel = some name)
    (category : CategoryDefinition) (kind : ClassKind) :
    category.defines kind sel = (category.named table).defines kind name := by
  rw [NamedCategory.defines, CategoryDefinition.named, Sided.get_map, List.any_map,
    CategoryDefinition.defines, definesSel]
  congr 1
  funext method
  exact decide_eq_decide.mpr (named_name_eq_some_iff sound hsel method).symm

namespace Record

theorem strongest?_named (sound : table.Sound) (hsel : table.name? sel = some name)
    (record : Record) (policy : CategoryConflictPolicy) (kind : ClassKind) :
    (record.content.named table).strongest? policy kind name =
      (record.strongest? policy kind sel).map (·.named table) := by
  have hpredicate : ((fun category : NamedCategory => category.defines kind name) ∘
      (CategoryDefinition.named table ·)) = fun category => category.defines kind sel := by
    funext category
    exact (defines_eq_named sound hsel category kind).symm
  unfold NamedClass.strongest? strongest? Content.named content
  cases policy with
  | lastApplied =>
    simp only [List.findRev?_eq_find?_reverse, ← List.map_reverse, List.find?_map, hpredicate]
  | firstApplied => simp only [List.find?_map, hpredicate]

/-- What a class implements a message by depends on its definitions by name. -/
theorem implementation?_eq_named (sound : table.Sound) (hsel : table.name? sel = some name)
    (record : Record) (policy : CategoryConflictPolicy) (kind : ClassKind) :
    record.implementation? policy kind sel =
      (record.content.named table).implementation? policy kind name := by
  rw [NamedClass.implementation?, strongest?_named sound hsel, implementation?]
  cases record.strongest? policy kind sel with
  | none =>
    dsimp only [Option.map_none]
    rw [lastImp?_eq_lastNamed? sound hsel, Content.named, Sided.get_map]
    rfl
  | some category =>
    dsimp only [Option.map_some]
    rw [lastImp?_eq_lastNamed? sound hsel, CategoryDefinition.named, Sided.get_map]

theorem adopts_eq_named (table : SelectorTable) (record : Record) (protocol : String) :
    record.adopts protocol = (record.content.named table).adopts protocol := by
  rw [adopts, NamedClass.adopts, Content.named, List.any_map]
  rfl

end Record

end

/-! ### Declarations by name -/

def MethodSpec.named (spec : MethodSpec) : NamedMethod :=
  ⟨some spec.name, someTypes spec.types, spec.imp⟩

def CategorySpec.named (spec : CategorySpec) : NamedCategory :=
  ⟨spec.name, spec.className, spec.methods.map (List.map MethodSpec.named), spec.protocols⟩

/-- The class as it is declared along with categories. -/
def ClassSpec.named (spec : ClassSpec) (categories : List CategorySpec) : NamedClass :=
  ⟨spec.name, spec.superclass, spec.methods.map (List.map MethodSpec.named), spec.protocols,
    categories.map CategorySpec.named⟩

/-- Put a category in the place of an earlier version of it, else at the end. -/
def CategorySpec.merge (spec : CategorySpec) : List CategorySpec → List CategorySpec
  | [] => [spec]
  | other :: rest => if other.name = spec.name then spec :: rest else other :: spec.merge rest

theorem CategoryDefinition.named_merge {table : SelectorTable} {category : CategoryDefinition}
    {spec : CategorySpec} (hcategory : category.named table = spec.named)
    {categories : List CategoryDefinition} {specs : List CategorySpec}
    (hcategories : categories.map (·.named table) = specs.map CategorySpec.named) :
    (category.merge categories).map (·.named table) =
      (spec.merge specs).map CategorySpec.named := by
  induction categories generalizing specs with
  | nil =>
    cases specs with
    | nil =>
      rw [merge, CategorySpec.merge, List.map_singleton, List.map_singleton, hcategory]
    | cons => cases hcategories
  | cons other rest ih =>
    cases specs with
    | nil => cases hcategories
    | cons otherSpec restSpecs =>
      obtain ⟨hother, hrest⟩ := List.cons.inj hcategories
      have hother : other.named table = otherSpec.named := hother
      have hname : other.name = otherSpec.name := congrArg NamedCategory.name hother
      have hown : category.name = spec.name := congrArg NamedCategory.name hcategory
      rw [merge, CategorySpec.merge, hname, hown]
      split
      · rw [List.map_cons, List.map_cons, hcategory, hrest]
      · rw [List.map_cons, List.map_cons, hother, ih hrest]

namespace SelectorTable

variable {table final : SelectorTable}

theorem Grows.methods (grows : table.Grows final) {methods : List MethodDefinition}
    {specs : List MethodSpec} (hmethods : methods.map (·.named table) = specs.map MethodSpec.named) :
    methods.map (·.named final) = specs.map MethodSpec.named := by
  rw [← hmethods]
  apply List.map_congr_left
  intro method hmethod
  have hnamed := List.mem_map_of_mem (f := (·.named table)) hmethod
  rw [hmethods] at hnamed
  obtain ⟨spec, -, hspec⟩ := List.mem_map.mp hnamed
  have hname : table.name? method.sel = some spec.name := (congrArg NamedMethod.name hspec).symm
  rw [MethodDefinition.named, MethodDefinition.named, grows _ _ hname, hname]

theorem Grows.sides (grows : table.Grows final) {methods : Sided (List MethodDefinition)}
    {specs : Sided (List MethodSpec)}
    (hmethods : methods.map (List.map (·.named table)) = specs.map (List.map MethodSpec.named)) :
    methods.map (List.map (·.named final)) = specs.map (List.map MethodSpec.named) := by
  obtain ⟨hplain, hmetaclass⟩ := Sided.mk.inj hmethods
  exact congrArg₂ Sided.mk (grows.methods hplain) (grows.methods hmetaclass)

theorem Grows.category (grows : table.Grows final) {category : CategoryDefinition}
    {spec : CategorySpec} (hcategory : category.named table = spec.named) :
    category.named final = spec.named := by
  obtain ⟨hname, hclass, hmethods, hprotocols⟩ := NamedCategory.mk.inj hcategory
  rw [CategoryDefinition.named, CategorySpec.named, hname, hclass, grows.sides hmethods, hprotocols]

theorem Grows.categories (grows : table.Grows final) {categories : List CategoryDefinition}
    {specs : List CategorySpec}
    (hcategories : categories.map (·.named table) = specs.map CategorySpec.named) :
    categories.map (·.named final) = specs.map CategorySpec.named := by
  induction categories generalizing specs with
  | nil => exact hcategories
  | cons category rest ih =>
    cases specs with
    | nil => cases hcategories
    | cons spec restSpecs =>
      obtain ⟨hcategory, hrest⟩ := List.cons.inj hcategories
      rw [List.map_cons, List.map_cons, grows.category hcategory, ih hrest]

theorem Grows.content (grows : table.Grows final) {content : Content} {spec : ClassSpec}
    {categories : List CategorySpec} (hcontent : content.named table = spec.named categories) :
    content.named final = spec.named categories := by
  obtain ⟨hname, hsuper, hmethods, hprotocols, hcategories⟩ := NamedClass.mk.inj hcontent
  rw [Content.named, ClassSpec.named, hname, hsuper, grows.sides hmethods, hprotocols,
    grows.categories hcategories]

/-! ### Tables can hold what was declared -/

theorem Sound.addressable_methods (sound : table.Sound) {methods : List MethodDefinition}
    {specs : List MethodSpec} (hmethods : methods.map (·.named table) = specs.map MethodSpec.named) :
    Addressable methods := by
  intro method hmethod
  have hnamed := List.mem_map_of_mem (f := (·.named table)) hmethod
  rw [hmethods] at hnamed
  obtain ⟨spec, -, hspec⟩ := List.mem_map.mp hnamed
  exact sound.uid_le (congrArg NamedMethod.name hspec).symm

theorem Sound.addressable_sides (sound : table.Sound) {methods : Sided (List MethodDefinition)}
    {specs : Sided (List MethodSpec)}
    (hmethods : methods.map (List.map (·.named table)) = specs.map (List.map MethodSpec.named))
    (kind : ClassKind) : Addressable (methods.get kind) := by
  have hkind := congrArg (Sided.get · kind) hmethods
  rw [Sided.get_map, Sided.get_map] at hkind
  exact sound.addressable_methods hkind

theorem Sound.addressable_categories (sound : table.Sound) {categories : List CategoryDefinition}
    {specs : List CategorySpec}
    (hcategories : categories.map (·.named table) = specs.map CategorySpec.named) :
    ∀ category ∈ categories, category.Addressable := by
  intro category hcategory
  have hnamed := List.mem_map_of_mem (f := (·.named table)) hcategory
  rw [hcategories] at hnamed
  obtain ⟨spec, -, hspec⟩ := List.mem_map.mp hnamed
  exact sound.addressable_sides (congrArg NamedCategory.methods hspec).symm

theorem Sound.addressable_record (sound : table.Sound) {record : Record} {spec : ClassSpec}
    {categories : List CategorySpec}
    (hrecord : record.content.named table = spec.named categories) : record.Addressable := by
  rw [Record.addressable_iff]
  exact ⟨sound.addressable_sides (congrArg NamedClass.methods hrecord),
    sound.addressable_categories (congrArg NamedClass.categories hrecord)⟩

end SelectorTable

end LateBinding
