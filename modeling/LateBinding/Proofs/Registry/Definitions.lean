import LateBinding.Proofs.Registry.Consistent
import LateBinding.Proofs.Tables.Composition
import LateBinding.Registry.Methods

/-!
# Altered definitions

A record that gets other methods or categories keeps its pair and its standing. Whatever it holds
afterwards comes from what it held or from the new definition.
-/

namespace LateBinding

theorem mem_replaceLast {α : Type} {test : α → Bool} {change : α → α} {list : List α} {item : α}
    (hitem : item ∈ (replaceLast test change list).1) :
    item ∈ list ∨ ∃ old ∈ list, item = change old := by
  induction list with
  | nil => cases hitem
  | cons head rest ih =>
    rw [replaceLast] at hitem
    have hrest : item ∈ (replaceLast test change rest).1 →
        item ∈ head :: rest ∨ ∃ old ∈ head :: rest, item = change old := by
      intro hmem
      rcases ih hmem with hold | ⟨old, hold, rfl⟩
      · exact .inl (List.mem_cons_of_mem _ hold)
      · exact .inr ⟨old, List.mem_cons_of_mem _ hold, rfl⟩
    split at hitem
    · next replaced old heq =>
      rcases List.mem_cons.mp hitem with rfl | hmem
      · exact .inl List.mem_cons_self
      · exact hrest (by rw [heq]; exact hmem)
    · next replaced heq =>
      split at hitem
      · rcases List.mem_cons.mp hitem with rfl | hmem
        · exact .inr ⟨head, List.mem_cons_self, rfl⟩
        · exact hrest (by rw [heq]; exact hmem)
      · rcases List.mem_cons.mp hitem with rfl | hmem
        · exact .inl List.mem_cons_self
        · exact hrest (by rw [heq]; exact hmem)

theorem mem_replaceFirst {α : Type} {test : α → Bool} {change : α → α} {list : List α} {item : α}
    (hitem : item ∈ (replaceFirst test change list).1) :
    item ∈ list ∨ ∃ old ∈ list, item = change old := by
  induction list with
  | nil => cases hitem
  | cons head rest ih =>
    rw [replaceFirst] at hitem
    split at hitem
    · rcases List.mem_cons.mp hitem with rfl | hmem
      · exact .inr ⟨head, List.mem_cons_self, rfl⟩
      · exact .inl (List.mem_cons_of_mem _ hmem)
    · rcases List.mem_cons.mp hitem with rfl | hmem
      · exact .inl List.mem_cons_self
      · rcases ih hmem with hold | ⟨old, hold, rfl⟩
        · exact .inl (List.mem_cons_of_mem _ hold)
        · exact .inr ⟨old, List.mem_cons_of_mem _ hold, rfl⟩

/-- A list of methods defines a selector. -/
def Mentions (methods : List MethodDefinition) (sel : Sel) : Prop :=
  ∃ method ∈ methods, method.sel = sel

theorem addressable_iff_mentions {methods : List MethodDefinition} :
    Addressable methods ↔ ∀ sel, Mentions methods sel → sel.uid ≤ maxUid := by
  constructor
  · rintro addressable _ ⟨method, hmethod, rfl⟩
    exact addressable method hmethod
  · intro hall method hmethod
    exact hall method.sel ⟨method, hmethod, rfl⟩

theorem mentions_replaceIn {methods : List MethodDefinition} {definition : MethodDefinition}
    {sel : Sel} (mentions : Mentions (replaceIn methods definition).1 sel) :
    Mentions methods sel ∨ sel = definition.sel := by
  obtain ⟨method, hmethod, rfl⟩ := mentions
  rw [replaceIn] at hmethod
  split at hmethod
  · next replaced old heq =>
    have hmem := mem_replaceLast (by rw [heq]; exact hmethod)
    rcases hmem with hold | ⟨old, hold, rfl⟩
    · exact .inl ⟨method, hold, rfl⟩
    · exact .inl ⟨old, hold, rfl⟩
  · next replaced heq =>
    rcases List.mem_append.mp hmethod with hmem | hmem
    · rcases mem_replaceLast (by rw [heq]; exact hmem) with hold | ⟨old, hold, rfl⟩
      · exact .inl ⟨method, hold, rfl⟩
      · exact .inl ⟨old, hold, rfl⟩
    · rw [List.mem_singleton.mp hmem]
      exact .inr rfl

namespace CategoryDefinition

def Addressable (category : CategoryDefinition) : Prop :=
  ∀ kind, LateBinding.Addressable (category.methods.get kind)

def Mentions (category : CategoryDefinition) (sel : Sel) : Prop :=
  ∃ kind, LateBinding.Mentions (category.methods.get kind) sel

theorem addressable_iff_mentions {category : CategoryDefinition} :
    category.Addressable ↔ ∀ sel, category.Mentions sel → sel.uid ≤ maxUid := by
  unfold Addressable Mentions
  simp only [LateBinding.addressable_iff_mentions]
  exact ⟨fun h sel ⟨kind, hsel⟩ => h kind sel hsel, fun h kind sel hsel => h sel ⟨kind, hsel⟩⟩

theorem mem_merge {category other : CategoryDefinition} {categories : List CategoryDefinition}
    (hother : other ∈ category.merge categories) : other = category ∨ other ∈ categories := by
  induction categories with
  | nil => exact .inl (List.mem_singleton.mp hother)
  | cons head rest ih =>
    rw [merge] at hother
    split at hother
    · rcases List.mem_cons.mp hother with rfl | hmem
      · exact .inl rfl
      · exact .inr (List.mem_cons_of_mem _ hmem)
    · rcases List.mem_cons.mp hother with rfl | hmem
      · exact .inr List.mem_cons_self
      · exact (ih hmem).imp_right (List.mem_cons_of_mem _)

theorem mentions_replaceMethod {category : CategoryDefinition} {kind : ClassKind}
    {definition : MethodDefinition} {sel : Sel}
    (mentions : (category.replaceMethod kind definition).Mentions sel) :
    category.Mentions sel ∨ sel = definition.sel := by
  obtain ⟨other, hother⟩ := mentions
  rw [CategoryDefinition.replaceMethod, Sided.get_set] at hother
  split at hother
  · exact (mentions_replaceIn hother).imp_left fun h => ⟨kind, h⟩
  · exact .inl ⟨other, hother⟩

end CategoryDefinition

namespace Record

variable {record : Record} {policy : CategoryConflictPolicy} {kind : ClassKind}
  {definition : MethodDefinition} {sel : Sel}

/-- A selector is among the definitions of a class or of its categories. -/
def Mentions (record : Record) (sel : Sel) : Prop :=
  (∃ kind, LateBinding.Mentions (record.methods.get kind) sel) ∨
    ∃ category ∈ record.categories, category.Mentions sel

theorem addressable_iff (record : Record) :
    record.Addressable ↔ (∀ kind, LateBinding.Addressable (record.methods.get kind)) ∧
      ∀ category ∈ record.categories, category.Addressable := by
  constructor
  · intro addressable
    exact ⟨fun kind => (addressable kind).1, fun category hcategory kind =>
      (addressable kind).2 category hcategory⟩
  · rintro ⟨hmethods, hcategories⟩ kind
    exact ⟨hmethods kind, fun category hcategory => hcategories category hcategory kind⟩

theorem addressable_iff_mentions :
    record.Addressable ↔ ∀ sel, record.Mentions sel → sel.uid ≤ maxUid := by
  rw [addressable_iff]
  simp only [LateBinding.addressable_iff_mentions, CategoryDefinition.addressable_iff_mentions]
  constructor
  · rintro ⟨hmethods, hcategories⟩ sel (⟨kind, hsel⟩ | ⟨category, hcategory, hsel⟩)
    · exact hmethods kind sel hsel
    · exact hcategories category hcategory sel hsel
  · intro hall
    exact ⟨fun kind sel hsel => hall sel (.inl ⟨kind, hsel⟩),
      fun category hcategory sel hsel => hall sel (.inr ⟨category, hcategory, hsel⟩)⟩

theorem mentions_merge {category : CategoryDefinition}
    (mentions : { record with categories := category.merge record.categories }.Mentions sel) :
    record.Mentions sel ∨ category.Mentions sel := by
  rcases mentions with hmethods | ⟨other, hother, hsel⟩
  · exact .inl (.inl hmethods)
  · rcases CategoryDefinition.mem_merge hother with rfl | hmem
    · exact .inr hsel
    · exact .inl (.inr ⟨other, hmem, hsel⟩)

theorem mentions_add
    (mentions : { record with
      methods := record.methods.set kind (record.methods.get kind ++ [definition]) }.Mentions sel) :
    record.Mentions sel ∨ sel = definition.sel := by
  rcases mentions with ⟨other, hother⟩ | hcategories
  · rw [Sided.get_set] at hother
    split at hother
    · obtain ⟨method, hmethod, rfl⟩ := hother
      rcases List.mem_append.mp hmethod with hmem | hmem
      · exact .inl (.inl ⟨kind, method, hmem, rfl⟩)
      · rw [List.mem_singleton.mp hmem]
        exact .inr rfl
    · exact .inl (.inl ⟨other, hother⟩)
  · exact .inl (.inr hcategories)

theorem replaceMethod_cases (record : Record) (policy : CategoryConflictPolicy) (kind : ClassKind)
    (definition : MethodDefinition) :
    (∃ categories, (record.replaceMethod policy kind definition).1 = { record with categories } ∧
        ∀ category ∈ categories, category ∈ record.categories ∨
          ∃ old ∈ record.categories, category = old.replaceMethod kind definition) ∨
      (record.replaceMethod policy kind definition).1 = { record with
        methods := record.methods.set kind
          (replaceIn (record.methods.get kind) definition).1 } := by
  unfold replaceMethod
  cases policy with
  | lastApplied =>
    dsimp only
    split
    · refine .inl ⟨_, rfl, ?_⟩
      intro category hcategory
      exact mem_replaceLast hcategory
    · exact .inr rfl
  | firstApplied =>
    dsimp only
    split
    · refine .inl ⟨_, rfl, ?_⟩
      intro category hcategory
      exact mem_replaceFirst hcategory
    · exact .inr rfl

theorem pair_replaceMethod (record : Record) (policy : CategoryConflictPolicy) (kind : ClassKind)
    (definition : MethodDefinition) :
    (record.replaceMethod policy kind definition).1.pair = record.pair := by
  rcases record.replaceMethod_cases policy kind definition with ⟨categories, heq, -⟩ | heq
  · rw [heq]
  · rw [heq]

theorem standing_replaceMethod (record : Record) (policy : CategoryConflictPolicy)
    (kind : ClassKind) (definition : MethodDefinition) :
    (record.replaceMethod policy kind definition).1.standing = record.standing := by
  rcases record.replaceMethod_cases policy kind definition with ⟨categories, heq, -⟩ | heq
  · rw [heq]
    rfl
  · rw [heq]
    rfl

theorem mentions_replaceMethod
    (mentions : (record.replaceMethod policy kind definition).1.Mentions sel) :
    record.Mentions sel ∨ sel = definition.sel := by
  rcases record.replaceMethod_cases policy kind definition with ⟨categories, heq, hmem⟩ | heq
  · rw [heq] at mentions
    rcases mentions with hmethods | ⟨category, hcategory, hsel⟩
    · exact .inl (.inl hmethods)
    · rcases hmem category hcategory with hold | ⟨old, hold, rfl⟩
      · exact .inl (.inr ⟨category, hold, hsel⟩)
      · exact (CategoryDefinition.mentions_replaceMethod hsel).imp_left
          fun h => .inr ⟨old, hold, h⟩
  · rw [heq] at mentions
    rcases mentions with ⟨other, hother⟩ | hcategories
    · rw [Sided.get_set] at hother
      split at hother
      · exact (mentions_replaceIn hother).imp_left fun h => .inl ⟨kind, h⟩
      · exact .inl (.inl ⟨other, hother⟩)
    · exact .inl (.inr hcategories)

/-! ### Tables can hold what was altered -/

theorem Addressable.of_mentions {new : Record} {added : Sel → Prop} (addressable : record.Addressable)
    (hnew : ∀ sel, new.Mentions sel → record.Mentions sel ∨ added sel)
    (hadded : ∀ sel, added sel → sel.uid ≤ maxUid) : new.Addressable := by
  rw [addressable_iff_mentions] at addressable ⊢
  intro sel hsel
  rcases hnew sel hsel with hold | hsel
  · exact addressable sel hold
  · exact hadded sel hsel

theorem Addressable.merge (addressable : record.Addressable) {category : CategoryDefinition}
    (hcategory : category.Addressable) :
    { record with categories := category.merge record.categories }.Addressable :=
  addressable.of_mentions (fun _ => mentions_merge)
    (CategoryDefinition.addressable_iff_mentions.mp hcategory)

theorem Addressable.add (addressable : record.Addressable) (kind : ClassKind)
    (hsel : definition.sel.uid ≤ maxUid) :
    { record with
      methods := record.methods.set kind (record.methods.get kind ++ [definition]) }.Addressable :=
  addressable.of_mentions (fun _ => mentions_add) fun _ heq => heq ▸ hsel

theorem Addressable.replaceMethod (addressable : record.Addressable)
    (policy : CategoryConflictPolicy) (kind : ClassKind) (hsel : definition.sel.uid ≤ maxUid) :
    (record.replaceMethod policy kind definition).1.Addressable :=
  addressable.of_mentions (fun _ => mentions_replaceMethod) fun _ heq => heq ▸ hsel

end Record

end LateBinding
