import LateBinding.Proofs.Registry.Redefining
import Mathlib.Data.List.DropRight

/-!
# The categories that are held for a class

Category and class name identify a category. A category that is applied again takes the place of its
earlier version, so the names stay in the order in which they were applied first. A category that is
held is as it was applied last, but for the methods of it that were replaced since.
-/

namespace LateBinding

/-! ### Putting a category in its place -/

namespace CategoryDefinition

variable {category old : CategoryDefinition} {front back held : List CategoryDefinition}

theorem merge_of_new (hnew : ∀ other ∈ held, other.name ≠ category.name) :
    category.merge held = held ++ [category] := by
  induction held with
  | nil => rfl
  | cons head rest ih =>
    have hrest := ih fun other hother => hnew other (List.mem_cons_of_mem _ hother)
    rw [merge, if_neg (hnew head List.mem_cons_self), hrest, List.cons_append]

theorem merge_of_old (hold : old.name = category.name)
    (hfront : ∀ other ∈ front, other.name ≠ category.name) :
    category.merge (front ++ old :: back) = front ++ category :: back := by
  induction front with
  | nil => rw [List.nil_append, merge, if_pos hold, List.nil_append]
  | cons head rest ih =>
    have hrest := ih fun other hother => hfront other (List.mem_cons_of_mem _ hother)
    rw [List.cons_append, merge, if_neg (hfront head List.mem_cons_self), hrest, List.cons_append]

/-- Either no category of the name is held, or there is a first one, and its place is taken. -/
theorem merge_cases (category : CategoryDefinition) (held : List CategoryDefinition) :
    ((∀ other ∈ held, other.name ≠ category.name) ∧ category.merge held = held ++ [category]) ∨
      ∃ front old back, held = front ++ old :: back ∧ old.name = category.name ∧
        (∀ other ∈ front, other.name ≠ category.name) ∧
        category.merge held = front ++ category :: back := by
  rcases none_or_first (fun other : CategoryDefinition => other.name = category.name) held with
    hnone | ⟨front, old, back, rfl, hold, hfront⟩
  · have hnew := fun other hother => of_decide_eq_false (hnone other hother)
    exact .inl ⟨hnew, merge_of_new hnew⟩
  · have hold := of_decide_eq_true hold
    have hfront := fun other hother => of_decide_eq_false (hfront other hother)
    exact .inr ⟨front, old, back, rfl, hold, hfront, merge_of_old hold hfront⟩

/-- Applied once more, a category takes its own place. -/
theorem merge_merge (category : CategoryDefinition) (held : List CategoryDefinition) :
    category.merge (category.merge held) = category.merge held := by
  rcases category.merge_cases held with ⟨hnew, hmerge⟩ | ⟨front, old, back, -, -, hfront, hmerge⟩
  · rw [hmerge, merge_of_old rfl hnew]
  · rw [hmerge, merge_of_old rfl hfront]

theorem names_merge (category : CategoryDefinition) (held : List CategoryDefinition) :
    (category.merge held).map (·.name) =
      if category.name ∈ held.map (·.name) then held.map (·.name)
      else held.map (·.name) ++ [category.name] := by
  rcases category.merge_cases held with ⟨hnew, hmerge⟩ | ⟨front, old, back, rfl, hold, -, hmerge⟩
  · have hnot : category.name ∉ held.map (·.name) := by
      intro hmem
      obtain ⟨other, hother, hname⟩ := List.mem_map.mp hmem
      exact hnew other hother hname
    rw [if_neg hnot, hmerge, List.map_append, List.map_singleton]
  · have hmem : category.name ∈ (front ++ old :: back).map (·.name) :=
      List.mem_map.mpr ⟨old, List.mem_append_right _ List.mem_cons_self, hold⟩
    rw [if_pos hmem, hmerge, List.map_append, List.map_append, List.map_cons, List.map_cons, hold]

/-- If all names are different, the earlier version is the only one that changes. -/
theorem merge_eq_map (hnodup : (held.map (·.name)).Nodup) (hold : old ∈ held)
    (hname : old.name = category.name) : category.merge held =
      held.map fun other => if other.name = category.name then category else other := by
  rcases category.merge_cases held with ⟨hnew, -⟩ | ⟨front, known, back, rfl, hknown, hfront, hmerge⟩
  · exact absurd hname (hnew old hold)
  · have hback : ∀ other ∈ back, other.name ≠ category.name := by
      rw [List.map_append, List.map_cons, List.nodup_append] at hnodup
      intro other hother heq
      exact (List.nodup_cons.mp hnodup.2.1).1 (List.mem_map.mpr ⟨other, hother, heq.trans hknown.symm⟩)
    have hsame : ∀ list : List CategoryDefinition,
        (∀ other ∈ list, other.name ≠ category.name) →
          list.map (fun other => if other.name = category.name then category else other) = list := by
      intro list hlist
      rw [List.map_congr_left fun other hother => if_neg (hlist other hother), List.map_id']
    rw [hmerge, List.map_append, List.map_cons, if_pos hknown, hsame front hfront, hsame back hback]

end CategoryDefinition

/-! ### Which category decides -/

/-- The category that decides what a selector is implemented by, among those of a class. -/
def CategoryConflictPolicy.decider? (policy : CategoryConflictPolicy)
    (categories : List CategoryDefinition) (kind : ClassKind) (sel : Sel) :
    Option CategoryDefinition :=
  match policy with
  | .lastApplied => categories.findRev? (·.defines kind sel)
  | .firstApplied => categories.find? (·.defines kind sel)

theorem List.find?_append_cons_map {α β : Type} {test : α → Bool} {name : α → β} {old new : α}
    (htest : test new = test old) (hname : name new = name old) (front back : List α) :
    ((front ++ new :: back).find? test).map name = ((front ++ old :: back).find? test).map name := by
  rw [List.find?_append, List.find?_append, List.find?_cons, List.find?_cons, htest]
  cases front.find? test with
  | some hit => rfl
  | none =>
    cases test old with
    | true => exact congrArg some hname
    | false => rfl

/-- As long as the earlier version defines the selector just if the later one does, the same category
decides. -/
theorem CategoryConflictPolicy.name_decider?_merge (policy : CategoryConflictPolicy)
    {category old : CategoryDefinition} {held : List CategoryDefinition} {kind : ClassKind}
    {sel : Sel} (hnodup : (held.map (·.name)).Nodup) (hold : old ∈ held)
    (hname : old.name = category.name) (hsame : category.defines kind sel = old.defines kind sel) :
    (policy.decider? (category.merge held) kind sel).map (·.name) =
      (policy.decider? held kind sel).map (·.name) := by
  rcases category.merge_cases held with ⟨hnew, -⟩ | ⟨front, known, back, rfl, hknown, -, hmerge⟩
  · exact absurd hname (hnew old hold)
  · obtain rfl : old = known := List.inj_on_of_nodup_map hnodup hold
      (List.mem_append_right _ List.mem_cons_self) (hname.trans hknown.symm)
    rw [hmerge]
    cases policy with
    | lastApplied =>
      unfold decider?
      simp only [List.findRev?_eq_find?_reverse, List.reverse_append, List.reverse_cons,
        List.append_assoc, List.singleton_append]
      exact List.find?_append_cons_map hsame hname.symm back.reverse front.reverse
    | firstApplied => exact List.find?_append_cons_map hsame hname.symm front back

/-- A later version of a category takes the place of an earlier one, and the same category as before
decides about what both define. -/
structure Supersedes (policy : CategoryConflictPolicy) (old category : CategoryDefinition)
    (held later : List CategoryDefinition) : Prop where
  inPlace : later = held.map fun other => if other.name = category.name then category else other
  winner : ∀ kind sel, old.defines kind sel = true → category.defines kind sel = true →
    (policy.decider? later kind sel).map (·.name) = (policy.decider? held kind sel).map (·.name)

theorem CategoryDefinition.supersedes_merge (policy : CategoryConflictPolicy)
    {category old : CategoryDefinition} {held : List CategoryDefinition}
    (hnodup : (held.map (·.name)).Nodup) (hold : old ∈ held) (hname : old.name = category.name) :
    Supersedes policy old category held (category.merge held) where
  inPlace := category.merge_eq_map hnodup hold hname
  winner _ _ hbefore hnow :=
    policy.name_decider?_merge hnodup hold hname (hnow.trans hbefore.symm)

/-! ### Replacing a method of a category -/

/-- A method is replaced in the category that decides, if there is one. -/
def CategoryConflictPolicy.replaceDecider (policy : CategoryConflictPolicy) (kind : ClassKind)
    (definition : MethodDefinition) (categories : List CategoryDefinition) :
    List CategoryDefinition :=
  let test (category : CategoryDefinition) : Bool := category.defines kind definition.sel
  let change (category : CategoryDefinition) : CategoryDefinition :=
    category.replaceMethod kind definition
  match policy with
  | .lastApplied => (replaceLast test change categories).1
  | .firstApplied => (replaceFirst test change categories).1

theorem CategoryConflictPolicy.replaceDecider_cases (policy : CategoryConflictPolicy)
    (kind : ClassKind) (definition : MethodDefinition) (held : List CategoryDefinition) :
    policy.replaceDecider kind definition held = held ∨
      ∃ front decider back, held = front ++ decider :: back ∧
        policy.replaceDecider kind definition held =
          front ++ decider.replaceMethod kind definition :: back := by
  cases policy with
  | lastApplied =>
    unfold replaceDecider
    rcases none_or_last (·.defines kind definition.sel) held with
      hnone | ⟨front, decider, back, rfl, hdecides, hback⟩
    · exact .inl (congrArg Prod.fst (replaceLast_of_none _ hnone))
    · exact .inr ⟨front, decider, back, rfl,
        congrArg Prod.fst (replaceLast_append _ hback hdecides)⟩
  | firstApplied =>
    unfold replaceDecider
    rcases none_or_first (·.defines kind definition.sel) held with
      hnone | ⟨front, decider, back, rfl, hdecides, hfront⟩
    · exact .inl (congrArg Prod.fst (replaceFirst_of_none _ hnone))
    · exact .inr ⟨front, decider, back, rfl,
        congrArg Prod.fst (replaceFirst_append _ hfront hdecides)⟩

/-- Replacing a method of a class does to its categories what replacing it there does. -/
theorem Record.categories_replaceMethod (record : Record) (policy : CategoryConflictPolicy)
    (kind : ClassKind) (definition : MethodDefinition) :
    (record.replaceMethod policy kind definition).1.categories =
      policy.replaceDecider kind definition record.categories := by
  cases policy with
  | lastApplied =>
    unfold replaceMethod CategoryConflictPolicy.replaceDecider
    rcases none_or_last (·.defines kind definition.sel) record.categories with
      hnone | ⟨front, decider, back, hsplit, hdecides, hback⟩
    · dsimp only
      rw [replaceLast_of_none _ hnone]
    · dsimp only
      rw [hsplit, replaceLast_append _ hback hdecides]
  | firstApplied =>
    unfold replaceMethod CategoryConflictPolicy.replaceDecider
    rcases none_or_first (·.defines kind definition.sel) record.categories with
      hnone | ⟨front, decider, back, hsplit, hdecides, hfront⟩
    · dsimp only
      rw [replaceFirst_of_none _ hnone]
    · dsimp only
      rw [hsplit, replaceFirst_append _ hfront hdecides]

/-! ### What is done with categories -/

/-- Something that is done with the categories of classes. -/
inductive CategoryChange where
  | applied (category : CategoryDefinition)
  | replaced (className : String) (kind : ClassKind) (definition : MethodDefinition)
  | removed (className : String)
  | cleared

namespace CategoryChange

/-- The class of some name is removed, or everything is. -/
def ends (name : String) : CategoryChange → Bool
  | removed className => className = name
  | cleared => true
  | _ => false

def appliedTo? (name : String) : CategoryChange → Option CategoryDefinition
  | applied category => if category.className = name then some category else none
  | _ => none

def replacedIn? (name : String) : CategoryChange → Option (ClassKind × MethodDefinition)
  | replaced className kind definition =>
    if className = name then some (kind, definition) else none
  | _ => none

/-- What was done since the class of some name was removed, or everything was, for the last time. -/
def since (name : String) (changes : List CategoryChange) : List CategoryChange :=
  changes.rtakeWhile fun change => !change.ends name

/-- What is held for the class of some name after a change. -/
def hold (policy : CategoryConflictPolicy) (name : String) (held : List CategoryDefinition) :
    CategoryChange → List CategoryDefinition
  | applied category => if category.className = name then category.merge held else held
  | replaced className kind definition =>
    if className = name then policy.replaceDecider kind definition held else held
  | removed className => if className = name then [] else held
  | cleared => []

def holdAll (policy : CategoryConflictPolicy) (name : String) (changes : List CategoryChange)
    (held : List CategoryDefinition) : List CategoryDefinition :=
  changes.foldl (hold policy name) held

theorem holdAll_append (policy : CategoryConflictPolicy) (name : String)
    (earlier later : List CategoryChange) (held : List CategoryDefinition) :
    holdAll policy name (earlier ++ later) held =
      holdAll policy name later (holdAll policy name earlier held) := List.foldl_append

end CategoryChange

/-- A category with some methods replaced, one after the other. -/
def CategoryDefinition.replaceEach (category : CategoryDefinition)
    (replacements : List (ClassKind × MethodDefinition)) : CategoryDefinition :=
  replacements.foldl (fun changed (kind, definition) => changed.replaceMethod kind definition)
    category

/-- The category is as it was applied last to the class of some name, but for methods that were
replaced since. -/
def CategoryDefinition.Stems (category : CategoryDefinition) (name : String)
    (changes : List CategoryChange) : Prop :=
  ∃ before applied after replacements, changes = before ++ .applied applied :: after ∧
    applied.className = name ∧ applied.name = category.name ∧
    (∀ other ∈ after.filterMap (·.appliedTo? name), other.name ≠ category.name) ∧
    replacements.Sublist (after.filterMap (·.replacedIn? name)) ∧
    category = applied.replaceEach replacements

/-- Categories are what is to be held for the class of some name after some changes. -/
structure Upholds (name : String) (changes : List CategoryChange)
    (held : List CategoryDefinition) : Prop where
  distinct : (held.map (·.name)).Nodup
  order : held.map (·.name) =
    ((changes.filterMap (·.appliedTo? name)).map (·.name)).eraseDups
  stems : ∀ category ∈ held, category.Stems name changes

namespace CategoryDefinition

variable {category : CategoryDefinition} {name : String} {changes : List CategoryChange}

theorem Stems.of_applied (hclass : category.className = name) :
    category.Stems name (changes ++ [.applied category]) :=
  ⟨changes, category, [], [], rfl, hclass, rfl, fun _ hother => absurd hother List.not_mem_nil,
    List.nil_sublist _, rfl⟩

/-- Other categories may be applied, and methods replaced elsewhere. -/
theorem Stems.later (stems : category.Stems name changes) {change : CategoryChange}
    (hother : ∀ other, change.appliedTo? name = some other → other.name ≠ category.name) :
    category.Stems name (changes ++ [change]) := by
  obtain ⟨before, applied, after, replacements, rfl, hclass, hname, hlatest, hsublist, heq⟩ :=
    stems
  refine ⟨before, applied, after ++ [change], replacements, ?_, hclass, hname, ?_, ?_, heq⟩
  · rw [List.append_assoc, List.cons_append]
  · intro other hmem
    rw [List.filterMap_append, List.mem_append] at hmem
    rcases hmem with hmem | hmem
    · exact hlatest other hmem
    · obtain ⟨own, hown, happlied⟩ := List.mem_filterMap.mp hmem
      rw [List.mem_singleton.mp hown] at happlied
      exact hother other happlied
  · rw [List.filterMap_append]
    exact hsublist.trans (List.sublist_append_left _ _)

theorem Stems.replaced (stems : category.Stems name changes) (kind : ClassKind)
    (definition : MethodDefinition) : (category.replaceMethod kind definition).Stems name
      (changes ++ [.replaced name kind definition]) := by
  obtain ⟨before, applied, after, replacements, rfl, hclass, hname, hlatest, hsublist, heq⟩ :=
    stems
  refine ⟨before, applied, after ++ [.replaced name kind definition],
    replacements ++ [(kind, definition)], ?_, hclass, hname, ?_, ?_, ?_⟩
  · rw [List.append_assoc, List.cons_append]
  · rw [List.filterMap_append]
    exact fun other hother => hlatest other ((List.append_nil _).subst hother)
  · rw [List.filterMap_append]
    refine hsublist.append ?_
    rw [List.filterMap_cons, CategoryChange.replacedIn?, if_pos rfl]
    exact .refl _
  · rw [heq, replaceEach, replaceEach, List.foldl_append]
    rfl

end CategoryDefinition

namespace Upholds

open CategoryChange

variable {name : String} {changes : List CategoryChange} {held : List CategoryDefinition}

theorem nil (name : String) : Upholds name [] [] where
  distinct := List.nodup_nil
  order := rfl
  stems _ hmem := nomatch hmem

theorem order_concat (upholds : Upholds name changes held) (change : CategoryChange) :
    (((changes ++ [change]).filterMap (·.appliedTo? name)).map (·.name)).eraseDups =
      match change.appliedTo? name with
      | none => held.map (·.name)
      | some category => if category.name ∈ held.map (·.name) then held.map (·.name)
        else held.map (·.name) ++ [category.name] := by
  rw [List.filterMap_append, List.map_append, List.eraseDups_append, ← upholds.order,
    List.filterMap_cons, List.filterMap_nil]
  cases change.appliedTo? name with
  | none => exact List.append_nil _
  | some category =>
    have hmem : category.name ∈ held.map (·.name) ↔
        category.name ∈ (changes.filterMap (·.appliedTo? name)).map (·.name) := by
      rw [upholds.order, List.mem_eraseDups]
    dsimp only
    split
    · next hold =>
      simp [List.removeAll, hmem.mp hold]
    · next hnew =>
      simp [List.removeAll, mt hmem.mpr hnew, List.eraseDups_cons]

/-- What concerns other classes makes no difference. -/
theorem other (upholds : Upholds name changes held) {change : CategoryChange}
    (hnone : change.appliedTo? name = none) : Upholds name (changes ++ [change]) held where
  distinct := upholds.distinct
  order := by rw [upholds.order_concat, hnone]
  stems category hcategory := (upholds.stems category hcategory).later fun other hother => by
    cases hnone.symm.trans hother

theorem applied (upholds : Upholds name changes held) {category : CategoryDefinition}
    (hclass : category.className = name) :
    Upholds name (changes ++ [.applied category]) (category.merge held) := by
  have happlied : (CategoryChange.applied category).appliedTo? name = some category := if_pos hclass
  have hlater : ∀ other ∈ held, other.name ≠ category.name →
      other.Stems name (changes ++ [CategoryChange.applied category]) := by
    intro other hother hne
    refine (upholds.stems other hother).later fun known hknown => ?_
    cases happlied.symm.trans hknown
    exact Ne.symm hne
  refine ⟨?_, ?_, ?_⟩
  · rw [category.names_merge]
    split
    · exact upholds.distinct
    · next hnew =>
      rw [← List.concat_eq_append]
      exact upholds.distinct.concat hnew
  · rw [upholds.order_concat, happlied, category.names_merge]
  · intro other hother
    rcases category.merge_cases held with
      ⟨hnew, hmerge⟩ | ⟨front, old, back, hsplit, hold, hfront, hmerge⟩
    · rw [hmerge, List.mem_append, List.mem_singleton] at hother
      rcases hother with hmem | rfl
      · exact hlater other hmem (hnew other hmem)
      · exact .of_applied hclass
    · have hdistinct := upholds.distinct
      rw [hsplit, List.map_append, List.map_cons, List.nodup_append] at hdistinct
      rw [hmerge, List.mem_append, List.mem_cons] at hother
      rcases hother with hmem | rfl | hmem
      · refine hlater other ?_ (hfront other hmem)
        rw [hsplit]
        exact List.mem_append_left _ hmem
      · exact .of_applied hclass
      · refine hlater other ?_ fun heq => ?_
        · rw [hsplit]
          exact List.mem_append_right _ (List.mem_cons_of_mem _ hmem)
        · exact (List.nodup_cons.mp hdistinct.2.1).1
            (List.mem_map.mpr ⟨other, hmem, heq.trans hold.symm⟩)

theorem replaced (upholds : Upholds name changes held) (policy : CategoryConflictPolicy)
    (kind : ClassKind) (definition : MethodDefinition) :
    Upholds name (changes ++ [.replaced name kind definition])
      (policy.replaceDecider kind definition held) := by
  have hother : Upholds name (changes ++ [.replaced name kind definition]) held :=
    upholds.other rfl
  rcases policy.replaceDecider_cases kind definition held with
    hsame | ⟨front, decider, back, rfl, hchanged⟩
  · rwa [hsame]
  · have hnames : (policy.replaceDecider kind definition (front ++ decider :: back)).map (·.name) =
        (front ++ decider :: back).map (·.name) := by
      rw [hchanged, List.map_append, List.map_append, List.map_cons, List.map_cons]
      rfl
    refine ⟨hnames ▸ hother.distinct, hnames.trans hother.order, ?_⟩
    intro category hcategory
    rw [hchanged, List.mem_append, List.mem_cons] at hcategory
    rcases hcategory with hmem | rfl | hmem
    · exact hother.stems category (List.mem_append_left _ hmem)
    · exact (upholds.stems decider (List.mem_append_right _ List.mem_cons_self)).replaced kind
        definition
    · exact hother.stems category (List.mem_append_right _ (List.mem_cons_of_mem _ hmem))

/-- One change leads to what is to be held after it. -/
theorem hold (upholds : Upholds name changes held) (policy : CategoryConflictPolicy)
    {change : CategoryChange} (hgoes : change.ends name = false) :
    Upholds name (changes ++ [change]) (change.hold policy name held) := by
  cases change with
  | applied category =>
    rw [CategoryChange.hold]
    split
    · next hclass => exact upholds.applied hclass
    · next hclass => exact upholds.other (if_neg hclass)
  | replaced className kind definition =>
    rw [CategoryChange.hold]
    split
    · next hclass =>
      subst hclass
      exact upholds.replaced policy kind definition
    · exact upholds.other rfl
  | removed className =>
    rw [CategoryChange.hold, if_neg (of_decide_eq_false hgoes)]
    exact upholds.other rfl
  | cleared => cases hgoes

end Upholds

/-- After all changes, what is held is what those since the last end are to lead to. -/
theorem CategoryChange.upholds_holdAll (policy : CategoryConflictPolicy) (name : String)
    (changes : List CategoryChange) :
    Upholds name (since name changes) (holdAll policy name changes []) := by
  -- a change that ends what is held starts the list anew, and any other adds to it
  induction changes using List.reverseRecOn with
  | nil => exact .nil name
  | append_singleton earlier change ih =>
    have hlast : holdAll policy name (earlier ++ [change]) [] =
        hold policy name (holdAll policy name earlier []) change := holdAll_append _ _ _ _ _
    rw [since, List.rtakeWhile_concat, hlast]
    cases hends : change.ends name with
    | false => exact ih.hold policy hends
    | true =>
      have hnone : hold policy name (holdAll policy name earlier []) change = [] := by
        cases change with
        | applied => cases hends
        | replaced => cases hends
        | removed className => exact if_pos (of_decide_eq_true hends)
        | cleared => rfl
      rw [hnone]
      exact .nil name

end LateBinding
