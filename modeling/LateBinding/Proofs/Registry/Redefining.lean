import LateBinding.Proofs.Registry.Definitions

/-!
# One definition is changed

What a class itself implements a selector by is found by going through the lists of its categories,
from the strongest to the weakest, and then its own list. Replacing a method changes the definition
that is found in this way, and adding one makes the only definition that there is. Whatever else the
class implements stays as it is.
-/

namespace LateBinding

/-! ### Changing the first or the last element that passes a test -/

section

variable {α : Type} {test : α → Bool} {front back list : List α} {hit : α}

theorem replaceFirst_of_none (change : α → α) (hnone : ∀ item ∈ list, test item = false) :
    replaceFirst test change list = (list, none) := by
  induction list with
  | nil => rfl
  | cons head rest ih =>
    have hhead := hnone head List.mem_cons_self
    rw [replaceFirst, hhead, ih fun item hitem => hnone item (List.mem_cons_of_mem _ hitem)]
    rfl

theorem replaceFirst_append (change : α → α) (hfront : ∀ item ∈ front, test item = false)
    (hhit : test hit = true) :
    replaceFirst test change (front ++ hit :: back) = (front ++ change hit :: back, some hit) := by
  induction front with
  | nil => rw [List.nil_append, replaceFirst, if_pos hhit, List.nil_append]
  | cons head rest ih =>
    have hhead := hfront head List.mem_cons_self
    rw [List.cons_append, replaceFirst, hhead,
      ih fun item hitem => hfront item (List.mem_cons_of_mem _ hitem)]
    rfl

theorem replaceLast_of_none (change : α → α) (hnone : ∀ item ∈ list, test item = false) :
    replaceLast test change list = (list, none) := by
  induction list with
  | nil => rfl
  | cons head rest ih =>
    have hhead := hnone head List.mem_cons_self
    rw [replaceLast, ih fun item hitem => hnone item (List.mem_cons_of_mem _ hitem)]
    dsimp only
    rw [hhead]
    rfl

theorem replaceLast_append (change : α → α) (hback : ∀ item ∈ back, test item = false)
    (hhit : test hit = true) :
    replaceLast test change (front ++ hit :: back) = (front ++ change hit :: back, some hit) := by
  induction front with
  | nil =>
    rw [List.nil_append, replaceLast, replaceLast_of_none change hback]
    exact if_pos hhit
  | cons head rest ih => rw [List.cons_append, replaceLast, ih, List.cons_append]

/-- Either no element passes a test, or there is a last one that does. -/
theorem none_or_last (test : α → Bool) (list : List α) : (∀ item ∈ list, test item = false) ∨
    ∃ front hit back, list = front ++ hit :: back ∧ test hit = true ∧
      ∀ item ∈ back, test item = false := by
  cases hfound : list.reverse.find? test with
  | none =>
    refine .inl fun item hitem => ?_
    have hnot := List.find?_eq_none.mp hfound item (List.mem_reverse.mpr hitem)
    simpa using hnot
  | some hit =>
    obtain ⟨hhit, later, earlier, hlist, hlater⟩ := List.find?_eq_some_iff_append.mp hfound
    refine .inr ⟨earlier.reverse, hit, later.reverse, ?_, hhit, ?_⟩
    · rw [← List.reverse_reverse list, hlist, List.reverse_append, List.reverse_cons,
        List.append_assoc, List.singleton_append]
    · intro item hitem
      simpa using hlater item (List.mem_reverse.mp hitem)

theorem none_or_first (test : α → Bool) (list : List α) : (∀ item ∈ list, test item = false) ∨
    ∃ front hit back, list = front ++ hit :: back ∧ test hit = true ∧
      ∀ item ∈ front, test item = false := by
  cases hfound : list.find? test with
  | none =>
    refine .inl fun item hitem => ?_
    simpa using List.find?_eq_none.mp hfound item hitem
  | some hit =>
    obtain ⟨hhit, front, back, hlist, hfront⟩ := List.find?_eq_some_iff_append.mp hfound
    refine .inr ⟨front, hit, back, hlist, hhit, fun item hitem => ?_⟩
    simpa using hfront item hitem

end

/-! ### One list of methods -/

theorem lastImp?_nil (sel : Sel) : lastImp? [] sel = none := rfl

theorem lastImp?_append (methods rest : List MethodDefinition) (sel : Sel) :
    lastImp? (methods ++ rest) sel = (lastImp? rest sel).or (lastImp? methods sel) := by
  induction methods with
  | nil => rw [List.nil_append, lastImp?_nil, Option.or_none]
  | cons method others ih =>
    rw [List.cons_append, lastImp?_cons, ih, lastImp?_cons, Option.or_assoc]

theorem lastImp?_eq_none {methods : List MethodDefinition} {sel : Sel}
    (hnone : definesSel methods sel = false) : lastImp? methods sel = none := by
  rwa [← Option.not_isSome_iff_eq_none, lastImp?_isSome, Bool.not_eq_true]

/-- A list implements the selector by what is given, and all others by what it did before. -/
theorem lastImp?_replaceIn (methods : List MethodDefinition) (definition : MethodDefinition) :
    (replaceIn methods definition).2 = lastImp? methods definition.sel ∧
      ∀ sel, lastImp? (replaceIn methods definition).1 sel =
        if definition.sel = sel then some definition.imp else lastImp? methods sel := by
  rcases none_or_last (fun method : MethodDefinition => method.sel = definition.sel) methods with
    hnone | ⟨front, old, back, rfl, hold, hback⟩
  · have hundefined : lastImp? methods definition.sel = none := by
      apply lastImp?_eq_none
      rw [definesSel, List.any_eq_false]
      intro method hmethod
      simpa using hnone method hmethod
    rw [replaceIn, replaceLast_of_none _ hnone]
    dsimp only
    refine ⟨hundefined.symm, fun sel => ?_⟩
    rw [lastImp?_append, lastImp?_cons, lastImp?_nil, Option.none_or]
    split <;> rfl
  · have hsel : old.sel = definition.sel := of_decide_eq_true hold
    have hundefined : lastImp? back definition.sel = none := by
      apply lastImp?_eq_none
      rw [definesSel, List.any_eq_false]
      intro method hmethod
      simpa using hback method hmethod
    rw [replaceIn, replaceLast_append _ hback hold]
    dsimp only
    constructor
    · rw [lastImp?_append, lastImp?_cons, hundefined, Option.none_or, if_pos hsel, Option.some_or]
    · intro sel
      rw [lastImp?_append, lastImp?_append, lastImp?_cons, lastImp?_cons]
      dsimp only
      by_cases hself : definition.sel = sel
      · subst hself
        rw [if_pos rfl, if_pos hsel, hundefined]
        rfl
      · simp only [if_neg hself, if_neg (hsel ▸ hself : ¬ old.sel = sel)]

/-! ### The definitions of a class -/

namespace Record

variable {record new : Record} {policy : CategoryConflictPolicy} {kind : ClassKind} {sel : Sel}

/-- The categories of a class from the strongest to the weakest. -/
def byStrength (record : Record) : CategoryConflictPolicy → List CategoryDefinition
  | .lastApplied => record.categories.reverse
  | .firstApplied => record.categories

theorem mem_byStrength (record : Record) (policy : CategoryConflictPolicy)
    (category : CategoryDefinition) :
    category ∈ record.byStrength policy ↔ category ∈ record.categories := by
  cases policy with
  | lastApplied => exact List.mem_reverse
  | firstApplied => exact Iff.rfl

theorem strongest?_eq (record : Record) (policy : CategoryConflictPolicy) (kind : ClassKind)
    (sel : Sel) : record.strongest? policy kind sel =
      (record.byStrength policy).find? (·.defines kind sel) := by
  cases policy with
  | lastApplied => exact List.findRev?_eq_find?_reverse
  | firstApplied => rfl

/-- The first category that implements a selector decides, else the class's own list does. -/
theorem implementation?_eq (record : Record) (policy : CategoryConflictPolicy) (kind : ClassKind)
    (sel : Sel) : record.implementation? policy kind sel =
      ((record.byStrength policy).findSome? fun category =>
        lastImp? (category.methods.get kind) sel).or (lastImp? (record.methods.get kind) sel) := by
  rw [findSome?_lastImp?, implementation?, strongest?_eq]
  cases hfound : (record.byStrength policy).find? (·.defines kind sel) with
  | none => rfl
  | some category =>
    have hdefines := List.find?_some hfound
    rw [CategoryDefinition.defines, ← lastImp?_isSome] at hdefines
    obtain ⟨imp, himp⟩ := Option.isSome_iff_exists.mp hdefines
    simp only [Option.bind_some, himp, Option.some_or]

theorem implementation?_isSome (record : Record) (policy : CategoryConflictPolicy)
    (kind : ClassKind) (sel : Sel) :
    (record.implementation? policy kind sel).isSome = record.defines kind sel := by
  rw [implementation?_eq, Option.isSome_or, lastImp?_isSome, defines, Bool.or_comm]
  congr 1
  rw [Bool.eq_iff_iff, List.findSome?_isSome_iff, List.any_eq_true]
  simp only [mem_byStrength, lastImp?_isSome, CategoryDefinition.defines]

/-- A class implements one selector of one side by what is given, and all else by what it did. -/
structure Redefines (old new : Record) (policy : CategoryConflictPolicy) (kind : ClassKind)
    (sel : Sel) (imp : Imp) : Prop where
  pair : new.pair = old.pair
  standing : new.standing = old.standing
  protocols : new.protocols = old.protocols
  implementation : ∀ side other, new.implementation? policy side other =
    if kind = side ∧ sel = other then some imp else old.implementation? policy side other

/-- A method is replaced in the deciding category, or in the class's own list if there is none. -/
theorem replaceMethod_split (record : Record) (policy : CategoryConflictPolicy) (kind : ClassKind)
    (definition : MethodDefinition) :
    ((∀ category ∈ record.byStrength policy, category.defines kind definition.sel = false) ∧
        record.replaceMethod policy kind definition =
          ({ record with
              methods := record.methods.set kind
                (replaceIn (record.methods.get kind) definition).1 },
            (replaceIn (record.methods.get kind) definition).2)) ∨
      ∃ stronger decider weaker categories,
        record.byStrength policy = stronger ++ decider :: weaker ∧
        decider.defines kind definition.sel = true ∧
        (∀ category ∈ stronger, category.defines kind definition.sel = false) ∧
        { record with categories }.byStrength policy =
          stronger ++ decider.replaceMethod kind definition :: weaker ∧
        record.replaceMethod policy kind definition =
          ({ record with categories }, (replaceIn (decider.methods.get kind) definition).2) := by
  cases policy with
  | lastApplied =>
    rcases none_or_last (·.defines kind definition.sel) record.categories with
      hnone | ⟨front, decider, back, hsplit, hdecides, hback⟩
    · refine .inl ⟨fun category hcategory => hnone category (List.mem_reverse.mp hcategory), ?_⟩
      rw [replaceMethod]
      dsimp only
      rw [replaceLast_of_none _ hnone]
    · refine .inr ⟨back.reverse, decider, front.reverse,
        front ++ decider.replaceMethod kind definition :: back, ?_, hdecides,
        fun category hcategory => hback category (List.mem_reverse.mp hcategory), ?_, ?_⟩
      · rw [byStrength, hsplit]
        simp only [List.reverse_append, List.reverse_cons, List.append_assoc, List.singleton_append]
      · rw [byStrength]
        simp only [List.reverse_append, List.reverse_cons, List.append_assoc, List.singleton_append]
      · rw [replaceMethod, hsplit]
        dsimp only
        rw [replaceLast_append _ hback hdecides]
  | firstApplied =>
    rcases none_or_first (·.defines kind definition.sel) record.categories with
      hnone | ⟨front, decider, back, hsplit, hdecides, hfront⟩
    · refine .inl ⟨hnone, ?_⟩
      rw [replaceMethod]
      dsimp only
      rw [replaceFirst_of_none _ hnone]
    · refine .inr ⟨front, decider, back, front ++ decider.replaceMethod kind definition :: back,
        hsplit, hdecides, hfront, rfl, ?_⟩
      rw [replaceMethod, hsplit]
      dsimp only
      rw [replaceFirst_append _ hfront hdecides]

/-- Where no category decides, the class's own list does. -/
theorem implementation?_of_none (hnone : ∀ category ∈ record.byStrength policy,
    category.defines kind sel = false) :
    record.implementation? policy kind sel = lastImp? (record.methods.get kind) sel := by
  rw [implementation?, strongest?_eq, List.find?_eq_none.mpr]
  intro category hcategory
  rw [hnone category hcategory]
  exact Bool.false_ne_true

theorem implementation?_of_decider {stronger weaker : List CategoryDefinition}
    {decider : CategoryDefinition} (hsplit : record.byStrength policy = stronger ++ decider :: weaker)
    (hdecides : decider.defines kind sel = true)
    (hstronger : ∀ category ∈ stronger, category.defines kind sel = false) :
    record.implementation? policy kind sel = lastImp? (decider.methods.get kind) sel := by
  rw [implementation?, strongest?_eq, hsplit, List.find?_append, List.find?_cons, hdecides,
    List.find?_eq_none.mpr fun category hcategory => by rw [hstronger category hcategory]; nofun]
  rfl

/-- Where no category decides, a change of the class's own list is what counts. -/
theorem redefines_own {methods : List MethodDefinition} {imp : Imp}
    (hnone : ∀ category ∈ record.byStrength policy, category.defines kind sel = false)
    (hmethods : ∀ other, lastImp? methods other =
      if sel = other then some imp else lastImp? (record.methods.get kind) other) :
    record.Redefines { record with methods := record.methods.set kind methods } policy kind sel
      imp where
  pair := rfl
  standing := rfl
  protocols := rfl
  implementation side other := by
    by_cases hself : kind = side ∧ sel = other
    · obtain ⟨rfl, rfl⟩ := hself
      have hafter : ∀ category ∈ ({ record with methods := record.methods.set kind methods } :
          Record).byStrength policy, category.defines kind sel = false := hnone
      rw [implementation?_of_none hafter, Sided.get_set, if_pos rfl, if_pos ⟨rfl, rfl⟩, hmethods,
        if_pos rfl]
    · rw [if_neg hself, implementation?_eq, implementation?_eq, Sided.get_set]
      congr 1
      by_cases hkind : kind = side
      · rw [if_pos hkind, hmethods, if_neg fun hsel => hself ⟨hkind, hsel⟩, hkind]
      · rw [if_neg hkind]

/-- Where a category decides, a change of it is what counts. -/
theorem redefines_decider {stronger weaker categories : List CategoryDefinition}
    {decider changed : CategoryDefinition} {imp : Imp}
    (hsplit : record.byStrength policy = stronger ++ decider :: weaker)
    (hafter : { record with categories }.byStrength policy = stronger ++ changed :: weaker)
    (hstronger : ∀ category ∈ stronger, category.defines kind sel = false)
    (hmethods : ∀ side other, lastImp? (changed.methods.get side) other =
      if kind = side ∧ sel = other then some imp else lastImp? (decider.methods.get side) other) :
    record.Redefines { record with categories } policy kind sel imp where
  pair := rfl
  standing := rfl
  protocols := rfl
  implementation side other := by
    have hlist := hmethods side other
    rw [implementation?_eq, hafter, List.findSome?_append, List.findSome?_cons]
    by_cases hself : kind = side ∧ sel = other
    · obtain ⟨rfl, rfl⟩ := hself
      rw [if_pos ⟨rfl, rfl⟩] at hlist ⊢
      rw [hlist, List.findSome?_eq_none_iff.mpr fun category hcategory =>
        lastImp?_eq_none (hstronger category hcategory)]
      rfl
    · rw [if_neg hself] at hlist ⊢
      rw [hlist, implementation?_eq, hsplit, List.findSome?_append, List.findSome?_cons]

/-- The implementation that is replaced is the one that counted. -/
theorem redefines_replaceMethod (record : Record) (policy : CategoryConflictPolicy)
    (kind : ClassKind) (definition : MethodDefinition) :
    (record.replaceMethod policy kind definition).2 =
        record.implementation? policy kind definition.sel ∧
      record.Redefines (record.replaceMethod policy kind definition).1 policy kind definition.sel
        definition.imp := by
  rcases record.replaceMethod_split policy kind definition with ⟨hnone, heq⟩ |
    ⟨stronger, decider, weaker, categories, hsplit, hdecides, hstronger, hafter, heq⟩
  · obtain ⟨hold, hnew⟩ := lastImp?_replaceIn (record.methods.get kind) definition
    rw [heq]
    exact ⟨hold.trans (implementation?_of_none hnone).symm, redefines_own hnone hnew⟩
  · obtain ⟨hold, hnew⟩ := lastImp?_replaceIn (decider.methods.get kind) definition
    rw [heq]
    refine ⟨hold.trans (implementation?_of_decider hsplit hdecides hstronger).symm,
      redefines_decider hsplit hafter hstronger ?_⟩
    intro side other
    rw [CategoryDefinition.replaceMethod, Sided.get_set]
    by_cases hkind : kind = side
    · subst hkind
      rw [if_pos rfl, hnew]
      simp only [true_and]
    · simp only [hkind, if_false, false_and]

theorem redefines_add (policy : CategoryConflictPolicy) (kind : ClassKind)
    (definition : MethodDefinition) (hundefined : record.defines kind definition.sel = false) :
    record.Redefines
      { record with methods := record.methods.set kind (record.methods.get kind ++ [definition]) }
      policy kind definition.sel definition.imp := by
  rw [defines, Bool.or_eq_false_iff, List.any_eq_false] at hundefined
  obtain ⟨-, hcategories⟩ := hundefined
  apply redefines_own
  · intro category hcategory
    simpa using hcategories category ((record.mem_byStrength policy category).mp hcategory)
  · intro other
    rw [lastImp?_append, lastImp?_cons, lastImp?_nil, Option.none_or]
    split <;> rfl

end Record

end LateBinding
