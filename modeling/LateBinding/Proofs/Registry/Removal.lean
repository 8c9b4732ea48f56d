import LateBinding.Proofs.Registry.Hierarchy

/-!
# Removing one class

Removing takes classes from a stack. The loose classes are those on the stack: a class whose
superclass is gone, or whose awaited name is no longer kept, goes on the stack along with those that
are on it already. So once the stack has no registered class any more nothing refers to a removed
class.
-/

namespace LateBinding

/-- What becomes of a class when some class below a superclass is taken out. -/
def Standing.afterTakeOut (standing : Standing) (id : ClassId) (superclass : Option ClassId)
    (self : ClassId) : Standing :=
  { standing with
    subclasses := if superclass = some self then standing.subclasses.filter (· ≠ id)
      else standing.subclasses }

theorem Standing.subclasses_afterTakeOut (standing : Standing) (id self : ClassId)
    (superclass : Option ClassId) : (standing.afterTakeOut id superclass self).subclasses =
      if superclass = some self then standing.subclasses.filter (· ≠ id)
      else standing.subclasses := rfl

namespace Registry

variable {registry : Registry} {loose : List ClassId}

/-- What a number owes that stands for no class is of no account. -/
theorem Consistent.widen {other : List ClassId} (consistent : registry.Consistent loose)
    (hsubset : ∀ id ∈ loose, registry.standing? id ≠ none → id ∈ other) :
    registry.Consistent other where
  names := consistent.names
  linked := by
    intro id standing superclass hid hlinked hother
    apply consistent.linked id standing superclass hid hlinked
    intro hloose
    exact hother (hsubset id hloose (by simp [hid]))
  ranked := consistent.ranked
  subclasses := consistent.subclasses
  subclassesNodup := consistent.subclassesNodup
  pending := by
    intro id standing hid hpending hother
    apply consistent.pending id standing hid hpending
    intro hloose
    exact hother (hsubset id hloose (by simp [hid]))
  waiter := consistent.waiter
  waitersNodup := consistent.waitersNodup
  waitingKept := consistent.waitingKept
  awake := consistent.awake
  heldBack := consistent.heldBack

/-- If no class is loose, any may be taken for loose. -/
theorem Consistent.loosen (consistent : registry.Consistent []) (other : List ClassId) :
    registry.Consistent other :=
  consistent.widen fun _ hid _ => absurd hid List.not_mem_nil

theorem Consistent.pass {id : ClassId} (consistent : registry.Consistent (id :: loose))
    (gone : registry.record? id = none) : registry.Consistent loose := by
  apply consistent.widen
  intro other hother hregistered
  rcases List.mem_cons.mp hother with rfl | hmem
  · rw [standing?, gone] at hregistered
    exact absurd rfl hregistered
  · exact hmem

theorem mem_filter_ne {id other : ClassId} {ids : List ClassId} :
    other ∈ ids.filter (· ≠ id) ↔ other ∈ ids ∧ other ≠ id := by
  rw [List.mem_filter, decide_eq_true_eq]

variable {id other : ClassId} {record : Record} {old new : Standing}

/-! ### The standings after a class is taken out -/

section

variable (hrecord : registry.record? id = some record)

include hrecord in
theorem standing?_of_takeOut (hnew : (registry.takeOut id record).standing? other = some new) :
    ∃ old, registry.standing? other = some old ∧ id ≠ other ∧
      old.afterTakeOut id record.superclass? other = new := by
  rw [registry.standing?_takeOut hrecord] at hnew
  split at hnew
  · cases hnew
  · next hne =>
    obtain ⟨old, hold, hnew⟩ := Option.map_eq_some_iff.mp hnew
    exact ⟨old, hold, hne, hnew⟩

include hrecord in
theorem standing?_takeOut_of (hold : registry.standing? other = some old) (hne : id ≠ other) :
    (registry.takeOut id record).standing? other =
      some (old.afterTakeOut id record.superclass? other) := by
  rw [registry.standing?_takeOut hrecord, if_neg hne, hold, Option.map_some]
  rfl

variable (consistent : registry.Consistent (id :: loose))

include hrecord consistent in
theorem names_takeOut (given : String) :
    (registry.takeOut id record).idOf? given = some other ↔
      ∃ new, (registry.takeOut id record).standing? other = some new ∧ new.name = given := by
  have hstanding := standing?_of_record hrecord
  rw [idOf?_takeOut]
  constructor
  · intro hname
    split at hname
    · cases hname
    · next hne =>
      obtain ⟨old, hold, hnameOld⟩ := (consistent.names given other).mp hname
      have hother : id ≠ other := by
        intro heq
        subst heq
        rw [hstanding] at hold
        cases hold
        exact hne hnameOld
      exact ⟨_, standing?_takeOut_of hrecord hold hother, hnameOld⟩
  · intro h
    obtain ⟨new, hnew, rfl⟩ := h
    obtain ⟨old, hold, hne, rfl⟩ := standing?_of_takeOut hrecord hnew
    have hnames : record.name ≠ old.name := by
      intro heq
      exact hne (consistent.id_unique hstanding hold heq)
    refine (if_neg hnames).trans ?_
    exact (consistent.names old.name other).mpr ⟨old, hold, rfl⟩

include hrecord consistent in
/-- What was linked below the class that is taken out follows it. -/
theorem linked_takeOut {above : Option ClassId}
    (hnew : (registry.takeOut id record).standing? other = some new)
    (hlinked : new.state = .linked above) (hnotBelow : other ∉ record.subclasses)
    (hnotLoose : other ∉ loose) : (registry.takeOut id record).Fits new above := by
  obtain ⟨old, hold, hne, rfl⟩ := standing?_of_takeOut hrecord hnew
  have hfits := consistent.linked other old above hold hlinked
    (List.not_mem_cons_of_ne_of_not_mem hne.symm hnotLoose)
  cases above with
  | none => exact hfits
  | some parent =>
    obtain ⟨upper, hupper, hupperLinked, hupperName⟩ := hfits
    have hparent : id ≠ parent := by
      intro heq
      subst heq
      have hbelow := (consistent.subclasses id _ other (standing?_of_record hrecord)).mpr
        ⟨old, hold, hlinked⟩
      exact hnotBelow hbelow
    exact ⟨_, standing?_takeOut_of hrecord hupper hparent, hupperLinked, hupperName⟩

include hrecord consistent in
/-- The class that is taken out is struck from the subclasses of its superclass. -/
theorem mem_subclasses_afterTakeOut {child : ClassId}
    (hold : registry.standing? other = some old) :
    child ∈ (old.afterTakeOut id record.superclass? other).subclasses ↔
      child ∈ old.subclasses ∧ child ≠ id := by
  rw [Standing.subclasses_afterTakeOut]
  split
  · exact mem_filter_ne
  · next hsuper =>
    constructor
    · intro hchild
      refine ⟨hchild, ?_⟩
      intro heq
      subst heq
      obtain ⟨lower, hlower, hlinked⟩ := (consistent.subclasses other old child hold).mp hchild
      rw [standing?_of_record hrecord] at hlower
      cases hlower
      exact hsuper ((record.superclass?_eq_some_iff other).mpr hlinked)
    · exact And.left

include hrecord consistent in
theorem subclasses_takeOut {child : ClassId}
    (hnew : (registry.takeOut id record).standing? other = some new) :
    child ∈ new.subclasses ↔
      ∃ lower, (registry.takeOut id record).standing? child = some lower ∧
        lower.state = .linked (some other) := by
  obtain ⟨old, hold, -, rfl⟩ := standing?_of_takeOut hrecord hnew
  rw [mem_subclasses_afterTakeOut hrecord consistent hold,
    consistent.subclasses other old child hold]
  constructor
  · intro h
    obtain ⟨⟨lower, hlower, hlinked⟩, hchild⟩ := h
    exact ⟨_, standing?_takeOut_of hrecord hlower hchild.symm, hlinked⟩
  · intro h
    obtain ⟨lower, hlower, hlinked⟩ := h
    obtain ⟨old', hold', hchild, rfl⟩ := standing?_of_takeOut hrecord hlower
    exact ⟨⟨old', hold', hlinked⟩, hchild.symm⟩

include hrecord consistent in
/-- What waited for the class that is taken out follows it. -/
theorem pending_takeOut (hnew : (registry.takeOut id record).standing? other = some new)
    (hpending : new.state = .pending) (hnotWaits : other ∉ registry.waitersOf record.name)
    (hnotLoose : other ∉ loose) :
    ∃ awaited, new.superclassName = some awaited ∧
      other ∈ (registry.takeOut id record).waitersOf awaited := by
  obtain ⟨old, hold, hne, rfl⟩ := standing?_of_takeOut hrecord hnew
  obtain ⟨awaited, hname, hwaits⟩ := consistent.pending other old hold hpending
    (List.not_mem_cons_of_ne_of_not_mem hne.symm hnotLoose)
  have hawaitedNe : record.name ≠ awaited := by
    intro heq
    subst heq
    exact hnotWaits hwaits
  refine ⟨awaited, hname, ?_⟩
  rw [waitersOf_takeOut, if_neg hawaitedNe]
  split
  · exact mem_filter_ne.mpr ⟨hwaits, hne.symm⟩
  · exact hwaits

include hrecord consistent in
theorem mem_waitersOf_takeOut {awaited : String}
    (hwaits : other ∈ (registry.takeOut id record).waitersOf awaited) :
    other ∈ registry.waitersOf awaited ∧ id ≠ other := by
  rw [waitersOf_takeOut] at hwaits
  split at hwaits
  · cases hwaits
  · split at hwaits
    · obtain ⟨hmem, hne⟩ := mem_filter_ne.mp hwaits
      exact ⟨hmem, hne.symm⟩
    · next hnot =>
      refine ⟨hwaits, ?_⟩
      intro heq
      subst heq
      obtain ⟨old, hold, hpending, hname⟩ := consistent.waiter awaited id hwaits
      rw [standing?_of_record hrecord] at hold
      cases hold
      refine hnot ⟨?_, hname⟩
      cases hsuper : record.superclass? with
      | none => rfl
      | some parent =>
        rw [(record.superclass?_eq_some_iff parent).mp hsuper] at hpending
        cases hpending

end

/-- A class is taken out, and the classes that go with it become loose. -/
theorem Consistent.takeOut (consistent : registry.Consistent (id :: loose))
    (hrecord : registry.record? id = some record) :
    (registry.takeOut id record).Consistent ((registry.followers record).reverse ++ loose) := by
  have hloose : ∀ other, other ∉ (registry.followers record).reverse ++ loose →
      other ∉ record.subclasses ∧ other ∉ registry.waitersOf record.name ∧ other ∉ loose := by
    intro other hother
    simp only [followers, List.mem_append, List.mem_reverse, not_or] at hother
    exact ⟨hother.1.1, hother.1.2, hother.2⟩
  constructor
  case names => exact fun given other => names_takeOut hrecord consistent given
  case linked =>
    intro other new above hnew hlinked hother
    obtain ⟨hnotBelow, -, hnotLoose⟩ := hloose other hother
    exact linked_takeOut hrecord consistent hnew hlinked hnotBelow hnotLoose
  case ranked =>
    obtain ⟨rank, hrank⟩ := consistent.ranked
    refine ⟨rank, ?_⟩
    intro other new parent hnew hlinked
    obtain ⟨old, hold, -, rfl⟩ := standing?_of_takeOut hrecord hnew
    exact hrank other old parent hold hlinked
  case subclasses =>
    intro other new child hnew
    exact subclasses_takeOut hrecord consistent hnew
  case subclassesNodup =>
    intro other new hnew
    obtain ⟨old, hold, -, rfl⟩ := standing?_of_takeOut hrecord hnew
    have hnodup := consistent.subclassesNodup other old hold
    rw [Standing.subclasses_afterTakeOut]
    split
    · exact hnodup.filter _
    · exact hnodup
  case pending =>
    intro other new hnew hpending hother
    obtain ⟨-, hnotWaits, hnotLoose⟩ := hloose other hother
    exact pending_takeOut hrecord consistent hnew hpending hnotWaits hnotLoose
  case waiter =>
    intro awaited other hwaits
    obtain ⟨hwaited, hne⟩ := mem_waitersOf_takeOut hrecord consistent hwaits
    obtain ⟨old, hold, hpending, hname⟩ := consistent.waiter awaited other hwaited
    exact ⟨_, standing?_takeOut_of hrecord hold hne, hpending, hname⟩
  case waitersNodup =>
    intro awaited
    rw [waitersOf_takeOut]
    split
    · exact List.nodup_nil
    · split
      · exact (consistent.waitersNodup awaited).filter _
      · exact consistent.waitersNodup awaited
  case waitingKept =>
    intro awaited
    rw [waiting_takeOut]
    split
    · simp
    · split
      · intro hempty
        have hnot := (Option.filter_eq_some_iff.mp hempty).2
        simp at hnot
      · exact consistent.waitingKept awaited
  case awake =>
    intro other new hnew hlinked
    obtain ⟨old, hold, -, rfl⟩ := standing?_of_takeOut hrecord hnew
    have hnone := consistent.awake other old hold hlinked
    have hsame : (old.afterTakeOut id record.superclass? other).name = old.name := rfl
    rw [waitersOf_takeOut, hsame, hnone, List.filter_nil, ite_self, ite_self]
  case heldBack =>
    intro name hname
    rw [idOf?_takeOut] at hname
    split at hname
    · exact absurd rfl hname
    · rw [heldBack_takeOut]
      exact consistent.heldBack name hname

end Registry

end LateBinding
