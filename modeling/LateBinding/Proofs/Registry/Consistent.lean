import LateBinding.Proofs.Registry.Lookup

/-!
# Consistent registries

The maps of a registry and the links between its records say the same thing in several places. A
registry is *consistent* if they agree. While classes are linked or removed one by one, some classes
are *loose*: what has to hold of their own place is still owed. A registry at rest has no loose
classes.
-/

namespace LateBinding

/-- Where a class stands: all of a record that linking and removing look at. -/
structure Standing where
  name : String
  superclassName : Option String
  state : LinkState
  subclasses : List ClassId

def Record.standing (record : Record) : Standing :=
  ⟨record.name, record.superclassName, record.state, record.subclasses⟩

def Standing.isLinked (standing : Standing) : Prop := standing.state ≠ .pending

theorem Standing.isLinked_of_linked {standing : Standing} {superclass : Option ClassId}
    (hlinked : standing.state = .linked superclass) : standing.isLinked := by
  rw [Standing.isLinked, hlinked]
  exact LinkState.noConfusion

namespace Registry

def standing? (registry : Registry) (id : ClassId) : Option Standing :=
  (registry.record? id).map Record.standing

/-- A class with some standing has a linked superclass of the awaited name, or awaits none. -/
def Fits (registry : Registry) (standing : Standing) : Option ClassId → Prop
  | none => standing.superclassName = none
  | some parent => ∃ above, registry.standing? parent = some above ∧ above.isLinked ∧
      standing.superclassName = some above.name

/-- The maps and the links between the records agree, but for what the loose classes owe. -/
structure Consistent (registry : Registry) (loose : List ClassId) : Prop where
  names : ∀ name id, registry.idOf? name = some id ↔
    ∃ standing, registry.standing? id = some standing ∧ standing.name = name
  linked : ∀ id standing superclass, registry.standing? id = some standing →
    standing.state = .linked superclass → id ∉ loose → registry.Fits standing superclass
  ranked : ∃ rank : ClassId → Nat, ∀ id standing parent, registry.standing? id = some standing →
    standing.state = .linked (some parent) → rank parent < rank id
  subclasses : ∀ id standing child, registry.standing? id = some standing →
    (child ∈ standing.subclasses ↔
      ∃ lower, registry.standing? child = some lower ∧ lower.state = .linked (some id))
  subclassesNodup : ∀ id standing, registry.standing? id = some standing →
    standing.subclasses.Nodup
  pending : ∀ id standing, registry.standing? id = some standing → standing.state = .pending →
    id ∉ loose → ∃ awaited, standing.superclassName = some awaited ∧
      id ∈ registry.waitersOf awaited
  waiter : ∀ awaited id, id ∈ registry.waitersOf awaited →
    ∃ standing, registry.standing? id = some standing ∧ standing.state = .pending ∧
      standing.superclassName = some awaited
  waitersNodup : ∀ awaited, (registry.waitersOf awaited).Nodup
  waitingKept : ∀ awaited : String, registry.waiting[awaited]? ≠ some []
  awake : ∀ id standing, registry.standing? id = some standing → standing.isLinked →
    registry.waitersOf standing.name = []
  heldBack : ∀ name : String, registry.idOf? name ≠ none → registry.heldBack[name]? = none

/-! ### What a class stands as after a change -/

theorem standing?_of_record {registry : Registry} {id : ClassId} {record : Record}
    (hrecord : registry.record? id = some record) :
    registry.standing? id = some record.standing := by
  rw [standing?, hrecord, Option.map_some]

variable (registry : Registry)

theorem standing?_addRecord (record : Record) (id : ClassId) :
    (registry.addRecord record).standing? id =
      if registry.nextId = id then some record.standing else registry.standing? id := by
  simp only [standing?, record?_addRecord]
  split <;> rfl

@[simp] theorem standing?_nextId : registry.standing? registry.nextId = none := by
  simp [standing?]

theorem standing?_setRecord {id : ClassId} {old new : Record}
    (hold : registry.record? id = some old) (hnew : new.standing = old.standing) :
    (registry.setRecord id (some new)).standing? = registry.standing? := by
  funext other
  simp only [standing?, registry.record?_setRecord hold]
  split
  · next heq => rw [← heq, hold, Option.map_some, Option.map_some, hnew]
  · rfl

theorem standing?_markLinked {id : ClassId} {superclass : Option ClassId}
    (hother : superclass ≠ some id) (other : ClassId) :
    (registry.markLinked id superclass).standing? other =
      (registry.standing? other).map fun standing =>
        { standing with
          state := if id = other then .linked superclass else standing.state
          subclasses := if superclass = some other then standing.subclasses ++ [id]
            else standing.subclasses } := by
  simp only [standing?, registry.record?_markLinked hother]
  by_cases hid : id = other
  · subst hid
    rw [if_pos rfl, Option.map_map, Option.map_map]
    simp only [if_neg hother, if_true]
    rfl
  · simp only [if_neg hid]
    split
    · rw [Option.map_map, Option.map_map]
      rfl
    · rw [Option.map_map]
      rfl

theorem standing?_takeOut {id : ClassId} {record : Record}
    (hrecord : registry.record? id = some record) (other : ClassId) :
    (registry.takeOut id record).standing? other =
      if id = other then none
      else (registry.standing? other).map fun standing =>
        { standing with
          subclasses := if record.superclass? = some other then
            standing.subclasses.filter (· ≠ id) else standing.subclasses } := by
  simp only [standing?, registry.record?_takeOut hrecord]
  split
  · rfl
  · split
    · rw [Option.map_map, Option.map_map]
      rfl
    · rw [Option.map_map]
      rfl

section

variable {registry : Registry} {record : Record} {id : ClassId} {old new : Standing}

theorem standing?_of_addRecord (hnew : (registry.addRecord record).standing? id = some new) :
    id = registry.nextId ∧ new = record.standing ∨
      id ≠ registry.nextId ∧ registry.standing? id = some new := by
  rw [standing?_addRecord] at hnew
  split at hnew
  · next heq => exact .inl ⟨heq.symm, (Option.some.inj hnew).symm⟩
  · next hne => exact .inr ⟨fun heq => hne heq.symm, hnew⟩

theorem standing?_addRecord_of (hold : registry.standing? id = some old) :
    (registry.addRecord record).standing? id = some old := by
  have hne : registry.nextId ≠ id := by
    intro heq
    subst heq
    rw [standing?_nextId] at hold
    cases hold
  rw [standing?_addRecord, if_neg hne, hold]

theorem standing?_of_linked_addRecord (hstate : record.state = .pending)
    (hnew : (registry.addRecord record).standing? id = some new) (hlinked : new.isLinked) :
    registry.standing? id = some new := by
  rcases standing?_of_addRecord hnew with ⟨-, rfl⟩ | ⟨-, hold⟩
  · exact absurd hstate hlinked
  · exact hold

end

namespace Consistent

variable {registry : Registry} {loose : List ClassId}

/-- Whatever changes neither standings nor maps keeps a registry consistent. -/
theorem transfer {changed : Registry} (consistent : registry.Consistent loose)
    (hstanding : changed.standing? = registry.standing?) (hnames : changed.idOf? = registry.idOf?)
    (hwaiting : changed.waiting = registry.waiting)
    (hheld : changed.heldBack = registry.heldBack) : changed.Consistent loose := by
  have hwaiters : changed.waitersOf = registry.waitersOf := by
    funext name
    simp only [waitersOf, hwaiting]
  constructor
  · rw [hnames, hstanding]; exact consistent.names
  · intro id standing superclass
    rw [hstanding]
    intro hid hstate hloose
    have hfits := consistent.linked id standing superclass hid hstate hloose
    cases superclass with
    | none => exact hfits
    | some parent =>
      rw [Fits, hstanding]
      exact hfits
  · rw [hstanding]; exact consistent.ranked
  · rw [hstanding]; exact consistent.subclasses
  · rw [hstanding]; exact consistent.subclassesNodup
  · rw [hstanding, hwaiters]; exact consistent.pending
  · rw [hstanding, hwaiters]; exact consistent.waiter
  · rw [hwaiters]; exact consistent.waitersNodup
  · rw [hwaiting]; exact consistent.waitingKept
  · rw [hstanding, hwaiters]; exact consistent.awake
  · rw [hnames, hheld]; exact consistent.heldBack

theorem empty (policy : CategoryConflictPolicy) : (Registry.empty policy).Consistent [] := by
  have hnone : ∀ id, (Registry.empty policy).standing? id = none := by
    intro id
    rfl
  have hname : ∀ name, (Registry.empty policy).idOf? name = none := by
    intro name
    simp [idOf?, Registry.empty]
  have hwaiters : ∀ name, (Registry.empty policy).waitersOf name = [] := by
    intro name
    simp [waitersOf, Registry.empty]
  constructor
  all_goals simp [hnone, hname, hwaiters]
  simp [Registry.empty]

theorem id_unique (consistent : registry.Consistent loose) {id other : ClassId}
    {standing another : Standing} (hid : registry.standing? id = some standing)
    (hother : registry.standing? other = some another) (hname : standing.name = another.name) :
    id = other := by
  have hfirst := (consistent.names standing.name id).mpr ⟨standing, hid, rfl⟩
  have hsecond := (consistent.names another.name other).mpr ⟨another, hother, rfl⟩
  rw [hname, hsecond] at hfirst
  exact (Option.some.inj hfirst).symm

theorem awaited_unique (consistent : registry.Consistent loose) {id : ClassId}
    {awaited another : String} (hfirst : id ∈ registry.waitersOf awaited)
    (hsecond : id ∈ registry.waitersOf another) : awaited = another := by
  obtain ⟨standing, hstanding, -, hawaited⟩ := consistent.waiter awaited id hfirst
  obtain ⟨standing', hstanding', -, hanother⟩ := consistent.waiter another id hsecond
  rw [hstanding] at hstanding'
  cases Option.some.inj hstanding'
  rw [hawaited] at hanother
  exact Option.some.inj hanother

/-! ### Changes of the maps -/

theorem holdBack (consistent : registry.Consistent loose) {category : CategoryDefinition}
    (hname : registry.idOf? category.className = none) :
    (registry.holdBack category).Consistent loose where
  names := consistent.names
  linked := consistent.linked
  ranked := consistent.ranked
  subclasses := consistent.subclasses
  subclassesNodup := consistent.subclassesNodup
  pending := consistent.pending
  waiter := consistent.waiter
  waitersNodup := consistent.waitersNodup
  waitingKept := consistent.waitingKept
  awake := consistent.awake
  heldBack := by
    intro name hregistered
    rw [idOf?_holdBack] at hregistered
    have hother : category.className ≠ name := by
      intro heq
      rw [heq] at hname
      exact hregistered hname
    rw [heldBack_holdBack, if_neg hother]
    exact consistent.heldBack name hregistered

/-! ### Entering a class -/

section

variable {record : Record} {id : ClassId} (consistent : registry.Consistent [])

include consistent in
theorem names_addRecord (hname : registry.idOf? record.name = none) (given : String) :
    (registry.addRecord record).idOf? given = some id ↔
      ∃ new, (registry.addRecord record).standing? id = some new ∧ new.name = given := by
  rw [idOf?_addRecord]
  constructor
  · intro hid
    split at hid
    · next heq =>
      refine ⟨record.standing, ?_, heq⟩
      rw [standing?_addRecord, if_pos (Option.some.inj hid)]
    · obtain ⟨old, hold, holdName⟩ := (consistent.names given id).mp hid
      exact ⟨old, standing?_addRecord_of hold, holdName⟩
  · intro h
    obtain ⟨new, hnew, rfl⟩ := h
    rcases standing?_of_addRecord hnew with ⟨rfl, rfl⟩ | ⟨-, hold⟩
    · exact if_pos rfl
    · have hid := (consistent.names new.name id).mpr ⟨new, hold, rfl⟩
      have hne : record.name ≠ new.name := by
        intro heq
        rw [← heq, hname] at hid
        cases hid
      rw [if_neg hne]
      exact hid

include consistent in
theorem not_below_nextId {lower : Standing} (hlower : registry.standing? id = some lower) :
    lower.state ≠ .linked (some registry.nextId) := by
  intro hlinked
  obtain ⟨above, habove, -⟩ := consistent.linked id lower _ hlower hlinked List.not_mem_nil
  rw [standing?_nextId] at habove
  cases habove

include consistent in
theorem subclasses_addRecord (hstate : record.state = .pending) (hsubclasses : record.subclasses = [])
    {new : Standing} {child : ClassId}
    (hnew : (registry.addRecord record).standing? id = some new) :
    child ∈ new.subclasses ↔
      ∃ lower, (registry.addRecord record).standing? child = some lower ∧
        lower.state = .linked (some id) := by
  have hbelow : (∃ lower, (registry.addRecord record).standing? child = some lower ∧
      lower.state = .linked (some id)) ↔
      ∃ lower, registry.standing? child = some lower ∧ lower.state = .linked (some id) := by
    constructor
    · intro h
      obtain ⟨lower, hlower, hlinked⟩ := h
      exact ⟨lower, standing?_of_linked_addRecord hstate hlower
        (Standing.isLinked_of_linked hlinked), hlinked⟩
    · intro h
      obtain ⟨lower, hlower, hlinked⟩ := h
      exact ⟨lower, standing?_addRecord_of hlower, hlinked⟩
  rw [hbelow]
  rcases standing?_of_addRecord hnew with ⟨rfl, rfl⟩ | ⟨-, hold⟩
  · rw [show record.standing.subclasses = [] from hsubclasses]
    constructor
    · intro hchild
      cases hchild
    · intro h
      obtain ⟨lower, hlower, hlinked⟩ := h
      exact absurd hlinked (consistent.not_below_nextId hlower)
  · exact consistent.subclasses id new child hold

end

/-- A class is entered as a pending one and still owes where it waits. -/
theorem addRecord (consistent : registry.Consistent []) {record : Record}
    (hname : registry.idOf? record.name = none) (hstate : record.state = .pending)
    (hsubclasses : record.subclasses = []) :
    (registry.addRecord record).Consistent [registry.nextId] := by
  have hstood : ∀ {id new superclass}, (registry.addRecord record).standing? id = some new →
      new.state = .linked superclass → registry.standing? id = some new :=
    fun hnew hlinked =>
      standing?_of_linked_addRecord hstate hnew (Standing.isLinked_of_linked hlinked)
  constructor
  case names => exact fun given id => consistent.names_addRecord hname given
  case linked =>
    intro id new superclass hnew hlinked _
    have hfits := consistent.linked id new superclass (hstood hnew hlinked) hlinked List.not_mem_nil
    cases superclass with
    | none => exact hfits
    | some parent =>
      obtain ⟨above, habove, hrest⟩ := hfits
      exact ⟨above, standing?_addRecord_of habove, hrest⟩
  case ranked =>
    obtain ⟨rank, hrank⟩ := consistent.ranked
    refine ⟨rank, ?_⟩
    intro id new parent hnew hlinked
    exact hrank id new parent (hstood hnew hlinked) hlinked
  case subclasses =>
    intro id new child hnew
    exact consistent.subclasses_addRecord hstate hsubclasses hnew
  case subclassesNodup =>
    intro id new hnew
    rcases standing?_of_addRecord hnew with ⟨-, rfl⟩ | ⟨-, hold⟩
    · rw [show record.standing.subclasses = [] from hsubclasses]
      exact List.nodup_nil
    · exact consistent.subclassesNodup id new hold
  case pending =>
    intro id new hnew hpending hloose
    rcases standing?_of_addRecord hnew with ⟨rfl, -⟩ | ⟨-, hold⟩
    · exact absurd (List.mem_singleton.mpr rfl) hloose
    · exact consistent.pending id new hold hpending List.not_mem_nil
  case waiter =>
    intro awaited id hid
    obtain ⟨old, hold, hrest⟩ := consistent.waiter awaited id hid
    exact ⟨old, standing?_addRecord_of hold, hrest⟩
  case waitersNodup => exact consistent.waitersNodup
  case waitingKept => exact consistent.waitingKept
  case awake =>
    intro id new hnew hlinked
    exact consistent.awake id new (standing?_of_linked_addRecord hstate hnew hlinked) hlinked
  case heldBack =>
    intro name hregistered
    rw [heldBack_addRecord]
    split
    · rfl
    · next hne =>
      rw [idOf?_addRecord, if_neg hne] at hregistered
      exact consistent.heldBack name hregistered

/-- A loose class that waits for a class that is not linked owes nothing any more. -/
theorem await {id : ClassId} {standing : Standing} {awaited : String}
    (consistent : registry.Consistent [id]) (hstanding : registry.standing? id = some standing)
    (hpending : standing.state = .pending) (hawaited : standing.superclassName = some awaited)
    (hfree : ∀ name, id ∉ registry.waitersOf name)
    (hunlinked : ∀ parent above, registry.standing? parent = some above → above.isLinked →
      above.name ≠ awaited) : (registry.await awaited id).Consistent [] := by
  have hmem : ∀ name other, other ∈ (registry.await awaited id).waitersOf name ↔
      other ∈ registry.waitersOf name ∨ awaited = name ∧ other = id := by
    intro name other
    rw [waitersOf_await]
    split
    · next heq => simp [heq]
    · next hne => simp [hne]
  constructor
  case names => exact consistent.names
  case linked =>
    intro other standing' superclass hother hlinked _
    have hne : other ≠ id := by
      intro heq
      rw [heq] at hother
      cases hstanding.symm.trans hother
      rw [hpending] at hlinked
      cases hlinked
    exact consistent.linked other standing' superclass hother hlinked
      (List.mem_singleton.not.mpr hne)
  case ranked => exact consistent.ranked
  case subclasses => exact consistent.subclasses
  case subclassesNodup => exact consistent.subclassesNodup
  case pending =>
    intro other standing' hother hstate _
    by_cases heq : other = id
    · subst heq
      cases hstanding.symm.trans hother
      exact ⟨awaited, hawaited, (hmem awaited other).mpr (.inr ⟨rfl, rfl⟩)⟩
    · obtain ⟨name, hname, hwaits⟩ :=
        consistent.pending other standing' hother hstate (List.mem_singleton.not.mpr heq)
      exact ⟨name, hname, (hmem name other).mpr (.inl hwaits)⟩
  case waiter =>
    intro name other hother
    rcases (hmem name other).mp hother with hwaits | ⟨rfl, rfl⟩
    · exact consistent.waiter name other hwaits
    · exact ⟨standing, hstanding, hpending, hawaited⟩
  case waitersNodup =>
    intro name
    rw [waitersOf_await]
    split
    · exact List.nodup_append_comm.mp
        (List.nodup_cons.mpr ⟨hfree name, consistent.waitersNodup name⟩)
    · exact consistent.waitersNodup name
  case waitingKept =>
    intro name
    rw [waiting_await]
    split
    · simp
    · exact consistent.waitingKept name
  case awake =>
    intro other standing' hother hlinked
    have hne := hunlinked other standing' hother hlinked
    rw [waitersOf_await, if_neg hne.symm]
    exact consistent.awake other standing' hother hlinked
  case heldBack => exact consistent.heldBack

end Consistent

end Registry

end LateBinding
