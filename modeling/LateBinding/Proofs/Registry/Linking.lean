import LateBinding.Proofs.Registry.Consistent

/-!
# Linking one class

Linking takes classes from a queue. The queued classes are the loose ones: they wait for nothing any
more and are not linked yet. A class that links is entered below its superclass and hands the
classes that waited for it over to the queue. This keeps the registry consistent, and no class is
left behind that could link.
-/

namespace LateBinding

def Standing.afterLink (standing : Standing) (id : ClassId) (superclass : Option ClassId)
    (self : ClassId) : Standing :=
  { standing with
    state := if id = self then .linked superclass else standing.state
    subclasses := if superclass = some self then standing.subclasses ++ [id]
      else standing.subclasses }

theorem Standing.name_afterLink (standing : Standing) (id self : ClassId)
    (superclass : Option ClassId) :
    (standing.afterLink id superclass self).name = standing.name := rfl

theorem Standing.state_afterLink (standing : Standing) (id self : ClassId)
    (superclass : Option ClassId) : (standing.afterLink id superclass self).state =
      if id = self then .linked superclass else standing.state := rfl

theorem Standing.state_afterLink_self (standing : Standing) (id : ClassId)
    (superclass : Option ClassId) :
    (standing.afterLink id superclass id).state = .linked superclass := if_pos rfl

theorem Standing.state_afterLink_of_ne {id self : ClassId} (hne : id ≠ self) (standing : Standing)
    (superclass : Option ClassId) :
    (standing.afterLink id superclass self).state = standing.state := if_neg hne

theorem Standing.subclasses_afterLink (standing : Standing) (id self : ClassId)
    (superclass : Option ClassId) : (standing.afterLink id superclass self).subclasses =
      if superclass = some self then standing.subclasses ++ [id] else standing.subclasses := rfl

theorem Standing.isLinked_afterLink {standing : Standing} (hlinked : standing.isLinked)
    (id self : ClassId) (superclass : Option ClassId) :
    (standing.afterLink id superclass self).isLinked := by
  rw [Standing.isLinked, Standing.state_afterLink]
  split
  · simp
  · exact hlinked

namespace Registry

/-- The classes of a queue can link now: each is pending, waits for nothing, and has its
superclass. -/
structure Ready (registry : Registry) (queue : List ClassId) : Prop where
  nodup : queue.Nodup
  fits : ∀ id ∈ queue, ∃ standing, registry.standing? id = some standing ∧
    standing.state = .pending ∧ ∃ superclass, registry.Fits standing superclass
  apart : ∀ id ∈ queue, ∀ awaited, id ∉ registry.waitersOf awaited

def afterLink (registry : Registry) (id : ClassId) (superclass : Option ClassId) (name : String) :
    Registry :=
  (registry.markLinked id superclass).releaseWaiters name

theorem Ready.nil (registry : Registry) : registry.Ready [] where
  nodup := List.nodup_nil
  fits := by
    intro id hid
    cases hid
  apart := by
    intro id hid
    cases hid

theorem Ready.transfer {registry changed : Registry} {queue : List ClassId}
    (ready : registry.Ready queue) (hstanding : changed.standing? = registry.standing?)
    (hwaiting : changed.waiting = registry.waiting) : changed.Ready queue where
  nodup := ready.nodup
  fits := by
    intro id hid
    obtain ⟨standing, hget, hpending, superclass, hfits⟩ := ready.fits id hid
    refine ⟨standing, by rw [hstanding, hget], hpending, superclass, ?_⟩
    cases superclass with
    | none => exact hfits
    | some parent =>
      rw [Fits, hstanding]
      exact hfits
  apart := by
    simp only [waitersOf, hwaiting]
    exact ready.apart

section

variable {registry : Registry} {id : ClassId} {standing : Standing} {superclass : Option ClassId}

theorem Fits.ne (fits : registry.Fits standing superclass)
    (hstanding : registry.standing? id = some standing) (hpending : standing.state = .pending) :
    superclass ≠ some id := by
  intro heq
  subst heq
  obtain ⟨above, habove, hlinked, -⟩ := fits
  rw [hstanding] at habove
  cases habove
  exact hlinked hpending

theorem standing?_afterLink (registry : Registry) (hother : superclass ≠ some id) (name : String)
    (other : ClassId) :
    (registry.afterLink id superclass name).standing? other =
      (registry.standing? other).map (·.afterLink id superclass other) :=
  registry.standing?_markLinked hother other

theorem waitersOf_afterLink (registry : Registry) (id : ClassId) (superclass : Option ClassId)
    (name other : String) :
    (registry.afterLink id superclass name).waitersOf other =
      if name = other then [] else registry.waitersOf other := by
  rw [afterLink, waitersOf_releaseWaiters]
  simp only [waitersOf, waiting_markLinked]

@[simp] theorem idOf?_afterLink (registry : Registry) (id : ClassId) (superclass : Option ClassId)
    (name : String) : (registry.afterLink id superclass name).idOf? = registry.idOf? := by
  rw [afterLink, idOf?_releaseWaiters, idOf?_markLinked]

theorem Fits.afterLink {changed : Standing} {other : Option ClassId}
    (fits : registry.Fits standing other) (hother : superclass ≠ some id) (name : String)
    (hsame : changed.superclassName = standing.superclassName) :
    (registry.afterLink id superclass name).Fits changed other := by
  cases other with
  | none =>
    rw [Fits, hsame]
    exact fits
  | some parent =>
    obtain ⟨above, habove, hlinked, hname⟩ := fits
    have hget := registry.standing?_afterLink hother name parent
    rw [habove] at hget
    exact ⟨_, hget, Standing.isLinked_afterLink hlinked id parent superclass, hsame.trans hname⟩

end

variable {registry : Registry} {id other : ClassId} {loose queue : List ClassId}
  {standing old new : Standing} {superclass : Option ClassId} {name : String}

/-! ### What is known of the loose classes -/

theorem Ready.pending (ready : registry.Ready loose) (hmem : id ∈ loose)
    (hstanding : registry.standing? id = some standing) : standing.state = .pending := by
  obtain ⟨standing', hstanding', hpending, -⟩ := ready.fits id hmem
  rw [hstanding] at hstanding'
  cases hstanding'
  exact hpending

/-- The loose classes are pending, so each linked class has its superclass. -/
theorem Consistent.fits_of_linked (consistent : registry.Consistent loose)
    (ready : registry.Ready loose) (hold : registry.standing? other = some old)
    (hlinked : old.state = .linked superclass) : registry.Fits old superclass := by
  apply consistent.linked other old superclass hold hlinked
  intro hloose
  rw [ready.pending hloose hold] at hlinked
  cases hlinked

theorem Consistent.not_below_pending (consistent : registry.Consistent loose)
    (ready : registry.Ready loose) (hstanding : registry.standing? id = some standing)
    (hpending : standing.state = .pending) (hold : registry.standing? other = some old) :
    old.state ≠ .linked (some id) := by
  intro hlinked
  obtain ⟨above, habove, haboveLinked, -⟩ := consistent.fits_of_linked ready hold hlinked
  cases hstanding.symm.trans habove
  exact haboveLinked hpending

theorem Consistent.not_mem_subclasses (consistent : registry.Consistent loose)
    (hstanding : registry.standing? id = some standing) (hpending : standing.state = .pending)
    (hold : registry.standing? other = some old) : id ∉ old.subclasses := by
  rw [consistent.subclasses other old id hold]
  intro h
  obtain ⟨lower, hlower, hlinked⟩ := h
  cases hstanding.symm.trans hlower
  rw [hpending] at hlinked
  cases hlinked

/-! ### The standings after a class has linked -/

theorem standing?_of_afterLink (hother : superclass ≠ some id)
    (hnew : (registry.afterLink id superclass name).standing? other = some new) :
    ∃ old, registry.standing? other = some old ∧ old.afterLink id superclass other = new := by
  rw [registry.standing?_afterLink hother name other] at hnew
  exact Option.map_eq_some_iff.mp hnew

theorem standing?_afterLink_of (hother : superclass ≠ some id)
    (hold : registry.standing? other = some old) :
    (registry.afterLink id superclass name).standing? other =
      some (old.afterLink id superclass other) := by
  rw [registry.standing?_afterLink hother name other, hold, Option.map_some]

section

variable (consistent : registry.Consistent (id :: queue)) (ready : registry.Ready (id :: queue))
  (hstanding : registry.standing? id = some standing) (fits : registry.Fits standing superclass)
  (hother : superclass ≠ some id)

include consistent hother in
theorem names_afterLink (given : String) :
    (registry.afterLink id superclass name).idOf? given = some other ↔
      ∃ new, (registry.afterLink id superclass name).standing? other = some new ∧
        new.name = given := by
  rw [idOf?_afterLink, consistent.names]
  constructor
  · intro h
    obtain ⟨old, hold, rfl⟩ := h
    exact ⟨_, standing?_afterLink_of hother hold, rfl⟩
  · intro h
    obtain ⟨new, hnew, rfl⟩ := h
    obtain ⟨old, hold, rfl⟩ := standing?_of_afterLink hother hnew
    exact ⟨old, hold, rfl⟩

include consistent ready hstanding fits hother in
theorem linked_afterLink {above : Option ClassId}
    (hnew : (registry.afterLink id superclass name).standing? other = some new)
    (hlinked : new.state = .linked above) :
    (registry.afterLink id superclass name).Fits new above := by
  obtain ⟨old, hold, rfl⟩ := standing?_of_afterLink hother hnew
  by_cases heq : id = other
  · subst heq
    cases hstanding.symm.trans hold
    rw [Standing.state_afterLink_self] at hlinked
    cases hlinked
    exact fits.afterLink hother _ rfl
  · rw [Standing.state_afterLink_of_ne heq] at hlinked
    exact (consistent.fits_of_linked ready hold hlinked).afterLink hother _ rfl

include consistent ready hstanding hother in
/-- A class that links goes above its superclass; nothing was below it yet. -/
theorem ranked_afterLink : ∃ rank : ClassId → Nat, ∀ other new parent,
    (registry.afterLink id superclass name).standing? other = some new →
      new.state = .linked (some parent) → rank parent < rank other := by
  obtain ⟨rank, hrank⟩ := consistent.ranked
  refine ⟨fun other => if id = other then superclass.elim 0 (rank · + 1) else rank other, ?_⟩
  intro other new parent hnew hlinked
  obtain ⟨old, hold, rfl⟩ := standing?_of_afterLink hother hnew
  by_cases heq : id = other
  · subst heq
    rw [Standing.state_afterLink_self] at hlinked
    cases hlinked
    have hparent : id ≠ parent := fun heq => hother (congrArg some heq.symm)
    simp [hparent]
  · rw [Standing.state_afterLink_of_ne heq] at hlinked
    have hparent : id ≠ parent := by
      intro heq
      subst heq
      exact consistent.not_below_pending ready hstanding
        (ready.pending List.mem_cons_self hstanding) hold hlinked
    dsimp only
    rw [if_neg heq, if_neg hparent]
    exact hrank other old parent hold hlinked

include consistent ready hstanding hother in
theorem subclasses_afterLink {child : ClassId}
    (hnew : (registry.afterLink id superclass name).standing? other = some new) :
    child ∈ new.subclasses ↔
      ∃ lower, (registry.afterLink id superclass name).standing? child = some lower ∧
        lower.state = .linked (some other) := by
  obtain ⟨old, hold, rfl⟩ := standing?_of_afterLink hother hnew
  by_cases hchild : id = child
  · subst hchild
    have hnot := consistent.not_mem_subclasses hstanding
      (ready.pending List.mem_cons_self hstanding) hold
    rw [standing?_afterLink_of hother hstanding]
    by_cases hsuper : superclass = some other
    · simp [Standing.afterLink, hsuper]
    · simp [Standing.afterLink, hsuper, hnot]
  · have hmem : child ∈ (old.afterLink id superclass other).subclasses ↔
        child ∈ old.subclasses := by
      rw [Standing.subclasses_afterLink]
      split
      · simp [Ne.symm hchild]
      · rfl
    rw [hmem, consistent.subclasses other old child hold]
    constructor
    · intro h
      obtain ⟨lower, hlower, hlinked⟩ := h
      refine ⟨_, standing?_afterLink_of hother hlower, ?_⟩
      rw [Standing.state_afterLink_of_ne hchild]
      exact hlinked
    · intro h
      obtain ⟨lower, hlower, hlinked⟩ := h
      obtain ⟨old', hold', rfl⟩ := standing?_of_afterLink hother hlower
      rw [Standing.state_afterLink_of_ne hchild] at hlinked
      exact ⟨old', hold', hlinked⟩

include consistent ready hstanding hother in
theorem subclassesNodup_afterLink
    (hnew : (registry.afterLink id superclass name).standing? other = some new) :
    new.subclasses.Nodup := by
  obtain ⟨old, hold, rfl⟩ := standing?_of_afterLink hother hnew
  have hnodup := consistent.subclassesNodup other old hold
  have hnot := consistent.not_mem_subclasses hstanding
    (ready.pending List.mem_cons_self hstanding) hold
  rw [Standing.subclasses_afterLink]
  split
  · exact List.nodup_append_comm.mp (List.nodup_cons.mpr ⟨hnot, hnodup⟩)
  · exact hnodup

include consistent hother in
theorem pending_afterLink
    (hnew : (registry.afterLink id superclass name).standing? other = some new)
    (hpending : new.state = .pending) (hqueued : other ∉ queue)
    (hwoken : other ∉ registry.waitersOf name) :
    ∃ awaited, new.superclassName = some awaited ∧
      other ∈ (registry.afterLink id superclass name).waitersOf awaited := by
  obtain ⟨old, hold, rfl⟩ := standing?_of_afterLink hother hnew
  have hne : id ≠ other := by
    intro heq
    subst heq
    rw [Standing.state_afterLink_self] at hpending
    cases hpending
  rw [Standing.state_afterLink_of_ne hne] at hpending
  have hnotLoose : other ∉ id :: queue := List.not_mem_cons_of_ne_of_not_mem hne.symm hqueued
  obtain ⟨awaited, hawaited, hwaits⟩ := consistent.pending other old hold hpending hnotLoose
  have hawaitedNe : name ≠ awaited := by
    intro heq
    subst heq
    exact hwoken hwaits
  refine ⟨awaited, hawaited, ?_⟩
  rw [waitersOf_afterLink, if_neg hawaitedNe]
  exact hwaits

include consistent ready hother in
theorem waiter_afterLink {awaited : String}
    (hwaits : other ∈ (registry.afterLink id superclass name).waitersOf awaited) :
    ∃ new, (registry.afterLink id superclass name).standing? other = some new ∧
      new.state = .pending ∧ new.superclassName = some awaited := by
  rw [waitersOf_afterLink] at hwaits
  split at hwaits
  · cases hwaits
  · obtain ⟨old, hold, hpending, hawaited⟩ := consistent.waiter awaited other hwaits
    have hne : id ≠ other := by
      intro heq
      subst heq
      exact ready.apart id List.mem_cons_self awaited hwaits
    refine ⟨_, standing?_afterLink_of hother hold, ?_, hawaited⟩
    rw [Standing.state_afterLink_of_ne hne]
    exact hpending

include consistent hstanding hother in
theorem awake_afterLink
    (hnew : (registry.afterLink id superclass standing.name).standing? other = some new)
    (hlinked : new.isLinked) :
    (registry.afterLink id superclass standing.name).waitersOf new.name = [] := by
  obtain ⟨old, hold, rfl⟩ := standing?_of_afterLink hother hnew
  rw [waitersOf_afterLink]
  by_cases heq : id = other
  · subst heq
    cases hstanding.symm.trans hold
    exact if_pos rfl
  · rw [Standing.isLinked, Standing.state_afterLink_of_ne heq] at hlinked
    rw [Standing.name_afterLink, consistent.awake other old hold hlinked, ite_self]

end

/-- The next class of a queue links, and those that waited for it join the queue. -/
theorem Consistent.afterLink (consistent : registry.Consistent (id :: queue))
    (ready : registry.Ready (id :: queue)) (hstanding : registry.standing? id = some standing)
    (fits : registry.Fits standing superclass) :
    (registry.afterLink id superclass standing.name).Consistent
      (queue ++ registry.waitersOf standing.name) := by
  have hother := fits.ne hstanding (ready.pending List.mem_cons_self hstanding)
  constructor
  case names => exact fun given other => names_afterLink consistent hother given
  case linked =>
    intro other new above hnew hlinked _
    exact linked_afterLink consistent ready hstanding fits hother hnew hlinked
  case ranked => exact ranked_afterLink consistent ready hstanding hother
  case subclasses =>
    intro other new child hnew
    exact subclasses_afterLink consistent ready hstanding hother hnew
  case subclassesNodup =>
    intro other new hnew
    exact subclassesNodup_afterLink consistent ready hstanding hother hnew
  case pending =>
    intro other new hnew hpending hloose
    rw [List.mem_append, not_or] at hloose
    exact pending_afterLink consistent hother hnew hpending hloose.1 hloose.2
  case waiter =>
    intro awaited other hwaits
    exact waiter_afterLink consistent ready hother hwaits
  case waitersNodup =>
    intro awaited
    rw [waitersOf_afterLink]
    split
    · exact List.nodup_nil
    · exact consistent.waitersNodup awaited
  case waitingKept =>
    intro awaited
    rw [Registry.afterLink, waiting_releaseWaiters]
    split
    · simp
    · rw [waiting_markLinked]
      exact consistent.waitingKept awaited
  case awake =>
    intro other new hnew hlinked
    exact awake_afterLink consistent hstanding hother hnew hlinked
  case heldBack =>
    intro name hname
    rw [idOf?_afterLink] at hname
    rw [Registry.afterLink]
    change (registry.markLinked id superclass).heldBack[name]? = none
    rw [heldBack_markLinked]
    exact consistent.heldBack name hname

theorem Ready.afterLink (consistent : registry.Consistent (id :: queue))
    (ready : registry.Ready (id :: queue)) (hstanding : registry.standing? id = some standing)
    (fits : registry.Fits standing superclass) :
    (registry.afterLink id superclass standing.name).Ready
      (queue ++ registry.waitersOf standing.name) := by
  have hother := fits.ne hstanding (ready.pending List.mem_cons_self hstanding)
  obtain ⟨hidQueue, hqueue⟩ := List.nodup_cons.mp ready.nodup
  constructor
  case nodup =>
    refine List.nodup_append.mpr ⟨hqueue, consistent.waitersNodup _, ?_⟩
    intro other hqueued _ hwaits heq
    subst heq
    exact ready.apart other (List.mem_cons_of_mem _ hqueued) _ hwaits
  case fits =>
    intro other hmem
    rcases List.mem_append.mp hmem with hqueued | hwaits
    · obtain ⟨old, hold, hstate, above, hfits⟩ := ready.fits other (List.mem_cons_of_mem _ hqueued)
      have hne : id ≠ other := by
        intro heq
        subst heq
        exact hidQueue hqueued
      refine ⟨_, standing?_afterLink_of hother hold, ?_, above, hfits.afterLink hother _ rfl⟩
      rw [Standing.state_afterLink_of_ne hne]
      exact hstate
    · obtain ⟨old, hold, hstate, hawaited⟩ := consistent.waiter _ other hwaits
      have hne : id ≠ other := by
        intro heq
        subst heq
        exact ready.apart id List.mem_cons_self _ hwaits
      refine ⟨_, standing?_afterLink_of hother hold, ?_, some id, _,
        standing?_afterLink_of hother hstanding, ?_, hawaited⟩
      · rw [Standing.state_afterLink_of_ne hne]
        exact hstate
      · rw [Standing.isLinked, Standing.state_afterLink_self]
        exact LinkState.noConfusion
  case apart =>
    intro other hmem awaited
    rw [waitersOf_afterLink]
    split
    · exact List.not_mem_nil
    · next hne =>
      rcases List.mem_append.mp hmem with hqueued | hwaits
      · exact ready.apart other (List.mem_cons_of_mem _ hqueued) awaited
      · intro hwaits'
        exact hne (consistent.awaited_unique hwaits hwaits')

end Registry

end LateBinding
