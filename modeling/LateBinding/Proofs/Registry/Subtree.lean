import LateBinding.Proofs.Registry.Changes

/-!
# Removing a class with all that stand under it

A class stands *under* another one if it is that class, or if the superclass that it names is
registered and stands under that class in turn. Removing goes by what the records and the map of
waiting classes keep: a class that is taken out is followed by those right below it and by those that
wait for it. In a consistent registry both come to the same. So just the classes under the one that
is removed go, each of them once, and the others stay as they were.
-/

namespace LateBinding

theorem not_mem_cons_eq (other id : ClassId) (ids : List ClassId) :
    decide (other ∉ id :: ids) = (decide (other ∉ [id]) && decide (other ∉ ids)) := by
  rw [← Bool.decide_and, decide_eq_decide, List.mem_cons, List.mem_singleton, not_or]

/-- A record without some classes among those right below. -/
def Record.strike (record : Record) (ids : List ClassId) : Record :=
  { record with subclasses := record.subclasses.filter (· ∉ ids) }

@[simp] theorem Record.strike_nil (record : Record) : record.strike [] = record := by
  simp [strike]

theorem Record.strike_strike (record : Record) (id : ClassId) (ids : List ClassId) :
    (record.strike [id]).strike ids = record.strike (id :: ids) := by
  unfold strike
  rw [List.filter_filter]
  congr 2
  funext other
  rw [Bool.and_comm]
  exact (not_mem_cons_eq other id ids).symm

namespace Registry

variable {registry start final : Registry}

/-- The superclass that a class names is registered. -/
def NamesAbove (registry : Registry) (id parent : ClassId) : Prop :=
  ∃ record awaited, registry.record? id = some record ∧ record.superclassName = some awaited ∧
    registry.idOf? awaited = some parent

def Under (registry : Registry) (top id : ClassId) : Prop :=
  Relation.ReflTransGen registry.NamesAbove id top

/-! ### Who follows a class -/

section

variable {loose : List ClassId} {id other : ClassId} {record : Record}

theorem mem_followers {registry : Registry} {record : Record} {other : ClassId} :
    other ∈ registry.followers record ↔
      other ∈ record.subclasses ∨ other ∈ registry.waitersOf record.name := List.mem_append

theorem Consistent.exists_follower (consistent : registry.Consistent loose)
    (hrecord : registry.record? id = some record) (hother : other ∈ registry.followers record) :
    ∃ standing, registry.standing? other = some standing := by
  rcases mem_followers.mp hother with hbelow | hwaits
  · obtain ⟨lower, hlower, -⟩ :=
      (consistent.subclasses id record.standing other (standing?_of_record hrecord)).mp hbelow
    exact ⟨lower, hlower⟩
  · obtain ⟨waiter, hwaiter, -⟩ := consistent.waiter record.name other hwaits
    exact ⟨waiter, hwaiter⟩

/-- The classes that follow a class are those that name it. -/
theorem Consistent.mem_followers_iff (consistent : registry.Consistent [])
    (hrecord : registry.record? id = some record) :
    other ∈ registry.followers record ↔ registry.NamesAbove other id := by
  have hstanding := standing?_of_record hrecord
  have hid : registry.idOf? record.name = some id :=
    (consistent.names record.name id).mpr ⟨record.standing, hstanding, rfl⟩
  rw [mem_followers]
  constructor
  · rintro (hbelow | hwaits)
    · obtain ⟨standing, hlower, hlinked⟩ :=
        (consistent.subclasses id record.standing other hstanding).mp hbelow
      obtain ⟨lower, hother, rfl⟩ := Option.map_eq_some_iff.mp hlower
      obtain ⟨above, habove, -, hname⟩ :=
        consistent.linked other lower.standing _ hlower hlinked List.not_mem_nil
      cases hstanding.symm.trans habove
      exact ⟨lower, record.name, hother, hname, hid⟩
    · obtain ⟨standing, hwaiter, -, hname⟩ := consistent.waiter record.name other hwaits
      obtain ⟨waiter, hother, rfl⟩ := Option.map_eq_some_iff.mp hwaiter
      exact ⟨waiter, record.name, hother, hname, hid⟩
  · rintro ⟨lower, awaited, hother, hname, hawaited⟩
    have hlower := standing?_of_record hother
    obtain ⟨standing, hsame, hawaitedName⟩ := (consistent.names awaited id).mp hawaited
    cases hstanding.symm.trans hsame
    cases hstate : lower.state with
    | pending =>
      obtain ⟨name, hnamed, hwaits⟩ :=
        consistent.pending other lower.standing hlower hstate List.not_mem_nil
      cases hname.symm.trans hnamed
      rw [← hawaitedName] at hwaits
      exact .inr hwaits
    | linked superclass =>
      have hfits :=
        consistent.linked other lower.standing superclass hlower hstate List.not_mem_nil
      cases superclass with
      | none => cases hname.symm.trans hfits
      | some parent =>
        obtain ⟨above, habove, -, hnamed⟩ := hfits
        have hsameName : record.standing.name = above.name :=
          hawaitedName.trans (Option.some.inj (hname.symm.trans hnamed))
        obtain rfl := consistent.id_unique hstanding habove hsameName
        exact .inl ((consistent.subclasses id record.standing other hstanding).mpr
          ⟨lower.standing, hlower, hstate⟩)

end

/-! ### What a registry is like without some classes -/

/-- Some classes are no longer registered, and nothing else is different. -/
structure Loses (start : Registry) (ids : List ClassId) (final : Registry) : Prop where
  record? : ∀ id, final.record? id =
    if id ∈ ids then none else (start.record? id).map (·.strike ids)
  idOf? : ∀ name, final.idOf? name = (start.idOf? name).filter (· ∉ ids)
  waitersOf : ∀ name, final.waitersOf name = (start.waitersOf name).filter (· ∉ ids)
  heldBack : final.heldBack = start.heldBack
  policy : final.policy = start.policy
  builds : final.builds = start.builds

theorem Loses.nil (registry : Registry) : registry.Loses [] registry where
  record? id := by simp
  idOf? name := by cases registry.idOf? name <;> rfl
  waitersOf name := by simp
  heldBack := rfl
  policy := rfl
  builds := rfl

@[simp] theorem builds_takeOut (registry : Registry) (id : ClassId) (record : Record) :
    (registry.takeOut id record).builds = registry.builds := by
  have hstop : ∀ (rest : Registry) (awaited : String),
      (rest.stopWaiting awaited id).builds = rest.builds := by
    intro rest awaited
    unfold stopWaiting
    split
    · rfl
    · dsimp only
      split <;> rfl
  rw [takeOut_eq]
  cases record.superclass? with
  | some parent => rfl
  | none =>
    cases record.superclassName with
    | none => rfl
    | some awaited => exact hstop _ awaited

section

variable {loose ids : List ClassId} {id : ClassId} {record : Record}
  (consistent : start.Consistent (id :: loose)) (hrecord : start.record? id = some record)

include consistent hrecord

/-- Only the superclass of the class that is taken out has it on its list. -/
theorem Consistent.record?_takeOut (other : ClassId) : (start.takeOut id record).record? other =
    if id = other then none else (start.record? other).map (·.strike [id]) := by
  rw [start.record?_takeOut hrecord]
  split
  · rfl
  · split
    · congr 1
      funext above
      simp only [Record.strike, List.mem_singleton]
    · next hnot =>
      cases hother : start.record? other with
      | none => rfl
      | some above =>
        have hfree : ∀ child ∈ above.subclasses, child ∉ [id] := by
          intro child hchild hmem
          obtain rfl := List.mem_singleton.mp hmem
          obtain ⟨lower, hlower, hlinked⟩ := (consistent.subclasses other above.standing child
            (standing?_of_record hother)).mp hchild
          cases (standing?_of_record hrecord).symm.trans hlower
          exact hnot ((record.superclass?_eq_some_iff other).mpr hlinked)
        rw [Option.map_some, Record.strike, List.filter_eq_self.mpr]
        exact fun child hchild => decide_eq_true (hfree child hchild)

theorem Consistent.idOf?_takeOut (name : String) :
    (start.takeOut id record).idOf? name = (start.idOf? name).filter (· ∉ [id]) := by
  have hnames := consistent.names
  have hid := (hnames record.name id).mpr ⟨_, standing?_of_record hrecord, rfl⟩
  rw [start.idOf?_takeOut]
  split
  · next heq =>
    rw [← heq, hid, Option.filter_some, if_neg]
    simp
  · next hne =>
    cases hother : start.idOf? name with
    | none => rfl
    | some other =>
      have hotherNe : other ∉ [id] := by
        rw [List.mem_singleton]
        rintro rfl
        obtain ⟨standing, hstanding, hname⟩ := (hnames name other).mp hother
        cases (standing?_of_record hrecord).symm.trans hstanding
        exact hne hname
      rw [Option.filter_some, if_pos (decide_eq_true hotherNe)]

/-- Except for the name of the class that is taken out, it leaves the lists of those that wait. -/
theorem Consistent.waitersOf_takeOut (name : String) : (start.takeOut id record).waitersOf name =
    if record.name = name then [] else (start.waitersOf name).filter (· ∉ [id]) := by
  rw [start.waitersOf_takeOut]
  split
  · rfl
  · split
    · simp only [List.mem_singleton]
    · next hnot =>
      rw [List.filter_eq_self.mpr]
      intro other hother
      apply decide_eq_true
      rw [List.mem_singleton]
      rintro rfl
      obtain ⟨standing, hstanding, hpending, hname⟩ := consistent.waiter name other hother
      cases (standing?_of_record hrecord).symm.trans hstanding
      refine hnot ⟨?_, hname⟩
      cases hsuper : record.superclass? with
      | none => rfl
      | some parent =>
        rw [(record.superclass?_eq_some_iff parent).mp hsuper] at hpending
        cases hpending

theorem Loses.cons (rest : (start.takeOut id record).Loses ids final)
    (hwaiters : ∀ waiter ∈ start.waitersOf record.name, waiter ∈ id :: ids) :
    start.Loses (id :: ids) final where
  record? other := by
    rw [rest.record?, consistent.record?_takeOut hrecord]
    by_cases hother : other ∈ ids
    · rw [if_pos hother, if_pos (List.mem_cons_of_mem _ hother)]
    · rw [if_neg hother]
      by_cases heq : id = other
      · rw [if_pos heq, if_pos (heq ▸ List.mem_cons_self)]
        rfl
      · rw [if_neg heq, if_neg (List.not_mem_cons_of_ne_of_not_mem (Ne.symm heq) hother),
          Option.map_map]
        congr 1
        funext record
        exact record.strike_strike id ids
  idOf? name := by
    rw [rest.idOf?, consistent.idOf?_takeOut hrecord, Option.filter_filter]
    congr 1
    funext other
    exact (not_mem_cons_eq other id ids).symm
  waitersOf name := by
    rw [rest.waitersOf, consistent.waitersOf_takeOut hrecord]
    split
    · next heq =>
      subst heq
      rw [List.filter_nil, eq_comm, List.filter_eq_nil_iff]
      exact fun waiter hwaiter hnot => of_decide_eq_true hnot (hwaiters waiter hwaiter)
    · rw [List.filter_filter]
      congr 1
      funext other
      rw [Bool.and_comm]
      exact (not_mem_cons_eq other id ids).symm
  heldBack := rest.heldBack.trans (start.heldBack_takeOut id record)
  policy := rest.policy.trans (start.policy_takeOut id record)
  builds := rest.builds.trans (start.builds_takeOut id record)

end

/-! ### Which classes go -/

/-- Some classes are the fewest that hold a stack and all that follows them. -/
structure Sweeps (registry : Registry) (stack ids : List ClassId) : Prop where
  covers : ∀ id ∈ stack, ∀ record, registry.record? id = some record → id ∈ ids
  closed : ∀ id ∈ ids, ∀ record, registry.record? id = some record →
    ∀ other ∈ registry.followers record, other ∈ ids
  least : ∀ reached : ClassId → Prop, (∀ id ∈ stack, reached id) →
    (∀ id record, reached id → registry.record? id = some record →
      ∀ other ∈ registry.followers record, reached other) → ∀ id ∈ ids, reached id

theorem Sweeps.nil (registry : Registry) : registry.Sweeps [] [] where
  covers _ hid := nomatch hid
  closed _ hid := nomatch hid
  least _ _ _ _ hid := nomatch hid

theorem Sweeps.skip {stack ids : List ClassId} {id : ClassId} (sweeps : registry.Sweeps stack ids)
    (gone : registry.record? id = none) : registry.Sweeps (id :: stack) ids where
  covers other hother record hrecord := by
    rcases List.mem_cons.mp hother with rfl | hmem
    · cases gone.symm.trans hrecord
    · exact sweeps.covers other hmem record hrecord
  closed := sweeps.closed
  least reached hstack :=
    sweeps.least reached fun other hother => hstack other (List.mem_cons_of_mem _ hother)

section

variable {stack ids : List ClassId} {id : ClassId} {record : Record}
  (consistent : start.Consistent (id :: stack)) (hrecord : start.record? id = some record)

include consistent hrecord

theorem Consistent.record?_of_takeOut {other : ClassId} {after : Record}
    (hafter : (start.takeOut id record).record? other = some after) :
    id ≠ other ∧ ∃ before, start.record? other = some before ∧ before.strike [id] = after := by
  rw [consistent.record?_takeOut hrecord] at hafter
  split at hafter
  · cases hafter
  · next hne => exact ⟨hne, Option.map_eq_some_iff.mp hafter⟩

theorem Consistent.record?_takeOut_of {other : ClassId} {before : Record}
    (hbefore : start.record? other = some before) (hne : id ≠ other) :
    (start.takeOut id record).record? other = some (before.strike [id]) := by
  rw [consistent.record?_takeOut hrecord, if_neg hne, hbefore, Option.map_some]

/-- After a class is taken out nobody else is followed by any more classes. -/
theorem Consistent.mem_followers_of_takeOut {before : Record} {other : ClassId}
    (hother : other ∈ (start.takeOut id record).followers (before.strike [id])) :
    other ∈ start.followers before := by
  rw [mem_followers] at hother ⊢
  rcases hother with hbelow | hwaits
  · exact .inl (List.mem_of_mem_filter hbelow)
  · rw [consistent.waitersOf_takeOut hrecord] at hwaits
    split at hwaits
    · cases hwaits
    · exact .inr (List.mem_of_mem_filter hwaits)

theorem Consistent.mem_followers_takeOut_of {before : Record} {above other : ClassId}
    (hbefore : start.record? above = some before) (hne : id ≠ above)
    (hother : other ∈ start.followers before) (hotherNe : other ≠ id) :
    other ∈ (start.takeOut id record).followers (before.strike [id]) := by
  have hfree : decide (other ∉ [id]) = true :=
    decide_eq_true fun hmem => hotherNe (List.mem_singleton.mp hmem)
  rw [mem_followers] at hother ⊢
  refine hother.imp (fun hbelow => List.mem_filter.mpr ⟨hbelow, hfree⟩) fun hwaits => ?_
  have hname : record.name ≠ before.name := fun heq =>
    hne (consistent.id_unique (standing?_of_record hrecord) (standing?_of_record hbefore) heq)
  rw [consistent.waitersOf_takeOut hrecord, show (before.strike [id]).name = before.name from rfl,
    if_neg hname]
  exact List.mem_filter.mpr ⟨hwaits, hfree⟩

/-- What follows the class that is taken out is on the stack from then on. -/
theorem Sweeps.mem_of_mem_followers
    (sweeps : (start.takeOut id record).Sweeps ((start.followers record).reverse ++ stack) ids)
    {other : ClassId} (hother : other ∈ start.followers record) : other ∈ id :: ids := by
  by_cases heq : id = other
  · exact heq ▸ List.mem_cons_self
  · obtain ⟨standing, hstanding⟩ := consistent.exists_follower hrecord hother
    obtain ⟨before, hbefore, -⟩ := Option.map_eq_some_iff.mp hstanding
    exact List.mem_cons_of_mem _ (sweeps.covers other
      (List.mem_append_left _ (List.mem_reverse.mpr hother)) _
      (consistent.record?_takeOut_of hrecord hbefore heq))

theorem Sweeps.cons
    (sweeps : (start.takeOut id record).Sweeps ((start.followers record).reverse ++ stack) ids) :
    start.Sweeps (id :: stack) (id :: ids) where
  covers other hother before hbefore := by
    by_cases heq : id = other
    · exact heq ▸ List.mem_cons_self
    · have hmem := (List.mem_cons.mp hother).resolve_left (Ne.symm heq)
      exact List.mem_cons_of_mem _ (sweeps.covers other (List.mem_append_right _ hmem) _
        (consistent.record?_takeOut_of hrecord hbefore heq))
  closed above habove before hbefore other hother := by
    by_cases heq : id = above
    · subst heq
      cases hrecord.symm.trans hbefore
      exact sweeps.mem_of_mem_followers consistent hrecord hother
    · by_cases hotherEq : other = id
      · exact hotherEq ▸ List.mem_cons_self
      · have hmem := (List.mem_cons.mp habove).resolve_left (Ne.symm heq)
        exact List.mem_cons_of_mem _ (sweeps.closed above hmem _
          (consistent.record?_takeOut_of hrecord hbefore heq) other
          (consistent.mem_followers_takeOut_of hrecord hbefore heq hother hotherEq))
  least reached hstack hfollows other hother := by
    have hid := hstack id List.mem_cons_self
    rcases List.mem_cons.mp hother with rfl | hmem
    · exact hid
    · refine sweeps.least reached ?_ ?_ other hmem
      · intro next hnext
        rcases List.mem_append.mp hnext with hnew | hold
        · exact hfollows id record hid hrecord next (List.mem_reverse.mp hnew)
        · exact hstack next (List.mem_cons_of_mem _ hold)
      · intro above after habove hafter next hnext
        obtain ⟨-, before, hbefore, rfl⟩ := consistent.record?_of_takeOut hrecord hafter
        exact hfollows above before habove hbefore next
          (consistent.mem_followers_of_takeOut hrecord hnext)

end

end Registry

/-! ### What becomes of the pairs -/

namespace Heap

variable {heap later : Heap}

/-- Some pairs lose their tables and can be released from then on. -/
structure Withdraws (heap : Heap) (pairs : List PairId) (later : Heap) : Prop where
  pair : ∀ id, later.pair id =
    if id ∈ pairs then { heap.pair id with tables := .both none } else heap.pair id
  objects : later.objects = heap.objects
  loose : later.loose = pairs.reverse ++ heap.loose

theorem pair_withdraw (heap : Heap) (id other : PairId) : (heap.withdraw id).pair other =
    if other = id then { heap.pair other with tables := .both none } else heap.pair other := by
  have hpair : (heap.withdraw id).pair other =
      (heap.modifyPair id fun pair => { pair with tables := .both none }).pair other := rfl
  rw [hpair, pair_modifyPair]
  by_cases heq : other = id
  · subst heq
    by_cases hother : heap.HasPair other
    · rw [if_pos ⟨rfl, hother⟩, if_pos rfl]
    · rw [if_neg fun h => hother h.2, if_pos rfl, pair_eq_default hother]
      rfl
  · rw [if_neg fun h => heq h.1.symm, if_neg heq]

theorem Withdraws.cons {id : PairId} {pairs : List PairId}
    (rest : (heap.withdraw id).Withdraws pairs later) : heap.Withdraws (id :: pairs) later where
  pair other := by
    rw [rest.pair, pair_withdraw]
    by_cases heq : other = id
    · rw [if_pos heq, if_pos (List.mem_cons.mpr (.inl heq))]
      split <;> rfl
    · rw [if_neg heq]
      simp only [List.mem_cons, heq, false_or]
  objects := rest.objects
  loose := by
    rw [rest.loose, List.reverse_cons, List.append_assoc]
    rfl

theorem Withdraws.link_eq {pairs : List PairId} (withdraws : heap.Withdraws pairs later)
    (id : PairId) : (later.pair id).link = (heap.pair id).link := by
  rw [withdraws.pair]
  split <;> rfl

end Heap

namespace Classes

variable {start final : Classes}

/-- Classes are taken out of the registry, and their pairs are withdrawn in the same order. -/
structure TakesOut (start : Classes) (ids : List ClassId) (pairs : List PairId) (final : Classes) :
    Prop where
  registry : start.registry.Loses ids final.registry
  heap : start.heap.Withdraws pairs final.heap
  nodup : ids.Nodup
  pairs : ids.map (fun id => (start.registry.record? id).map (·.pair)) = pairs.map some

theorem TakesOut.mem_pairs_iff {ids : List ClassId} {pairs : List PairId}
    (takesOut : start.TakesOut ids pairs final) (pair : PairId) : pair ∈ pairs ↔
      ∃ id ∈ ids, ∃ record, start.registry.record? id = some record ∧ record.pair = pair := by
  have hmem : pair ∈ pairs ↔ some pair ∈ pairs.map some := by simp
  rw [hmem, ← takesOut.pairs, List.mem_map]
  simp only [Option.map_eq_some_iff]

theorem TakesOut.exists_record {ids : List ClassId} {pairs : List PairId} {id : ClassId}
    (takesOut : start.TakesOut ids pairs final) (hid : id ∈ ids) :
    ∃ record, start.registry.record? id = some record := by
  have hmem := List.mem_map_of_mem (f := fun id => (start.registry.record? id).map (·.pair)) hid
  rw [takesOut.pairs] at hmem
  obtain ⟨pair, -, hpair⟩ := List.mem_map.mp hmem
  obtain ⟨record, hrecord, -⟩ := Option.map_eq_some_iff.mp hpair.symm
  exact ⟨record, hrecord⟩

theorem TakesOut.cons {stack ids : List ClassId} {pairs : List PairId} {id : ClassId}
    {record : Record} (consistent : start.registry.Consistent (id :: stack))
    (hrecord : start.registry.record? id = some record)
    (rest : (start.without id record).TakesOut ids pairs final)
    (hwaiters : ∀ waiter ∈ start.registry.waitersOf record.name, waiter ∈ id :: ids) :
    start.TakesOut (id :: ids) (record.pair :: pairs) final where
  registry := rest.registry.cons consistent hrecord hwaiters
  heap := rest.heap.cons
  nodup := by
    refine List.nodup_cons.mpr ⟨?_, rest.nodup⟩
    intro hid
    obtain ⟨after, hafter⟩ := rest.exists_record hid
    exact (consistent.record?_of_takeOut hrecord hafter).1 rfl
  pairs := by
    rw [List.map_cons, List.map_cons, hrecord, ← rest.pairs]
    congr 1
    apply List.map_congr_left
    intro other hother
    obtain ⟨after, hafter⟩ := rest.exists_record hother
    obtain ⟨-, before, hbefore, rfl⟩ := consistent.record?_of_takeOut hrecord hafter
    rw [hafter, hbefore]
    rfl

theorem Removal.takesOut {stack : List ClassId} {pairs : List PairId}
    (removal : start.Removal stack pairs final) (consistent : start.registry.Consistent stack) :
    ∃ ids, start.TakesOut ids pairs final ∧ start.registry.Sweeps stack ids := by
  -- what follows a class that is taken out is on the stack from then on
  induction removal with
  | done classes =>
    refine ⟨[], ⟨.nil _, ⟨?_, rfl, rfl⟩, List.nodup_nil, rfl⟩, .nil _⟩
    exact fun id => (if_neg List.not_mem_nil).symm
  | skip gone _ ih =>
    obtain ⟨ids, takesOut, sweeps⟩ := ih (consistent.pass gone)
    exact ⟨ids, takesOut, sweeps.skip gone⟩
  | @remove start final id stack pairs record registered _ ih =>
    obtain ⟨ids, takesOut, sweeps⟩ := ih (consistent.takeOut registered)
    refine ⟨id :: ids, takesOut.cons consistent registered ?_, sweeps.cons consistent registered⟩
    exact fun waiter hwaiter => sweeps.mem_of_mem_followers consistent registered
      (Registry.mem_followers.mpr (.inr hwaiter))

/-- The classes that go are those under the one that is removed. -/
theorem Removal.subtree {top : ClassId} {record : Record} {pairs : List PairId}
    (removal : start.Removal [top] pairs final) (consistent : start.registry.Consistent [])
    (hrecord : start.registry.record? top = some record) :
    ∃ ids, start.TakesOut ids pairs final ∧
      ∀ id, id ∈ ids ↔ start.registry.Under top id := by
  obtain ⟨ids, takesOut, sweeps⟩ :=
    removal.takesOut (consistent.loosen _)
  refine ⟨ids, takesOut, fun id => ⟨?_, ?_⟩⟩
  · refine sweeps.least (start.registry.Under top) ?_ ?_ id
    · intro other hother
      rw [List.mem_singleton.mp hother]
      exact .refl
    · intro above before under hbefore other hother
      exact .head ((consistent.mem_followers_iff hbefore).mp hother) under
  · intro under
    induction under using Relation.ReflTransGen.head_induction_on with
    | refl => exact sweeps.covers top List.mem_cons_self record hrecord
    | @head lower above names _ ih =>
      obtain ⟨before, hbefore⟩ := takesOut.exists_record ih
      exact sweeps.closed above ih before hbefore lower
        ((consistent.mem_followers_iff hbefore).mpr names)

end Classes

end LateBinding
