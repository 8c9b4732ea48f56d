import LateBinding.Proofs.Heap.Pairs

/-!
# How a heap ages

What a heap knows of a pair only ever grows: a pair that was made stays, with the number of its
class, a link that was set stays as it is, and a side that was released does not come back. Whether
the turn of a class to be initialized has come is changed by nothing but that turn.
-/

namespace LateBinding.Heap

structure Ages (heap later : Heap) : Prop where
  hasPair : ∀ id, heap.HasPair id → later.HasPair id
  id : ∀ id, heap.HasPair id → (later.pair id).id = (heap.pair id).id
  link : ∀ id link, (heap.pair id).link = some link → (later.pair id).link = some link
  released : ∀ id kind, (heap.pair id).released.get kind = true →
    (later.pair id).released.get kind = true

/-- The heap ages, and nobody's turn to be initialized comes. -/
structure Dozes (heap later : Heap) : Prop extends heap.Ages later where
  initialized : ∀ id, (later.pair id).initialized = (heap.pair id).initialized

/-- The heap ages, nobody's turn comes, and nobody links. -/
structure Idles (heap later : Heap) : Prop extends heap.Dozes later where
  unlinked : ∀ id, (heap.pair id).link = none → (later.pair id).link = none

/-- Pairs keep the names of their classes, and nothing is released. -/
structure Abides (heap later : Heap) : Prop where
  hasPair : ∀ id, heap.HasPair id → later.HasPair id
  name : ∀ id, heap.HasPair id → (later.pair id).name = (heap.pair id).name
  released : ∀ id, (later.pair id).released = (heap.pair id).released

variable {heap later final : Heap}

theorem Ages.refl : heap.Ages heap := ⟨fun _ h => h, fun _ _ => rfl, fun _ _ h => h, fun _ _ h => h⟩

theorem Ages.trans (first : heap.Ages later) (second : later.Ages final) : heap.Ages final where
  hasPair id h := second.hasPair id (first.hasPair id h)
  id id h := (second.id id (first.hasPair id h)).trans (first.id id h)
  link id link h := second.link id link (first.link id link h)
  released id kind h := second.released id kind (first.released id kind h)

theorem Dozes.refl : heap.Dozes heap := ⟨.refl, fun _ => rfl⟩

theorem Dozes.trans (first : heap.Dozes later) (second : later.Dozes final) : heap.Dozes final :=
  ⟨first.toAges.trans second.toAges,
    fun id => (second.initialized id).trans (first.initialized id)⟩

theorem Idles.refl : heap.Idles heap := ⟨.refl, fun _ h => h⟩

theorem Idles.trans (first : heap.Idles later) (second : later.Idles final) : heap.Idles final :=
  ⟨first.toDozes.trans second.toDozes, fun id h => second.unlinked id (first.unlinked id h)⟩

theorem Idles.link_eq (idles : heap.Idles later) (id : PairId) :
    (later.pair id).link = (heap.pair id).link := by
  cases hlink : (heap.pair id).link with
  | none => exact idles.unlinked id hlink
  | some link => exact idles.link id link hlink

theorem Abides.refl : heap.Abides heap := ⟨fun _ h => h, fun _ _ => rfl, fun _ => rfl⟩

theorem Abides.trans (first : heap.Abides later) (second : later.Abides final) :
    heap.Abides final where
  hasPair id h := second.hasPair id (first.hasPair id h)
  name id h := (second.name id (first.hasPair id h)).trans (first.name id h)
  released id := (second.released id).trans (first.released id)

/-- A pair that was not made yet looks like none of the others: it has no link. -/
theorem hasPair_of_link {id : PairId} {link : Link} (hlink : (heap.pair id).link = some link) :
    heap.HasPair id := by
  apply Decidable.byContradiction
  intro hnot
  rw [pair_eq_default hnot] at hlink
  cases hlink

theorem hasPair_of_table? {cls : ClassRef} {table : DispatchTable}
    (htable : heap.table? cls = some table) : heap.HasPair cls.pair := by
  apply Decidable.byContradiction
  intro hnot
  rw [table?, pair_eq_default hnot] at htable
  cases hkind : cls.kind <;>
  · rw [hkind] at htable
    cases htable

theorem Ages.linked (ages : heap.Ages later) {id : PairId} (hlinked : (heap.pair id).link ≠ none) :
    (later.pair id).link ≠ none := by
  obtain ⟨link, hlink⟩ := Option.ne_none_iff_exists'.mp hlinked
  rw [ages.link id link hlink]
  exact Option.some_ne_none link

/-- As long as a class keeps its link, its superclass can only be released. -/
theorem Ages.superclass?_eq (ages : heap.Ages later) {cls above : ClassRef}
    (hlinked : (heap.pair cls.pair).link ≠ none) (habove : later.superclass? cls = some above) :
    heap.superclass? cls = some above := by
  have hheld : ∀ upper : ClassRef, later.unlessReleased upper = some above →
      heap.unlessReleased upper = some above := by
    intro upper hupper
    unfold unlessReleased at hupper ⊢
    split at hupper
    · cases hupper
    · next hkept =>
      rw [if_neg fun hreleased => hkept (ages.released _ _ hreleased)]
      exact hupper
  obtain ⟨link, hlink⟩ := Option.ne_none_iff_exists'.mp hlinked
  obtain ⟨id, kind⟩ := cls
  unfold superclass? at habove ⊢
  rw [hlink]
  rw [ages.link id link hlink] at habove
  cases link with
  | root =>
    cases kind with
    | plain => cases habove
    | metaclass => exact hheld _ habove
  | child parent root => exact hheld _ habove

/-! ### The changes of a heap -/

theorem idles_of_pairs (hpairs : later.pairs = heap.pairs) : heap.Idles later := by
  have hpair := pair_of_pairs hpairs
  have hhas : later.HasPair = heap.HasPair := by
    funext id
    rw [HasPair, HasPair, hpairs]
  refine ⟨⟨⟨?_, ?_, ?_, ?_⟩, ?_⟩, ?_⟩
  · exact fun id h => hhas ▸ h
  · exact fun id _ => by rw [hpair]
  · exact fun id link h => by rw [hpair, h]
  · exact fun id kind h => by rw [hpair, h]
  · exact fun id => by rw [hpair]
  · exact fun id h => by rw [hpair, h]

theorem abides_of_pairs (hpairs : later.pairs = heap.pairs) : heap.Abides later := by
  have same := SameTables.of_pairs hpairs
  exact ⟨same.hasPair, same.name, fun id => by rw [pair_of_pairs hpairs]⟩

theorem abides_modifyPair {id : PairId} {change : ClassPair → ClassPair}
    (hname : ∀ pair, (change pair).name = pair.name)
    (hreleased : ∀ pair, (change pair).released = pair.released) :
    heap.Abides (heap.modifyPair id change) where
  hasPair other h := by
    rw [hasPair_modifyPair]
    exact h
  name other _ := heap.pair_modifyPair_congr ClassPair.name id other hname
  released other := heap.pair_modifyPair_congr ClassPair.released id other hreleased

theorem abides_addPair (id : ClassId) (name : String) (size : UInt32) :
    heap.Abides (heap.addPair id name size).2 where
  hasPair := (heap.sameTables_addPair id name size).hasPair
  name := (heap.sameTables_addPair id name size).name
  released other := by
    rw [pair_addPair]
    split
    · next heq =>
      rw [heq, pair_eq_default (heap.not_hasPair_addPair id name size)]
      rfl
    · rfl

theorem abides_withTables (id : PairId) (plain metaclass : DispatchTable) :
    heap.Abides (heap.withTables id plain metaclass) :=
  abides_modifyPair (fun _ => rfl) fun _ => rfl

theorem abides_setLink (id : PairId) (link : Link) : heap.Abides (heap.setLink id link) :=
  abides_modifyPair (fun _ => rfl) fun _ => rfl

theorem abides_markInitialized (id : PairId) : heap.Abides (heap.markInitialized id) :=
  abides_modifyPair (fun _ => rfl) fun _ => rfl

theorem abides_withdraw (id : PairId) : heap.Abides (heap.withdraw id) := by
  have hwithdrawn : heap.Abides (heap.modifyPair id fun pair => { pair with tables := .both none }) :=
    abides_modifyPair (fun _ => rfl) fun _ => rfl
  exact hwithdrawn.trans (abides_of_pairs rfl)

theorem idles_modifyPair {id : PairId} {change : ClassPair → ClassPair}
    (hid : ∀ pair, (change pair).id = pair.id) (hlink : ∀ pair, (change pair).link = pair.link)
    (hinitialized : ∀ pair, (change pair).initialized = pair.initialized)
    (hreleased : ∀ pair kind, pair.released.get kind = true →
      (change pair).released.get kind = true) : heap.Idles (heap.modifyPair id change) where
  hasPair other h := by
    rw [hasPair_modifyPair]
    exact h
  id other _ := heap.pair_modifyPair_congr ClassPair.id id other hid
  link other link h := (heap.pair_modifyPair_congr ClassPair.link id other hlink).trans h
  released other kind h := by
    rw [pair_modifyPair]
    split
    · exact hreleased _ kind h
    · exact h
  initialized other := heap.pair_modifyPair_congr ClassPair.initialized id other hinitialized
  unlinked other h := (heap.pair_modifyPair_congr ClassPair.link id other hlink).trans h

theorem idles_addPair (id : ClassId) (name : String) (size : UInt32) :
    heap.Idles (heap.addPair id name size).2 := by
  have same := heap.sameTables_addPair id name size
  have hget := heap.pair_addPair id name size
  have hnew := pair_eq_default (heap.not_hasPair_addPair id name size)
  refine ⟨⟨⟨same.hasPair, same.id, ?_, ?_⟩, ?_⟩, ?_⟩
  · intro other link h
    rw [hget, if_neg, h]
    rintro rfl
    exact heap.not_hasPair_addPair id name size (hasPair_of_link h)
  · intro other kind h
    rw [hget, if_neg, h]
    rintro rfl
    rw [hnew] at h
    cases kind <;> cases h
  · intro other
    rw [hget]
    split
    · next heq => rw [heq, hnew]; rfl
    · rfl
  · intro other h
    rw [hget]
    split
    · rfl
    · exact h

theorem idles_withTables (id : PairId) (plain metaclass : DispatchTable) :
    heap.Idles (heap.withTables id plain metaclass) :=
  idles_modifyPair (fun _ => rfl) (fun _ => rfl) (fun _ => rfl) fun _ _ h => h

theorem idles_withdraw (id : PairId) : heap.Idles (heap.withdraw id) := by
  have hwithdrawn : heap.Idles (heap.modifyPair id fun pair => { pair with tables := .both none }) :=
    idles_modifyPair (fun _ => rfl) (fun _ => rfl) (fun _ => rfl) fun _ _ h => h
  exact hwithdrawn.trans (idles_of_pairs rfl)

theorem release_spec (held : List Value) : heap.Idles (heap.release held) ∧
    ∀ id, ((heap.release held).pair id).tables = (heap.pair id).tables := by
  unfold release
  split
  · exact ⟨.refl, fun _ => rfl⟩
  · have hpruned : ∀ (objects : List Object) (ids : List PairId) (start : Heap),
        start.Idles (ids.foldl (releasePair held objects) start) ∧ ∀ id,
          ((ids.foldl (releasePair held objects) start).pair id).tables =
            (start.pair id).tables := by
      intro objects ids
      induction ids with
      | nil => exact fun start => ⟨.refl, fun _ => rfl⟩
      | cons id rest ih =>
        intro start
        have hfirst : start.Idles (releasePair held objects start id) := by
          refine idles_modifyPair (fun _ => rfl) (fun _ => rfl) (fun _ => rfl) ?_
          intro pair kind h
          cases kind <;> exact Bool.or_eq_true_iff.mpr (.inl h)
        obtain ⟨hidles, htables⟩ := ih (releasePair held objects start id)
        refine ⟨hfirst.trans hidles, fun other => (htables other).trans ?_⟩
        exact start.pair_modifyPair_congr ClassPair.tables id other fun _ => rfl
    obtain ⟨hidles, htables⟩ := hpruned (heap.existingObjects held) heap.loose heap
    exact ⟨hidles.trans (idles_of_pairs rfl), htables⟩

/-- Only what was put aside is released, and what is not wholly released stays there. -/
theorem release_loose (held : List Value) :
    (∀ id, id ∈ (heap.release held).loose → id ∈ heap.loose) ∧
      ∀ id, id ∉ heap.loose → (heap.release held).pair id = heap.pair id := by
  unfold release
  split
  · exact ⟨fun _ h => h, fun _ _ => rfl⟩
  · have hpruned : ∀ (objects : List Object) (ids : List PairId) (start : Heap),
        (ids.foldl (releasePair held objects) start).loose = start.loose ∧ ∀ id, id ∉ ids →
          (ids.foldl (releasePair held objects) start).pair id = start.pair id := by
      intro objects ids
      induction ids with
      | nil => exact fun start => ⟨rfl, fun _ _ => rfl⟩
      | cons first rest ih =>
        intro start
        obtain ⟨hloose, hkept⟩ := ih (releasePair held objects start first)
        refine ⟨hloose, ?_⟩
        intro id hid
        rw [List.mem_cons, not_or] at hid
        refine (hkept id hid.2).trans ?_
        exact (start.pair_modifyPair first id _).trans (if_neg fun h => hid.1 h.1.symm)
    obtain ⟨hloose, hkept⟩ := hpruned (heap.existingObjects held) heap.loose heap
    refine ⟨?_, hkept⟩
    intro id hid
    have hmem := (List.mem_filter.mp hid).1
    rwa [hloose] at hmem

theorem pair_setLink (id other : PairId) (link : Link) : (heap.setLink id link).pair other =
    if id = other ∧ heap.HasPair other then { heap.pair other with link := some link }
    else heap.pair other :=
  heap.pair_modifyPair id other _

theorem table?_setLink (id other : PairId) (link : Link) (kind : ClassKind) :
    (heap.setLink id link).table? ⟨other, kind⟩ = heap.table? ⟨other, kind⟩ := by
  rw [table?, pair_setLink]
  split <;> rfl

theorem dozes_setLink {id : PairId} (hnone : (heap.pair id).link = none) (link : Link) :
    heap.Dozes (heap.setLink id link) where
  hasPair other h := by
    rw [setLink, hasPair_modifyPair]
    exact h
  id other _ := heap.pair_modifyPair_congr ClassPair.id id other fun _ => rfl
  link other known h := by
    rw [pair_setLink, if_neg, h]
    rintro ⟨rfl, -⟩
    rw [hnone] at h
    cases h
  released other kind h := by
    rw [pair_setLink]
    split <;> exact h
  initialized other := heap.pair_modifyPair_congr ClassPair.initialized id other fun _ => rfl

theorem pair_markInitialized (id other : PairId) : (heap.markInitialized id).pair other =
    if id = other ∧ heap.HasPair other then { heap.pair other with initialized := true }
    else heap.pair other :=
  heap.pair_modifyPair id other _

theorem table?_markInitialized (id : PairId) (cls : ClassRef) :
    (heap.markInitialized id).table? cls = heap.table? cls := by
  rw [table?, pair_markInitialized]
  split <;> rfl

theorem link_markInitialized (id other : PairId) :
    ((heap.markInitialized id).pair other).link = (heap.pair other).link := by
  rw [pair_markInitialized]
  split <;> rfl

theorem ages_markInitialized (id : PairId) : heap.Ages (heap.markInitialized id) where
  hasPair other h := by
    rw [markInitialized, hasPair_modifyPair]
    exact h
  id other _ := heap.pair_modifyPair_congr ClassPair.id id other fun _ => rfl
  link other link h := by
    rw [link_markInitialized, h]
  released other kind h := by
    rw [pair_markInitialized]
    split <;> exact h

theorem initialized_markInitialized {id : PairId} (hid : heap.HasPair id) (other : PairId) :
    ((heap.markInitialized id).pair other).initialized = true ↔
      other = id ∨ (heap.pair other).initialized = true := by
  rw [pair_markInitialized]
  by_cases heq : id = other
  · subst heq
    rw [if_pos ⟨rfl, hid⟩]
    exact ⟨fun _ => .inl rfl, fun _ => rfl⟩
  · rw [if_neg fun h => heq h.1, or_iff_right (Ne.symm heq)]

end LateBinding.Heap
