import LateBinding.Heap.Release

/-!
# What a heap shows of its pairs after a change

The pairs of a heap are changed one at a time, and only a new class adds one.
-/

namespace LateBinding.Heap

variable (heap : Heap)

/-- Whether a pair was ever made. -/
def HasPair (id : PairId) : Prop := id.index < heap.pairs.size

instance (id : PairId) : Decidable (heap.HasPair id) :=
  inferInstanceAs (Decidable (id.index < heap.pairs.size))

variable {heap} in
theorem pair_of_pairs {other : Heap} (hpairs : other.pairs = heap.pairs) :
    other.pair = heap.pair := by
  funext id
  rw [pair, pair, hpairs]

variable {heap} in
theorem pair_eq_default {id : PairId} (hid : ¬ heap.HasPair id) : heap.pair id = default := by
  unfold pair HasPair at *
  rw [Array.getD, dif_neg hid]

theorem pair_modifyPair (id other : PairId) (change : ClassPair → ClassPair) :
    (heap.modifyPair id change).pair other =
      if id = other ∧ heap.HasPair other then change (heap.pair other) else heap.pair other := by
  unfold pair modifyPair HasPair
  by_cases hin : other.index < heap.pairs.size
  · by_cases heq : id = other
    · subst heq
      simp [Array.getD, hin, Array.getElem_modify]
    · have hindex : id.index ≠ other.index := by
        intro h
        exact heq (congrArg PairId.mk h)
      simp [Array.getD, hin, heq, Array.getElem_modify, hindex]
  · simp [Array.getD, hin]

@[simp] theorem hasPair_modifyPair (id : PairId) (change : ClassPair → ClassPair) :
    (heap.modifyPair id change).HasPair = heap.HasPair := by
  funext other
  simp [HasPair, modifyPair]

theorem pair_modifyPair_congr {α : Type} (part : ClassPair → α) (id other : PairId)
    {change : ClassPair → ClassPair} (hchange : ∀ pair, part (change pair) = part pair) :
    part ((heap.modifyPair id change).pair other) = part (heap.pair other) := by
  rw [pair_modifyPair]
  split
  · exact hchange _
  · rfl

theorem modifyPair_modifyPair (id : PairId) (first second : ClassPair → ClassPair) :
    (heap.modifyPair id first).modifyPair id second = heap.modifyPair id (second ∘ first) := by
  unfold modifyPair
  congr 1
  apply Array.ext
  · simp
  · intro index hleft hright
    simp only [Array.getElem_modify]
    split <;> rfl

theorem pair_addPair (id : ClassId) (name : String) (size : UInt32) (other : PairId) :
    (heap.addPair id name size).2.pair other =
      if other = (heap.addPair id name size).1 then .fresh id name size else heap.pair other := by
  have hiff : other = ⟨heap.pairs.size⟩ ↔ other.index = heap.pairs.size := by
    cases other
    simp
  simp only [addPair, pair, hiff, Array.getD_eq_getD_getElem?, Array.getElem?_push]
  split <;> rfl

theorem hasPair_addPair (id : ClassId) (name : String) (size : UInt32) (other : PairId) :
    (heap.addPair id name size).2.HasPair other ↔
      heap.HasPair other ∨ other = (heap.addPair id name size).1 := by
  have hiff : other = ⟨heap.pairs.size⟩ ↔ other.index = heap.pairs.size := by
    cases other
    simp
  simp only [HasPair, addPair, Array.size_push, hiff]
  omega

theorem not_hasPair_addPair (id : ClassId) (name : String) (size : UInt32) :
    ¬ heap.HasPair (heap.addPair id name size).1 := by
  simp [HasPair, addPair]

def withTables (id : PairId) (plain metaclass : DispatchTable) : Heap :=
  heap.modifyPair id fun pair => { pair with tables := ⟨some plain, some metaclass⟩ }

theorem publish_publish (id : PairId) (plain metaclass : DispatchTable) :
    (heap.publish ⟨id, .plain⟩ plain).publish ⟨id, .metaclass⟩ metaclass =
      heap.withTables id plain metaclass := by
  unfold publish withTables
  rw [modifyPair_modifyPair]
  rfl

theorem table?_publish_plain (id other : PairId) (table : DispatchTable) :
    (heap.publish ⟨id, .plain⟩ table).table? ⟨other, .metaclass⟩ =
      heap.table? ⟨other, .metaclass⟩ :=
  heap.pair_modifyPair_congr (fun pair => pair.tables.get .metaclass) id other fun _ => rfl

theorem table?_withTables_self {id : PairId} (hid : heap.HasPair id)
    (plain metaclass : DispatchTable) (kind : ClassKind) :
    (heap.withTables id plain metaclass).table? ⟨id, kind⟩ =
      some (Sided.get ⟨plain, metaclass⟩ kind) := by
  rw [table?, withTables, pair_modifyPair, if_pos ⟨rfl, hid⟩]
  cases kind <;> rfl

theorem table?_withTables_of_ne {id other : PairId} (hne : id ≠ other)
    (plain metaclass : DispatchTable) (kind : ClassKind) :
    (heap.withTables id plain metaclass).table? ⟨other, kind⟩ = heap.table? ⟨other, kind⟩ := by
  have hnot : ¬ (id = other ∧ heap.HasPair other) := fun h => hne h.1
  rw [table?, withTables, pair_modifyPair, if_neg hnot]
  rfl

/-! ### Changes that leave the pairs alone -/

/-- Whatever pairs there are stay, with the numbers and names of their classes. -/
structure SamePairs (heap other : Heap) : Prop where
  hasPair : ∀ id, heap.HasPair id → other.HasPair id
  id : ∀ id, heap.HasPair id → (other.pair id).id = (heap.pair id).id
  name : ∀ id, heap.HasPair id → (other.pair id).name = (heap.pair id).name

theorem samePairs_modifyPair (id : PairId) {change : ClassPair → ClassPair}
    (hid : ∀ pair, (change pair).id = pair.id) (hname : ∀ pair, (change pair).name = pair.name) :
    heap.SamePairs (heap.modifyPair id change) where
  hasPair other hother := by
    rw [hasPair_modifyPair]
    exact hother
  id other _ := heap.pair_modifyPair_congr ClassPair.id id other hid
  name other _ := heap.pair_modifyPair_congr ClassPair.name id other hname

theorem samePairs_withTables (id : PairId) (plain metaclass : DispatchTable) :
    heap.SamePairs (heap.withTables id plain metaclass) :=
  heap.samePairs_modifyPair id (fun _ => rfl) fun _ => rfl

/-! ### Changes that leave the tables alone -/

/-- Whatever pairs there are stay, with the numbers and names of their classes, and every class has
the table it had. -/
structure SameTables (heap other : Heap) : Prop where
  hasPair : ∀ id, heap.HasPair id → other.HasPair id
  id : ∀ id, heap.HasPair id → (other.pair id).id = (heap.pair id).id
  name : ∀ id, heap.HasPair id → (other.pair id).name = (heap.pair id).name
  table?_eq : ∀ cls, other.table? cls = heap.table? cls

variable {heap} in
theorem SameTables.samePairs {other : Heap} (same : heap.SameTables other) :
    heap.SamePairs other :=
  ⟨same.hasPair, same.id, same.name⟩

variable {heap} in
theorem SameTables.refl : heap.SameTables heap where
  hasPair _ hid := hid
  id _ _ := rfl
  name _ _ := rfl
  table?_eq _ := rfl

variable {heap} in
theorem SameTables.trans {other third : Heap} (first : heap.SameTables other)
    (second : other.SameTables third) : heap.SameTables third where
  hasPair id hid := second.hasPair id (first.hasPair id hid)
  id id hid := (second.id id (first.hasPair id hid)).trans (first.id id hid)
  name id hid := (second.name id (first.hasPair id hid)).trans (first.name id hid)
  table?_eq cls := (second.table?_eq cls).trans (first.table?_eq cls)

theorem sameTables_modifyPair (id : PairId) {change : ClassPair → ClassPair}
    (hid : ∀ pair, (change pair).id = pair.id) (hname : ∀ pair, (change pair).name = pair.name)
    (htables : ∀ pair, (change pair).tables = pair.tables) :
    heap.SameTables (heap.modifyPair id change) := by
  have same := heap.samePairs_modifyPair id hid hname
  refine ⟨same.hasPair, same.id, same.name, ?_⟩
  intro cls
  exact congrArg (Sided.get · cls.kind)
    (heap.pair_modifyPair_congr ClassPair.tables id cls.pair htables)

variable {heap} in
theorem SameTables.of_pairs {other : Heap} (hpairs : other.pairs = heap.pairs) :
    heap.SameTables other := by
  have hpair := pair_of_pairs hpairs
  constructor
  · intro id hid
    rw [HasPair, hpairs]
    exact hid
  · intro id _
    rw [hpair]
  · intro id _
    rw [hpair]
  · intro cls
    rw [table?, table?, hpair]

theorem sameTables_setLink (id : PairId) (link : Link) : heap.SameTables (heap.setLink id link) :=
  heap.sameTables_modifyPair id (fun _ => rfl) (fun _ => rfl) fun _ => rfl

theorem sameTables_markInitialized (id : PairId) : heap.SameTables (heap.markInitialized id) :=
  heap.sameTables_modifyPair id (fun _ => rfl) (fun _ => rfl) fun _ => rfl

@[simp] theorem objects_release (held : List Value) :
    (heap.release held).objects = heap.objects := by
  unfold release
  split
  · rfl
  · have hpairs : ∀ (ids : List PairId) (objects : List Object) (start : Heap),
        (ids.foldl (releasePair held objects) start).objects = start.objects := by
      intro ids objects start
      induction ids generalizing start with
      | nil => rfl
      | cons id rest ih => exact ih _
    exact hpairs _ _ heap

/-- Handles that nobody holds lose nothing but what they refer to. -/
theorem sameTables_release (held : List Value) : heap.SameTables (heap.release held) := by
  unfold release
  split
  · exact .refl
  · have hpruned : ∀ (objects : List Object) (ids : List PairId) (start : Heap),
        start.SameTables (ids.foldl (releasePair held objects) start) := by
      intro objects ids
      induction ids with
      | nil => exact fun start => .refl
      | cons id rest ih =>
        intro start
        have hfirst : start.SameTables (releasePair held objects start id) :=
          start.sameTables_modifyPair id (fun _ => rfl) (fun _ => rfl) fun _ => rfl
        exact hfirst.trans (ih _)
    exact (hpruned _ _ heap).trans (.of_pairs rfl)

theorem sameTables_addPair (id : ClassId) (name : String) (size : UInt32) :
    heap.SameTables (heap.addPair id name size).2 := by
  have hkept : ∀ other, heap.HasPair other →
      (heap.addPair id name size).2.pair other = heap.pair other := by
    intro other hother
    rw [pair_addPair, if_neg]
    intro heq
    subst heq
    exact heap.not_hasPair_addPair id name size hother
  constructor
  · intro other hother
    rw [hasPair_addPair]
    exact .inl hother
  · intro other hother
    rw [hkept other hother]
  · intro other hother
    rw [hkept other hother]
  · intro cls
    by_cases hnew : cls.pair = (heap.addPair id name size).1
    · have hbefore : heap.table? cls = none := by
        rw [table?, hnew, pair_eq_default (heap.not_hasPair_addPair id name size)]
        exact Sided.get_both none cls.kind
      rw [hbefore, table?, hnew, pair_addPair_fst]
      exact Sided.get_both none cls.kind
    · rw [table?, pair_addPair, if_neg hnew]
      rfl

/-! ### Withdrawing a pair -/

theorem samePairs_withdraw (id : PairId) : heap.SamePairs (heap.withdraw id) := by
  have same : heap.SamePairs (heap.modifyPair id fun pair => { pair with tables := .both none }) :=
    heap.samePairs_modifyPair id (fun _ => rfl) fun _ => rfl
  exact ⟨same.hasPair, same.id, same.name⟩

theorem table?_withdraw_of_ne {id other : PairId} (hne : id ≠ other) (kind : ClassKind) :
    (heap.withdraw id).table? ⟨other, kind⟩ = heap.table? ⟨other, kind⟩ := by
  have hpair : (heap.withdraw id).pair other = heap.pair other :=
    (heap.pair_modifyPair id other _).trans (if_neg fun h => hne h.1)
  rw [table?, hpair]
  rfl

theorem table?_withdraw_self (id : PairId) (kind : ClassKind) :
    (heap.withdraw id).table? ⟨id, kind⟩ = none := by
  have hpair : (heap.withdraw id).pair id =
      (heap.modifyPair id fun pair => { pair with tables := .both none }).pair id := rfl
  rw [table?, hpair, pair_modifyPair]
  split
  · cases kind <;> rfl
  · next hnot =>
    rw [pair_eq_default fun hid => hnot ⟨rfl, hid⟩]
    cases kind <;> rfl

end LateBinding.Heap
