import LateBinding.Proofs.Registry.Frames

/-!
# Breadth first

Classes link in the order of a queue at whose end the waiters of each class that links are put. So
they link level by level: first the class that is registered, then its waiters, then the waiters of
these, and so on. Who waits for a class is what was waiting before the first one linked, for nobody
else takes a waiting list away. The waiters of one class stand in the order in which they were
registered.
-/

namespace LateBinding

/-! ### Working off a queue -/

/-- A queue is worked off, and what comes next after each is put at its end. -/
inductive Breadth {α : Type} (next : α → List α) : List α → List α → Prop
  | done : Breadth next [] []
  | visit {item : α} {queue order : List α} (rest : Breadth next (queue ++ next item) order) :
      Breadth next (item :: queue) (item :: order)

/-- What is that many steps away from a list. -/
def generation {α : Type} (next : α → List α) (list : List α) : Nat → List α
  | 0 => list
  | distance + 1 => (generation next list distance).flatMap next

section

variable {α : Type} {next other : α → List α} {queue order : List α}

theorem generation_flatMap (list : List α) (distance : Nat) :
    generation next (list.flatMap next) distance = generation next list (distance + 1) := by
  induction distance with
  | zero => rfl
  | succ distance ih => exact congrArg (List.flatMap next) ih

theorem Breadth.congr (breadth : Breadth next queue order)
    (hsame : ∀ item ∈ order, next item = other item) : Breadth other queue order := by
  induction breadth with
  | done => exact .done
  | visit _ ih =>
    rw [List.forall_mem_cons] at hsame
    have rest := ih hsame.2
    rw [hsame.1] at rest
    exact .visit rest

/-- What stands in the queue is visited before what is put at its end. -/
theorem Breadth.through {first second : List α} (breadth : Breadth next (first ++ second) order) :
    ∃ rest, order = first ++ rest ∧ Breadth next (second ++ first.flatMap next) rest := by
  induction first generalizing second order with
  | nil => exact ⟨order, rfl, by simpa using breadth⟩
  | cons item first ih =>
    rw [List.cons_append] at breadth
    cases breadth with
    | visit rest =>
      rw [List.append_assoc] at rest
      obtain ⟨later, rfl, breadth⟩ := ih rest
      exact ⟨later, rfl, by simpa using breadth⟩

theorem Breadth.levels (breadth : Breadth next queue order) : ∃ depth,
    order = (List.range depth).flatMap (generation next queue) ∧
      generation next queue depth = [] := by
  induction hlength : order.length using Nat.strongRecOn generalizing queue order with
  | ind length ih =>
    cases queue with
    | nil =>
      cases breadth
      exact ⟨0, rfl, rfl⟩
    | cons item queue =>
      have whole : Breadth next (item :: queue ++ []) order := by rwa [List.append_nil]
      obtain ⟨rest, rfl, later⟩ := whole.through
      obtain ⟨depth, hrest, hnone⟩ := ih rest.length (by simp at hlength; omega) later rfl
      refine ⟨depth + 1, ?_, (generation_flatMap _ _).symm.trans hnone⟩
      rw [List.range_succ_eq_map, List.flatMap_cons, List.flatMap_map, hrest]
      exact congrArg (_ ++ ·) (List.flatMap_congr fun distance _ => generation_flatMap _ _)

end

namespace Registry

variable {registry : Registry}

/-- The classes that wait for a registered class. -/
def waitersFor (registry : Registry) (id : ClassId) : List ClassId :=
  (registry.record? id).elim [] fun record => registry.waitersOf record.name

/-- Whoever waits for the same class stands in the order in which they were registered. -/
def InTurn (registry : Registry) : Prop :=
  ∀ name, (registry.waitersOf name).Pairwise fun first second => first.index < second.index

theorem InTurn.of_waitersOf {changed : Registry} (inTurn : registry.InTurn)
    (hwaiters : changed.waitersOf = registry.waitersOf) : changed.InTurn := by
  intro name
  rw [hwaiters]
  exact inTurn name

end Registry

namespace Classes

open Registry

variable {start final : Classes} {queue order : List ClassId}

/-! ### Whose turn it is -/

theorem Cascade.inTurn (cascade : start.Cascade queue order final)
    (inTurn : start.registry.InTurn) : final.registry.InTurn := by
  induction cascade with
  | done => exact inTurn
  | @link start linked final id queue order record superclass links _ ih =>
    apply ih
    intro name
    rw [released, waitersOf_releaseWaiters, links.waitersOf_eq]
    split
    · exact .nil
    · exact inTurn name

/-- The class comes after all that were registered before. -/
theorem Registers.inTurn {definition : ClassDefinition}
    (registers : start.Registers definition order final)
    (consistent : start.registry.Consistent []) (inTurn : start.registry.InTurn) :
    final.registry.InTurn := by
  cases registers with
  | links _ cascade => exact cascade.inTurn (inTurn.of_waitersOf rfl)
  | @waits awaited superclass unlinked =>
    intro name
    rw [waitersOf_await]
    split
    · refine List.pairwise_append.mpr ⟨inTurn name, List.pairwise_singleton _ _, ?_⟩
      intro waiter hwaiter new hnew
      obtain ⟨standing, hstanding, -⟩ := consistent.waiter name waiter hwaiter
      obtain ⟨record, hrecord, -⟩ := Option.map_eq_some_iff.mp hstanding
      rw [List.mem_singleton.mp hnew]
      exact start.registry.index_lt_of_record? hrecord
    · exact inTurn name

theorem Alters.inTurn {id : ClassId} {old new : Record} (alters : start.Alters id old new final)
    (inTurn : start.registry.InTurn) : final.registry.InTurn := by
  refine inTurn.of_waitersOf ?_
  rw [alters.rebuilds.registry_eq]
  rfl

theorem Removal.inTurn {stack : List ClassId} {pairs : List PairId}
    (removal : start.Removal stack pairs final) (inTurn : start.registry.InTurn) :
    final.registry.InTurn := by
  induction removal with
  | done => exact inTurn
  | skip _ _ ih => exact ih inTurn
  | @remove start final id stack pairs record _ _ ih =>
    apply ih
    intro name
    rw [without, waitersOf_takeOut]
    split
    · exact .nil
    · split
      · exact (inTurn name).filter _
      · exact inTurn name

/-! ### What links first -/

/-- The next class of a queue is linked and releases those that wait for it. They wait for it since
before the first one linked, for no other class has its name. -/
theorem Cascade.breadth {next : ClassId → List ClassId}
    (cascade : start.Cascade queue order final)
    (consistent : start.registry.Consistent queue) (ready : start.registry.Ready queue)
    (hnext : ∀ id record, start.registry.record? id = some record → record.state = .pending →
      next id = start.registry.waitersOf record.name) : Breadth next queue order := by
  induction cascade with
  | done => exact .done
  | @link start linked final id queue order record superclass links _ ih =>
    have hwaiters : next id = linked.registry.waitersOf record.name := by
      rw [links.waitersOf_eq]
      exact hnext id record links.registered links.pending
    rw [← hwaiters] at ih
    refine .visit (ih ?_ ?_ ?_)
    · rw [hwaiters]
      exact links.consistent consistent ready
    · rw [hwaiters]
      exact links.ready consistent ready
    · intro other own hown hpending
      rw [released, record?_releaseWaiters, links.registry_eq] at hown
      change (start.registry.markLinked id superclass).record? other = some own at hown
      have hstanding := standing?_of_record hown
      rw [start.registry.standing?_markLinked links.ne] at hstanding
      obtain ⟨before, hbefore, hsame⟩ := Option.map_eq_some_iff.mp hstanding
      obtain ⟨old, hold, rfl⟩ := Option.map_eq_some_iff.mp hbefore
      have hname : old.name = own.name := congrArg Standing.name hsame
      have hstate := (congrArg Standing.state hsame).trans hpending
      have hne : id ≠ other := by
        intro heq
        dsimp only at hstate
        rw [if_pos heq] at hstate
        cases hstate
      dsimp only at hstate
      rw [if_neg hne] at hstate
      have hnames : record.name ≠ own.name := fun heq =>
        hne (consistent.id_unique links.standing hbefore (heq.trans hname.symm))
      rw [released, waitersOf_releaseWaiters, if_neg hnames, links.waitersOf_eq, ← hname]
      exact hnext other old hold hstate

/-- The class that is registered links first, then its waiters and theirs, as they waited before. -/
theorem Registers.breadth {definition : ClassDefinition}
    (registers : start.Registers definition order final)
    (consistent : start.registry.Consistent [])
    (free : start.registry.idOf? definition.name = none) :
    order = [] ∨ ∃ others, order = start.registry.nextId :: others ∧
      Breadth start.registry.waitersFor (start.registry.waitersOf definition.name) others := by
  have hnodup := registers.links_once.1
  cases registers with
  | waits => exact .inl rfl
  | links ready cascade =>
    have hentered : (start.entered definition).registry.Consistent [start.registry.nextId] :=
      consistent.addRecord free rfl rfl
    have hwaiters : ∀ id record, (start.entered definition).registry.record? id = some record →
        record.state = .pending → (start.entered definition).registry.waitersFor id =
          (start.entered definition).registry.waitersOf record.name := by
      intro id record hrecord _
      rw [waitersFor, hrecord]
      rfl
    have breadth := cascade.breadth hentered ready hwaiters
    have hrecords : ∀ id, (start.entered definition).registry.record? id =
        if start.registry.nextId = id then some (start.newRecord definition)
        else start.registry.record? id := start.registry.record?_addRecord _
    cases breadth with
    | visit rest =>
      rw [List.nil_append, waitersFor, hrecords, if_pos rfl] at rest
      refine .inr ⟨_, rfl, rest.congr fun id hid => ?_⟩
      have hne : start.registry.nextId ≠ id := fun heq =>
        (List.nodup_cons.mp hnodup).1 (heq ▸ hid)
      rw [waitersFor, waitersFor, hrecords, if_neg hne]
      rfl

end Classes

end LateBinding
