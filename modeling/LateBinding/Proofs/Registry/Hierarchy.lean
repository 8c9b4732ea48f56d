import LateBinding.Proofs.Registry.Counting
import LateBinding.Registry.Tables
import Mathlib.Logic.Relation

/-!
# The hierarchy of the linked classes

The linked classes form trees: each has at most one superclass, which is linked, and no class is
above itself. So the classes below a class are visited breadth first, each once, and the chain above
a class comes to an end at a root.
-/

namespace LateBinding

theorem Record.superclass?_eq_some_iff (record : Record) (parent : ClassId) :
    record.superclass? = some parent ↔ record.standing.state = .linked (some parent) := by
  unfold superclass? standing
  cases record.state with
  | pending => simp
  | linked superclass => simp

theorem Record.ne_pending_of_linked {record : Record} {superclass : Option ClassId}
    (linked : record.state = .linked superclass) : record.state ≠ .pending := by
  intro hpending
  cases linked.symm.trans hpending

theorem Record.superclass?_congr {after before : Record} (hstate : after.state = before.state) :
    after.superclass? = before.superclass? := by
  unfold superclass?
  rw [hstate]

namespace Registry

def IsBelow (registry : Registry) (child parent : ClassId) : Prop :=
  ∃ record, registry.record? child = some record ∧ record.superclass? = some parent

/-- The linked classes form trees, and each class lists those right below it. -/
structure Hierarchy (registry : Registry) : Prop where
  above : ∀ child parent, registry.IsBelow child parent →
    ∃ above, registry.record? parent = some above ∧ above.state ≠ .pending
  ranked : ∃ rank : ClassId → Nat, ∀ child parent, registry.IsBelow child parent →
    rank parent < rank child
  subclasses : ∀ id record, registry.record? id = some record → record.subclasses.Nodup ∧
    ∀ child, child ∈ record.subclasses ↔ registry.IsBelow child id

variable {registry : Registry}

theorem isBelow_iff {child parent : ClassId} : registry.IsBelow child parent ↔
    ∃ lower, registry.standing? child = some lower ∧ lower.state = .linked (some parent) := by
  constructor
  · intro h
    obtain ⟨record, hrecord, hparent⟩ := h
    exact ⟨record.standing, standing?_of_record hrecord,
      (record.superclass?_eq_some_iff parent).mp hparent⟩
  · intro h
    obtain ⟨lower, hlower, hlinked⟩ := h
    obtain ⟨record, hrecord, rfl⟩ := Option.map_eq_some_iff.mp hlower
    exact ⟨record, hrecord, (record.superclass?_eq_some_iff parent).mpr hlinked⟩

theorem IsBelow.unique {child parent other : ClassId} (hbelow : registry.IsBelow child parent)
    (hother : registry.IsBelow child other) : parent = other := by
  obtain ⟨record, hrecord, hparent⟩ := hbelow
  obtain ⟨record', hrecord', hparent'⟩ := hother
  rw [hrecord] at hrecord'
  cases hrecord'
  rw [hparent] at hparent'
  exact Option.some.inj hparent'

/-- As long as no loose class is linked the linked ones form trees. -/
theorem Consistent.hierarchy {loose : List ClassId} (consistent : registry.Consistent loose)
    (hloose : ∀ id ∈ loose, ∀ standing, registry.standing? id = some standing →
      standing.state = .pending) : registry.Hierarchy where
  above := by
    intro child parent hbelow
    obtain ⟨lower, hlower, hlinked⟩ := isBelow_iff.mp hbelow
    have hnotLoose : child ∉ loose := by
      intro hmem
      rw [hloose child hmem lower hlower] at hlinked
      cases hlinked
    obtain ⟨above, habove, haboveLinked, -⟩ :=
      consistent.linked child lower _ hlower hlinked hnotLoose
    obtain ⟨record, hrecord, rfl⟩ := Option.map_eq_some_iff.mp habove
    exact ⟨record, hrecord, haboveLinked⟩
  ranked := by
    obtain ⟨rank, hrank⟩ := consistent.ranked
    refine ⟨rank, ?_⟩
    intro child parent hbelow
    obtain ⟨lower, hlower, hlinked⟩ := isBelow_iff.mp hbelow
    exact hrank child lower parent hlower hlinked
  subclasses := by
    intro id record hrecord
    have hstanding := standing?_of_record hrecord
    refine ⟨consistent.subclassesNodup id _ hstanding, ?_⟩
    intro child
    exact (consistent.subclasses id _ child hstanding).trans isBelow_iff.symm

/-- The class above a linked class has the name that the class was declared with. -/
theorem Consistent.superclassName_eq (consistent : registry.Consistent []) {id : ClassId}
    {record : Record} (hrecord : registry.record? id = some record) :
    (record.state = .linked none → record.superclassName = none) ∧
      ∀ parent above, record.state = .linked (some parent) →
        registry.record? parent = some above → record.superclassName = some above.name := by
  have hstanding := standing?_of_record hrecord
  constructor
  · intro htop
    exact consistent.linked id _ none hstanding htop List.not_mem_nil
  · intro parent above hlinked habove
    obtain ⟨upper, hupper, -, hname⟩ :=
      consistent.linked id _ (some parent) hstanding hlinked List.not_mem_nil
    cases (standing?_of_record habove).symm.trans hupper
    exact hname

theorem isBelow_congr {changed : Registry} (hrecord : changed.record? = registry.record?) :
    changed.IsBelow = registry.IsBelow := by
  funext child parent
  simp only [IsBelow, hrecord]

theorem Hierarchy.transfer {changed : Registry} (hierarchy : registry.Hierarchy)
    (hrecord : changed.record? = registry.record?) : changed.Hierarchy where
  above := by
    rw [isBelow_congr hrecord, hrecord]
    exact hierarchy.above
  ranked := by
    rw [isBelow_congr hrecord]
    exact hierarchy.ranked
  subclasses := by
    rw [isBelow_congr hrecord, hrecord]
    exact hierarchy.subclasses

theorem Hierarchy.acyclic (hierarchy : registry.Hierarchy) (id : ClassId) :
    ¬ Relation.TransGen registry.IsBelow id id := by
  obtain ⟨rank, hrank⟩ := hierarchy.ranked
  have hdecreases : ∀ child parent, Relation.TransGen registry.IsBelow child parent →
      rank parent < rank child := by
    intro child parent hpath
    induction hpath with
    | single hbelow => exact hrank child _ hbelow
    | tail _ hbelow ih => exact Nat.lt_trans (hrank _ _ hbelow) ih
  intro hcycle
  exact Nat.lt_irrefl _ (hdecreases id id hcycle)

/-- Whoever stands in a list along with its superclass stands behind it. -/
def SuperclassesFirst (registry : Registry) (order : List ClassId) : Prop :=
  ∀ front id back parent, order = front ++ id :: back → registry.IsBelow id parent →
    parent ∈ order → parent ∈ front

theorem Hierarchy.superclassesFirst (hierarchy : registry.Hierarchy) {order : List ClassId}
    (sorted : order.Pairwise fun earlier later => ¬ registry.IsBelow earlier later) :
    registry.SuperclassesFirst order := by
  intro front id back parent heq hbelow hparent
  rw [heq] at sorted hparent
  rcases List.mem_append.mp hparent with hfront | hback
  · exact hfront
  · rcases List.mem_cons.mp hback with rfl | hlater
    · exact absurd (.single hbelow) (hierarchy.acyclic parent)
    · obtain ⟨-, htail, -⟩ := List.pairwise_append.mp sorted
      exact absurd hbelow ((List.pairwise_cons.mp htail).1 parent hlater)

/-! ### Below a class -/

def children (registry : Registry) (id : ClassId) : List ClassId :=
  (registry.record? id).elim [] (·.subclasses)

/-- A queue of classes and all below them are visited breadth first. -/
inductive Explores (registry : Registry) : List ClassId → List ClassId → Prop
  | done : Explores registry [] []
  | visit {id : ClassId} {queue order : List ClassId}
      (rest : Explores registry (queue ++ registry.children id) order) :
      Explores registry (id :: queue) (id :: order)

/-- What is known of the classes visited and queued on the way down from a class. -/
structure Exploring (registry : Registry) (rank : ClassId → Nat) (top : ClassId)
    (visited queue : List ClassId) : Prop where
  nodup : (visited ++ queue).Nodup
  registered : ∀ id ∈ visited ++ queue, ∃ record, registry.record? id = some record
  reached : ∀ id ∈ visited ++ queue, id = top ∨ ∃ parent ∈ visited, registry.IsBelow id parent
  lower : ∀ id ∈ visited ++ queue, rank top ≤ rank id

theorem Hierarchy.mem_children (hierarchy : registry.Hierarchy) {id : ClassId} (child : ClassId)
    (hid : ∃ record, registry.record? id = some record) :
    child ∈ registry.children id ↔ registry.IsBelow child id := by
  obtain ⟨record, hrecord⟩ := hid
  rw [children, hrecord]
  exact (hierarchy.subclasses id record hrecord).2 child

theorem Hierarchy.isBelow_of_mem_children (hierarchy : registry.Hierarchy) {id child : ClassId}
    (hchild : child ∈ registry.children id) : registry.IsBelow child id := by
  cases hrecord : registry.record? id with
  | none =>
    rw [children, hrecord] at hchild
    cases hchild
  | some record => exact (hierarchy.mem_children child ⟨record, hrecord⟩).mp hchild

theorem Hierarchy.nodup_children (hierarchy : registry.Hierarchy) (id : ClassId) :
    (registry.children id).Nodup := by
  unfold children
  cases hrecord : registry.record? id with
  | none => exact List.nodup_nil
  | some record => exact (hierarchy.subclasses id record hrecord).1

/-- The next class of the queue is visited. None of the classes right below it was met before. -/
theorem Exploring.visit {rank : ClassId → Nat} {top id : ClassId} {visited queue : List ClassId}
    (hierarchy : registry.Hierarchy)
    (hrank : ∀ child parent, registry.IsBelow child parent → rank parent < rank child)
    (exploring : registry.Exploring rank top visited (id :: queue)) :
    registry.Exploring rank top (visited ++ [id]) (queue ++ registry.children id) := by
  have hid : id ∈ visited ++ id :: queue := List.mem_append_right _ List.mem_cons_self
  have hregistered := exploring.registered id hid
  have hassoc : visited ++ [id] ++ (queue ++ registry.children id) =
      (visited ++ id :: queue) ++ registry.children id := by
    simp
  have hnew : ∀ child ∈ registry.children id, child ∉ visited ++ id :: queue := by
    intro child hchild hmet
    have hbelow := (hierarchy.mem_children child hregistered).mp hchild
    rcases exploring.reached child hmet with rfl | ⟨parent, hparent, hother⟩
    · exact Nat.not_lt.mpr (exploring.lower id hid) (hrank child id hbelow)
    · rw [← hbelow.unique hother] at hparent
      exact (List.nodup_append.mp exploring.nodup).2.2 id hparent id List.mem_cons_self rfl
  constructor
  · rw [hassoc]
    refine List.nodup_append.mpr ⟨exploring.nodup, hierarchy.nodup_children id, ?_⟩
    intro first hfirst _ hsecond heq
    subst heq
    exact hnew first hsecond hfirst
  · rw [hassoc]
    intro other hother
    rcases List.mem_append.mp hother with hold | hchild
    · exact exploring.registered other hold
    · obtain ⟨record, hrecord, -⟩ := (hierarchy.mem_children other hregistered).mp hchild
      exact ⟨record, hrecord⟩
  · rw [hassoc]
    intro other hother
    rcases List.mem_append.mp hother with hold | hchild
    · rcases exploring.reached other hold with heq | ⟨parent, hparent, hbelow⟩
      · exact .inl heq
      · exact .inr ⟨parent, List.mem_append_left _ hparent, hbelow⟩
    · exact .inr ⟨id, List.mem_append_right _ (List.mem_singleton.mpr rfl),
        (hierarchy.mem_children other hregistered).mp hchild⟩
  · rw [hassoc]
    intro other hother
    rcases List.mem_append.mp hother with hold | hchild
    · exact exploring.lower other hold
    · have hbelow := (hierarchy.mem_children other hregistered).mp hchild
      exact Nat.le_trans (exploring.lower id hid) (Nat.le_of_lt (hrank other id hbelow))

/-- The bound on the number of visits is never met. -/
theorem Exploring.explores {rank : ClassId → Nat} {top : ClassId} {visited queue : List ClassId}
    {fuel : Nat} (hierarchy : registry.Hierarchy)
    (hrank : ∀ child parent, registry.IsBelow child parent → rank parent < rank child)
    (exploring : registry.Exploring rank top visited queue)
    (hfuel : registry.ids.length ≤ visited.length + fuel) :
    registry.Explores queue (registry.subtreeWithin fuel queue) := by
  have hbound : visited.length + queue.length ≤ registry.ids.length := by
    have hlength := (List.subperm_of_subset exploring.nodup fun id hid =>
      (registry.mem_ids).mpr (exploring.registered id hid)).length_le
    rw [List.length_append] at hlength
    exact hlength
  induction fuel generalizing visited queue with
  | zero =>
    have hempty : queue = [] := List.eq_nil_of_length_eq_zero (by omega)
    subst hempty
    exact .done
  | succ fuel ih =>
    cases queue with
    | nil => exact .done
    | cons id queue =>
      have hnext := exploring.visit hierarchy hrank
      have hbound' : (visited ++ [id]).length + (queue ++ registry.children id).length ≤
          registry.ids.length := by
        have hlength := (List.subperm_of_subset hnext.nodup fun id hid =>
          (registry.mem_ids).mpr (hnext.registered id hid)).length_le
        rw [List.length_append] at hlength
        exact hlength
      exact .visit (ih hnext (by rw [List.length_append, List.length_singleton]; omega) hbound')

theorem Exploring.start (rank : ClassId → Nat) {id : ClassId} {record : Record}
    (hrecord : registry.record? id = some record) : registry.Exploring rank id [] [id] := by
  constructor
  · exact List.nodup_singleton id
  · intro other hother
    rw [List.mem_singleton.mp hother]
    exact ⟨record, hrecord⟩
  · intro other hother
    exact .inl (List.mem_singleton.mp hother)
  · intro other hother
    exact Nat.le_of_eq (congrArg rank (List.mem_singleton.mp hother).symm)

/-- The classes below a class are all visited. -/
theorem Hierarchy.explores_subtree (hierarchy : registry.Hierarchy) {id : ClassId} {record : Record}
    (hrecord : registry.record? id = some record) :
    registry.Explores [id] (registry.subtree id) := by
  obtain ⟨rank, hrank⟩ := hierarchy.ranked
  exact (Exploring.start rank hrecord).explores hierarchy hrank
    (Nat.le_trans registry.length_ids_le (Nat.le_add_left _ _))

/-! ### Above a class -/

/-- The records from a class upward. -/
inductive Ancestry (registry : Registry) : ClassId → List Record → Prop
  | root {id : ClassId} {record : Record} (registered : registry.record? id = some record)
      (top : record.state = .linked none) : Ancestry registry id [record]
  | under {id parent : ClassId} {record : Record} {chain : List Record}
      (registered : registry.record? id = some record)
      (linked : record.state = .linked (some parent)) (above : Ancestry registry parent chain) :
      Ancestry registry id (record :: chain)

/-- The chain above a linked class comes to an end, however far down the class is. -/
theorem Hierarchy.ancestry_chain (hierarchy : registry.Hierarchy) {id : ClassId} {record : Record}
    (hrecord : registry.record? id = some record) (hlinked : record.state ≠ .pending) :
    registry.Ancestry id (registry.chain id) := by
  obtain ⟨rank, hrank⟩ := hierarchy.ranked
  -- with every class of the chain one more of the registered ones lies behind
  have hwithin : ∀ fuel id record, registry.record? id = some record → record.state ≠ .pending →
      (registry.ids.filter fun other => rank other ≤ rank id).length ≤ fuel →
      registry.Ancestry id (registry.chainWithin fuel id) := by
    intro fuel
    induction fuel with
    | zero =>
      intro id record hrecord _ hfuel
      have hself : id ∈ registry.ids.filter fun other => rank other ≤ rank id :=
        List.mem_filter.mpr ⟨registry.mem_ids.mpr ⟨record, hrecord⟩, by simp⟩
      exact absurd (List.length_pos_of_mem hself) (Nat.not_lt.mpr hfuel)
    | succ fuel ih =>
      intro id record hrecord hlinked hfuel
      rw [chainWithin, hrecord]
      dsimp only
      cases hstate : record.state with
      | pending => exact absurd hstate hlinked
      | linked superclass =>
        have hsuper : record.superclass? = superclass := by
          rw [Record.superclass?, hstate]
        rw [hsuper]
        cases superclass with
        | none => exact .root hrecord hstate
        | some parent =>
          have hbelow : registry.IsBelow id parent := ⟨record, hrecord, hsuper⟩
          obtain ⟨above, habove, haboveLinked⟩ := hierarchy.above id parent hbelow
          have hfewer : (registry.ids.filter fun other => rank other ≤ rank parent).length <
              (registry.ids.filter fun other => rank other ≤ rank id).length := by
            apply length_lt_of_subset (registry.nodup_ids.filter _)
              (List.mem_filter.mpr ⟨registry.mem_ids.mpr ⟨record, hrecord⟩, by simp⟩)
            intro other hother
            have hsmaller := hrank id parent hbelow
            simp only [List.mem_filter, decide_eq_true_eq] at hother ⊢
            refine ⟨⟨hother.1, by omega⟩, ?_⟩
            intro heq
            subst heq
            omega
          exact .under hrecord hstate (ih parent above habove haboveLinked (by omega))
  apply hwithin _ id record hrecord hlinked
  exact Nat.le_trans (List.length_filter_le _ _) registry.length_ids_le

theorem chain_of_pending {id : ClassId} {record : Record}
    (hrecord : registry.record? id = some record) (hpending : record.state = .pending) :
    registry.chain id = [record] := by
  have hpositive : 0 < registry.records.size :=
    Nat.lt_of_le_of_lt (Nat.zero_le _) (registry.index_lt_of_record? hrecord)
  obtain ⟨size, hsize⟩ := Nat.exists_eq_succ_of_ne_zero (Nat.pos_iff_ne_zero.mp hpositive)
  rw [chain, hsize, chainWithin, hrecord]
  dsimp only
  rw [Record.superclass?, hpending]
  rfl

end Registry

end LateBinding
