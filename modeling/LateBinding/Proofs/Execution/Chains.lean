import LateBinding.Execution.Run
import LateBinding.Proofs.Heap.LinkOrder

/-!
# Superclasses first

Before a class is initialized those above it are, from the uppermost down. The list of the classes
whose turn this is has the superclass of each class in front of it, unless the superclass counts as
initialized already, and it is not cut short.
-/

namespace LateBinding.Heap

/-- The superclass of each class stands in front of it, or is initialized already. -/
def InTurn (heap : Heap) (classes : List ClassRef) : Prop :=
  ∀ front cls back, classes = front ++ cls :: back → ∀ above, heap.superclass? cls = some above →
    heap.isInitialized above = true ∨ above ∈ front

variable {heap : Heap} {order : List PairId}

theorem inTurn_nil : heap.InTurn [] := by
  intro front cls back heq
  simp at heq

theorem InTurn.concat {classes : List ClassRef} {cls : ClassRef} (inTurn : heap.InTurn classes)
    (habove : ∀ above, heap.superclass? cls = some above →
      heap.isInitialized above = true ∨ above ∈ classes) : heap.InTurn (classes ++ [cls]) := by
  intro front other back heq
  rcases List.append_eq_append_iff.mp heq with ⟨rest, rfl, hrest⟩ | ⟨rest, rfl, hrest⟩
  · cases rest with
    | nil =>
      cases hrest
      rw [List.append_nil]
      exact habove
    | cons head tail => simp at hrest
  · cases rest with
    | nil =>
      cases hrest
      rw [List.append_nil] at habove
      exact habove
    | cons head tail =>
      cases hrest
      exact inTurn front other tail rfl

theorem InTurn.head {cls : ClassRef} {rest : List ClassRef} (inTurn : heap.InTurn (cls :: rest))
    {above : ClassRef} (habove : heap.superclass? cls = some above) :
    heap.isInitialized above = true :=
  (inTurn [] cls rest rfl above habove).resolve_right List.not_mem_nil

/-- Once the first class is initialized, the others are in turn. -/
theorem InTurn.tail {later : Heap} {cls : ClassRef} {rest : List ClassRef}
    (inTurn : heap.InTurn (cls :: rest)) (ages : heap.Ages later)
    (hlinked : ∀ other ∈ rest, (heap.pair other.pair).link ≠ none)
    (hinitialized : ∀ other, heap.isInitialized other = true → later.isInitialized other = true)
    (hself : later.isInitialized cls = true) : later.InTurn rest := by
  rintro front other back rfl above habove
  have hother := hlinked other (List.mem_append_right _ List.mem_cons_self)
  have hbefore := ages.superclass?_eq hother habove
  rcases inTurn (cls :: front) other back rfl above hbefore with hdone | hfront
  · exact .inl (hinitialized above hdone)
  · rcases List.mem_cons.mp hfront with rfl | hlater
    · exact .inl hself
    · exact .inr hlater

theorem superclass?_plain {id : PairId} {above : ClassRef}
    (habove : heap.superclass? ⟨id, .plain⟩ = some above) :
    ∃ parent root, (heap.pair id).link = some (.child parent root) ∧ above = ⟨parent, .plain⟩ := by
  unfold superclass? at habove
  cases hlink : (heap.pair id).link with
  | none =>
    rw [hlink] at habove
    cases habove
  | some link =>
    rw [hlink] at habove
    cases link with
    | root => cases habove
    | child parent root =>
      unfold unlessReleased at habove
      dsimp only at habove
      split at habove
      · cases habove
      · cases habove
        exact ⟨parent, root, rfl, rfl⟩

/-- A bound above the place in the order of linking is as good as any other. -/
theorem LinkedInOrder.uninitializedChain_eq (ordered : heap.LinkedInOrder order) {fuel other : Nat}
    {id : PairId} (hfuel : order.idxOf id < fuel) (hother : order.idxOf id < other) :
    heap.uninitializedChain fuel ⟨id, .plain⟩ = heap.uninitializedChain other ⟨id, .plain⟩ := by
  induction fuel generalizing id other with
  | zero => exact absurd hfuel (Nat.not_lt_zero _)
  | succ fuel ih =>
    obtain ⟨rest, rfl⟩ := Nat.exists_eq_succ_of_ne_zero (Nat.ne_zero_of_lt hother)
    rw [uninitializedChain, uninitializedChain]
    cases habove : heap.superclass? ⟨id, .plain⟩ with
    | none => rfl
    | some above =>
      obtain ⟨parent, root, hlink, rfl⟩ := superclass?_plain habove
      have hplace := ordered.above id parent root hlink
      have hupper : heap.uninitializedChain fuel ⟨parent, .plain⟩ =
          heap.uninitializedChain rest ⟨parent, .plain⟩ := ih (by omega) (by omega)
      rw [Option.elim_some, Option.elim_some, hupper]

/-- The classes that go before a class and with it. -/
structure Precedes (heap : Heap) (known : PairId → Prop) (id : PairId) (classes : List ClassRef) :
    Prop where
  inTurn : heap.InTurn classes
  known : ∀ cls ∈ classes, ∃ id, cls = ⟨id, .plain⟩ ∧ known id
  covers : heap.isInitialized ⟨id, .plain⟩ = true ∨ ⟨id, .plain⟩ ∈ classes

theorem LinkedInOrder.precedes (ordered : heap.LinkedInOrder order) {known : PairId → Prop}
    (hup : ∀ id parent root, known id → (heap.pair id).link = some (.child parent root) →
      known parent) {fuel : Nat} {id : PairId} (hid : known id) (hfuel : order.idxOf id < fuel) :
    heap.Precedes known id (heap.uninitializedChain fuel ⟨id, .plain⟩) := by
  -- the place in the order of linking stays below the bound
  induction fuel generalizing id with
  | zero => exact absurd hfuel (Nat.not_lt_zero _)
  | succ fuel ih =>
    rw [uninitializedChain]
    by_cases hinitialized : heap.isInitialized ⟨id, .plain⟩ = true
    · rw [if_pos hinitialized]
      exact ⟨inTurn_nil, fun _ h => absurd h List.not_mem_nil, .inl hinitialized⟩
    · rw [if_neg hinitialized]
      cases habove : heap.superclass? ⟨id, .plain⟩ with
      | none =>
        refine ⟨inTurn_nil.concat ?_, ?_, .inr (List.mem_append_right _ List.mem_cons_self)⟩
        · intro above h
          rw [habove] at h
          cases h
        · intro cls hcls
          exact ⟨id, List.mem_singleton.mp hcls, hid⟩
      | some above =>
        obtain ⟨parent, root, hlink, rfl⟩ := superclass?_plain habove
        have hplace := ordered.above id parent root hlink
        obtain ⟨inTurn, hknown, hcovers⟩ := ih (hup id parent root hid hlink) (by omega)
        rw [Option.elim_some]
        refine ⟨inTurn.concat ?_, ?_, .inr (List.mem_append_right _ List.mem_cons_self)⟩
        · intro other h
          cases habove.symm.trans h
          exact hcovers
        · intro cls hcls
          rcases List.mem_append.mp hcls with hupper | hself
          · exact hknown cls hupper
          · exact ⟨id, List.mem_singleton.mp hself, hid⟩

/-! ### Standing above -/

/-- A class is another one or stands above it, as the two were linked. -/
inductive StandsOver (heap : Heap) (top : PairId) : PairId → Prop
  | self : StandsOver heap top top
  | child {id parent root : PairId} (link : (heap.pair id).link = some (.child parent root))
      (rest : StandsOver heap top parent) : StandsOver heap top id

variable {later : Heap} {top middle id : PairId}

theorem StandsOver.trans (upper : heap.StandsOver top middle) (lower : heap.StandsOver middle id) :
    heap.StandsOver top id := by
  induction lower with
  | self => exact upper
  | child link _ ih => exact .child link ih

theorem StandsOver.ages (stands : heap.StandsOver top id) (ages : heap.Ages later) :
    later.StandsOver top id := by
  induction stands with
  | self => exact .self
  | child link _ ih => exact .child (ages.link _ _ link) ih

/-- Whose turn comes along with that of a class stands over it. -/
theorem standsOver_of_mem_uninitializedChain {fuel : Nat} {cls : ClassRef}
    (hcls : cls ∈ heap.uninitializedChain fuel ⟨id, .plain⟩) : heap.StandsOver cls.pair id := by
  induction fuel generalizing id with
  | zero => cases hcls
  | succ fuel ih =>
    rw [uninitializedChain] at hcls
    split at hcls
    · cases hcls
    · rcases List.mem_append.mp hcls with hupper | hself
      · cases habove : heap.superclass? ⟨id, .plain⟩ with
        | none =>
          rw [habove] at hupper
          cases hupper
        | some above =>
          rw [habove, Option.elim_some] at hupper
          obtain ⟨parent, root, hlink, rfl⟩ := superclass?_plain habove
          exact .child hlink (ih hupper)
      · rw [List.mem_singleton.mp hself]
        exact .self

end LateBinding.Heap
