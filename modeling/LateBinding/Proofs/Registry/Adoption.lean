import LateBinding.Proofs.Registry.Hierarchy

/-!
# Who conforms to a protocol

A name is conformed to if it is that of a protocol in one of the trees that were adopted: by the
class itself, by a category that was merged into it, or by a class above it. The search with its
three loops finds exactly these: over the chain of classes, over the trees of each, and over the
stack of what is left of a tree.
-/

namespace LateBinding

namespace Protocol

variable {wanted : String}

/-- The name is that of the protocol or of one somewhere in its tree. -/
inductive Names (wanted : String) : Protocol → Prop
  | self {parents : List Protocol} : Names wanted (.node wanted parents)
  | inherited {name : String} {parents : List Protocol} {parent : Protocol}
      (mem : parent ∈ parents) (names : Names wanted parent) : Names wanted (.node name parents)

theorem names_node_iff {name : String} {parents : List Protocol} :
    Names wanted (.node name parents) ↔
      name = wanted ∨ ∃ parent ∈ parents, parent.Names wanted := by
  constructor
  · intro names
    cases names with
    | self => exact .inl rfl
    | inherited mem names => exact .inr ⟨_, mem, names⟩
  · intro h
    rcases h with rfl | ⟨parent, mem, names⟩
    · exact .self
    · exact .inherited mem names

/-- Nothing on the stack is passed over, and nothing else is found. -/
theorem finds_iff (stack : List Protocol) :
    finds wanted stack = true ↔ ∃ protocol ∈ stack, protocol.Names wanted := by
  induction stack using finds.induct with
  | case1 => simp [finds]
  | case2 name parents stack ih =>
    simp only [List.unattach_reverse, List.unattach_attach] at ih
    rw [finds, Bool.or_eq_true, beq_iff_eq, ih]
    simp only [List.mem_append, List.mem_reverse, List.mem_cons, or_and_right, exists_or,
      exists_eq_left, names_node_iff, or_assoc]

theorem conformsTo_iff {protocol : Protocol} :
    protocol.conformsTo wanted = true ↔ protocol.Names wanted := by
  rw [conformsTo, finds_iff]
  simp

end Protocol

namespace Record

variable {record : Record}

/-- The class adopts the protocol itself or through a category that was merged into it. -/
def Adopts (record : Record) (protocol : Protocol) : Prop :=
  protocol ∈ record.protocols ∨ ∃ category ∈ record.categories, protocol ∈ category.protocols

theorem adopts_iff {name : String} :
    record.adopts name = true ↔ ∃ protocol, record.Adopts protocol ∧ protocol.Names name := by
  simp only [adopts, Bool.or_eq_true, List.any_eq_true, Protocol.conformsTo_iff, Adopts,
    or_and_right, exists_or]
  refine or_congr Iff.rfl ⟨?_, ?_⟩
  · intro h
    obtain ⟨category, hcategory, protocol, hprotocol, hnames⟩ := h
    exact ⟨protocol, ⟨category, hcategory, hprotocol⟩, hnames⟩
  · intro h
    obtain ⟨protocol, ⟨category, hcategory, hprotocol⟩, hnames⟩ := h
    exact ⟨category, hcategory, protocol, hprotocol, hnames⟩

end Record

namespace Registry

variable {registry : Registry} {id : ClassId} {record holder : Record}

/-- The record is that of the class or, if it is linked, of a class above it. -/
inductive Reaches (registry : Registry) : ClassId → Record → Prop
  | self {id : ClassId} {record : Record} (registered : registry.record? id = some record) :
      Reaches registry id record
  | above {id parent : ClassId} {record holder : Record}
      (registered : registry.record? id = some record)
      (linked : record.state = .linked (some parent)) (reaches : Reaches registry parent holder) :
      Reaches registry id holder

theorem Ancestry.reaches_iff {chain : List Record} (ancestry : registry.Ancestry id chain) :
    registry.Reaches id holder ↔ holder ∈ chain := by
  induction ancestry with
  | root registered top =>
    rw [List.mem_singleton]
    constructor
    · intro reaches
      cases reaches with
      | self known => exact Option.some.inj (known.symm.trans registered)
      | above known linked =>
        cases known.symm.trans registered
        cases linked.symm.trans top
    · intro heq
      rw [heq]
      exact .self registered
  | under registered linked _ ih =>
    rw [List.mem_cons, ← ih]
    constructor
    · intro reaches
      cases reaches with
      | self known => exact .inl (Option.some.inj (known.symm.trans registered))
      | above known other reaches =>
        cases known.symm.trans registered
        cases other.symm.trans linked
        exact .inr reaches
    · intro h
      rcases h with rfl | reaches
      · exact .self registered
      · exact .above registered linked reaches

theorem Hierarchy.reaches_iff (hierarchy : registry.Hierarchy)
    (hrecord : registry.record? id = some record) :
    registry.Reaches id holder ↔ holder ∈ registry.chain id := by
  by_cases hpending : record.state = .pending
  · rw [chain_of_pending hrecord hpending, List.mem_singleton]
    constructor
    · intro reaches
      cases reaches with
      | self known => exact Option.some.inj (known.symm.trans hrecord)
      | above known linked =>
        cases known.symm.trans hrecord
        cases linked.symm.trans hpending
    · intro heq
      rw [heq]
      exact .self hrecord
  · exact (hierarchy.ancestry_chain hrecord hpending).reaches_iff

theorem Hierarchy.conformsTo_iff (hierarchy : registry.Hierarchy)
    (hrecord : registry.record? id = some record) {name : String} :
    registry.conformsTo id name = true ↔ ∃ holder protocol,
      registry.Reaches id holder ∧ holder.Adopts protocol ∧ protocol.Names name := by
  simp only [conformsTo, List.any_eq_true, ← hierarchy.reaches_iff hrecord, Record.adopts_iff]
  exact exists_congr fun _ => exists_and_left.symm

end Registry

end LateBinding
