import LateBinding.Proofs.Registry.Frames
import LateBinding.Proofs.Registry.Operations
import LateBinding.Proofs.Registry.Subtree
import LateBinding.Proofs.Tables.Resolution

/-!
# The selectors that a registry mentions

A registry mentions the selectors of its classes, of their categories and of the categories that
wait. A change mentions no others but those of what it declares, and the published tables have
entries for mentioned selectors only.
-/

namespace LateBinding

def ClassDefinition.Mentions (definition : ClassDefinition) (sel : Sel) : Prop :=
  ∃ kind, LateBinding.Mentions (definition.methods.get kind) sel

theorem Record.mentions_of_content {record other : Record} {sel : Sel}
    (hcontent : record.content = other.content) (mentions : record.Mentions sel) :
    other.Mentions sel := by
  obtain ⟨-, -, -, hmethods, -, hcategories⟩ := Content.mk.inj hcontent
  unfold Mentions at mentions ⊢
  rwa [← hmethods, ← hcategories]

namespace Registry

variable {registry : Registry} {sel : Sel}

def Mentions (registry : Registry) (sel : Sel) : Prop :=
  (∃ id record, registry.record? id = some record ∧ record.Mentions sel) ∨
    ∃ name, ∃ category ∈ registry.categoriesFor name, category.Mentions sel

theorem addressable_of_mentions (hall : ∀ sel, registry.Mentions sel → sel.uid ≤ maxUid) :
    registry.Addressable where
  records id record hrecord :=
    Record.addressable_iff_mentions.mpr fun sel hsel => hall sel (.inl ⟨id, record, hrecord, hsel⟩)
  heldBack name category hcategory :=
    CategoryDefinition.addressable_iff_mentions.mpr
      fun sel hsel => hall sel (.inr ⟨name, category, hcategory, hsel⟩)

theorem not_mentions_empty (policy : CategoryConflictPolicy) (sel : Sel) :
    ¬ (Registry.empty policy).Mentions sel := by
  rintro (⟨_, _, hrecord, -⟩ | ⟨name, category, hcategory, -⟩)
  · cases hrecord
  · rw [categoriesFor, empty, Std.ExtTreeMap.getElem?_empty] at hcategory
    cases hcategory

end Registry

/-! ### What changes mention -/

namespace Classes

open Registry

variable {start final : Classes} {sel : Sel}

theorem Registers.mentions {definition : ClassDefinition} {order : List ClassId}
    (registers : start.Registers definition order final) (mentions : final.registry.Mentions sel) :
    start.registry.Mentions sel ∨ definition.Mentions sel := by
  rcases mentions with ⟨id, record, hrecord, hsel⟩ | ⟨name, category, hcategory, hsel⟩
  · have hcontent := registers.content?_eq id
    rw [content?_of_record hrecord] at hcontent
    split at hcontent
    · rcases Record.mentions_of_content (Option.some.inj hcontent) hsel with
        hmethods | ⟨category, hcategory, hsel⟩
      · exact .inr hmethods
      · exact .inl (.inr ⟨definition.name, category, hcategory, hsel⟩)
    · obtain ⟨old, hold, heq⟩ := Option.map_eq_some_iff.mp hcontent.symm
      exact .inl (.inl ⟨id, old, hold, Record.mentions_of_content heq.symm hsel⟩)
  · rw [categoriesFor, registers.heldBack_eq] at hcategory
    split at hcategory
    · cases hcategory
    · exact .inl (.inr ⟨name, category, hcategory, hsel⟩)

theorem Alters.mentions {id : ClassId} {old new : Record} {added : Sel → Prop}
    (alters : start.Alters id old new final)
    (hnew : ∀ sel, new.Mentions sel → old.Mentions sel ∨ added sel)
    (mentions : final.registry.Mentions sel) : start.registry.Mentions sel ∨ added sel := by
  rcases mentions with ⟨other, record, hrecord, hsel⟩ | ⟨name, category, hcategory, hsel⟩
  · rw [alters.record?_eq] at hrecord
    split at hrecord
    · cases hrecord
      exact (hnew sel hsel).imp_left fun h => .inl ⟨id, old, alters.registered, h⟩
    · exact .inl (.inl ⟨other, record, hrecord, hsel⟩)
  · rw [categoriesFor, alters.heldBack_eq] at hcategory
    exact .inl (.inr ⟨name, category, hcategory, hsel⟩)

theorem Applies.mentions {category : CategoryDefinition} {status : CategoryStatus}
    (applies : start.Applies category status final) (mentions : final.registry.Mentions sel) :
    start.registry.Mentions sel ∨ category.Mentions sel := by
  cases applies with
  | merges known alters =>
    exact (alters.mentions (fun _ => Record.mentions_merge) mentions).imp_left fun h => h
  | waits unknown =>
    rcases mentions with ⟨id, record, hrecord, hsel⟩ | ⟨name, other, hother, hsel⟩
    · exact .inl (.inl ⟨id, record, hrecord, hsel⟩)
    · rw [categoriesFor, heldBack_holdBack] at hother
      split at hother
      · rcases CategoryDefinition.mem_merge hother with rfl | hmem
        · exact .inr hsel
        · exact .inl (.inr ⟨_, other, hmem, hsel⟩)
      · exact .inl (.inr ⟨name, other, hother, hsel⟩)

theorem Adds.mentions {id : ClassId} {kind : ClassKind} {method : MethodDefinition} {added : Bool}
    (adds : start.Adds id kind method added final) (mentions : final.registry.Mentions sel) :
    start.registry.Mentions sel ∨ sel = method.sel := by
  cases adds with
  | unknown => exact .inl mentions
  | defined => exact .inl mentions
  | adds _ alters => exact alters.mentions (fun _ => Record.mentions_add) mentions

theorem Replaces.mentions {id : ClassId} {kind : ClassKind} {method : MethodDefinition}
    {replaced : Option Imp} (replaces : start.Replaces id kind method replaced final)
    (mentions : final.registry.Mentions sel) : start.registry.Mentions sel ∨ sel = method.sel := by
  cases replaces with
  | unknown => exact .inl mentions
  | replaces alters => exact alters.mentions (fun _ => Record.mentions_replaceMethod) mentions

theorem Removal.mentions {stack : List ClassId} {pairs : List PairId}
    (removal : start.Removal stack pairs final) (consistent : start.registry.Consistent stack)
    (mentions : final.registry.Mentions sel) : start.registry.Mentions sel := by
  obtain ⟨ids, takesOut, -⟩ := removal.takesOut consistent
  rcases mentions with ⟨id, record, hrecord, hsel⟩ | ⟨name, category, hcategory, hsel⟩
  · rw [takesOut.registry.record?] at hrecord
    split at hrecord
    · cases hrecord
    · obtain ⟨old, hold, rfl⟩ := Option.map_eq_some_iff.mp hrecord
      exact .inl ⟨id, old, hold, hsel⟩
  · rw [categoriesFor, takesOut.registry.heldBack] at hcategory
    exact .inr ⟨name, category, hcategory, hsel⟩

end Classes

/-! ### What tables hold -/

theorem mentions_of_lastImp? {methods : List MethodDefinition} {sel : Sel} {imp : Imp}
    (himp : lastImp? methods sel = some imp) : Mentions methods sel := by
  have hdefines := lastImp?_isSome methods sel
  rw [himp, Option.isSome_some, eq_comm, definesSel, List.any_eq_true] at hdefines
  obtain ⟨method, hmethod, hsel⟩ := hdefines
  exact ⟨method, hmethod, of_decide_eq_true hsel⟩

theorem Record.mentions_of_implementation? {record : Record} {policy : CategoryConflictPolicy}
    {kind : ClassKind} {sel : Sel} {imp : Imp}
    (himp : record.implementation? policy kind sel = some imp) : record.Mentions sel := by
  unfold implementation? at himp
  split at himp
  · next category hcategory =>
    refine .inr ⟨category, ?_, kind, mentions_of_lastImp? himp⟩
    unfold strongest? at hcategory
    split at hcategory
    · rw [List.findRev?_eq_find?_reverse] at hcategory
      exact List.mem_reverse.mp (List.mem_of_find?_eq_some hcategory)
    · exact List.mem_of_find?_eq_some hcategory
  · exact .inl ⟨kind, mentions_of_lastImp? himp⟩

namespace Registry

variable {registry : Registry} {id : ClassId} {chain : List Record} {sel : Sel}

/-- What is found on the way up is mentioned by a class of the chain. -/
theorem Ancestry.mentions_of_walkUp (ancestry : registry.Ancestry id chain)
    {policy : CategoryConflictPolicy} {kind : ClassKind} {imp : Imp}
    (himp : walkUp policy kind chain sel = some imp) : registry.Mentions sel := by
  have hmentions : ∀ record ∈ chain, ∀ kind,
      record.implementation? policy kind sel = some imp → registry.Mentions sel := by
    intro record hrecord kind hfound
    obtain ⟨own, hown⟩ := ancestry.registered record hrecord
    exact .inl ⟨own, record, hown, Record.mentions_of_implementation? hfound⟩
  have hplain : ∀ kind, chain.findSome? (fun record => record.implementation? policy kind sel) =
      some imp → registry.Mentions sel := by
    intro kind hfound
    obtain ⟨record, hrecord, himp⟩ := List.exists_of_findSome?_eq_some hfound
    exact hmentions record hrecord kind himp
  cases kind with
  | plain => exact hplain .plain himp
  | metaclass =>
    rcases Option.or_eq_some_iff.mp himp with hfound | ⟨-, hroot⟩
    · exact hplain .metaclass hfound
    · obtain ⟨root, hlast, himp⟩ := Option.bind_eq_some_iff.mp hroot
      exact hmentions root (List.mem_of_getLast? hlast) .plain himp

end Registry

end LateBinding
