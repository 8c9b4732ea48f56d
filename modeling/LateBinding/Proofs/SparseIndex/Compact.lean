import LateBinding.DispatchTable
import LateBinding.Proofs.SparseIndex.Entries

/-!
# Indexes without empty leaves

Erasing leaves a leaf where it was, so an index can have leaves that hold nothing. One that values
were only ever stored in has none: its leaves are those that its values lie in. What a dispatch
table takes up then follows from the selectors that it implements.
-/

namespace LateBinding

namespace SparseIndex

variable {α : Type} {index : SparseIndex α}

/-- Every leaf holds a value. -/
def Compact (index : SparseIndex α) : Prop :=
  ∀ leaf, index.HasLeaf leaf → ∃ uid, leafOf uid = leaf ∧ index.lookup uid ≠ none

theorem hasLeaf_of_lookup {uid : Uid} (h : index.lookup uid ≠ none) :
    index.HasLeaf (leafOf uid) := by
  unfold HasLeaf
  cases hat : index.leaves.get (leafOf uid) with
  | some values => rfl
  | none =>
    rw [get_eq_getElem] at hat
    rw [lookup, Fin.getElem_fin, hat] at h
    exact absurd rfl h

theorem compact_empty : (empty : SparseIndex α).Compact := by
  intro leaf hleaf
  simp [HasLeaf, empty, get_eq_getElem] at hleaf

theorem Compact.insert (compact : index.Compact) (uid : Uid) (value : α) :
    (index.insert uid value).Compact := by
  intro leaf hleaf
  rcases hasLeaf_insert.mp hleaf with hold | hnew
  · obtain ⟨other, hother, hsome⟩ := compact leaf hold
    refine ⟨other, hother, ?_⟩
    rw [lookup_insert]
    split
    · nofun
    · exact hsome
  · refine ⟨uid, hnew, ?_⟩
    rw [lookup_insert, if_pos rfl]
    nofun

end SparseIndex

namespace DispatchTable

variable {table changed : DispatchTable}

/-- The selectors that a table implements. -/
def implemented (table : DispatchTable) : Finset Sel :=
  (Finset.univ.filter fun uid => (table.index.lookup uid).isSome).image fun uid => ⟨uid.val⟩

def Compact (table : DispatchTable) : Prop := table.index.Compact

theorem mem_implemented {sel : Sel} : sel ∈ table.implemented ↔ table.get? sel ≠ none := by
  change _ ↔ table.index.get? sel.uid ≠ none
  rw [implemented, Finset.mem_image, SparseIndex.get?]
  constructor
  · rintro ⟨uid, huid, rfl⟩
    rw [dif_pos uid.isLt]
    exact Option.isSome_iff_ne_none.mp (Finset.mem_filter_univ uid |>.mp huid)
  · intro hsome
    split at hsome
    · next hin =>
      have hstored : (table.index.lookup ⟨sel.uid, hin⟩).isSome :=
        Option.isSome_iff_ne_none.mpr hsome
      exact ⟨⟨sel.uid, hin⟩, (Finset.mem_filter_univ _).mpr hstored, rfl⟩
    · exact absurd rfl hsome

theorem size_eq_card (table : DispatchTable) : table.size = table.implemented.card := by
  rw [implemented, Finset.card_image_of_injective, size, SparseIndex.size_eq_card]
  exact fun uid other heq => Fin.ext (congrArg Sel.uid heq)

/-- A compact table has as many leaves as its selectors have different high parts. -/
theorem Compact.leafCount_eq_card (compact : table.Compact) :
    table.leafCount = (table.implemented.image fun sel => sel.uid / 256).card := by
  have hleaves : (table.implemented.image fun sel => sel.uid / 256) =
      (Finset.univ.filter table.index.HasLeaf).image Fin.val := by
    rw [implemented, Finset.image_image]
    ext high
    simp only [Finset.mem_image, Finset.mem_filter_univ, Option.isSome_iff_ne_none]
    constructor
    · rintro ⟨uid, hsome, rfl⟩
      exact ⟨SparseIndex.leafOf uid, SparseIndex.hasLeaf_of_lookup hsome, rfl⟩
    · rintro ⟨leaf, hleaf, rfl⟩
      obtain ⟨uid, rfl, hsome⟩ := compact leaf hleaf
      exact ⟨uid, hsome, rfl⟩
  rw [hleaves, Finset.card_image_of_injective _ Fin.val_injective, leafCount,
    SparseIndex.leafCount_eq_card]

/-! ### Composing -/

theorem compact_empty : empty.Compact := SparseIndex.compact_empty

theorem Compact.set (compact : table.Compact) {sel : Sel} {imp : Imp}
    (h : table.set sel imp = .ok changed) : changed.Compact := by
  unfold DispatchTable.set SparseIndex.set at h
  split at h
  · cases h
    exact SparseIndex.Compact.insert compact _ imp
  · cases h

end DispatchTable

end LateBinding
