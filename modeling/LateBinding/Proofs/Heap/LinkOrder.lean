import LateBinding.Proofs.Heap.Ages
import Mathlib.Data.List.Nodup
import Mathlib.Data.List.Perm.Subperm

/-!
# The order in which classes linked

A class links only after its superclass, so the pairs that have a link can be listed in an order in
which the superclass of each comes before it. The place of a pair in that order bounds how far up its
superclasses go.
-/

namespace LateBinding.Heap

/-- The pairs that have a link, each once and after the pair of its superclass. -/
structure LinkedInOrder (heap : Heap) (order : List PairId) : Prop where
  nodup : order.Nodup
  mem_iff : ∀ id, id ∈ order ↔ (heap.pair id).link ≠ none
  above : ∀ id parent root, (heap.pair id).link = some (.child parent root) →
    order.idxOf parent < order.idxOf id

variable {heap later : Heap} {order : List PairId}

theorem LinkedInOrder.empty : Heap.empty.LinkedInOrder [] where
  nodup := List.nodup_nil
  mem_iff _ := iff_of_false List.not_mem_nil fun hlink => hlink rfl
  above _ _ _ hlink := nomatch hlink

theorem LinkedInOrder.transfer (ordered : heap.LinkedInOrder order)
    (hlink : ∀ id, (later.pair id).link = (heap.pair id).link) : later.LinkedInOrder order where
  nodup := ordered.nodup
  mem_iff id := by
    rw [hlink]
    exact ordered.mem_iff id
  above id parent root h := by
    rw [hlink] at h
    exact ordered.above id parent root h

theorem LinkedInOrder.parent_mem (ordered : heap.LinkedInOrder order) {id parent root : PairId}
    (hlink : (heap.pair id).link = some (.child parent root)) : parent ∈ order :=
  List.idxOf_lt_length_iff.mp
    (Nat.lt_of_lt_of_le (ordered.above id parent root hlink) List.idxOf_le_length)

/-- There is a place for every pair: what has a link was made. -/
theorem LinkedInOrder.length_le (ordered : heap.LinkedInOrder order) :
    order.length ≤ heap.pairs.size := by
  have hnodup : (order.map PairId.index).Nodup := ordered.nodup.map fun ⟨_⟩ ⟨_⟩ => congrArg _
  have hsubset : order.map PairId.index ⊆ List.range heap.pairs.size := by
    intro index hindex
    obtain ⟨id, hid, rfl⟩ := List.mem_map.mp hindex
    obtain ⟨link, hlink⟩ := Option.ne_none_iff_exists'.mp ((ordered.mem_iff id).mp hid)
    exact List.mem_range.mpr (hasPair_of_link hlink)
  have hle := (hnodup.subperm hsubset).length_le
  rwa [List.length_map, List.length_range] at hle

/-- A pair that links below one that has a link comes last. -/
theorem LinkedInOrder.setLink (ordered : heap.LinkedInOrder order) {id : PairId} {link : Link}
    (hid : heap.HasPair id) (hnew : id ∉ order)
    (hparent : ∀ parent root, link = .child parent root → parent ∈ order) :
    (heap.setLink id link).LinkedInOrder (order ++ [id]) where
  nodup := List.nodup_append.mpr ⟨ordered.nodup, List.nodup_singleton id, by
    rintro other hother _ hself rfl
    exact hnew (List.mem_singleton.mp hself ▸ hother)⟩
  mem_iff other := by
    rw [List.mem_append, List.mem_singleton, ordered.mem_iff, pair_setLink]
    by_cases heq : id = other
    · subst heq
      simp [hid]
    · rw [if_neg fun h => heq h.1, or_iff_left (Ne.symm heq)]
  above other parent root hlink := by
    rw [pair_setLink] at hlink
    by_cases heq : id = other
    · subst heq
      rw [if_pos ⟨rfl, hid⟩] at hlink
      have hmem := hparent parent root (Option.some.inj hlink)
      rw [List.idxOf_append_of_mem hmem, List.idxOf_append_of_notMem hnew]
      exact Nat.lt_add_right _ (List.idxOf_lt_length_of_mem hmem)
    · rw [if_neg fun h => heq h.1] at hlink
      have hother : other ∈ order := by
        rw [ordered.mem_iff, hlink]
        exact Option.some_ne_none _
      rw [List.idxOf_append_of_mem (ordered.parent_mem hlink), List.idxOf_append_of_mem hother]
      exact ordered.above other parent root hlink

end LateBinding.Heap
