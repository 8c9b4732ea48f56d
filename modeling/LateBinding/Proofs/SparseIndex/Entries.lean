import LateBinding.SparseIndex
import Mathlib.Data.Fintype.Card
import Mathlib.Data.Fintype.Fin
import Mathlib.Data.List.Sort

/-!
# What a sparse index lists

A uid is a leaf and a place in it, one way only. So going through the leaves lists every value with
its uid once, and in the order of the uids. Which leaves there are does not matter for the list.
-/

namespace LateBinding.SparseIndex

variable {α : Type}

/-! ### Leaves and places -/

@[simp] theorem leafOf_uidAt (leaf place : Fin 256) : leafOf (uidAt leaf place) = leaf := by
  apply Fin.ext
  simp only [leafOf, uidAt]
  omega

@[simp] theorem placeOf_uidAt (leaf place : Fin 256) : placeOf (uidAt leaf place) = place := by
  apply Fin.ext
  simp only [placeOf, uidAt]
  omega

theorem uidAt_eq_iff {leaf place : Fin 256} {uid : Uid} :
    uidAt leaf place = uid ↔ leafOf uid = leaf ∧ placeOf uid = place := by
  constructor
  · intro heq
    subst heq
    exact ⟨leafOf_uidAt leaf place, placeOf_uidAt leaf place⟩
  · rintro ⟨hleaf, hplace⟩
    subst hleaf hplace
    exact uidAt_leafOf_placeOf uid

theorem uidAt_lt_of_place {leaf place other : Fin 256} (hplace : place < other) :
    uidAt leaf place < uidAt leaf other := by
  rw [Fin.lt_def] at hplace ⊢
  simp only [uidAt]
  omega

theorem uidAt_lt_of_leaf {leaf other : Fin 256} (hleaf : leaf < other) (place place' : Fin 256) :
    uidAt leaf place < uidAt other place' := by
  rw [Fin.lt_def] at hleaf ⊢
  simp only [uidAt]
  omega

/-! ### Erasing -/

theorem lookup_erase (index : SparseIndex α) (uid other : Uid) :
    (index.erase uid).lookup other = if uid = other then none else index.lookup other := by
  rw [erase]
  split
  · next values hat =>
    by_cases hleaf : leafOf uid = leafOf other
    · by_cases hplace : placeOf uid = placeOf other
      · have heq := eq_of_leafOf_of_placeOf hleaf hplace
        subst heq
        simp [lookup]
      · have hne : uid ≠ other := fun heq => hplace (by rw [heq])
        have hplaces : (placeOf uid).val ≠ (placeOf other).val := fun heq => hplace (Fin.ext heq)
        rw [Fin.getElem_fin] at hat
        simp only [lookup, Fin.getElem_fin, ← hleaf, hat, Vector.getElem_set_self, Option.bind_some,
          Vector.getElem_set_ne _ _ hplaces, if_neg hne]
    · have hne : uid ≠ other := fun heq => hleaf (by rw [heq])
      have hleaves : (leafOf uid).val ≠ (leafOf other).val := fun heq => hleaf (Fin.ext heq)
      simp only [lookup, Fin.getElem_fin, Vector.getElem_set_ne _ _ hleaves, if_neg hne]
  · next hat =>
    split
    · next heq => rw [← heq, lookup, hat, Option.bind_none]
    · rfl

/-! ### Enumeration -/

theorem mem_leafEntries_iff {leaf : Fin 256} {values : Leaf α} {uid : Uid} {value : α} :
    (uid, value) ∈ leafEntries leaf values ↔
      leafOf uid = leaf ∧ values.get (placeOf uid) = some value := by
  simp only [leafEntries, List.mem_filterMap, List.mem_finRange, true_and, Option.map_eq_some_iff,
    Prod.mk.injEq, uidAt_eq_iff]
  constructor
  · rintro ⟨place, stored, hstored, ⟨hleaf, hplace⟩, heq⟩
    subst hplace heq
    exact ⟨hleaf, hstored⟩
  · rintro ⟨hleaf, hvalue⟩
    exact ⟨placeOf uid, value, hvalue, ⟨hleaf, rfl⟩, rfl⟩

theorem mem_entries_iff {index : SparseIndex α} {uid : Uid} {value : α} :
    (uid, value) ∈ index.entries ↔ index.lookup uid = some value := by
  simp only [entries, List.mem_flatMap, List.mem_finRange, true_and, lookup]
  constructor
  · rintro ⟨leaf, hentry⟩
    cases hat : index.leaves[leaf] with
    | none =>
      rw [hat] at hentry
      cases hentry
    | some values =>
      rw [hat] at hentry
      obtain ⟨hleaf, hvalue⟩ := mem_leafEntries_iff.mp hentry
      subst hleaf
      rw [hat, Option.bind_some]
      exact hvalue
  · intro hvalue
    obtain ⟨values, hat, hplace⟩ := Option.bind_eq_some_iff.mp hvalue
    refine ⟨leafOf uid, ?_⟩
    rw [hat]
    exact mem_leafEntries_iff.mpr ⟨rfl, hplace⟩

theorem pairwise_leafEntries (leaf : Fin 256) (values : Leaf α) :
    (leafEntries leaf values).Pairwise fun left right => left.1 < right.1 := by
  rw [leafEntries, List.pairwise_filterMap]
  refine (List.pairwise_lt_finRange 256).imp fun {place other} hplace => ?_
  intro entry hentry later hlater
  obtain ⟨value, -, rfl⟩ := Option.map_eq_some_iff.mp hentry
  obtain ⟨value', -, rfl⟩ := Option.map_eq_some_iff.mp hlater
  exact uidAt_lt_of_place hplace

/-- The uids of the list are in strictly ascending order. -/
theorem pairwise_entries (index : SparseIndex α) :
    index.entries.Pairwise fun left right => left.1 < right.1 := by
  rw [entries, List.pairwise_flatMap]
  refine ⟨fun leaf _ => ?_, (List.pairwise_lt_finRange 256).imp fun {leaf other} hleaf => ?_⟩
  · cases index.leaves[leaf] with
    | none => exact List.Pairwise.nil
    | some values => exact pairwise_leafEntries leaf values
  · intro entry hentry later hlater
    cases hat : index.leaves[leaf] with
    | none =>
      rw [hat] at hentry
      cases hentry
    | some values =>
      cases hother : index.leaves[other] with
      | none =>
        rw [hother] at hlater
        cases hlater
      | some values' =>
        rw [hat] at hentry
        rw [hother] at hlater
        have hentryLeaf := (mem_leafEntries_iff.mp hentry).1
        have hlaterLeaf := (mem_leafEntries_iff.mp hlater).1
        rw [← uidAt_leafOf_placeOf entry.1, ← uidAt_leafOf_placeOf later.1, hentryLeaf, hlaterLeaf]
        exact uidAt_lt_of_leaf hleaf _ _

/-- What is listed depends on the values only. -/
theorem entries_eq_iff {left right : SparseIndex α} :
    left.entries = right.entries ↔ ∀ uid, left.lookup uid = right.lookup uid := by
  constructor
  · intro heq uid
    apply Option.ext
    intro value
    rw [← mem_entries_iff, heq, mem_entries_iff]
  · intro hsame
    have : Std.Antisymm fun left right : Uid × α => left.1 < right.1 :=
      ⟨fun _ _ hless hmore => absurd hmore (lt_asymm hless)⟩
    have : Std.Irrefl fun left right : Uid × α => left.1 < right.1 :=
      ⟨fun _ hless => lt_irrefl _ hless⟩
    refine left.pairwise_entries.eq_of_mem_iff right.pairwise_entries ?_
    rintro ⟨uid, value⟩
    rw [mem_entries_iff, mem_entries_iff, hsame]

theorem isEmpty_iff {index : SparseIndex α} :
    index.isEmpty = true ↔ ∀ uid, index.lookup uid = none := by
  rw [isEmpty, List.isEmpty_iff, List.eq_nil_iff_forall_not_mem]
  constructor
  · intro hnone uid
    rw [Option.eq_none_iff_forall_ne_some]
    intro value hvalue
    exact hnone (uid, value) (mem_entries_iff.mpr hvalue)
  · intro hnone entry hentry
    have hvalue := mem_entries_iff.mp hentry
    rw [hnone] at hvalue
    cases hvalue

/-- As many entries are listed as there are uids with a value. -/
theorem size_eq_card (index : SparseIndex α) :
    index.size = (Finset.univ.filter fun uid => (index.lookup uid).isSome).card := by
  have hnodup : (index.entries.map Prod.fst).Nodup :=
    List.pairwise_map.mpr (index.pairwise_entries.imp fun hless => ne_of_lt hless)
  rw [size, ← List.length_map Prod.fst, ← List.toFinset_card_of_nodup hnodup]
  apply congrArg Finset.card
  ext uid
  rw [List.mem_toFinset, List.mem_map, Finset.mem_filter_univ, Option.isSome_iff_exists]
  constructor
  · rintro ⟨⟨_, value⟩, hentry, heq⟩
    subst heq
    exact ⟨value, mem_entries_iff.mp hentry⟩
  · rintro ⟨value, hvalue⟩
    exact ⟨(uid, value), mem_entries_iff.mpr hvalue, rfl⟩

/-! ### Leaves that came into being -/

theorem get_eq_getElem {β : Type} {n : Nat} (xs : Vector β n) (place : Fin n) :
    xs.get place = xs[place.val] := rfl

def HasLeaf (index : SparseIndex α) (leaf : Fin 256) : Prop := (index.leaves.get leaf).isSome

instance (index : SparseIndex α) : DecidablePred index.HasLeaf :=
  fun leaf => inferInstanceAs (Decidable ((index.leaves.get leaf).isSome = true))

theorem leafCount_eq_card (index : SparseIndex α) :
    index.leafCount = (Finset.univ.filter index.HasLeaf).card := by
  have hlist : index.leaves.toList = (List.finRange 256).map fun leaf => index.leaves[leaf] := by
    apply List.ext_getElem
    · simp
    · intro place _ _
      simp
  have hnodup :
      ((List.finRange 256).filter (Option.isSome ∘ fun leaf => index.leaves[leaf])).Nodup :=
    (List.nodup_finRange 256).filter _
  rw [leafCount, hlist, List.countP_map, List.countP_eq_length_filter,
    ← List.toFinset_card_of_nodup hnodup]
  apply congrArg Finset.card
  ext leaf
  rw [List.mem_toFinset, List.mem_filter, Finset.mem_filter_univ, HasLeaf]
  exact and_iff_right (List.mem_finRange leaf)

theorem hasLeaf_insert {index : SparseIndex α} {uid : Uid} {value : α} {leaf : Fin 256} :
    (index.insert uid value).HasLeaf leaf ↔ index.HasLeaf leaf ∨ leafOf uid = leaf := by
  by_cases heq : leafOf uid = leaf
  · subst heq
    simp [HasLeaf, insert, get_eq_getElem]
  · have hne : (leafOf uid).val ≠ leaf.val := fun hval => heq (Fin.ext hval)
    simp only [HasLeaf, insert, get_eq_getElem, Vector.getElem_set_ne _ _ hne, heq, or_false]

/-- Leaves stay when values are erased. -/
theorem hasLeaf_erase {index : SparseIndex α} {uid : Uid} {leaf : Fin 256} :
    (index.erase uid).HasLeaf leaf ↔ index.HasLeaf leaf := by
  rw [erase]
  split
  · next values hat =>
    by_cases heq : leafOf uid = leaf
    · subst heq
      rw [Fin.getElem_fin] at hat
      simp only [HasLeaf, get_eq_getElem, hat, Vector.getElem_set_self, Option.isSome_some]
    · have hne : (leafOf uid).val ≠ leaf.val := fun hval => heq (Fin.ext hval)
      simp only [HasLeaf, get_eq_getElem, Vector.getElem_set_ne _ _ hne]
  · rfl

/-! ### Copying into another index -/

/-- Storing entries of different uids puts each of them in place and leaves the other uids alone. -/
theorem lookup_foldl_insert {entries : List (Uid × α)}
    (hentries : entries.Pairwise fun left right => left.1 < right.1) (target : SparseIndex α) (uid : Uid) :
    (∀ value, (uid, value) ∈ entries →
      (entries.foldl (fun index entry => index.insert entry.1 entry.2) target).lookup uid =
        some value) ∧
    ((∀ value, (uid, value) ∉ entries) →
      (entries.foldl (fun index entry => index.insert entry.1 entry.2) target).lookup uid =
        target.lookup uid) := by
  induction entries generalizing target with
  | nil => exact ⟨fun _ hentry => absurd hentry List.not_mem_nil, fun _ => rfl⟩
  | cons entry rest ih =>
    obtain ⟨hfirst, hrest⟩ := List.pairwise_cons.mp hentries
    obtain ⟨hstored, hkept⟩ := ih hrest (target.insert entry.1 entry.2)
    constructor
    · intro value hvalue
      rcases List.mem_cons.mp hvalue with heq | hlater
      · subst heq
        -- the entries that follow have other uids
        have hnone : ∀ other, (uid, other) ∉ rest := fun other hother =>
          absurd (hfirst (uid, other) hother) (lt_irrefl uid)
        rw [List.foldl_cons, hkept hnone, lookup_insert, if_pos rfl]
      · exact hstored value hlater
    · intro hnone
      have hne : entry.1 ≠ uid := by
        intro heq
        subst heq
        exact hnone entry.2 List.mem_cons_self
      rw [List.foldl_cons, hkept fun value hvalue => hnone value (List.mem_cons_of_mem _ hvalue),
        lookup_insert, if_neg hne]

theorem lookup_copyInto (source target : SparseIndex α) (uid : Uid) :
    (source.copyInto target).lookup uid = (source.lookup uid).or (target.lookup uid) := by
  obtain ⟨hstored, hkept⟩ := lookup_foldl_insert source.pairwise_entries target uid
  cases hvalue : source.lookup uid with
  | some value => exact hstored value (mem_entries_iff.mpr hvalue)
  | none =>
    refine hkept fun value hentry => ?_
    rw [mem_entries_iff, hvalue] at hentry
    cases hentry

theorem hasLeaf_foldl_insert {entries : List (Uid × α)} {target : SparseIndex α} {leaf : Fin 256} :
    (entries.foldl (fun index entry => index.insert entry.1 entry.2) target).HasLeaf leaf ↔
      target.HasLeaf leaf ∨ ∃ entry ∈ entries, leafOf entry.1 = leaf := by
  induction entries generalizing target with
  | nil => simp
  | cons entry rest ih =>
    rw [List.foldl_cons, ih, hasLeaf_insert, List.exists_mem_cons_iff, or_assoc]

theorem hasLeaf_copyInto {source target : SparseIndex α} {leaf : Fin 256} :
    (source.copyInto target).HasLeaf leaf ↔
      target.HasLeaf leaf ∨ ∃ uid, (source.lookup uid).isSome ∧ leafOf uid = leaf := by
  rw [copyInto, hasLeaf_foldl_insert]
  apply or_congr_right
  constructor
  · rintro ⟨⟨uid, value⟩, hentry, hleaf⟩
    exact ⟨uid, Option.isSome_of_eq_some (mem_entries_iff.mp hentry), hleaf⟩
  · rintro ⟨uid, hsome, hleaf⟩
    obtain ⟨value, hvalue⟩ := Option.isSome_iff_exists.mp hsome
    exact ⟨(uid, value), mem_entries_iff.mpr hvalue, hleaf⟩

end LateBinding.SparseIndex
