import LateBinding.DispatchTable
import LateBinding.Proofs.SparseIndex.Entries
import Mathlib.Data.List.Forall2

/-!
# Families of sparse indices are families of maps

Indices are made, changed, cloned and copied into each other. A *ledger* tells of each what it maps
the uids to and which leaves came into being: those of the uids that values were stored for, in the
index itself or in one that it was cloned from. All that an index shows follows from its ledger. The
leaves only show in their number.
-/

namespace LateBinding

namespace SparseIndex

variable {α : Type}

/-! ### Ledgers -/

/-- What is done to a family of indices. They are numbered in the order in which they are made. -/
inductive Edit (α : Type) where
  | create
  | set (target : Nat) (uid : Uid) (value : α)
  | remove (target uid : Nat)
  | clone (source : Nat)
  | copyInto (source target : Nat)
  deriving DecidableEq, Repr

structure Ledger (α : Type) where
  value? : Nat → Option α
  leaves : Finset Nat

namespace Ledger

def empty : Ledger α := ⟨fun _ => none, ∅⟩

def store (ledger : Ledger α) (uid : Nat) (value : α) : Ledger α where
  value? other := if uid = other then some value else ledger.value? other
  leaves := ledger.leaves ∪ {uid / 256}

/-- Forget a value. The leaf stays. -/
def drop (ledger : Ledger α) (uid : Nat) : Ledger α :=
  { ledger with value? := fun other => if uid = other then none else ledger.value? other }

def uids (ledger : Ledger α) : Finset Nat :=
  (Finset.range (maxUid + 1)).filter fun uid => (ledger.value? uid).isSome

def overlay (source target : Ledger α) : Ledger α where
  value? uid := (source.value? uid).or (target.value? uid)
  leaves := target.leaves ∪ source.uids.image (· / 256)

/-- The ledgers after an edit of a family, and the value that was stored or removed before. -/
def edit (ledgers : List (Ledger α)) : Edit α → List (Ledger α) × Option α
  | .create => (ledgers ++ [empty], none)
  | .set target uid value =>
    match ledgers[target]? with
    | some ledger => (ledgers.set target (ledger.store uid value), ledger.value? uid)
    | none => (ledgers, none)
  | .remove target uid =>
    match ledgers[target]? with
    | some ledger => (ledgers.set target (ledger.drop uid), ledger.value? uid)
    | none => (ledgers, none)
  | .clone source => (ledgers ++ ledgers[source]?.toList, none)
  | .copyInto source target =>
    match ledgers[source]?, ledgers[target]? with
    | some copied, some ledger => (ledgers.set target (copied.overlay ledger), none)
    | _, _ => (ledgers, none)

def editAll (ledgers : List (Ledger α)) : List (Edit α) → List (Ledger α) × List (Option α)
  | [] => (ledgers, [])
  | change :: rest =>
    let (ledgers, previous) := edit ledgers change
    let (ledgers, replies) := editAll ledgers rest
    (ledgers, previous :: replies)

end Ledger

/-! ### Families of indices -/

def edit (family : List (SparseIndex α)) :
    Edit α → Except Abort (List (SparseIndex α) × Option α)
  | .create => .ok (family ++ [empty], none)
  | .set target uid value =>
    match family[target]? with
    | some index =>
      (index.set uid value).map fun (changed, previous) => (family.set target changed, previous)
    | none => .ok (family, none)
  | .remove target uid =>
    match family[target]? with
    | some index => .ok (family.set target (index.remove uid).1, (index.remove uid).2)
    | none => .ok (family, none)
  | .clone source => .ok (family ++ family[source]?.toList, none)
  | .copyInto source target =>
    match family[source]?, family[target]? with
    | some copied, some index => .ok (family.set target (copied.copyInto index), none)
    | _, _ => .ok (family, none)

def editAll (family : List (SparseIndex α)) :
    List (Edit α) → Except Abort (List (SparseIndex α) × List (Option α))
  | [] => .ok (family, [])
  | change :: rest => do
    let (family, previous) ← edit family change
    let (family, replies) ← editAll family rest
    return (family, previous :: replies)

/-! ### The index of a ledger -/

/-- The index has the values and the leaves of the ledger. -/
structure Keeps (index : SparseIndex α) (ledger : Ledger α) : Prop where
  lookup : ∀ uid : Uid, index.lookup uid = ledger.value? uid
  outside : ∀ uid, maxUid < uid → ledger.value? uid = none
  leaves : ∀ leaf, leaf ∈ ledger.leaves ↔ ∃ h : leaf < 256, index.HasLeaf ⟨leaf, h⟩

theorem maxUid_lt_iff {uid : Nat} : maxUid < uid ↔ ¬ uid < 256 * 256 := by
  rw [maxUid]
  omega

theorem keeps_empty : (empty : SparseIndex α).Keeps .empty where
  lookup := lookup_empty
  outside _ _ := rfl
  leaves leaf := by
    refine ⟨fun hleaf => absurd hleaf (Finset.notMem_empty leaf), ?_⟩
    rintro ⟨_, hleaf⟩
    simp [HasLeaf, empty, get_eq_getElem] at hleaf

namespace Keeps

variable {index : SparseIndex α} {ledger : Ledger α} (keeps : index.Keeps ledger)

include keeps

theorem get?_eq (uid : Nat) : index.get? uid = ledger.value? uid := by
  rw [get?]
  split
  · exact keeps.lookup _
  · next hout => rw [keeps.outside uid (maxUid_lt_iff.mpr hout)]

theorem insert (uid : Uid) (value : α) :
    (index.insert uid value).Keeps (ledger.store uid value) where
  lookup other := by
    rw [lookup_insert, keeps.lookup, Ledger.store]
    simp only [Fin.ext_iff]
  outside other hother := by
    have hne : uid.val ≠ other := by
      have := maxUid_lt_iff.mp hother
      omega
    rw [Ledger.store]
    exact (if_neg hne).trans (keeps.outside other hother)
  leaves leaf := by
    rw [Ledger.store, Finset.mem_union, Finset.mem_singleton, keeps.leaves]
    simp only [hasLeaf_insert, leafOf, Fin.mk.injEq]
    constructor
    · rintro (⟨hleaf, hhas⟩ | heq)
      · exact ⟨hleaf, .inl hhas⟩
      · exact ⟨by omega, .inr heq.symm⟩
    · rintro ⟨hleaf, hhas | heq⟩
      · exact .inl ⟨hleaf, hhas⟩
      · exact .inr heq.symm

theorem set (uid : Uid) (value : α) :
    ∃ changed, index.set uid value = .ok (changed, ledger.value? uid) ∧
      changed.Keeps (ledger.store uid value) := by
  refine ⟨index.insert uid value, ?_, keeps.insert uid value⟩
  rw [SparseIndex.set, dif_pos uid.isLt, ← keeps.lookup uid]

theorem remove (uid : Nat) :
    (index.remove uid).1.Keeps (ledger.drop uid) ∧ (index.remove uid).2 = ledger.value? uid := by
  rw [SparseIndex.remove]
  split
  · next hin =>
    refine ⟨⟨fun other => ?_, fun other hother => ?_, fun leaf => ?_⟩, keeps.lookup ⟨uid, hin⟩⟩
    · rw [lookup_erase, keeps.lookup, Ledger.drop]
      simp only [Fin.ext_iff]
    · rw [Ledger.drop]
      dsimp only
      split
      · rfl
      · exact keeps.outside other hother
    · simp only [hasLeaf_erase]
      exact keeps.leaves leaf
  · next hout =>
    have hnone := keeps.outside uid (maxUid_lt_iff.mpr hout)
    have hsame : (ledger.drop uid) = ledger := by
      have hvalues : (fun other => if uid = other then none else ledger.value? other) =
          ledger.value? := by
        funext other
        split
        · next heq => rw [← heq, hnone]
        · rfl
      rw [Ledger.drop, hvalues]
    rw [hsame]
    exact ⟨keeps, hnone.symm⟩

theorem copyInto {target : SparseIndex α} {into : Ledger α} (htarget : target.Keeps into) :
    (index.copyInto target).Keeps (ledger.overlay into) where
  lookup uid := by rw [lookup_copyInto, keeps.lookup, htarget.lookup, Ledger.overlay]
  outside uid huid := by
    rw [Ledger.overlay]
    dsimp only
    rw [keeps.outside uid huid, htarget.outside uid huid, Option.none_or]
  leaves leaf := by
    have huids : leaf ∈ ledger.uids.image (· / 256) ↔
        ∃ uid : Uid, (index.lookup uid).isSome ∧ uid.val / 256 = leaf := by
      simp only [Ledger.uids, Finset.mem_image, Finset.mem_filter, Finset.mem_range, maxUid,
        keeps.lookup]
      constructor
      · rintro ⟨uid, ⟨hin, hsome⟩, heq⟩
        exact ⟨⟨uid, hin⟩, hsome, heq⟩
      · rintro ⟨uid, hsome, heq⟩
        exact ⟨uid, ⟨uid.isLt, hsome⟩, heq⟩
    rw [Ledger.overlay, Finset.mem_union, htarget.leaves, huids]
    simp only [hasLeaf_copyInto, leafOf, Fin.mk.injEq]
    constructor
    · rintro (⟨hleaf, hhas⟩ | ⟨uid, hsome, heq⟩)
      · exact ⟨hleaf, .inl hhas⟩
      · exact ⟨by omega, .inr ⟨uid, hsome, heq⟩⟩
    · rintro ⟨hleaf, hhas | hstored⟩
      · exact .inl ⟨hleaf, hhas⟩
      · exact .inr hstored

/-! ### What a ledger tells of its index -/

theorem size_eq : index.size = ledger.uids.card := by
  have huids : ledger.uids =
      (Finset.univ.filter fun uid => (index.lookup uid).isSome).map Fin.valEmbedding := by
    ext uid
    simp only [Ledger.uids, Finset.mem_filter, Finset.mem_range, maxUid, Finset.mem_map,
      Finset.mem_univ, true_and, Fin.valEmbedding_apply, keeps.lookup]
    constructor
    · rintro ⟨hin, hsome⟩
      exact ⟨⟨uid, hin⟩, hsome, rfl⟩
    · rintro ⟨uid', hsome, heq⟩
      subst heq
      exact ⟨uid'.isLt, hsome⟩
  rw [index.size_eq_card, huids, Finset.card_map]

theorem leafCount_eq : index.leafCount = ledger.leaves.card := by
  have hleaves : ledger.leaves = (Finset.univ.filter index.HasLeaf).map Fin.valEmbedding := by
    ext leaf
    rw [keeps.leaves, Finset.mem_map]
    constructor
    · rintro ⟨hleaf, hhas⟩
      exact ⟨⟨leaf, hleaf⟩, Finset.mem_filter_univ _ |>.mpr hhas, rfl⟩
    · rintro ⟨leaf', hhas, heq⟩
      subst heq
      exact ⟨leaf'.isLt, (Finset.mem_filter_univ _).mp hhas⟩
  rw [index.leafCount_eq_card, hleaves, Finset.card_map]

end Keeps

/-! ### Edited families -/

section Related

variable {β : Type} {related : α → β → Prop} {xs : List α} {ys : List β}

theorem rel_getElem? (hrel : List.Forall₂ related xs ys) (place : Nat) :
    Option.Rel related xs[place]? ys[place]? := by
  induction hrel generalizing place with
  | nil => exact .none
  | cons hfirst _ ih =>
    cases place with
    | zero => exact .some hfirst
    | succ place => exact ih place

theorem forall₂_set (hrel : List.Forall₂ related xs ys) {x : α} {y : β} (hnew : related x y)
    (place : Nat) : List.Forall₂ related (xs.set place x) (ys.set place y) := by
  induction hrel generalizing place with
  | nil => exact .nil
  | cons hfirst hrest ih =>
    cases place with
    | zero => exact .cons hnew hrest
    | succ place => exact .cons hfirst (ih place)

end Related

variable {family : List (SparseIndex α)} {ledgers : List (Ledger α)}

theorem Keeps.edit (keeps : List.Forall₂ Keeps family ledgers) (change : Edit α) :
    ∃ final, SparseIndex.edit family change = .ok (final, (Ledger.edit ledgers change).2) ∧
      List.Forall₂ Keeps final (Ledger.edit ledgers change).1 := by
  cases change with
  | create => exact ⟨family ++ [empty], rfl, List.rel_append keeps (.cons keeps_empty .nil)⟩
  | set target uid value =>
    have htarget := rel_getElem? keeps target
    rw [SparseIndex.edit, Ledger.edit]
    generalize family[target]? = index?, ledgers[target]? = ledger? at htarget ⊢
    cases htarget with
    | none => exact ⟨family, rfl, keeps⟩
    | some hindex =>
      obtain ⟨changed, hset, hchanged⟩ := hindex.set uid value
      refine ⟨family.set target changed, ?_, forall₂_set keeps hchanged target⟩
      simp only [hset]
      rfl
  | remove target uid =>
    have htarget := rel_getElem? keeps target
    rw [SparseIndex.edit, Ledger.edit]
    generalize family[target]? = index?, ledgers[target]? = ledger? at htarget ⊢
    cases htarget with
    | none => exact ⟨family, rfl, keeps⟩
    | some hindex =>
      obtain ⟨hremoved, hprevious⟩ := hindex.remove uid
      simp only [hprevious]
      exact ⟨_, rfl, forall₂_set keeps hremoved target⟩
  | clone source =>
    have hsource := rel_getElem? keeps source
    refine ⟨family ++ family[source]?.toList, rfl, List.rel_append keeps ?_⟩
    generalize family[source]? = index?, ledgers[source]? = ledger? at hsource ⊢
    cases hsource with
    | none => exact .nil
    | some hindex => exact .cons hindex .nil
  | copyInto source target =>
    have hsource := rel_getElem? keeps source
    have htarget := rel_getElem? keeps target
    rw [SparseIndex.edit, Ledger.edit]
    generalize family[source]? = copied?, ledgers[source]? = from? at hsource ⊢
    generalize family[target]? = index?, ledgers[target]? = into? at htarget ⊢
    cases hsource with
    | none => exact ⟨family, rfl, keeps⟩
    | some hcopied =>
      cases htarget with
      | none => exact ⟨family, rfl, keeps⟩
      | some hindex =>
        exact ⟨_, rfl, forall₂_set keeps (hcopied.copyInto hindex) target⟩

theorem Keeps.editAll (keeps : List.Forall₂ Keeps family ledgers) (edits : List (Edit α)) :
    ∃ final, SparseIndex.editAll family edits = .ok (final, (Ledger.editAll ledgers edits).2) ∧
      List.Forall₂ Keeps final (Ledger.editAll ledgers edits).1 := by
  induction edits generalizing family ledgers with
  | nil => exact ⟨family, rfl, keeps⟩
  | cons change rest ih =>
    obtain ⟨middle, hedit, hmiddle⟩ := Keeps.edit keeps change
    obtain ⟨final, hrest, hfinal⟩ := ih hmiddle
    refine ⟨final, ?_, hfinal⟩
    rw [SparseIndex.editAll, hedit]
    change (SparseIndex.editAll middle rest >>= fun answer => _) = _
    rw [hrest]
    rfl

/-! ### What indices show -/

/-- All that an index shows, as its ledger tells it. -/
structure Shows (index : SparseIndex α) (ledger : Ledger α) : Prop where
  get? : ∀ uid, index.get? uid = ledger.value? uid
  outside : ∀ uid, maxUid < uid → ledger.value? uid = none
  listed : ∀ uid value, (uid, value) ∈ index.entries ↔ ledger.value? uid = some value
  ascending : index.entries.Pairwise fun left right => left.1 < right.1
  size : index.size = ledger.uids.card
  isEmpty : index.isEmpty = true ↔ ∀ uid, ledger.value? uid = none
  leafCount : index.leafCount = ledger.leaves.card

theorem Keeps.shows {index : SparseIndex α} {ledger : Ledger α} (keeps : index.Keeps ledger) :
    index.Shows ledger where
  get? := keeps.get?_eq
  outside := keeps.outside
  listed uid value := by rw [mem_entries_iff, keeps.lookup]
  ascending := index.pairwise_entries
  size := keeps.size_eq
  isEmpty := by
    rw [isEmpty_iff]
    constructor
    · intro hnone uid
      by_cases hin : uid < 256 * 256
      · exact (keeps.lookup ⟨uid, hin⟩).symm.trans (hnone _)
      · exact keeps.outside uid (maxUid_lt_iff.mpr hin)
    · intro hnone uid
      rw [keeps.lookup, hnone]
  leafCount := keeps.leafCount_eq

theorem entries_eq_iff_get? {left right : SparseIndex α} :
    left.entries = right.entries ↔ ∀ uid, left.get? uid = right.get? uid := by
  rw [entries_eq_iff]
  constructor
  · intro hsame uid
    rw [get?, get?]
    split
    · exact hsame _
    · rfl
  · intro hsame uid
    have huid := hsame uid
    rwa [get?, get?, dif_pos uid.isLt, dif_pos uid.isLt] at huid

end SparseIndex

namespace DispatchTable

theorem equals_iff {left right : DispatchTable} :
    left.equals right = true ↔ ∀ sel, left.get? sel = right.get? sel := by
  have hinjective :
      Function.Injective fun entry : Uid × Imp => ((⟨entry.1.val⟩ : Sel), entry.2) := by
    rintro ⟨uid, imp⟩ ⟨uid', imp'⟩ heq
    simp only [Prod.mk.injEq, Sel.mk.injEq, Fin.val_inj] at heq
    exact Prod.ext heq.1 heq.2
  rw [equals, decide_eq_true_iff, entries, entries, hinjective.list_map.eq_iff,
    SparseIndex.entries_eq_iff_get?]
  exact ⟨fun hsame sel => hsame sel.uid, fun hsame uid => hsame ⟨uid⟩⟩

end DispatchTable

namespace SparseIndex

/-- However a family of indices was made, its indices show what their ledgers tell, and what an edit
gives back is what the ledgers have. Two dispatch tables are equal if they implement the same
selectors in the same way. -/
theorem edited_shows_ledger :
    (∀ (α : Type) (edits : List (Edit α)),
      ∃ family, editAll [] edits = .ok (family, (Ledger.editAll [] edits).2) ∧
        List.Forall₂ Shows family (Ledger.editAll [] edits).1) ∧
    ∀ left right : DispatchTable, left.equals right = true ↔
      ∀ sel, left.get? sel = right.get? sel := by
  refine ⟨fun α edits => ?_, fun left right => DispatchTable.equals_iff⟩
  obtain ⟨family, hrun, hkeeps⟩ := Keeps.editAll (.nil : List.Forall₂ Keeps [] []) edits
  exact ⟨family, hrun, hkeeps.imp fun _ _ keeps => keeps.shows⟩

example : ((editAll [] [.create, .set 0 255 'a', .set 0 256 'b', .remove 0 256]).toOption.map
    fun answer => answer.1.map fun index => (index.get? 255, index.leafCount)) =
      some [(some 'a', 2)] := by
  decide +kernel

end SparseIndex

end LateBinding
