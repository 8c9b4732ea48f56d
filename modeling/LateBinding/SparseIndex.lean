import LateBinding.Abort

/-!
# Sparse index

A map from uids to values as a tree of two levels with 256 branches each. A leaf comes into being
when a first value is stored in it and stays from then on, so the memory taken follows the uids that
have been stored. Uids of 65536 and above are outside the index: reading or removing one finds
nothing, storing one is an abort.
-/

namespace LateBinding

/-- The largest uid that the index addresses. -/
def maxUid : Nat := 0xFFFF

abbrev Uid := Fin (256 * 256)

abbrev Leaf (α : Type) := Vector (Option α) 256

/-- A map from uids to values; the high byte of a uid selects a leaf, the low byte a place in it. -/
structure SparseIndex (α : Type) where
  leaves : Vector (Option (Leaf α)) 256

namespace SparseIndex

variable {α : Type}

def emptyLeaf : Leaf α := Vector.replicate 256 none

def empty : SparseIndex α := ⟨Vector.replicate 256 none⟩

instance : Inhabited (SparseIndex α) := ⟨empty⟩

def leafOf (uid : Uid) : Fin 256 := ⟨uid.val / 256, by omega⟩

def placeOf (uid : Uid) : Fin 256 := ⟨uid.val % 256, by omega⟩

def uidAt (leaf place : Fin 256) : Uid := ⟨leaf.val * 256 + place.val, by omega⟩

def lookup (index : SparseIndex α) (uid : Uid) : Option α :=
  index.leaves[leafOf uid].bind fun leaf => leaf[placeOf uid]

def insert (index : SparseIndex α) (uid : Uid) (value : α) : SparseIndex α :=
  let leaf := index.leaves[leafOf uid].getD emptyLeaf
  ⟨index.leaves.set (leafOf uid) (some (leaf.set (placeOf uid) (some value)))⟩

def erase (index : SparseIndex α) (uid : Uid) : SparseIndex α :=
  match index.leaves[leafOf uid] with
  | some leaf => ⟨index.leaves.set (leafOf uid) (some (leaf.set (placeOf uid) none))⟩
  | none => index

def get? (index : SparseIndex α) (uid : Nat) : Option α :=
  if h : uid < 256 * 256 then index.lookup ⟨uid, h⟩ else none

/-- Store a value under any uid. Also gives the value that it replaces. -/
def set (index : SparseIndex α) (uid : Nat) (value : α) :
    Except Abort (SparseIndex α × Option α) :=
  if h : uid < 256 * 256 then .ok (index.insert ⟨uid, h⟩ value, index.lookup ⟨uid, h⟩)
  else .error (.uidOutsideIndex uid)

/-- Empty the place of any uid. Also gives the value that was there. -/
def remove (index : SparseIndex α) (uid : Nat) : SparseIndex α × Option α :=
  if h : uid < 256 * 256 then (index.erase ⟨uid, h⟩, index.lookup ⟨uid, h⟩) else (index, none)

/-! ### Enumeration -/

def leafEntries (leaf : Fin 256) (values : Leaf α) : List (Uid × α) :=
  (List.finRange 256).filterMap fun place => values[place].map (uidAt leaf place, ·)

def entries (index : SparseIndex α) : List (Uid × α) :=
  (List.finRange 256).flatMap fun leaf => (index.leaves[leaf]).elim [] (leafEntries leaf)

def size (index : SparseIndex α) : Nat := index.entries.length

def isEmpty (index : SparseIndex α) : Bool := index.entries.isEmpty

def leafCount (index : SparseIndex α) : Nat := index.leaves.toList.countP Option.isSome

def copyInto (source target : SparseIndex α) : SparseIndex α :=
  source.entries.foldl (fun index entry => index.insert entry.1 entry.2) target

def debugText (showValue : α → String) (index : SparseIndex α) : String :=
  let items := index.entries.map fun entry => toString entry.1.val ++ ": " ++ showValue entry.2
  "\x7b" ++ ", ".intercalate items ++ "\x7d"

/-! ### Reading what was written -/

theorem uidAt_leafOf_placeOf (uid : Uid) : uidAt (leafOf uid) (placeOf uid) = uid := by
  apply Fin.ext
  simp only [uidAt, leafOf, placeOf]
  omega

theorem eq_of_leafOf_of_placeOf {uid other : Uid} (leaf : leafOf uid = leafOf other)
    (place : placeOf uid = placeOf other) : uid = other := by
  rw [← uidAt_leafOf_placeOf uid, ← uidAt_leafOf_placeOf other, leaf, place]

@[simp] theorem lookup_empty (uid : Uid) : (empty : SparseIndex α).lookup uid = none := by
  simp [lookup, empty]

theorem lookup_insert (index : SparseIndex α) (uid other : Uid) (value : α) :
    (index.insert uid value).lookup other =
      if uid = other then some value else index.lookup other := by
  by_cases leaf : leafOf uid = leafOf other
  · by_cases place : placeOf uid = placeOf other
    · have same := eq_of_leafOf_of_placeOf leaf place
      subst same
      simp [lookup, insert]
    · have differ : uid ≠ other := fun same => place (by rw [same])
      have places : (placeOf uid).val ≠ (placeOf other).val := fun same => place (Fin.ext same)
      rw [if_neg differ]
      simp only [lookup, insert, ← leaf, Fin.getElem_fin, Vector.getElem_set_self, Option.bind_some,
        Vector.getElem_set_ne _ _ places]
      cases index.leaves[(leafOf uid).val] <;> simp [emptyLeaf]
  · have differ : uid ≠ other := fun same => leaf (by rw [same])
    have leaves : (leafOf uid).val ≠ (leafOf other).val := fun same => leaf (Fin.ext same)
    rw [if_neg differ]
    simp [lookup, insert, Vector.getElem_set_ne, leaves]

end SparseIndex

end LateBinding
