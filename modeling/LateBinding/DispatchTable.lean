import LateBinding.Handle
import LateBinding.SparseIndex

/-!
# Dispatch tables

The table of a class maps the selectors that its instances understand to implementations. A table is
made from a copy of the superclass's table and never changes once it has been published.
-/

namespace LateBinding

structure DispatchTable where
  index : SparseIndex Imp

namespace DispatchTable

def empty : DispatchTable := ⟨.empty⟩

instance : Inhabited DispatchTable := ⟨empty⟩

def get? (table : DispatchTable) (sel : Sel) : Option Imp := table.index.get? sel.uid

def contains (table : DispatchTable) (sel : Sel) : Bool := (table.get? sel).isSome

/-- Implement a selector, in place of what implemented it before. -/
def set (table : DispatchTable) (sel : Sel) (imp : Imp) : Except Abort DispatchTable :=
  (table.index.set sel.uid imp).map fun (index, _) => ⟨index⟩

/-- The implemented selectors with their implementations, in the order of the uids. -/
def entries (table : DispatchTable) : List (Sel × Imp) :=
  table.index.entries.map fun (uid, imp) => (⟨uid.val⟩, imp)

def size (table : DispatchTable) : Nat := table.index.size

def isEmpty (table : DispatchTable) : Bool := table.index.isEmpty

def leafCount (table : DispatchTable) : Nat := table.index.leafCount

/-- Two tables are equal when they map the same selectors to the same implementations, whatever
leaves they have. -/
def equals (left right : DispatchTable) : Bool := left.entries = right.entries

end DispatchTable

end LateBinding
