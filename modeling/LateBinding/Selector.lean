import LateBinding.Options
import LateBinding.StringTable

/-!
# Selectors

A selector is the small number, its uid, that stands for a message name. The selector table gives
the first name that it meets the uid 1, the next new name 2 and so on; a name keeps its uid until
the table is cleared. The name alone is the key: declarations of one name with different type
encodings share a uid, and the first non-empty encoding stays.
-/

namespace LateBinding

/-- A selector. A uid that no table handed out is a selector as well; looking it up finds
nothing. -/
structure Sel where
  uid : Nat
  deriving DecidableEq, Repr, Inhabited

def Sel.debugText (sel : Sel) : String := "Sel(" ++ toString sel.uid ++ ")"

structure SelectorInfo where
  name : String
  types : Option String
  deriving DecidableEq, Repr

/-- A declaration whose type encoding was ignored in favour of an earlier one. -/
structure TypeConflict where
  selector : String
  kept : String
  ignored : String
  deriving DecidableEq, Repr

structure SelectorNotFound where
  name : String
  deriving DecidableEq, Repr

def SelectorNotFound.message (error : SelectorNotFound) : String :=
  "Selector not found: " ++ error.name

/-- An empty type encoding is no encoding. -/
def someTypes (types : Option String) : Option String := types.filter (· ≠ "")

structure SelectorTable where
  uids : StringTable Sel
  infos : Array SelectorInfo
  policy : TypeMismatchPolicy

namespace SelectorTable

/-- A table without selectors, set up with the given number of places. -/
def withCapacity (capacity : Nat) (policy : TypeMismatchPolicy) : SelectorTable :=
  { uids := .withCapacity capacity, infos := #[], policy }

def default : SelectorTable := withCapacity 16 .warn

instance : Inhabited SelectorTable := ⟨default⟩

def size (table : SelectorTable) : Nat := table.infos.size

def isEmpty (table : SelectorTable) : Bool := table.infos.isEmpty

/-- What is known about a selector. The selector with uid 0 is never handed out. -/
def info? (table : SelectorTable) (sel : Sel) : Option SelectorInfo :=
  if sel.uid = 0 then none else table.infos[sel.uid - 1]?

def name? (table : SelectorTable) (sel : Sel) : Option String :=
  (table.info? sel).map (·.name)

def types? (table : SelectorTable) (sel : Sel) : Option String :=
  (table.info? sel).bind (·.types)

def contains (table : SelectorTable) (sel : Sel) : Bool := (table.info? sel).isSome

def lookup (table : SelectorTable) (name : String) : Except SelectorNotFound Sel :=
  match table.uids.get? name with
  | some sel => .ok sel
  | none => .error ⟨name⟩

def describe (table : SelectorTable) (sel : Sel) : String :=
  (table.name? sel).getD ("<uid " ++ toString sel.uid ++ ">")

/-- Declare a type encoding for a selector. The first one is kept; another one is a conflict, which
is reported if the policy says so. -/
def reconcile (table : SelectorTable) (sel : Sel) (types : Option String) :
    SelectorTable × Option TypeConflict :=
  match someTypes types, table.info? sel with
  | some types, some ⟨name, none⟩ =>
    ({ table with infos := table.infos.setIfInBounds (sel.uid - 1) ⟨name, some types⟩ }, none)
  | some types, some ⟨name, some kept⟩ =>
    (table, if kept ≠ types ∧ table.policy = .warn then some ⟨name, kept, types⟩ else none)
  | _, _ => (table, none)

/-- The selector of a name, handed out now if the name is new. A new name that finds all uids taken
is an abort. -/
def intern (table : SelectorTable) (name : String) (types : Option String) :
    Except Abort (Sel × SelectorTable × Option TypeConflict) :=
  match table.uids.get? name with
  | some sel =>
    let (table, conflict) := table.reconcile sel types
    .ok (sel, table, conflict)
  | none =>
    if maxUid ≤ table.size then .error (.selectorsExhausted name)
    else
      match table with
      | ⟨uids, infos, policy⟩ =>
        let sel := Sel.mk (infos.size + 1)
        .ok (sel, ⟨(uids.insert name sel).1, infos.push ⟨name, someTypes types⟩, policy⟩, none)

/-- Intern names without type encodings, one after the other. Gives the selector of the last name,
or the one with uid 0 if there is no name. -/
def internAll (table : SelectorTable) (names : List String) : Except Abort (Sel × SelectorTable) :=
  names.foldlM
    (fun (_, table) name => (table.intern name none).map fun (sel, table, _) => (sel, table))
    (⟨0⟩, table)

/-- Forget every selector. Uids start at 1 again. -/
def clear (table : SelectorTable) : SelectorTable :=
  { table with uids := table.uids.clear, infos := #[] }

@[simp] theorem size_clear (table : SelectorTable) : table.clear.size = 0 := rfl

@[simp] theorem policy_clear (table : SelectorTable) : table.clear.policy = table.policy := rfl

end SelectorTable

end LateBinding
