import LateBinding.Registry.Tables

/-!
# What a composed table holds

A table that was composed holds for a selector what the strongest list that defines it has as its
last entry, or what the table above holds. Composing cannot fail unless one of the definitions has a
selector that no table can hold.
-/

namespace LateBinding

theorem Except.bind_eq_ok_iff {ε α β : Type} {first : Except ε α} {next : α → Except ε β}
    {value : β} : (first >>= next) = .ok value ↔ ∃ middle, first = .ok middle ∧
      next middle = .ok value := by
  cases first <;> simp [Bind.bind, Except.bind]

/-- The implementation that the last entry for a selector gives. -/
def lastImp? (methods : List MethodDefinition) (sel : Sel) : Option Imp :=
  (methods.findRev? (·.sel = sel)).map (·.imp)

/-- Every definition has a selector that a table can hold. -/
def Addressable (methods : List MethodDefinition) : Prop :=
  ∀ method ∈ methods, method.sel.uid ≤ maxUid

theorem lastImp?_cons (method : MethodDefinition) (rest : List MethodDefinition) (sel : Sel) :
    lastImp? (method :: rest) sel =
      (lastImp? rest sel).or (if method.sel = sel then some method.imp else none) := by
  simp only [lastImp?, List.findRev?]
  cases rest.findRev? (·.sel = sel) with
  | some found => rfl
  | none =>
    by_cases heq : method.sel = sel
    · simp [heq]
    · simp [heq]

theorem lastImp?_isSome (methods : List MethodDefinition) (sel : Sel) :
    (lastImp? methods sel).isSome = definesSel methods sel := by
  induction methods with
  | nil => rfl
  | cons method rest ih =>
    rw [lastImp?_cons, definesSel, List.any_cons, ← definesSel, ← ih]
    cases lastImp? rest sel with
    | some imp => simp
    | none =>
      by_cases heq : method.sel = sel
      · simp [heq]
      · simp [heq]

namespace SparseIndex

variable {α : Type}

theorem get?_empty (uid : Nat) : (empty : SparseIndex α).get? uid = none := by
  unfold get?
  split
  · exact lookup_empty _
  · rfl

theorem set_of_le {index : SparseIndex α} {uid : Nat} (huid : uid ≤ maxUid) (value : α) :
    ∃ changed, index.set uid value = .ok (changed, index.get? uid) ∧
      ∀ other, changed.get? other = if uid = other then some value else index.get? other := by
  have hin : uid < 256 * 256 := by
    unfold maxUid at huid
    omega
  refine ⟨index.insert ⟨uid, hin⟩ value, ?_, ?_⟩
  · simp [set, get?, hin]
  · intro other
    unfold get?
    by_cases hother : other < 256 * 256
    · simp [hother, lookup_insert]
    · have hne : uid ≠ other := by
        intro heq
        subst heq
        exact hother hin
      simp [hother, hne]

theorem set_of_lt {index : SparseIndex α} {uid : Nat} (huid : maxUid < uid) (value : α) :
    index.set uid value = .error (.uidOutsideIndex uid) := by
  have hout : ¬ uid < 256 * 256 := by
    unfold maxUid at huid
    omega
  simp [set, hout]

end SparseIndex

namespace DispatchTable

theorem get?_empty (sel : Sel) : empty.get? sel = none := SparseIndex.get?_empty _

theorem set_of_le {table : DispatchTable} {sel : Sel} (hsel : sel.uid ≤ maxUid) (imp : Imp) :
    ∃ changed, table.set sel imp = .ok changed ∧
      ∀ other, changed.get? other = if sel = other then some imp else table.get? other := by
  obtain ⟨index, hindex, hget⟩ := table.index.set_of_le hsel imp
  refine ⟨⟨index⟩, ?_, ?_⟩
  · rw [set, hindex]
    rfl
  · intro other
    have hiff : sel.uid = other.uid ↔ sel = other := by
      cases sel
      cases other
      simp
    simp only [get?, hget, hiff]

theorem set_of_lt {table : DispatchTable} {sel : Sel} (hsel : maxUid < sel.uid) (imp : Imp) :
    table.set sel imp = .error (.uidOutsideIndex sel.uid) := by
  rw [set, table.index.set_of_lt hsel]
  rfl

/-- Whether a table was made at all, and what it holds. -/
def Holds (made : Except Abort DispatchTable) (possible : Prop) (get? : Sel → Option Imp) : Prop :=
  match made with
  | .ok table => possible ∧ table.get? = get?
  | .error _ => ¬ possible

theorem Holds.ok {made : Except Abort DispatchTable} {possible : Prop} {get? : Sel → Option Imp}
    (holds : Holds made possible get?) (hpossible : possible) :
    ∃ table : DispatchTable, made = .ok table ∧ ∀ sel, table.get? sel = get? sel := by
  cases made with
  | error reason => exact absurd hpossible holds
  | ok table => exact ⟨table, rfl, fun sel => congrFun holds.2 sel⟩

theorem Holds.error {made : Except Abort DispatchTable} {possible : Prop}
    {get? : Sel → Option Imp} (holds : Holds made possible get?) (himpossible : ¬ possible) :
    ∃ reason, made = .error reason := by
  cases made with
  | error reason => exact ⟨reason, rfl⟩
  | ok table => exact absurd holds.1 himpossible

theorem holds_overlay (table : DispatchTable) (methods : List MethodDefinition) :
    Holds (table.overlay methods) (Addressable methods)
      fun sel => (lastImp? methods sel).or (table.get? sel) := by
  induction methods generalizing table with
  | nil =>
    constructor
    · intro method hmethod
      cases hmethod
    · rfl
  | cons method rest ih =>
    have hsteps : table.overlay (method :: rest) =
        table.set method.sel method.imp >>= (overlay · rest) := rfl
    by_cases hsel : method.sel.uid ≤ maxUid
    · obtain ⟨changed, hchanged, hget⟩ := table.set_of_le hsel method.imp
      have hrest := ih changed
      rw [hsteps, hchanged]
      change Holds (changed.overlay rest) _ _
      have haddressable : Addressable (method :: rest) ↔ Addressable rest := by
        simp [Addressable, hsel]
      have hlookup : (fun sel => (lastImp? rest sel).or (changed.get? sel)) =
          fun sel => (lastImp? (method :: rest) sel).or (table.get? sel) := by
        funext sel
        rw [lastImp?_cons, hget, Option.or_assoc]
        split
        · rfl
        · rfl
      rw [haddressable, ← hlookup]
      exact hrest
    · rw [hsteps, table.set_of_lt (Nat.lt_of_not_le hsel)]
      intro haddressable
      exact hsel (haddressable method List.mem_cons_self)

theorem holds_layers (table : DispatchTable) (layers : List (List MethodDefinition)) :
    Holds (layers.foldlM overlay table) (∀ methods ∈ layers, Addressable methods)
      fun sel => (layers.reverse.findSome? (lastImp? · sel)).or (table.get? sel) := by
  induction layers generalizing table with
  | nil =>
    constructor
    · intro methods hmethods
      cases hmethods
    · rfl
  | cons methods rest ih =>
    have hfirst := table.holds_overlay methods
    have hsteps : (methods :: rest).foldlM overlay table =
        table.overlay methods >>= (rest.foldlM overlay ·) := rfl
    rw [hsteps]
    cases hmade : table.overlay methods with
    | error reason =>
      rw [hmade] at hfirst
      intro haddressable
      exact hfirst (haddressable methods List.mem_cons_self)
    | ok changed =>
      rw [hmade] at hfirst
      obtain ⟨haddressable, hget⟩ := hfirst
      change Holds (rest.foldlM overlay changed) _ _
      have hall : (∀ list ∈ methods :: rest, Addressable list) ↔
          ∀ list ∈ rest, Addressable list := by
        simp [haddressable]
      have hlookup : (fun sel => (rest.reverse.findSome? (lastImp? · sel)).or (changed.get? sel)) =
          fun sel => ((methods :: rest).reverse.findSome? (lastImp? · sel)).or
            (table.get? sel) := by
        funext sel
        rw [hget, List.reverse_cons, List.findSome?_append, Option.or_assoc]
        congr 1
        rw [List.findSome?_singleton]
      rw [hall, ← hlookup]
      exact ih changed

theorem holds_compose (above : Option DispatchTable) (layers : List (List MethodDefinition)) :
    Holds (compose above layers) (∀ methods ∈ layers, Addressable methods)
      fun sel => (layers.reverse.findSome? (lastImp? · sel)).or (above.bind (·.get? sel)) := by
  have hlayers := holds_layers (above.getD empty) layers
  cases above with
  | some table => exact hlayers
  | none =>
    have hempty : (fun sel => (layers.reverse.findSome? (lastImp? · sel)).or (empty.get? sel)) =
        fun sel => (layers.reverse.findSome? (lastImp? · sel)).or none := by
      funext sel
      rw [get?_empty]
    rw [Option.getD_none, hempty] at hlayers
    exact hlayers

end DispatchTable

namespace Record

/-- The category that decides about a selector. -/
def strongest? (record : Record) (policy : CategoryConflictPolicy) (kind : ClassKind) (sel : Sel) :
    Option CategoryDefinition :=
  match policy with
  | .lastApplied => record.categories.findRev? (·.defines kind sel)
  | .firstApplied => record.categories.find? (·.defines kind sel)

/-- What the class itself implements a selector by: the deciding category if there is one, else the
class's own list, and the last entry of it for the selector. -/
def implementation? (record : Record) (policy : CategoryConflictPolicy) (kind : ClassKind)
    (sel : Sel) : Option Imp :=
  match record.strongest? policy kind sel with
  | some category => lastImp? (category.methods.get kind) sel
  | none => lastImp? (record.methods.get kind) sel

/-- The lists of a class have selectors that a table can hold. -/
def Addressable (record : Record) : Prop :=
  ∀ kind, LateBinding.Addressable (record.methods.get kind) ∧
    ∀ category ∈ record.categories, LateBinding.Addressable (category.methods.get kind)

theorem findSome?_lastImp? (categories : List CategoryDefinition) (kind : ClassKind) (sel : Sel) :
    categories.findSome? (fun category => lastImp? (category.methods.get kind) sel) =
      (categories.find? (·.defines kind sel)).bind fun category =>
        lastImp? (category.methods.get kind) sel := by
  induction categories with
  | nil => rfl
  | cons category rest ih =>
    have hdefines := lastImp?_isSome (category.methods.get kind) sel
    rw [← CategoryDefinition.defines] at hdefines
    rw [List.findSome?_cons, List.find?_cons, ← hdefines, ih]
    cases hlast : lastImp? (category.methods.get kind) sel with
    | none => rfl
    | some imp => exact hlast.symm

/-- The first list from the strongest on that defines a selector is the deciding one. -/
theorem findSome?_layers (record : Record) (policy : CategoryConflictPolicy) (kind : ClassKind)
    (sel : Sel) : (record.layers policy kind).reverse.findSome? (lastImp? · sel) =
      record.implementation? policy kind sel := by
  -- the categories of a record from the strongest to the weakest
  have hstrength : ∀ categories : List CategoryDefinition,
      ((categories.map fun category => category.methods.get kind).reverse ++
        [record.methods.get kind]).findSome? (lastImp? · sel) =
      ((categories.reverse.find? (·.defines kind sel)).bind fun category =>
        lastImp? (category.methods.get kind) sel).or (lastImp? (record.methods.get kind) sel) := by
    intro categories
    rw [List.findSome?_append, List.findSome?_singleton, ← findSome?_lastImp?, ← List.map_reverse,
      List.findSome?_map]
    rfl
  have hfound : ∀ found : Option CategoryDefinition,
      (∀ category, found = some category → category.defines kind sel = true) →
      (found.bind fun category => lastImp? (category.methods.get kind) sel).or
        (lastImp? (record.methods.get kind) sel) =
      match found with
      | some category => lastImp? (category.methods.get kind) sel
      | none => lastImp? (record.methods.get kind) sel := by
    rintro (_ | category) hdefines
    · rfl
    · have hsome := lastImp?_isSome (category.methods.get kind) sel
      rw [← CategoryDefinition.defines, hdefines category rfl] at hsome
      obtain ⟨imp, himp⟩ := Option.isSome_iff_exists.mp hsome
      simp only [Option.bind_some, himp, Option.some_or]
  unfold layers implementation? strongest?
  cases policy with
  | lastApplied =>
    rw [List.reverse_cons, hstrength, ← List.findRev?_eq_find?_reverse]
    apply hfound
    intro category hcategory
    rw [List.findRev?_eq_find?_reverse] at hcategory
    have hdefines := List.find?_some hcategory
    exact hdefines
  | firstApplied =>
    rw [List.reverse_cons, hstrength, List.reverse_reverse]
    apply hfound
    intro category hcategory
    have hdefines := List.find?_some hcategory
    exact hdefines

theorem addressable_layers_iff (record : Record) (policy : CategoryConflictPolicy) :
    (∀ kind, ∀ methods ∈ record.layers policy kind, LateBinding.Addressable methods) ↔
      record.Addressable := by
  have hmem : ∀ kind methods, methods ∈ record.layers policy kind ↔
      methods = record.methods.get kind ∨
        ∃ category ∈ record.categories, category.methods.get kind = methods := by
    intro kind methods
    cases policy <;> simp [layers]
  constructor
  · intro hlayers kind
    constructor
    · exact hlayers kind _ ((hmem kind _).mpr (.inl rfl))
    · intro category hcategory
      exact hlayers kind _ ((hmem kind _).mpr (.inr ⟨category, hcategory, rfl⟩))
  · intro haddressable kind methods hmethods
    rcases (hmem kind methods).mp hmethods with rfl | ⟨category, hcategory, rfl⟩
    · exact (haddressable kind).1
    · exact (haddressable kind).2 category hcategory

end Record

end LateBinding
