import LateBinding.Proofs.Registry.Climbing
import LateBinding.Proofs.Registry.Redefining

/-!
# Where resolution comes to an end

On the way up from one side of a class the first side is looked for whose class defines the selector
for it. When one definition of one class is changed, a search that comes to its side finds the new
implementation, and every other search finds what it found before, at the same place.
-/

namespace LateBinding

/-- The sides that are met on the way up a chain from one side of the lowest class. -/
def sidesUp (kind : ClassKind) (chain : List Record) : List (Record × ClassKind) :=
  match kind with
  | .plain => chain.map (·, .plain)
  | .metaclass => chain.map (·, .metaclass) ++ chain.getLast?.toList.map (·, .plain)

/-- The first side on the way up whose class defines a selector for it. -/
def provider? (kind : ClassKind) (chain : List Record) (sel : Sel) : Option ClassRef :=
  ((sidesUp kind chain).find? fun place => place.1.defines place.2 sel).map
    fun place => place.1.side place.2

theorem walkUp_eq_findSome? (policy : CategoryConflictPolicy) (kind : ClassKind)
    (chain : List Record) (sel : Sel) : walkUp policy kind chain sel =
      (sidesUp kind chain).findSome? fun place => place.1.implementation? policy place.2 sel := by
  cases kind with
  | plain =>
    rw [walkUp, sidesUp, List.findSome?_map]
    rfl
  | metaclass =>
    rw [walkUp, sidesUp, List.findSome?_append, List.findSome?_map, List.findSome?_map]
    congr 1
    cases chain.getLast? with
    | none => rfl
    | some root => rw [Option.toList_some, List.findSome?_singleton]; rfl

theorem walkUp_of_own {policy : CategoryConflictPolicy} {kind : ClassKind} {record : Record}
    {sel : Sel} {imp : Imp} (hown : record.implementation? policy kind sel = some imp)
    (rest : List Record) : walkUp policy kind (record :: rest) sel = some imp := by
  cases kind with
  | plain => rw [walkUp, List.findSome?_cons, hown]
  | metaclass =>
    rw [walkUp, List.findSome?_cons, hown]
    rfl

theorem mem_of_mem_sidesUp {kind : ClassKind} {chain : List Record} {place : Record × ClassKind}
    (hplace : place ∈ sidesUp kind chain) : place.1 ∈ chain := by
  cases kind with
  | plain =>
    obtain ⟨record, hrecord, rfl⟩ := List.mem_map.mp hplace
    exact hrecord
  | metaclass =>
    rcases List.mem_append.mp hplace with hmem | hmem
    · obtain ⟨record, hrecord, rfl⟩ := List.mem_map.mp hmem
      exact hrecord
    · obtain ⟨record, hrecord, rfl⟩ := List.mem_map.mp hmem
      exact List.mem_of_getLast? (Option.mem_toList.mp hrecord)

theorem sidesUp_map (kind : ClassKind) (chain : List Record) (change : Record → Record) :
    sidesUp kind (chain.map change) =
      (sidesUp kind chain).map fun place => (change place.1, place.2) := by
  cases kind with
  | plain =>
    rw [sidesUp, sidesUp, List.map_map, List.map_map]
    rfl
  | metaclass =>
    rw [sidesUp, sidesUp, List.map_append, List.map_map, List.map_map, List.getLast?_map,
      List.map_map]
    cases chain.getLast? <;> rfl

/-- A search some places of which are overridden either comes to such a place, or it ends where it
ended before. -/
theorem findSome?_override {α β : Type} {list : List α} {before after : α → Option β}
    {hit : α → Prop} [DecidablePred hit] {value : β}
    (hafter : ∀ item ∈ list, after item = if hit item then some value else before item) :
    (∃ item, list.find? (fun item => (after item).isSome) = some item ∧ hit item) ∧
        list.findSome? after = some value ∨
      (∀ item, list.find? (fun item => (after item).isSome) = some item → ¬ hit item) ∧
        list.find? (fun item => (after item).isSome) =
          list.find? (fun item => (before item).isSome) ∧
        list.findSome? after = list.findSome? before := by
  induction list with
  | nil => exact .inr ⟨nofun, rfl, rfl⟩
  | cons head rest ih =>
    have hhead := hafter head List.mem_cons_self
    rw [List.find?_cons, List.find?_cons, List.findSome?_cons, List.findSome?_cons, hhead]
    by_cases hhit : hit head
    · rw [if_pos hhit]
      exact .inl ⟨⟨head, rfl, hhit⟩, rfl⟩
    · rw [if_neg hhit]
      cases before head with
      | none => exact ih fun item hitem => hafter item (List.mem_cons_of_mem _ hitem)
      | some found =>
        refine .inr ⟨?_, rfl, rfl⟩
        rintro item ⟨⟩
        exact hhit

/-! ### One definition is changed -/

theorem provider?_eq (policy : CategoryConflictPolicy) (kind : ClassKind) (chain : List Record)
    (sel : Sel) : provider? kind chain sel =
      ((sidesUp kind chain).find? fun place =>
        (place.1.implementation? policy place.2 sel).isSome).map fun place =>
          place.1.side place.2 := by
  simp only [provider?, Record.implementation?_isSome]

namespace Record

variable {old new : Record} {policy : CategoryConflictPolicy} {kind : ClassKind} {sel : Sel}
  {imp : Imp} {chain : List Record}

/-- The new record in the place of the old one, and any other record as it is. -/
def succeed (record old new : Record) : Record := if record.pair = old.pair then new else record

theorem side_succeed (hpair : new.pair = old.pair) (record : Record) (side : ClassKind) :
    (record.succeed old new).side side = record.side side := by
  unfold succeed
  split
  · next hsame => rw [Record.side, Record.side, hpair, hsame]
  · rfl

theorem provider?_map_succeed (policy : CategoryConflictPolicy) (hpair : new.pair = old.pair)
    (side : ClassKind) (chain : List Record) (sel : Sel) :
    provider? side (chain.map (·.succeed old new)) sel =
      ((sidesUp side chain).find? fun place =>
        ((place.1.succeed old new).implementation? policy place.2 sel).isSome).map fun place =>
          place.1.side place.2 := by
  rw [provider?_eq policy, sidesUp_map, List.find?_map, Option.map_map]
  congr 1
  funext place
  exact side_succeed hpair place.1 place.2

/-- A search for the selector that comes to the redefined side now finds the new implementation. Any
other search did not come there before either, and finds what it found. -/
theorem Redefines.walkUp_cases (redefines : old.Redefines new policy kind sel imp)
    (hown : ∀ record ∈ chain, record.pair = old.pair → record = old) (side : ClassKind)
    (other : Sel) :
    other = sel ∧ provider? side (chain.map (·.succeed old new)) sel = some (old.side kind) ∧
        walkUp policy side (chain.map (·.succeed old new)) other = some imp ∨
      (other = sel → provider? side chain sel ≠ some (old.side kind) ∧
        provider? side (chain.map (·.succeed old new)) sel ≠ some (old.side kind)) ∧
        walkUp policy side (chain.map (·.succeed old new)) other = walkUp policy side chain other := by
  have hafter : ∀ place ∈ sidesUp side chain,
      (place.1.succeed old new).implementation? policy place.2 other =
        if place.1.side place.2 = old.side kind ∧ sel = other then some imp
        else place.1.implementation? policy place.2 other := by
    intro place hplace
    by_cases hpair : place.1.pair = old.pair
    · rw [succeed, if_pos hpair, redefines.implementation,
        hown place.1 (mem_of_mem_sidesUp hplace) hpair]
      simp only [Record.side, ClassRef.mk.injEq, true_and, eq_comm]
    · rw [succeed, if_neg hpair, if_neg]
      rintro ⟨hside, -⟩
      exact hpair (congrArg ClassRef.pair hside)
  rw [walkUp_eq_findSome?, walkUp_eq_findSome?, sidesUp_map, List.findSome?_map,
    provider?_map_succeed policy redefines.pair, provider?_eq policy]
  rcases findSome?_override hafter with ⟨⟨place, hfirst, hside, rfl⟩, hfound⟩ |
    ⟨hmiss, hfirst, hfound⟩
  · exact .inl ⟨rfl, by rw [hfirst, Option.map_some, hside], hfound⟩
  · refine .inr ⟨?_, hfound⟩
    rintro rfl
    rw [← hfirst]
    have hnot : Option.map (fun place => place.1.side place.2) ((sidesUp side chain).find?
        fun place => ((place.1.succeed old new).implementation? policy place.2 other).isSome) ≠
          some (old.side kind) := by
      intro hprovider
      obtain ⟨place, hplace, hside⟩ := Option.map_eq_some_iff.mp hprovider
      exact hmiss place hplace ⟨hside, rfl⟩
    exact ⟨hnot, hnot⟩

end Record

end LateBinding
