import LateBinding.Proofs.Registry.Categories
import LateBinding.Proofs.Registry.Lineage
import LateBinding.Proofs.Registry.Subtree
import LateBinding.Proofs.Tables.UpToDate

/-!
# Where the categories for a class are held

The categories for a class wait under its name until it is registered, and from then on its record
has them. Whatever is done with the classes, the categories for a name are what was done with
categories makes of those that were held before; entering a class only hands them over.
-/

namespace LateBinding

open Registry

namespace Registry

variable {registry changed : Registry} {name : String} {id : ClassId} {record : Record}

/-- The categories that are held for the class of some name: they wait for it, or it has them. -/
def categoriesOf (registry : Registry) (name : String) : List CategoryDefinition :=
  match registry.idOf? name with
  | none => registry.categoriesFor name
  | some id => (registry.content? id).elim [] (·.categories)

theorem categoriesOf_of_free (hfree : registry.idOf? name = none) :
    registry.categoriesOf name = registry.categoriesFor name := by
  rw [categoriesOf, hfree]

theorem categoriesOf_of_content {content : Content} (hid : registry.idOf? name = some id)
    (hcontent : registry.content? id = some content) :
    registry.categoriesOf name = content.categories := by
  rw [categoriesOf, hid]
  dsimp only
  rw [hcontent, Option.elim_some]

theorem categoriesOf_empty (policy : CategoryConflictPolicy) (name : String) :
    (Registry.empty policy).categoriesOf name = [] := by
  rw [categoriesOf_of_free (by simp [idOf?, Registry.empty])]
  simp [categoriesFor, Registry.empty]

theorem categoriesOf_congr (hid : changed.idOf? name = registry.idOf? name)
    (hheld : changed.heldBack[name]? = registry.heldBack[name]?)
    (hcontent : ∀ id, registry.idOf? name = some id → changed.content? id = registry.content? id) :
    changed.categoriesOf name = registry.categoriesOf name := by
  rw [categoriesOf, categoriesOf, hid]
  cases hname : registry.idOf? name with
  | none =>
    dsimp only
    rw [categoriesFor, categoriesFor, hheld]
  | some id =>
    dsimp only
    rw [hcontent id hname]

namespace Consistent

variable {loose : List ClassId} (consistent : registry.Consistent loose)

include consistent

theorem idOf?_of_record (hrecord : registry.record? id = some record) :
    registry.idOf? record.name = some id :=
  (consistent.names record.name id).mpr ⟨_, standing?_of_record hrecord, rfl⟩

theorem exists_record (hid : registry.idOf? name = some id) :
    ∃ record, registry.record? id = some record ∧ record.name = name := by
  obtain ⟨standing, hstanding, hname⟩ := (consistent.names name id).mp hid
  obtain ⟨record, hrecord, rfl⟩ := Option.map_eq_some_iff.mp hstanding
  exact ⟨record, hrecord, hname⟩

theorem categoriesOf_eq (hrecord : registry.record? id = some record) :
    registry.categoriesOf record.name = record.categories :=
  categoriesOf_of_content (consistent.idOf?_of_record hrecord) (content?_of_record hrecord)

end Consistent

end Registry

theorem CategoryChange.holdAll_removed (policy : CategoryConflictPolicy) (name : String)
    (names : List String) (held : List CategoryDefinition) :
    holdAll policy name (names.map removed) held = if name ∈ names then [] else held := by
  induction names generalizing held with
  | nil => exact (if_neg List.not_mem_nil).symm
  | cons head rest ih =>
    have hstep : holdAll policy name ((head :: rest).map removed) held =
        holdAll policy name (rest.map removed) (if head = name then [] else held) := rfl
    rw [hstep, ih]
    by_cases hhead : head = name
    · rw [if_pos hhead, ite_self, if_pos (hhead ▸ List.mem_cons_self)]
    · have hmem : name ∈ head :: rest ↔ name ∈ rest := by
        rw [List.mem_cons, or_iff_right (Ne.symm hhead)]
      simp only [if_neg hhead, hmem]

namespace Classes

variable {policy : CategoryConflictPolicy} {start final : Classes} {id : ClassId}
  {old new record : Record}

theorem Alters.categoriesOf_eq (alters : start.Alters id old new final)
    (consistent : start.registry.Consistent []) (name : String) :
    final.registry.categoriesOf name =
      if old.name = name then new.categories else start.registry.categoriesOf name := by
  split
  · next hname =>
    subst hname
    have hid : final.registry.idOf? old.name = some id := by
      rw [alters.idOf?_eq]
      exact consistent.idOf?_of_record alters.registered
    have hcontent : final.registry.content? id = some new.content := by
      rw [alters.content?_eq, if_pos rfl]
    exact Registry.categoriesOf_of_content hid hcontent
  · next hname =>
    apply Registry.categoriesOf_congr
    · rw [alters.idOf?_eq]
    · rw [alters.heldBack_eq]
    · intro other hother
      obtain ⟨record, hrecord, hrecordName⟩ := consistent.exists_record hother
      rw [alters.content?_eq, if_neg]
      rintro rfl
      cases alters.registered.symm.trans hrecord
      exact hname hrecordName

theorem Registers.exists_record {definition : ClassDefinition} {order : List ClassId}
    (registers : start.Registers definition order final) :
    ∃ record, final.registry.idOf? definition.name = some start.registry.nextId ∧
      final.registry.record? start.registry.nextId = some record ∧
      record.pair = (start.newRecord definition).pair ∧
      record.categories = start.registry.categoriesFor definition.name := by
  have hcontent : final.registry.content? start.registry.nextId =
      some (start.newRecord definition).content := by
    rw [registers.content?_eq, if_pos rfl]
  obtain ⟨record, hrecord, hsame⟩ := Option.map_eq_some_iff.mp hcontent
  refine ⟨record, ?_, hrecord, congrArg Content.pair hsame, congrArg Content.categories hsame⟩
  rw [registers.idOf?_eq, if_pos rfl]

section

variable (consistent : start.registry.Consistent [])

include consistent

/-- What waited for a class is handed over to it. -/
theorem Registers.categoriesOf_eq {definition : ClassDefinition} {order : List ClassId}
    (registers : start.Registers definition order final)
    (free : start.registry.idOf? definition.name = none) (name : String) :
    final.registry.categoriesOf name = start.registry.categoriesOf name := by
  by_cases hname : definition.name = name
  · subst hname
    obtain ⟨record, hid, hrecord, -, hcategories⟩ := registers.exists_record
    rw [Registry.categoriesOf_of_free free, ← hcategories]
    exact Registry.categoriesOf_of_content hid (content?_of_record hrecord)
  · apply Registry.categoriesOf_congr
    · rw [registers.idOf?_eq, if_neg hname]
    · rw [registers.heldBack_eq, if_neg hname]
    · intro id hid
      obtain ⟨record, hrecord, -⟩ := consistent.exists_record hid
      rw [registers.content?_eq, if_neg]
      rintro rfl
      rw [record?_nextId] at hrecord
      cases hrecord

theorem Applies.categoriesOf_eq {category : CategoryDefinition} {status : CategoryStatus}
    (applies : start.Applies category status final) (name : String) :
    final.registry.categoriesOf name =
      (CategoryChange.applied category).hold policy name (start.registry.categoriesOf name) := by
  rw [CategoryChange.hold]
  cases applies with
  | waits unknown =>
    split
    · next hname =>
      subst hname
      have hlater : (start.registry.holdBack category).categoriesOf category.className =
          category.merge (start.registry.categoriesFor category.className) := by
        have hfree : (start.registry.holdBack category).idOf? category.className = none := unknown
        rw [Registry.categoriesOf_of_free hfree, categoriesFor, heldBack_holdBack, if_pos rfl]
        rfl
      rw [Registry.categoriesOf_of_free unknown]
      exact hlater
    · next hname =>
      have hheld : (start.registry.holdBack category).heldBack[name]? =
          start.registry.heldBack[name]? := by
        rw [heldBack_holdBack, if_neg hname]
      exact Registry.categoriesOf_congr rfl hheld fun _ _ => rfl
  | @merges id record _ known alters =>
    obtain ⟨own, hrecord, hname⟩ := consistent.exists_record known
    cases alters.registered.symm.trans hrecord
    refine (alters.categoriesOf_eq consistent name).trans ?_
    rw [hname]
    split
    · next hclass => rw [← hclass, ← hname, consistent.categoriesOf_eq hrecord]
    · rfl

/-- A method that is added goes to the class itself. -/
theorem Adds.categoriesOf_eq {kind : ClassKind} {method : MethodDefinition} {added : Bool}
    (adds : start.Adds id kind method added final) (name : String) :
    final.registry.categoriesOf name = start.registry.categoriesOf name := by
  cases adds with
  | unknown => rfl
  | defined => rfl
  | adds _ alters =>
    rw [alters.categoriesOf_eq consistent]
    split
    · next hname => rw [← hname, consistent.categoriesOf_eq alters.registered]
    · rfl

theorem Replaces.categoriesOf_eq {kind : ClassKind} {method : MethodDefinition}
    {replaced : Option Imp} (replaces : start.Replaces id kind method replaced final)
    (hrecord : start.registry.record? id = some record) (name : String) :
    final.registry.categoriesOf name = (CategoryChange.replaced record.name kind method).hold
      start.registry.policy name (start.registry.categoriesOf name) := by
  cases replaces with
  | unknown gone => cases gone.symm.trans hrecord
  | replaces alters =>
    cases alters.registered.symm.trans hrecord
    rw [alters.categoriesOf_eq consistent, CategoryChange.hold, record.categories_replaceMethod]
    split
    · next hname => rw [← hname, consistent.categoriesOf_eq hrecord]
    · rfl

/-- With a class go the categories that it has. -/
theorem TakesOut.categoriesOf_eq {ids : List ClassId} {pairs : List PairId}
    (takesOut : start.TakesOut ids pairs final) (housed : start.registry.Housed start.heap)
    (name : String) : final.registry.categoriesOf name = CategoryChange.holdAll policy name
      (pairs.map fun pair => .removed (start.heap.pair pair).name)
      (start.registry.categoriesOf name) := by
  -- the pairs tell which classes go, by number, and names and numbers belong together
  have hnames : name ∈ pairs.map (fun pair => (start.heap.pair pair).name) ↔
      ∃ id ∈ ids, start.registry.idOf? name = some id := by
    rw [List.mem_map]
    constructor
    · rintro ⟨pair, hpair, rfl⟩
      obtain ⟨id, hid, record, hrecord, rfl⟩ := (takesOut.mem_pairs_iff pair).mp hpair
      rw [housed.pairName id record hrecord]
      exact ⟨id, hid, consistent.idOf?_of_record hrecord⟩
    · rintro ⟨id, hid, hname⟩
      obtain ⟨record, hrecord, rfl⟩ := consistent.exists_record hname
      exact ⟨record.pair, (takesOut.mem_pairs_iff _).mpr ⟨id, hid, record, hrecord, rfl⟩,
        housed.pairName id record hrecord⟩
  have hmap : pairs.map (fun pair => CategoryChange.removed (start.heap.pair pair).name) =
      (pairs.map fun pair => (start.heap.pair pair).name).map .removed := (List.map_map).symm
  have hidOf := takesOut.registry.idOf? name
  rw [hmap, CategoryChange.holdAll_removed]
  split
  · next hmem =>
    obtain ⟨id, hid, hname⟩ := hnames.mp hmem
    have hheld : start.registry.heldBack[name]? = none :=
      consistent.heldBack name (by simp [hname])
    have hgone : final.registry.idOf? name = none := by
      rw [hidOf, hname, Option.filter_some, if_neg (by simpa using hid)]
    rw [Registry.categoriesOf_of_free hgone, categoriesFor, takesOut.registry.heldBack, hheld]
    rfl
  · next hmem =>
    have hstays : ∀ id, start.registry.idOf? name = some id → id ∉ ids :=
      fun id hid hgone => hmem (hnames.mpr ⟨id, hgone, hid⟩)
    apply Registry.categoriesOf_congr
    · rw [hidOf]
      cases hname : start.registry.idOf? name with
      | none => rfl
      | some id => rw [Option.filter_some, if_pos (by simpa using hstays id hname)]
    · rw [takesOut.registry.heldBack]
    · intro id hid
      rw [content?, content?, takesOut.registry.record?, if_neg (hstays id hid), Option.map_map]
      rfl

end

theorem categoriesOf_cleared (classes : Classes) (name : String) :
    classes.cleared.registry.categoriesOf name = [] :=
  Registry.categoriesOf_empty _ name

end Classes

end LateBinding
