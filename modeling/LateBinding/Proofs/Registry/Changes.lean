import LateBinding.Proofs.Registry.Cascade
import LateBinding.Proofs.Registry.Removal

/-!
# What each change of the classes leads to

Every change is described by its steps: a class is entered and links or waits, classes are taken out
along with those that go with them, or a record is altered and the tables below it are built anew.
No change but the building of tables can end everything, and that only for a selector that no table
can hold.
-/

namespace LateBinding

open Registry

namespace Classes

def without (classes : Classes) (id : ClassId) (record : Record) : Classes :=
  { heap := classes.heap.withdraw record.pair
    registry := classes.registry.takeOut id record
    log := classes.log.push (.unregistered record.name) }

/-- The classes of a stack are taken out, with all that go with them. -/
inductive Removal : Classes → List ClassId → List PairId → Classes → Prop
  | done (classes : Classes) : Removal classes [] [] classes
  | skip {start final : Classes} {id : ClassId} {stack : List ClassId} {pairs : List PairId}
      (gone : start.registry.record? id = none) (rest : Removal start stack pairs final) :
      Removal start (id :: stack) pairs final
  | remove {start final : Classes} {id : ClassId} {stack : List ClassId} {pairs : List PairId}
      {record : Record} (registered : start.registry.record? id = some record)
      (rest : Removal (start.without id record)
        ((start.registry.followers record).reverse ++ stack) pairs final) :
      Removal start (id :: stack) (record.pair :: pairs) final

/-- The tables of classes are built, one class after the other. -/
inductive BuildsAll : Classes → List ClassId → Classes → Prop
  | done (classes : Classes) : BuildsAll classes [] classes
  | skip {start final : Classes} {id : ClassId} {rest : List ClassId}
      (gone : start.registry.record? id = none) (others : BuildsAll start rest final) :
      BuildsAll start (id :: rest) final
  | build {start built final : Classes} {id : ClassId} {rest : List ClassId} {record : Record}
      (builds : start.Builds id record built) (others : BuildsAll built rest final) :
      BuildsAll start (id :: rest) final

/-- The tables of a class and of all below it are built anew if it is linked. -/
inductive Rebuilds (start : Classes) (id : ClassId) (record : Record) : Classes → Prop
  | pending (hpending : record.state = .pending) : Rebuilds start id record start
  | linked {built : Classes} (hlinked : record.state ≠ .pending)
      (builds : BuildsAll start (start.registry.subtree id) built) :
      Rebuilds start id record { built with
        log := built.log.push (.tablesRebuilt record.name (start.registry.subtree id).length) }

/-- The definitions of a class are altered, and its tables and those below it are built anew. -/
structure Alters (start : Classes) (id : ClassId) (old new : Record) (final : Classes) : Prop where
  registered : start.registry.record? id = some old
  pair : new.pair = old.pair
  standing : new.standing = old.standing
  rebuilds : ({ start with registry := start.registry.setRecord id (some new) } : Classes).Rebuilds
    id new final

def newRecord (classes : Classes) (definition : ClassDefinition) : Record :=
  { pair := (classes.heap.addPair classes.registry.nextId definition.name definition.size).1
    name := definition.name, superclassName := definition.superclass, state := .pending
    methods := definition.methods, protocols := definition.protocols
    categories := classes.registry.categoriesFor definition.name, subclasses := [] }

def entered (classes : Classes) (definition : ClassDefinition) : Classes :=
  { classes with
    heap := (classes.heap.addPair classes.registry.nextId definition.name definition.size).2
    registry := classes.registry.addRecord (classes.newRecord definition) }

/-- A class is entered. It links, and others in turn, or it waits for its superclass. -/
inductive Registers (start : Classes) (definition : ClassDefinition) :
    List ClassId → Classes → Prop
  | links {order : List ClassId} {final : Classes}
      (ready : (start.entered definition).registry.Ready [start.registry.nextId])
      (cascade : (start.entered definition).Cascade [start.registry.nextId] order final) :
      Registers start definition order final
  | waits {awaited : String} (superclass : definition.superclass = some awaited)
      (unlinked : ∀ parent above, (start.entered definition).registry.standing? parent = some above →
        above.isLinked → above.name ≠ awaited) :
      Registers start definition [] { start.entered definition with
        registry := (start.entered definition).registry.await awaited start.registry.nextId
        log := start.log.push (.waitingForSuperclass definition.name awaited) }

inductive Applies (start : Classes) (category : CategoryDefinition) :
    CategoryStatus → Classes → Prop
  | waits (unknown : start.registry.idOf? category.className = none) :
      Applies start category .pending { start with
        registry := start.registry.holdBack category
        log := start.log.push (.waitingForClass category.name category.className) }
  | merges {id : ClassId} {record : Record} {final : Classes}
      (known : start.registry.idOf? category.className = some id)
      (alters : ({ start with
        log := start.log.push (.applied category.name category.className) } : Classes).Alters id
          record { record with categories := category.merge record.categories } final) :
      Applies start category .applied final

inductive Adds (start : Classes) (id : ClassId) (kind : ClassKind) (method : MethodDefinition) :
    Bool → Classes → Prop
  | unknown (gone : start.registry.record? id = none) : Adds start id kind method false start
  | defined {record : Record} (registered : start.registry.record? id = some record)
      (defines : record.defines kind method.sel = true) : Adds start id kind method false start
  | adds {record : Record} {final : Classes} (undefined : record.defines kind method.sel = false)
      (alters : start.Alters id record
        { record with methods := record.methods.set kind (record.methods.get kind ++ [method]) }
        final) : Adds start id kind method true final

inductive Replaces (start : Classes) (id : ClassId) (kind : ClassKind)
    (method : MethodDefinition) : Option Imp → Classes → Prop
  | unknown (gone : start.registry.record? id = none) : Replaces start id kind method none start
  | replaces {record : Record} {final : Classes}
      (alters : start.Alters id record
        (record.replaceMethod start.registry.policy kind method).1 final) :
      Replaces start id kind method (record.replaceMethod start.registry.policy kind method).2 final

theorem Removal.stale {start : Classes} {stack : List ClassId}
    (gone : ∀ id ∈ stack, start.registry.record? id = none) : Removal start stack [] start := by
  induction stack with
  | nil => exact .done start
  | cons id rest ih =>
    exact .skip (gone id List.mem_cons_self) (ih fun other hother =>
      gone other (List.mem_cons_of_mem _ hother))

/-- What stands for no class on top of a stack can be passed over. -/
theorem Removal.of_dropWhile {start final : Classes} {stack : List ClassId} {pairs : List PairId}
    (removal : Removal start (stack.dropWhile fun id => !start.registry.isRegistered id) pairs
      final) : Removal start stack pairs final := by
  induction stack with
  | nil => exact removal
  | cons id rest ih =>
    cases hrecord : start.registry.record? id with
    | none =>
      rw [List.dropWhile_cons_of_pos (by simp [isRegistered, hrecord])] at removal
      exact .skip hrecord (ih removal)
    | some record =>
      rw [List.dropWhile_cons_of_neg (by simp [isRegistered, hrecord])] at removal
      exact removal

theorem length_ids_without {start : Classes} {id : ClassId} {record : Record}
    (registered : start.registry.record? id = some record) :
    (start.without id record).registry.ids.length < start.registry.ids.length := by
  apply length_lt_of_subset (nodup_ids _) ((mem_ids _).mpr ⟨record, registered⟩)
  intro other hother
  obtain ⟨after, hafter⟩ := (mem_ids _).mp hother
  rw [Classes.without, start.registry.record?_takeOut registered] at hafter
  rw [mem_ids]
  split at hafter
  · cases hafter
  · next hne =>
    refine ⟨?_, Ne.symm hne⟩
    split at hafter
    · obtain ⟨old, hold, -⟩ := Option.map_eq_some_iff.mp hafter
      exact ⟨old, hold⟩
    · exact ⟨after, hafter⟩

end Classes

namespace Linking

variable {fault : Prop} {start : Classes}

/-! ### Removing -/

theorem removeAll_leads {fuel : Nat} {stack : List ClassId}
    (hfuel : start.registry.ids.length ≤ fuel) :
    (removeAll fuel stack).Leads False start fun pairs final => start.Removal stack pairs final := by
  induction fuel generalizing start stack with
  | zero =>
    apply Classes.Removal.stale
    intro id _
    cases hrecord : start.registry.record? id with
    | none => rfl
    | some record =>
      have hpos := List.length_pos_of_mem ((mem_ids _).mpr ⟨record, hrecord⟩)
      omega
  | succ fuel ih =>
    cases stack with
    | nil => exact .done start
    | cons top stack =>
      refine Leads.mono ?_ fun pairs final => Classes.Removal.of_dropWhile
      simp only [removeAll, leads_bind, leads_get]
      cases hdrop : (top :: stack).dropWhile fun id => !start.registry.isRegistered id with
      | nil => exact Classes.Removal.done start
      | cons id rest =>
        dsimp only
        cases hrecord : start.registry.record? id with
        | none =>
          have hhead := List.head?_dropWhile_not (fun id => !start.registry.isRegistered id)
            (top :: stack)
          rw [hdrop] at hhead
          simp [isRegistered, hrecord] at hhead
        | some record =>
          have hrest : (removeAll fuel ((start.registry.followers record).reverse ++ rest)).Leads
              False (start.without id record) fun pairs final =>
                (start.without id record).Removal
                  ((start.registry.followers record).reverse ++ rest) pairs final :=
            ih (by have := Classes.length_ids_without hrecord; omega)
          simp only [removeOne, leads_bind, leads_onRegistry, leads_onHeap, leads_report,
            leads_pure]
          exact hrest.mono fun pairs final removal => .remove hrecord removal

theorem unregister_leads (id : ClassId) :
    (unregister id).Leads False start fun pairs final => start.Removal [id] pairs final := by
  rw [unregister, leads_bind, leads_get]
  exact removeAll_leads (length_ids_le _)

/-! ### Rebuilding -/

theorem forM_buildTables_leads {ids : List ClassId}
    (hsafe : fault ∨ start.registry.Addressable) :
    (ids.forM buildTables).Leads fault start fun _ final => start.BuildsAll ids final := by
  induction ids generalizing start with
  | nil => exact .done start
  | cons id rest ih =>
    change (buildTables id >>= fun _ => rest.forM buildTables).Leads fault start _
    rw [leads_bind]
    cases hrecord : start.registry.record? id with
    | none =>
      rw [buildTables, leads_bind, leads_get, hrecord]
      exact (ih hsafe).mono fun _ final others => .skip hrecord others
    | some record =>
      have hrecordSafe := hsafe.imp_right fun addressable => addressable.records id record hrecord
      refine (buildTables_leads hrecord hrecordSafe).mono ?_
      intro _ built builds
      have hbuiltSafe : fault ∨ built.registry.Addressable := by
        rw [builds.registry]
        exact hsafe.imp_right fun addressable => ⟨addressable.records, addressable.heldBack⟩
      exact (ih hbuiltSafe).mono fun _ final others => .build builds others

theorem rebuild_leads {id : ClassId} {record : Record}
    (hrecord : start.registry.record? id = some record)
    (hsafe : fault ∨ start.registry.Addressable) :
    (rebuild id).Leads fault start fun _ final => start.Rebuilds id record final := by
  rw [rebuild, leads_bind, leads_get]
  dsimp only
  rw [hrecord]
  dsimp only
  by_cases hstate : record.state = .pending
  · have hpending : ¬ record.isLinked = true := by
      simp [Record.isLinked, hstate]
    rw [if_neg hpending]
    exact .pending hstate
  · have hlinked : record.isLinked = true := decide_eq_true hstate
    rw [if_pos hlinked]
    simp only [leads_bind, leads_report]
    exact (forM_buildTables_leads hsafe).mono fun _ built builds => .linked hstate builds

theorem alter_leads {id : ClassId} {old new : Record}
    (registered : start.registry.record? id = some old)
    (hsafe : fault ∨ start.registry.Addressable ∧ new.Addressable) (pair : new.pair = old.pair)
    (standing : new.standing = old.standing) :
    (rebuild id).Leads fault { start with registry := start.registry.setRecord id (some new) }
      fun _ final => start.Alters id old new final := by
  have hget := start.registry.record?_setRecord registered (some new)
  refine (rebuild_leads ?_ ?_).mono fun _ final rebuilds => ⟨registered, pair, standing, rebuilds⟩
  · rw [hget, if_pos rfl]
  · refine hsafe.imp_right fun addressable => ⟨?_, addressable.1.heldBack⟩
    intro other record hrecord
    rw [hget] at hrecord
    split at hrecord
    · cases hrecord
      exact addressable.2
    · exact addressable.1.records other record hrecord

end Linking

end LateBinding
