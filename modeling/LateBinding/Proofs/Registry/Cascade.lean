import LateBinding.Proofs.Registry.Counting
import LateBinding.Proofs.Registry.Linking
import LateBinding.Proofs.Tables.Building

/-!
# The cascade of linking

A class that links and all that wait for it, directly or not, link in a cascade: a chain of steps,
each of which links the next class of the queue. The queue never runs out of its bound, for every
step leaves one pending class less.
-/

namespace LateBinding

namespace Registry

/-- Every list of methods that the registry keeps has selectors that a table can hold. -/
structure Addressable (registry : Registry) : Prop where
  records : ∀ id record, registry.record? id = some record → record.Addressable
  heldBack : ∀ name, ∀ category ∈ registry.categoriesFor name, ∀ kind,
    LateBinding.Addressable (category.methods.get kind)

theorem superclassToLink_eq {registry : Registry} {loose : List ClassId} {record : Record}
    {superclass : Option ClassId} (consistent : registry.Consistent loose)
    (fits : registry.Fits record.standing superclass) :
    registry.superclassToLink record =
      .ok (superclass.bind fun parent => (registry.record? parent).map (parent, ·)) := by
  cases superclass with
  | none =>
    have hnone : record.superclassName = none := fits
    rw [superclassToLink, hnone]
    rfl
  | some parent =>
    obtain ⟨standing, hstanding, hlinked, hname⟩ := fits
    obtain ⟨above, habove, rfl⟩ := Option.map_eq_some_iff.mp hstanding
    have hsuper : record.superclassName = some above.name := hname
    have hid := (consistent.names above.name parent).mpr ⟨above.standing, hstanding, rfl⟩
    have hlinkedAbove : above.isLinked = true := decide_eq_true hlinked
    simp only [superclassToLink, hsuper, hid, Option.bind_some, habove, Option.map_some,
      hlinkedAbove, if_true]

end Registry

namespace Classes

/-- Where a class goes that links below a superclass. -/
def placeBelow (classes : Classes) (superclass : Option ClassId) : Link :=
  match superclass.bind classes.registry.record? with
  | none => .root
  | some above => .child above.pair ((classes.heap.pair above.pair).rootOf above.pair)

/-- The classes with one class in its place and counted as linked, but without tables. -/
def placed (classes : Classes) (id : ClassId) (pair : PairId) (superclass : Option ClassId) :
    Classes :=
  { classes with
    heap := classes.heap.setLink pair (classes.placeBelow superclass)
    registry := classes.registry.markLinked id superclass }

structure Links (start : Classes) (id : ClassId) (record : Record) (superclass : Option ClassId)
    (linked : Classes) : Prop where
  registered : start.registry.record? id = some record
  pending : record.state = .pending
  fits : start.registry.Fits record.standing superclass
  built : ∃ built, (start.placed id record.pair superclass).Builds id
      { record with state := .linked superclass } built ∧
    linked = { built with log := built.log.push (.linked record.name) }

def released (classes : Classes) (name : String) : Classes :=
  { classes with registry := classes.registry.releaseWaiters name }

/-- The classes of a queue and all that wait for them link, one after the other. -/
inductive Cascade : Classes → List ClassId → List ClassId → Classes → Prop
  | done (classes : Classes) : Cascade classes [] [] classes
  | link {start linked final : Classes} {id : ClassId} {queue order : List ClassId}
      {record : Record} {superclass : Option ClassId} (links : start.Links id record superclass linked)
      (rest : Cascade (linked.released record.name)
        (queue ++ linked.registry.waitersOf record.name) order final) :
      Cascade start (id :: queue) (id :: order) final

end Classes

open Registry

theorem Registry.Addressable.markLinked {registry : Registry} (addressable : registry.Addressable)
    {id : ClassId} {superclass : Option ClassId} (hother : superclass ≠ some id) :
    (registry.markLinked id superclass).Addressable where
  records := by
    intro other record hrecord
    rw [registry.record?_markLinked hother] at hrecord
    split at hrecord
    · obtain ⟨old, hold, rfl⟩ := Option.map_eq_some_iff.mp hrecord
      exact addressable.records other old hold
    · split at hrecord
      · obtain ⟨old, hold, rfl⟩ := Option.map_eq_some_iff.mp hrecord
        exact addressable.records other old hold
      · exact addressable.records other record hrecord
  heldBack := by
    simp only [categoriesFor, heldBack_markLinked]
    exact addressable.heldBack

namespace Classes.Links

variable {start linked : Classes} {id : ClassId} {queue : List ClassId} {record : Record}
  {superclass : Option ClassId}

theorem registry_eq (links : start.Links id record superclass linked) :
    linked.registry = { start.registry.markLinked id superclass with
      builds := (start.registry.markLinked id superclass).builds + 2 } := by
  obtain ⟨built, hbuilt, rfl⟩ := links.built
  exact hbuilt.registry

theorem standing (links : start.Links id record superclass linked) :
    start.registry.standing? id = some record.standing := by
  rw [standing?, links.registered, Option.map_some]

theorem ne (links : start.Links id record superclass linked) : superclass ≠ some id :=
  links.fits.ne links.standing links.pending

theorem waitersOf_eq (links : start.Links id record superclass linked) :
    linked.registry.waitersOf = start.registry.waitersOf := by
  funext name
  rw [links.registry_eq]
  simp only [waitersOf, waiting_markLinked]

theorem consistent (links : start.Links id record superclass linked)
    (consistent : start.registry.Consistent (id :: queue))
    (ready : start.registry.Ready (id :: queue)) :
    (linked.released record.name).registry.Consistent
      (queue ++ linked.registry.waitersOf record.name) := by
  have hafter := consistent.afterLink ready links.standing links.fits
  rw [links.waitersOf_eq, Classes.released, links.registry_eq]
  exact hafter.transfer rfl rfl rfl rfl

theorem ready (links : start.Links id record superclass linked)
    (consistent : start.registry.Consistent (id :: queue))
    (ready : start.registry.Ready (id :: queue)) :
    (linked.released record.name).registry.Ready
      (queue ++ linked.registry.waitersOf record.name) := by
  have hafter := ready.afterLink consistent links.standing links.fits
  rw [links.waitersOf_eq, Classes.released, links.registry_eq]
  exact hafter.transfer rfl rfl

theorem addressable (links : start.Links id record superclass linked)
    (addressable : start.registry.Addressable) :
    (linked.released record.name).registry.Addressable := by
  have hmarked := addressable.markLinked links.ne
  rw [Classes.released, links.registry_eq]
  exact ⟨hmarked.records, hmarked.heldBack⟩

theorem length_pendingIds_lt (links : start.Links id record superclass linked) :
    (linked.released record.name).registry.pendingIds.length <
      start.registry.pendingIds.length := by
  apply length_lt_of_subset (nodup_pendingIds _)
    ((mem_pendingIds _).mpr ⟨record, links.registered, links.pending⟩)
  intro other hother
  obtain ⟨after, hafter, hpending⟩ := (mem_pendingIds _).mp hother
  rw [Classes.released, record?_releaseWaiters, links.registry_eq] at hafter
  change (start.registry.markLinked id superclass).record? other = some after at hafter
  rw [start.registry.record?_markLinked links.ne] at hafter
  rw [mem_pendingIds]
  split at hafter
  · obtain ⟨old, -, rfl⟩ := Option.map_eq_some_iff.mp hafter
    cases hpending
  · next hne =>
    refine ⟨?_, Ne.symm hne⟩
    split at hafter
    · obtain ⟨old, hold, rfl⟩ := Option.map_eq_some_iff.mp hafter
      exact ⟨old, hold, hpending⟩
    · exact ⟨after, hafter, hpending⟩

end Classes.Links

namespace Linking

variable {fault : Prop} {start : Classes} {id : ClassId} {record : Record}
  {superclass : Option ClassId}

theorem linkOne_leads {loose : List ClassId} (consistent : start.registry.Consistent loose)
    (hrecord : start.registry.record? id = some record) (hpending : record.state = .pending)
    (fits : start.registry.Fits record.standing superclass)
    (hsafe : fault ∨ record.Addressable) :
    (linkOne id).Leads fault start fun answer linked =>
      answer = some record.name ∧ start.Links id record superclass linked := by
  have hstanding := standing?_of_record hrecord
  have hother := fits.ne hstanding hpending
  have hunlinked : record.isLinked = false := by
    rw [Record.isLinked, hpending]
    rfl
  have hplaced : (start.placed id record.pair superclass).registry.record? id =
      some { record with state := .linked superclass } := by
    rw [Classes.placed, start.registry.record?_markLinked hother, if_pos rfl, hrecord]
    rfl
  have hbuild := (buildTables_leads hplaced hsafe).mono fun _ built hbuilt => (⟨hrecord, hpending, fits, built, hbuilt, rfl⟩ :
      start.Links id record superclass { built with log := built.log.push (.linked record.name) })
  rw [linkOne, leads_bind, leads_get, hrecord]
  dsimp only
  rw [hunlinked, if_neg Bool.false_ne_true, superclassToLink_eq consistent fits]
  simp only [leads_bind, leads_lift, leads_onHeap, leads_onRegistry, leads_report, leads_pure,
    true_and]
  cases superclass with
  | none => exact hbuild
  | some parent =>
    obtain ⟨standing, hparent, -⟩ := fits
    obtain ⟨above, habove, -⟩ := Option.map_eq_some_iff.mp hparent
    rw [Classes.placed, Classes.placeBelow, Option.bind_some, habove] at hbuild
    rw [Option.bind_some, habove, Option.map_some]
    exact hbuild

/-- The queue is taken to its end, whatever waits for the classes in it. -/
theorem linkAll_leads {fuel : Nat} {queue : List ClassId}
    (consistent : start.registry.Consistent queue) (ready : start.registry.Ready queue)
    (hsafe : fault ∨ start.registry.Addressable)
    (hfuel : start.registry.pendingIds.length ≤ fuel) :
    (linkAll fuel queue).Leads fault start fun order final =>
      start.Cascade queue order final := by
  induction fuel generalizing start queue with
  | zero =>
    have hqueue : queue.length ≤ start.registry.pendingIds.length := by
      refine (List.subperm_of_subset ready.nodup ?_).length_le
      intro id hid
      obtain ⟨standing, hstanding, hpending, -⟩ := ready.fits id hid
      obtain ⟨record, hrecord, rfl⟩ := Option.map_eq_some_iff.mp hstanding
      exact (mem_pendingIds _).mpr ⟨record, hrecord, hpending⟩
    have hempty : queue = [] := List.eq_nil_of_length_eq_zero (by omega)
    subst hempty
    exact .done start
  | succ fuel ih =>
    cases queue with
    | nil => exact .done start
    | cons id queue =>
      obtain ⟨standing, hstanding, hpending, superclass, fits⟩ := ready.fits id List.mem_cons_self
      obtain ⟨record, hrecord, rfl⟩ := Option.map_eq_some_iff.mp hstanding
      have hrecordSafe := hsafe.imp_right fun addressable => addressable.records id record hrecord
      rw [linkAll, leads_bind]
      refine (linkOne_leads consistent hrecord hpending fits hrecordSafe).mono ?_
      intro _ linked h
      obtain ⟨rfl, links⟩ := h
      have hrest := ih (links.consistent consistent ready) (links.ready consistent ready)
        (hsafe.imp_right links.addressable) (by have := links.length_pendingIds_lt; omega)
      simp only [leads_bind, leads_get, leads_onRegistry, leads_pure]
      exact hrest.mono fun order final rest => .link links rest

theorem link_leads (consistent : start.registry.Consistent [id])
    (ready : start.registry.Ready [id]) (hsafe : fault ∨ start.registry.Addressable) :
    (link id).Leads fault start fun order final => start.Cascade [id] order final := by
  rw [link, leads_bind, leads_get]
  exact linkAll_leads consistent ready hsafe (length_pendingIds_le _)

end Linking

namespace Classes.Cascade

variable {start final : Classes} {queue order : List ClassId}

/-- When the queue is empty nothing is owed any more. -/
theorem consistent (cascade : start.Cascade queue order final)
    (consistent : start.registry.Consistent queue) (ready : start.registry.Ready queue) :
    final.registry.Consistent [] := by
  induction cascade with
  | done => exact consistent
  | link links _ ih => exact ih (links.consistent consistent ready) (links.ready consistent ready)

end Classes.Cascade

end LateBinding
