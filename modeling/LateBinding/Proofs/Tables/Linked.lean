import LateBinding.Proofs.Registry.Places

/-!
# Only linked classes have tables

Tables are published for a class when it links and when definitions of it or of a linked class above
it change. So a pair without a link has no tables: a class that is pending cannot be dispatched
through.
-/

namespace LateBinding

open Registry

/-- Pairs without a link have no tables. -/
def Heap.OnlyLinked (heap : Heap) : Prop :=
  ∀ pair, (heap.pair pair).link = none → ∀ kind, heap.table? ⟨pair, kind⟩ = none

theorem Heap.OnlyLinked.transfer {heap later : Heap} (only : heap.OnlyLinked)
    (hlink : ∀ pair, (later.pair pair).link = none → (heap.pair pair).link = none)
    (htables : ∀ pair kind, heap.table? ⟨pair, kind⟩ = none → later.table? ⟨pair, kind⟩ = none) :
    later.OnlyLinked :=
  fun pair hnone kind => htables pair kind (only pair (hlink pair hnone) kind)

namespace Registry

variable {registry : Registry}

/-- What holds of the classes of a queue and passes from a class to those right below it holds of all
that are visited. -/
theorem Explores.all {queue order : List ClassId} (explores : registry.Explores queue order)
    {good : ClassId → Prop} (hqueue : ∀ id ∈ queue, good id)
    (hchildren : ∀ id, good id → ∀ child ∈ registry.children id, good child) :
    ∀ id ∈ order, good id := by
  induction explores with
  | done => exact hqueue
  | @visit id queue order _ ih =>
    have hid := hqueue id List.mem_cons_self
    intro other hother
    rcases List.mem_cons.mp hother with rfl | hmem
    · exact hid
    · refine ih ?_ other hmem
      intro next hnext
      rcases List.mem_append.mp hnext with hold | hnew
      · exact hqueue next (List.mem_cons_of_mem _ hold)
      · exact hchildren id hid next hnew

theorem Hierarchy.linked_of_mem_subtree (hierarchy : registry.Hierarchy) {id : ClassId}
    {record : Record} (hrecord : registry.record? id = some record)
    (hlinked : record.state ≠ .pending) : ∀ other ∈ registry.subtree id, ∀ lower,
      registry.record? other = some lower → lower.state ≠ .pending := by
  refine (hierarchy.explores_subtree hrecord).all ?_ ?_
  · intro top htop own hown
    rw [List.mem_singleton.mp htop, hrecord] at hown
    cases hown
    exact hlinked
  · intro above _ child hchild own hown
    obtain ⟨before, hbefore, hsuper⟩ := hierarchy.isBelow_of_mem_children hchild
    cases hown.symm.trans hbefore
    exact Record.ne_pending_of_linked ((own.superclass?_eq_some_iff above).mp hsuper)

end Registry

namespace Classes

variable {start built linked final : Classes}

theorem Builds.onlyLinked {id : ClassId} {record : Record} (builds : start.Builds id record built)
    (hlinked : (start.heap.pair record.pair).link ≠ none) (only : start.heap.OnlyLinked) :
    built.heap.OnlyLinked := by
  intro pair hnone kind
  rw [builds.link_eq] at hnone
  have hne : record.pair ≠ pair := by
    rintro rfl
    exact hlinked hnone
  obtain ⟨plain, metaclass, hheap, -⟩ := builds.heap
  rw [hheap, Heap.table?_withTables_of_ne _ hne]
  exact only pair hnone kind

theorem BuildsAll.onlyLinked {ids : List ClassId} (builds : start.BuildsAll ids final)
    (hlinked : ∀ id ∈ ids, ∀ record, start.registry.record? id = some record →
      (start.heap.pair record.pair).link ≠ none)
    (only : start.heap.OnlyLinked) : final.heap.OnlyLinked := by
  induction builds with
  | done => exact only
  | skip _ _ ih => exact ih (fun id hid => hlinked id (List.mem_cons_of_mem _ hid)) only
  | @build start built _ id rest record builds _ ih =>
    refine ih ?_ (builds.onlyLinked (hlinked id List.mem_cons_self record builds.registered) only)
    intro other hother lower hlower
    rw [builds.record?_eq] at hlower
    rw [builds.link_eq]
    exact hlinked other (List.mem_cons_of_mem _ hother) lower hlower

theorem Rebuilds.onlyLinked {id : ClassId} {record : Record}
    (rebuilds : start.Rebuilds id record final) (hrecord : start.registry.record? id = some record)
    (hierarchy : start.registry.Hierarchy) (settled : start.Settled)
    (only : start.heap.OnlyLinked) : final.heap.OnlyLinked := by
  cases rebuilds with
  | pending => exact only
  | linked hlinked builds =>
    obtain ⟨order, lineage⟩ := settled
    refine builds.onlyLinked ?_ only
    intro other hother lower hlower hnone
    exact hierarchy.linked_of_mem_subtree hrecord hlinked other hother lower hlower
      ((lineage.link_eq_none_iff hlower).mp hnone)

theorem Alters.onlyLinked {id : ClassId} {old new : Record} (alters : start.Alters id old new final)
    (consistent : start.registry.Consistent []) (settled : start.Settled)
    (only : start.heap.OnlyLinked) : final.heap.OnlyLinked :=
  alters.rebuilds.onlyLinked alters.record?_altered (alters.hierarchy_altered consistent)
    (alters.carries_altered settled).1 only

theorem Links.onlyLinked {id : ClassId} {record : Record} {superclass : Option ClassId}
    (links : start.Links id record superclass linked) (settled : start.Settled)
    (only : start.heap.OnlyLinked) : linked.heap.OnlyLinked := by
  obtain ⟨built, builds, rfl⟩ := links.built
  obtain ⟨order, lineage⟩ := settled
  have hmade := lineage.made id _ (seat?_of_record links.registered)
  have hlink := start.heap.pair_setLink record.pair record.pair (start.placeBelow superclass)
  apply builds.onlyLinked
  · change ((start.heap.setLink record.pair (start.placeBelow superclass)).pair
      record.pair).link ≠ none
    rw [hlink, if_pos ⟨rfl, hmade⟩]
    nofun
  · refine only.transfer ?_ ?_
    · intro pair hnone
      rw [Classes.placed, Heap.pair_setLink] at hnone
      split at hnone
      · cases hnone
      · exact hnone
    · intro pair kind hnone
      exact (start.heap.table?_setLink _ _ _ _).trans hnone

theorem Cascade.onlyLinked {queue order : List ClassId} (cascade : start.Cascade queue order final)
    (settled : start.Settled) (only : start.heap.OnlyLinked) : final.heap.OnlyLinked := by
  induction cascade with
  | done => exact only
  | @link start linked _ _ _ _ record _ links _ ih =>
    have hreleased : linked.Carries (linked.released record.name) := carries_registry rfl
    exact ih ((links.carries.trans hreleased) settled).1 (links.onlyLinked settled only)

theorem onlyLinked_entered (definition : ClassDefinition) (only : start.heap.OnlyLinked) :
    (start.entered definition).heap.OnlyLinked := by
  have hpair := start.heap.pair_addPair start.registry.nextId definition.name definition.size
  refine only.transfer ?_ ?_
  · exact fun pair hnone => ((Heap.idles_addPair _ _ _).link_eq pair).symm.trans hnone
  · intro pair kind hnone
    rw [Classes.entered, Heap.table?, hpair]
    split
    · cases kind <;> rfl
    · exact hnone

theorem Registers.onlyLinked {definition : ClassDefinition} {order : List ClassId}
    (registers : start.Registers definition order final) (settled : start.Settled)
    (only : start.heap.OnlyLinked) : final.heap.OnlyLinked := by
  have hentered := onlyLinked_entered definition only
  cases registers with
  | links _ cascade => exact cascade.onlyLinked (carries_entered definition settled).1 hentered
  | waits => exact hentered

theorem Applies.onlyLinked {category : CategoryDefinition} {status : CategoryStatus}
    (applies : start.Applies category status final) (consistent : start.registry.Consistent [])
    (settled : start.Settled) (only : start.heap.OnlyLinked) : final.heap.OnlyLinked := by
  cases applies with
  | waits => exact only
  | merges _ alters => exact alters.onlyLinked consistent (carries_report rfl settled).1 only

theorem Adds.onlyLinked {id : ClassId} {kind : ClassKind} {method : MethodDefinition} {added : Bool}
    (adds : start.Adds id kind method added final) (consistent : start.registry.Consistent [])
    (settled : start.Settled) (only : start.heap.OnlyLinked) : final.heap.OnlyLinked := by
  cases adds with
  | unknown => exact only
  | defined => exact only
  | adds _ alters => exact alters.onlyLinked consistent settled only

theorem Replaces.onlyLinked {id : ClassId} {kind : ClassKind} {method : MethodDefinition}
    {replaced : Option Imp} (replaces : start.Replaces id kind method replaced final)
    (consistent : start.registry.Consistent []) (settled : start.Settled)
    (only : start.heap.OnlyLinked) : final.heap.OnlyLinked := by
  cases replaces with
  | unknown => exact only
  | replaces alters => exact alters.onlyLinked consistent settled only

theorem Removal.onlyLinked {stack : List ClassId} {pairs : List PairId}
    (removal : start.Removal stack pairs final) (only : start.heap.OnlyLinked) :
    final.heap.OnlyLinked := by
  induction removal with
  | done => exact only
  | skip _ _ ih => exact ih only
  | @remove start _ _ _ _ record _ _ ih =>
    refine ih (only.transfer ?_ ?_)
    · exact fun pair hnone => ((Heap.idles_withdraw record.pair).link_eq pair).symm.trans hnone
    · intro pair kind hnone
      by_cases heq : record.pair = pair
      · subst heq
        exact start.heap.table?_withdraw_self _ kind
      · exact (start.heap.table?_withdraw_of_ne heq kind).trans hnone

theorem onlyLinked_cleared (only : start.heap.OnlyLinked) : start.cleared.heap.OnlyLinked := by
  obtain ⟨hidles, htables⟩ := start.heap.withdrawAll_spec start.registry.classes
  intro pair hnone
  exact htables pair (.inr (only pair ((hidles.link_eq pair).symm.trans hnone)))

end Classes

end LateBinding
