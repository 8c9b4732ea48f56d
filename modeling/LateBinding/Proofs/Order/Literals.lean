import LateBinding.Proofs.Order.Declarations
import LateBinding.Proofs.Heap.Objects
import LateBinding.Proofs.System.Outcome

/-!
# Static instances wait until their class links

Every declared instance is in one of two places: it waits under the name of its class, or that class
is linked and the instance has got it. A class that links takes over what waits for it.
-/

namespace LateBinding

namespace StaticQueue

variable (queue : StaticQueue)

theorem mem_under {name : String} {object : ObjectId} :
    object ∈ queue.under name ↔ (name, object) ∈ queue := by
  rw [under, List.mem_filterMap]
  constructor
  · intro h
    obtain ⟨⟨other, waiting⟩, hmem, heq⟩ := h
    dsimp only at heq
    split at heq
    · next hname =>
      cases heq
      rw [← hname]
      exact hmem
    · cases heq
  · intro hmem
    exact ⟨(name, object), hmem, if_pos rfl⟩

theorem mem_without {name other : String} {object : ObjectId} :
    (other, object) ∈ queue.without name ↔ (other, object) ∈ queue ∧ other ≠ name := by
  simp [without, List.mem_filter]

theorem mem_add (name : String) (object : ObjectId) (pair : String × ObjectId) :
    pair ∈ queue.add name object ↔ pair ∈ queue ∨ pair = (name, object) := by
  unfold add
  split
  · next hcontains =>
    have hmem : (name, object) ∈ queue := by simpa using hcontains
    exact ⟨.inl, fun h => h.elim id fun heq => heq ▸ hmem⟩
  · rw [List.mem_append, List.mem_singleton]

theorem nodup_add {queue : StaticQueue} (hnodup : queue.Nodup) (name : String)
    (object : ObjectId) : (queue.add name object).Nodup := by
  unfold add
  split
  · exact hnodup
  · next hcontains =>
    have hnot : (name, object) ∉ queue := by simpa using hcontains
    rw [List.nodup_append]
    refine ⟨hnodup, List.nodup_singleton _, ?_⟩
    intro pair hpair _ hsingle heq
    subst heq
    rw [List.mem_singleton] at hsingle
    exact hnot (hsingle ▸ hpair)

theorem mem_addAll (name : String) (objects : List ObjectId) (pair : String × ObjectId) :
    pair ∈ queue.addAll name objects ↔ pair ∈ queue ∨ pair ∈ objects.map (name, ·) := by
  unfold addAll
  induction objects generalizing queue with
  | nil => simp
  | cons object rest ih => rw [List.foldl_cons, ih, mem_add, List.map_cons, List.mem_cons, or_assoc]

theorem nodup_addAll {queue : StaticQueue} (hnodup : queue.Nodup) (name : String)
    (objects : List ObjectId) : (queue.addAll name objects).Nodup := by
  unfold addAll
  induction objects generalizing queue with
  | nil => exact hnodup
  | cons object rest ih => exact ih (nodup_add hnodup name object)

end StaticQueue

/-- Where the declared instances are, if the classes that some names stand for are linked. Each of
the objects is declared for one name at most. -/
structure Bindings (objects : List ObjectId) (declared : List (String × ObjectId))
    (home : String → Option ClassRef) (heap : Heap) (queue : StaticQueue) : Prop where
  exist : ∀ object ∈ objects, heap.HasObject object
  among : ∀ name object, (name, object) ∈ declared → object ∈ objects
  single : ∀ name other object, (name, object) ∈ declared → (other, object) ∈ declared →
    name = other
  waits : ∀ name object, (name, object) ∈ queue ↔ (name, object) ∈ declared ∧ home name = none
  nodup : queue.Nodup
  bound : ∀ name object cls, (name, object) ∈ declared → home name = some cls →
    heap.classOf? object = some cls
  unbound : ∀ object ∈ objects, (∀ name, (name, object) ∈ declared → home name = none) →
    heap.classOf? object = none

namespace Bindings

variable {objects : List ObjectId} {declared : List (String × ObjectId)}
  {home : String → Option ClassRef} {heap other : Heap} {queue : StaticQueue}

theorem transfer (bindings : Bindings objects declared home heap queue)
    (hobjects : other.objects = heap.objects) : Bindings objects declared home other queue := by
  have hclass := Heap.classOf?_of_objects hobjects
  have hin := Heap.hasObject_of_objects hobjects
  refine ⟨?_, bindings.among, bindings.single, bindings.waits, bindings.nodup, ?_, ?_⟩
  · rw [hin]
    exact bindings.exist
  · rw [hclass]
    exact bindings.bound
  · rw [hclass]
    exact bindings.unbound

theorem unbound_of_waits (bindings : Bindings objects declared home heap queue) {name : String}
    {object : ObjectId} (hwaits : (name, object) ∈ queue) : heap.classOf? object = none := by
  obtain ⟨hdeclared, hnone⟩ := (bindings.waits name object).mp hwaits
  apply bindings.unbound object (bindings.among name object hdeclared)
  intro another hanother
  rw [← bindings.single name another object hdeclared hanother]
  exact hnone

/-- The class of a name has linked, and what waits under the name gets it. -/
theorem bindAll_under (bindings : Bindings objects declared home heap queue) {name : String}
    (hnone : home name = none) (pair : PairId) :
    Bindings objects declared (fun other => if other = name then some ⟨pair, .plain⟩ else home other)
      (heap.bindAll pair (queue.under name)).2 (queue.without name) where
  exist := by
    rw [Heap.hasObject_bindAll]
    exact bindings.exist
  among := bindings.among
  single := bindings.single
  waits := by
    intro another object
    rw [StaticQueue.mem_without, bindings.waits]
    by_cases heq : another = name
    · simp [heq]
    · simp [heq]
  nodup := bindings.nodup.filter _
  bound := by
    intro another object cls hdeclared hcls
    rw [Heap.classOf?_bindAll]
    by_cases heq : another = name
    · subst heq
      rw [if_pos rfl] at hcls
      have hwaits := (bindings.waits another object).mpr ⟨hdeclared, hnone⟩
      rw [bindings.unbound_of_waits hwaits, Option.none_or, if_pos, hcls]
      exact ⟨queue.mem_under.mpr hwaits,
        bindings.exist object (bindings.among another object hdeclared)⟩
    · rw [if_neg heq] at hcls
      rw [bindings.bound another object cls hdeclared hcls, Option.some_or]
  unbound := by
    intro object hobject hfree
    have hold : ∀ another, (another, object) ∈ declared → another ≠ name ∧ home another = none := by
      intro another hdeclared
      have hfree := hfree another hdeclared
      split at hfree
      · cases hfree
      · next hne => exact ⟨hne, hfree⟩
    rw [Heap.classOf?_bindAll, bindings.unbound object hobject fun another h => (hold another h).2,
      Option.none_or, if_neg]
    intro h
    obtain ⟨hunder, -⟩ := h
    have hdeclared := ((bindings.waits name object).mp (queue.mem_under.mp hunder)).1
    exact (hold name hdeclared).1 rfl

theorem mem_declared_append {name other : String} {object : ObjectId} {more : List ObjectId} :
    (other, object) ∈ declared ++ more.map (name, ·) ↔
      (other, object) ∈ declared ∨ other = name ∧ object ∈ more := by
  simp only [List.mem_append, List.mem_map, Prod.mk.injEq]
  constructor
  · intro h
    rcases h with hold | ⟨_, hmem, rfl, rfl⟩
    · exact .inl hold
    · exact .inr ⟨rfl, hmem⟩
  · intro h
    rcases h with hold | ⟨rfl, hmem⟩
    · exact .inl hold
    · exact .inr ⟨object, hmem, rfl, rfl⟩

section

variable (bindings : Bindings objects declared home heap queue) {name : String}
  {more : List ObjectId} (hamong : ∀ object ∈ more, object ∈ objects)
  (hnew : ∀ other object, (other, object) ∈ declared → object ∉ more)

include bindings hamong in
theorem among_declare (other : String) (object : ObjectId)
    (hdeclared : (other, object) ∈ declared ++ more.map (name, ·)) : object ∈ objects := by
  rcases mem_declared_append.mp hdeclared with hold | ⟨-, hmem⟩
  · exact bindings.among other object hold
  · exact hamong object hmem

include bindings hnew in
theorem single_declare (other another : String) (object : ObjectId)
    (hother : (other, object) ∈ declared ++ more.map (name, ·))
    (hanother : (another, object) ∈ declared ++ more.map (name, ·)) : other = another := by
  rcases mem_declared_append.mp hother with hold | ⟨rfl, hmem⟩
  · rcases mem_declared_append.mp hanother with hold' | ⟨-, hmem⟩
    · exact bindings.single other another object hold hold'
    · exact absurd hmem (hnew other object hold)
  · rcases mem_declared_append.mp hanother with hold | ⟨rfl, -⟩
    · exact absurd hmem (hnew another object hold)
    · rfl

include bindings hamong hnew

theorem declare_waiting (hnone : home name = none) :
    Bindings objects (declared ++ more.map (name, ·)) home heap (queue.addAll name more) where
  exist := bindings.exist
  among := bindings.among_declare hamong
  single := bindings.single_declare hnew
  waits := by
    intro other object
    rw [StaticQueue.mem_addAll, bindings.waits, List.mem_append]
    constructor
    · intro h
      rcases h with ⟨hdeclared, hother⟩ | hmem
      · exact ⟨.inl hdeclared, hother⟩
      · obtain ⟨_, -, heq⟩ := List.mem_map.mp hmem
        cases heq
        exact ⟨.inr hmem, hnone⟩
    · intro h
      rcases h with ⟨hdeclared | hmem, hother⟩
      · exact .inl ⟨hdeclared, hother⟩
      · exact .inr hmem
  nodup := StaticQueue.nodup_addAll bindings.nodup name more
  bound := by
    intro other object cls hdeclared hcls
    rcases mem_declared_append.mp hdeclared with hold | ⟨rfl, -⟩
    · exact bindings.bound other object cls hold hcls
    · rw [hnone] at hcls
      cases hcls
  unbound := by
    intro object hobject hfree
    exact bindings.unbound object hobject fun other hdeclared =>
      hfree other (List.mem_append_left _ hdeclared)

theorem declare_linked {pair : PairId} (hlinked : home name = some ⟨pair, .plain⟩) :
    Bindings objects (declared ++ more.map (name, ·)) home (heap.bindAll pair more).2 queue where
  exist := by
    rw [Heap.hasObject_bindAll]
    exact bindings.exist
  among := bindings.among_declare hamong
  single := bindings.single_declare hnew
  waits := by
    intro other object
    rw [bindings.waits, mem_declared_append]
    constructor
    · intro h
      obtain ⟨hdeclared, hother⟩ := h
      exact ⟨.inl hdeclared, hother⟩
    · intro h
      rcases h with ⟨hdeclared | ⟨rfl, -⟩, hother⟩
      · exact ⟨hdeclared, hother⟩
      · rw [hlinked] at hother
        cases hother
  nodup := bindings.nodup
  bound := by
    intro other object cls hdeclared hcls
    rw [Heap.classOf?_bindAll]
    rcases mem_declared_append.mp hdeclared with hold | ⟨rfl, hmem⟩
    · rw [bindings.bound other object cls hold hcls, Option.some_or]
    · have hobject := hamong object hmem
      have hfree : heap.classOf? object = none :=
        bindings.unbound object hobject fun another h => absurd hmem (hnew another object h)
      rw [hfree, Option.none_or, if_pos ⟨hmem, bindings.exist object hobject⟩, ← hlinked, hcls]
  unbound := by
    intro object hobject hfree
    have hold : heap.classOf? object = none := bindings.unbound object hobject fun other hdeclared =>
      hfree other (List.mem_append_left _ hdeclared)
    rw [Heap.classOf?_bindAll, hold, Option.none_or, if_neg]
    intro h
    obtain ⟨hmem, -⟩ := h
    have hnone := hfree name (mem_declared_append.mpr (.inr ⟨rfl, hmem⟩))
    rw [hlinked] at hnone
    cases hnone

end

end Bindings

namespace Act

variable {objects : List ObjectId} {declared : List (String × ObjectId)} {start : Session}

/-- The instances that wait for classes get them. The names of these classes are as good as not
linked until their turn has come. -/
theorem forM_bindWaiting_leads {home : String → Option ClassRef} {nameOf : PairId → String}
    {pairs : List PairId} (hname : ∀ pair ∈ pairs, (start.heap.pair pair).name = nameOf pair)
    (hhome : ∀ pair ∈ pairs, home (nameOf pair) = some ⟨pair, .plain⟩)
    (hnodup : (pairs.map nameOf).Nodup)
    (bindings : Bindings objects declared
      (fun name => if name ∈ pairs.map nameOf then none else home name) start.heap
      start.system.statics) :
    (pairs.forM bindWaiting).Leads False start fun _ final =>
      final.heap.pairs = start.heap.pairs ∧
        final.system = { start.system with statics := final.system.statics } ∧
        Bindings objects declared home final.heap final.system.statics := by
  induction pairs generalizing start with
  | nil =>
    refine ⟨rfl, rfl, ?_⟩
    simpa using bindings
  | cons pair rest ih =>
    change (bindWaiting pair >>= fun _ => rest.forM bindWaiting).Leads False start _
    rw [List.map_cons, List.nodup_cons] at hnodup
    have hown := hname pair List.mem_cons_self
    have hnone : (if nameOf pair ∈ (pair :: rest).map nameOf then none
        else home (nameOf pair)) = none := if_pos List.mem_cons_self
    have hbound := bindings.bindAll_under hnone pair
    have hlater : (fun other => if other = nameOf pair then some ⟨pair, .plain⟩ else
        if other ∈ (pair :: rest).map nameOf then none else home other) =
        fun other => if other ∈ rest.map nameOf then none else home other := by
      funext other
      by_cases heq : other = nameOf pair
      · rw [if_pos heq, heq, if_neg hnodup.1, hhome pair List.mem_cons_self]
      · simp only [if_neg heq, List.map_cons, List.mem_cons, or_iff_right heq]
    rw [hlater] at hbound
    rw [leads_bind, bindWaiting, leads_modify]
    dsimp only
    rw [hown]
    have hpairs := (start.heap.stores_bindAll pair (start.system.statics.under (nameOf pair))).pairs
    refine (ih ?_ ?_ hnodup.2 hbound).mono ?_
    · intro other hother
      rw [Heap.pair, hpairs]
      exact hname other (List.mem_cons_of_mem _ hother)
    · intro other hother
      exact hhome other (List.mem_cons_of_mem _ hother)
    · intro _ final h
      obtain ⟨hfinalPairs, hfinalSystem, hfinal⟩ := h
      exact ⟨hfinalPairs.trans hpairs, hfinalSystem, hfinal⟩

end Act

end LateBinding
