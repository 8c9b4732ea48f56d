import LateBinding.Proofs.Heap.LinkOrder
import LateBinding.Proofs.Registry.Frames

/-!
# What becomes of the pairs of the classes

Every registered class lives in a pair of its own, and the classes that are linked are those whose
pairs have a link. A pair whose class was removed has no tables, and no class moves into it again.
No change of the classes makes the turn of a class to be initialized come.
-/

namespace LateBinding

open Registry

/-! ### Initializers in a log -/

/-- The pair whose initializer an event announces. -/
def Event.initializes : Event → Option PairId
  | .initializing pair _ => some pair
  | _ => none

/-- The log grew, but no initializer was announced. -/
def Quietly (log later : Array Event) : Prop :=
  ∃ events : Array Event, later = log ++ events ∧ ∀ event ∈ events, event.initializes = none

theorem Quietly.refl (log : Array Event) : Quietly log log :=
  ⟨#[], Array.append_empty.symm, fun event h => absurd h (Array.not_mem_empty event)⟩

theorem Quietly.trans {log later final : Array Event} (first : Quietly log later)
    (second : Quietly later final) : Quietly log final := by
  obtain ⟨events, rfl, hevents⟩ := first
  obtain ⟨others, rfl, hothers⟩ := second
  refine ⟨events ++ others, Array.append_assoc, ?_⟩
  intro event hevent
  exact (Array.mem_append.mp hevent).elim (hevents event) (hothers event)

theorem Quietly.push (log : Array Event) {event : Event} (hquiet : event.initializes = none) :
    Quietly log (log.push event) := by
  refine ⟨#[event], Array.push_eq_append, ?_⟩
  intro other hother
  rw [Array.mem_singleton.mp hother]
  exact hquiet

/-! ### The seats of the classes -/

/-- The pair that a class lives in, and whether it is linked. -/
structure Seat where
  pair : PairId
  linked : Bool

def Record.seat (record : Record) : Seat := ⟨record.pair, record.isLinked⟩

namespace Registry

def seat? (registry : Registry) (id : ClassId) : Option Seat :=
  (registry.record? id).map Record.seat

/-- Whether some registered class lives in a pair. -/
def Houses (registry : Registry) (pair : PairId) : Prop :=
  ∃ id seat, registry.seat? id = some seat ∧ seat.pair = pair

variable {registry : Registry} {id : ClassId} {record : Record}

theorem seat?_of_record (hrecord : registry.record? id = some record) :
    registry.seat? id = some record.seat := by
  rw [seat?, hrecord, Option.map_some]

theorem houses_of_record (hrecord : registry.record? id = some record) :
    registry.Houses record.pair :=
  ⟨id, record.seat, seat?_of_record hrecord, rfl⟩

theorem houses_iff {pair : PairId} : registry.Houses pair ↔
    ∃ id record, registry.record? id = some record ∧ record.pair = pair := by
  constructor
  · rintro ⟨id, seat, hseat, rfl⟩
    obtain ⟨record, hrecord, rfl⟩ := Option.map_eq_some_iff.mp hseat
    exact ⟨id, record, hrecord, rfl⟩
  · rintro ⟨id, record, hrecord, rfl⟩
    exact houses_of_record hrecord

theorem not_houses_empty (policy : CategoryConflictPolicy) (pair : PairId) :
    ¬ (Registry.empty policy).Houses pair := by
  rintro ⟨id, seat, hseat, -⟩
  cases hseat

theorem houses_congr {changed : Registry}
    (hpair : ∀ id, (changed.seat? id).map Seat.pair = (registry.seat? id).map Seat.pair) :
    changed.Houses = registry.Houses := by
  funext pair
  simp only [Houses, ← Option.map_eq_some_iff, hpair]

theorem seat?_addRecord (new : Record) (other : ClassId) :
    (registry.addRecord new).seat? other =
      if registry.nextId = other then some new.seat else registry.seat? other := by
  simp only [seat?, record?_addRecord]
  split <;> rfl

theorem seat?_setRecord {new : Record} (hrecord : registry.record? id = some record)
    (hseat : new.seat = record.seat) :
    (registry.setRecord id (some new)).seat? = registry.seat? := by
  funext other
  simp only [seat?, registry.record?_setRecord hrecord]
  split
  · next heq => rw [← heq, hrecord, Option.map_some, Option.map_some, hseat]
  · rfl

theorem seat?_markLinked {superclass : Option ClassId} (hother : superclass ≠ some id)
    (other : ClassId) : (registry.markLinked id superclass).seat? other =
      (registry.seat? other).map fun seat =>
        { seat with linked := if id = other then true else seat.linked } := by
  simp only [seat?, registry.record?_markLinked hother]
  split
  · rw [Option.map_map, Option.map_map]
    rfl
  · split
    · rw [Option.map_map, Option.map_map]
      rfl
    · rw [Option.map_map]
      rfl

theorem houses_markLinked {superclass : Option ClassId} (hother : superclass ≠ some id) :
    (registry.markLinked id superclass).Houses = registry.Houses := by
  apply houses_congr
  intro other
  rw [seat?_markLinked hother, Option.map_map]
  rfl

theorem seat?_takeOut (hrecord : registry.record? id = some record) (other : ClassId) :
    (registry.takeOut id record).seat? other =
      if id = other then none else registry.seat? other := by
  simp only [seat?, registry.record?_takeOut hrecord]
  split
  · rfl
  · split
    · rw [Option.map_map]
      rfl
    · rfl

end Registry

/-! ### What holds between operations, and on the way -/

namespace Classes

/-- The classes stand in their pairs, which linked in some order. -/
structure Lineage (classes : Classes) (order : List PairId) : Prop where
  made : ∀ id seat, classes.registry.seat? id = some seat → classes.heap.HasPair seat.pair
  number : ∀ id seat, classes.registry.seat? id = some seat →
    (classes.heap.pair seat.pair).id = id
  inOrder : classes.heap.LinkedInOrder order
  linked : ∀ id seat, classes.registry.seat? id = some seat →
    (seat.linked = true ↔ seat.pair ∈ order)
  withdrawn : ∀ pair, ¬ classes.registry.Houses pair → ∀ kind,
    classes.heap.table? ⟨pair, kind⟩ = none

def Settled (classes : Classes) : Prop := ∃ order, classes.Lineage order

/-- The heap ages, but nobody's turn comes; no class moves into a pair that stands empty, and no such
pair links; and no initializer is announced. -/
structure Advances (start final : Classes) : Prop where
  dozes : start.heap.Dozes final.heap
  gone : ∀ pair, start.heap.HasPair pair → ¬ start.registry.Houses pair →
    ¬ final.registry.Houses pair
  unlinked : ∀ pair, start.heap.HasPair pair → ¬ start.registry.Houses pair →
    (start.heap.pair pair).link = none → (final.heap.pair pair).link = none
  quietly : Quietly start.log final.log

def Carries (start final : Classes) : Prop := start.Settled → final.Settled ∧ start.Advances final

variable {start middle final : Classes}

theorem Advances.trans (first : start.Advances middle) (second : middle.Advances final) :
    start.Advances final where
  dozes := first.dozes.trans second.dozes
  gone pair hpair hgone :=
    second.gone pair (first.dozes.hasPair pair hpair) (first.gone pair hpair hgone)
  unlinked pair hpair hgone hlink :=
    second.unlinked pair (first.dozes.hasPair pair hpair) (first.gone pair hpair hgone)
      (first.unlinked pair hpair hgone hlink)
  quietly := first.quietly.trans second.quietly

theorem Carries.refl : start.Carries start := fun settled =>
  ⟨settled, .refl, fun _ _ h => h, fun _ _ _ h => h, .refl _⟩

theorem Carries.trans (first : start.Carries middle) (second : middle.Carries final) :
    start.Carries final := by
  intro settled
  obtain ⟨hmiddle, hfirst⟩ := first settled
  obtain ⟨hfinal, hsecond⟩ := second hmiddle
  exact ⟨hfinal, hfirst.trans hsecond⟩

theorem Lineage.pair_ne {order : List PairId} (lineage : start.Lineage order) {id other : ClassId}
    {seat another : Seat} (hid : start.registry.seat? id = some seat)
    (hother : start.registry.seat? other = some another) (hne : id ≠ other) :
    seat.pair ≠ another.pair := by
  intro heq
  have hnumber := lineage.number id seat hid
  rw [heq, lineage.number other another hother] at hnumber
  exact hne hnumber.symm

theorem settled_empty (policy : CategoryConflictPolicy) (log : Array Event) :
    Settled ⟨.empty, .empty policy, log⟩ := by
  refine ⟨[], ?_, ?_, .empty, ?_, ?_⟩
  · exact fun _ _ h => nomatch h
  · exact fun _ _ h => nomatch h
  · exact fun _ _ h => nomatch h
  · intro pair _ kind
    cases kind <;> rfl

/-! ### Changes that leave the seats alone -/

theorem Lineage.transfer {order : List PairId} (lineage : start.Lineage order)
    (hheap : start.heap.Ages final.heap)
    (hlink : ∀ id, (final.heap.pair id).link = (start.heap.pair id).link)
    (hseat : final.registry.seat? = start.registry.seat?)
    (htables : ∀ pair, ¬ start.registry.Houses pair → ∀ kind,
      final.heap.table? ⟨pair, kind⟩ = start.heap.table? ⟨pair, kind⟩) : final.Lineage order where
  made id seat hid := by
    rw [hseat] at hid
    exact hheap.hasPair _ (lineage.made id seat hid)
  number id seat hid := by
    rw [hseat] at hid
    rw [hheap.id _ (lineage.made id seat hid)]
    exact lineage.number id seat hid
  inOrder := lineage.inOrder.transfer hlink
  linked id seat hid := by
    rw [hseat] at hid
    exact lineage.linked id seat hid
  withdrawn pair hgone kind := by
    rw [houses_congr fun id => congrArg (Option.map Seat.pair) (congrFun hseat id)] at hgone
    rw [htables pair hgone, lineage.withdrawn pair hgone]

theorem carries_of_seats (hheap : start.heap.Idles final.heap)
    (hseat : final.registry.seat? = start.registry.seat?)
    (htables : ∀ pair, ¬ start.registry.Houses pair → ∀ kind,
      final.heap.table? ⟨pair, kind⟩ = start.heap.table? ⟨pair, kind⟩)
    (hlog : Quietly start.log final.log) : start.Carries final := by
  rintro ⟨order, lineage⟩
  refine ⟨⟨order, lineage.transfer hheap.toAges hheap.link_eq hseat htables⟩, hheap.toDozes, ?_,
    fun pair _ _ => hheap.unlinked pair, hlog⟩
  intro pair _ hgone
  rw [houses_congr fun id => congrArg (Option.map Seat.pair) (congrFun hseat id)]
  exact hgone

theorem carries_registry {registry : Registry} (hseat : registry.seat? = start.registry.seat?) :
    start.Carries { start with registry } :=
  carries_of_seats .refl hseat (fun _ _ _ => rfl) (.refl _)

theorem carries_report {event : Event} (hquiet : event.initializes = none) :
    start.Carries { start with log := start.log.push event } :=
  carries_of_seats .refl rfl (fun _ _ _ => rfl) (.push _ hquiet)

theorem Builds.carries {id : ClassId} {record : Record} (builds : start.Builds id record final) :
    start.Carries final := by
  obtain ⟨plain, metaclass, hheap, -⟩ := builds.heap
  apply carries_of_seats
  · rw [hheap]
    exact Heap.idles_withTables _ _ _
  · rw [builds.registry]
    rfl
  · intro pair hgone kind
    rw [hheap, Heap.table?_withTables_of_ne]
    rintro rfl
    exact hgone (houses_of_record builds.registered)
  · rw [builds.log]
    exact .refl _

/-! ### Linking -/

theorem isLinked_of_standing {id : ClassId} {standing : Standing}
    (hstanding : start.registry.standing? id = some standing) (hlinked : standing.isLinked) :
    ∃ record, start.registry.record? id = some record ∧ record.seat.linked = true := by
  obtain ⟨record, hrecord, rfl⟩ := Option.map_eq_some_iff.mp hstanding
  exact ⟨record, hrecord, decide_eq_true hlinked⟩

section

variable {order : List PairId} {id : ClassId} {record : Record} {superclass : Option ClassId}

theorem Lineage.link_eq_none_iff (lineage : start.Lineage order)
    (hrecord : start.registry.record? id = some record) :
    (start.heap.pair record.pair).link = none ↔ record.state = .pending := by
  have hlinked := lineage.linked id _ (seat?_of_record hrecord)
  rw [show record.seat.linked = decide (record.state ≠ .pending) from rfl, decide_eq_true_iff,
    lineage.inOrder.mem_iff] at hlinked
  exact (not_iff_not.mp hlinked).symm

theorem Lineage.mem_of_placeBelow (lineage : start.Lineage order)
    (fits : start.registry.Fits record.standing superclass) {parent root : PairId}
    (hplace : start.placeBelow superclass = .child parent root) : parent ∈ order := by
  cases superclass with
  | none => cases hplace
  | some upper =>
    obtain ⟨standing, hstanding, hlinked, -⟩ := fits
    obtain ⟨above, habove, haboveLinked⟩ := isLinked_of_standing hstanding hlinked
    rw [placeBelow, Option.bind_some, habove] at hplace
    cases hplace
    exact (lineage.linked upper _ (seat?_of_record habove)).mp haboveLinked

/-- A class takes its place after its superclass: its pair comes last in the order. -/
theorem Lineage.placed (lineage : start.Lineage order)
    (hrecord : start.registry.record? id = some record) (hpending : record.state = .pending)
    (fits : start.registry.Fits record.standing superclass) :
    (start.placed id record.pair superclass).Lineage (order ++ [record.pair]) := by
  have hseat := seat?_of_record hrecord
  have hlink := (lineage.link_eq_none_iff hrecord).mpr hpending
  have hnew : record.pair ∉ order := fun hmem => (lineage.inOrder.mem_iff _).mp hmem hlink
  have hother := fits.ne (standing?_of_record hrecord) hpending
  have hdozes := Heap.dozes_setLink hlink (start.placeBelow superclass)
  have hbefore : ∀ other after, (start.placed id record.pair superclass).registry.seat? other =
      some after → ∃ seat, start.registry.seat? other = some seat ∧ after.pair = seat.pair ∧
        after.linked = if id = other then true else seat.linked := by
    intro other after hafter
    rw [Classes.placed, seat?_markLinked hother] at hafter
    obtain ⟨seat, hbefore, rfl⟩ := Option.map_eq_some_iff.mp hafter
    exact ⟨seat, hbefore, rfl, rfl⟩
  constructor
  case made =>
    intro other after hafter
    obtain ⟨seat, hseatBefore, hpair, -⟩ := hbefore other after hafter
    rw [hpair]
    exact hdozes.hasPair _ (lineage.made other seat hseatBefore)
  case number =>
    intro other after hafter
    obtain ⟨seat, hseatBefore, hpair, -⟩ := hbefore other after hafter
    rw [hpair]
    exact (hdozes.id _ (lineage.made other seat hseatBefore)).trans
      (lineage.number other seat hseatBefore)
  case inOrder =>
    exact lineage.inOrder.setLink (lineage.made id _ hseat) hnew fun _ _ hplace =>
      lineage.mem_of_placeBelow fits hplace
  case linked =>
    intro other after hafter
    obtain ⟨seat, hseatBefore, hpair, hlinked⟩ := hbefore other after hafter
    rw [hpair, hlinked, List.mem_append, List.mem_singleton]
    split
    · next heq =>
      subst heq
      cases hseat.symm.trans hseatBefore
      exact iff_of_true rfl (.inr rfl)
    · next hne =>
      have hpairNe : ¬ seat.pair = record.pair := lineage.pair_ne hseatBefore hseat (Ne.symm hne)
      rw [or_iff_left hpairNe]
      exact lineage.linked other seat hseatBefore
  case withdrawn =>
    intro pair hgone kind
    rw [Classes.placed, houses_markLinked hother] at hgone
    exact (start.heap.table?_setLink _ _ _ _).trans (lineage.withdrawn pair hgone kind)

theorem carries_placed (hrecord : start.registry.record? id = some record)
    (hpending : record.state = .pending)
    (fits : start.registry.Fits record.standing superclass) :
    start.Carries (start.placed id record.pair superclass) := by
  rintro ⟨order, lineage⟩
  have hother := fits.ne (standing?_of_record hrecord) hpending
  have hlink := (lineage.link_eq_none_iff hrecord).mpr hpending
  refine ⟨⟨_, lineage.placed hrecord hpending fits⟩, Heap.dozes_setLink hlink _, ?_, ?_, .refl _⟩
  · intro pair _ hgone
    rw [Classes.placed, houses_markLinked hother]
    exact hgone
  · intro pair _ hgone hnone
    rw [Classes.placed, Heap.pair_setLink, if_neg, hnone]
    rintro ⟨rfl, -⟩
    exact hgone (houses_of_record hrecord)

end

theorem Links.carries {id : ClassId} {record : Record} {superclass : Option ClassId}
    (links : start.Links id record superclass final) : start.Carries final := by
  obtain ⟨built, builds, rfl⟩ := links.built
  exact (carries_placed links.registered links.pending links.fits).trans
    (builds.carries.trans (carries_report rfl))

theorem Cascade.carries {queue order : List ClassId} (cascade : start.Cascade queue order final) :
    start.Carries final := by
  induction cascade with
  | done => exact .refl
  | @link start linked _ _ _ _ record _ links _ ih =>
    have hreleased : linked.Carries (linked.released record.name) := carries_registry rfl
    exact links.carries.trans (hreleased.trans ih)

/-! ### Entering -/

section

variable {order : List PairId} (definition : ClassDefinition)

theorem seat?_of_entered {id : ClassId} {seat : Seat}
    (hseat : (start.entered definition).registry.seat? id = some seat) :
    id = start.registry.nextId ∧ seat = ⟨(start.newRecord definition).pair, false⟩ ∨
      start.registry.seat? id = some seat := by
  rw [Classes.entered, seat?_addRecord] at hseat
  split at hseat
  · next heq =>
    cases hseat
    exact .inl ⟨heq.symm, rfl⟩
  · exact .inr hseat

theorem not_hasPair_newRecord : ¬ start.heap.HasPair (start.newRecord definition).pair :=
  start.heap.not_hasPair_addPair start.registry.nextId definition.name definition.size

theorem houses_of_entered {pair : PairId}
    (hhouses : (start.entered definition).registry.Houses pair) :
    pair = (start.newRecord definition).pair ∨ start.registry.Houses pair := by
  obtain ⟨id, seat, hseat, rfl⟩ := hhouses
  rcases seat?_of_entered definition hseat with ⟨-, rfl⟩ | hbefore
  · exact .inl rfl
  · exact .inr ⟨id, seat, hbefore, rfl⟩

theorem Lineage.entered (lineage : start.Lineage order) :
    (start.entered definition).Lineage order := by
  have hheap : start.heap.Idles (start.entered definition).heap :=
    Heap.idles_addPair start.registry.nextId definition.name definition.size
  have hnew := start.heap.pair_addPair_fst start.registry.nextId definition.name definition.size
  constructor
  case made =>
    intro id seat hseat
    rcases seat?_of_entered definition hseat with ⟨-, rfl⟩ | hbefore
    · exact (start.heap.hasPair_addPair _ _ _ _).mpr (.inr rfl)
    · exact hheap.hasPair _ (lineage.made id seat hbefore)
  case number =>
    intro id seat hseat
    rcases seat?_of_entered definition hseat with ⟨rfl, rfl⟩ | hbefore
    · exact congrArg ClassPair.id hnew
    · exact (hheap.id _ (lineage.made id seat hbefore)).trans (lineage.number id seat hbefore)
  case inOrder => exact lineage.inOrder.transfer hheap.link_eq
  case linked =>
    intro id seat hseat
    rcases seat?_of_entered definition hseat with ⟨rfl, rfl⟩ | hbefore
    · refine iff_of_false Bool.false_ne_true ?_
      rw [(lineage.inOrder.transfer hheap.link_eq).mem_iff]
      exact not_not_intro (congrArg ClassPair.link hnew)
    · exact lineage.linked id seat hbefore
  case withdrawn =>
    intro pair hgone kind
    have hne : pair ≠ (start.newRecord definition).pair := by
      rintro rfl
      refine hgone ⟨start.registry.nextId, (start.newRecord definition).seat, ?_, rfl⟩
      rw [Classes.entered, seat?_addRecord, if_pos rfl]
    have hbefore : ¬ start.registry.Houses pair := by
      rintro ⟨id, seat, hseat, rfl⟩
      refine hgone ⟨id, seat, ?_, rfl⟩
      rw [Classes.entered, seat?_addRecord, if_neg, hseat]
      rintro rfl
      rw [seat?, record?_nextId] at hseat
      cases hseat
    have hpair : (start.entered definition).heap.pair pair = start.heap.pair pair :=
      (start.heap.pair_addPair _ _ _ _).trans (if_neg hne)
    rw [Heap.table?, hpair]
    exact lineage.withdrawn pair hbefore kind

theorem carries_entered : start.Carries (start.entered definition) := by
  rintro ⟨order, lineage⟩
  have hheap : start.heap.Idles (start.entered definition).heap :=
    Heap.idles_addPair start.registry.nextId definition.name definition.size
  refine ⟨⟨order, lineage.entered definition⟩, hheap.toDozes, ?_,
    fun pair _ _ => hheap.unlinked pair, .refl _⟩
  intro pair hpair hgone hhouses
  rcases houses_of_entered definition hhouses with rfl | hbefore
  · exact not_hasPair_newRecord definition hpair
  · exact hgone hbefore

end

theorem Registers.carries {definition : ClassDefinition} {order : List ClassId}
    (registers : start.Registers definition order final) : start.Carries final := by
  have hentered : start.Carries (start.entered definition) := carries_entered definition
  cases registers with
  | links _ cascade => exact hentered.trans cascade.carries
  | @waits awaited _ _ =>
    have hwaits : (start.entered definition).Carries { start.entered definition with
        registry := (start.entered definition).registry.await awaited start.registry.nextId } :=
      carries_registry rfl
    exact hentered.trans (hwaits.trans (carries_report rfl))

/-! ### Altering definitions -/

theorem BuildsAll.carries {ids : List ClassId} (builds : start.BuildsAll ids final) :
    start.Carries final := by
  induction builds with
  | done => exact .refl
  | skip _ _ ih => exact ih
  | build built _ ih => exact built.carries.trans ih

theorem Alters.carries_altered {id : ClassId} {old new : Record}
    (alters : start.Alters id old new final) :
    start.Carries { start with registry := start.registry.setRecord id (some new) } := by
  apply carries_registry (seat?_setRecord alters.registered _)
  have hstate : new.state = old.state := congrArg Standing.state alters.standing
  rw [Record.seat, Record.seat, alters.pair, Record.isLinked, Record.isLinked, hstate]

theorem Alters.carries {id : ClassId} {old new : Record} (alters : start.Alters id old new final) :
    start.Carries final := by
  apply alters.carries_altered.trans
  cases alters.rebuilds with
  | pending => exact .refl
  | linked _ builds => exact builds.carries.trans (carries_report rfl)

theorem Applies.carries {category : CategoryDefinition} {status : CategoryStatus}
    (applies : start.Applies category status final) : start.Carries final := by
  cases applies with
  | waits =>
    have hheld : start.Carries { start with registry := start.registry.holdBack category } :=
      carries_registry rfl
    exact hheld.trans (carries_report rfl)
  | merges _ alters => exact (carries_report rfl).trans alters.carries

theorem Adds.carries {id : ClassId} {kind : ClassKind} {method : MethodDefinition} {added : Bool}
    (adds : start.Adds id kind method added final) : start.Carries final := by
  cases adds with
  | unknown => exact .refl
  | defined => exact .refl
  | adds _ alters => exact alters.carries

theorem Replaces.carries {id : ClassId} {kind : ClassKind} {method : MethodDefinition}
    {replaced : Option Imp} (replaces : start.Replaces id kind method replaced final) :
    start.Carries final := by
  cases replaces with
  | unknown => exact .refl
  | replaces alters => exact alters.carries

/-! ### Removing -/

theorem Lineage.without {order : List PairId} (lineage : start.Lineage order) {id : ClassId}
    {record : Record} (hrecord : start.registry.record? id = some record) :
    (start.without id record).Lineage order := by
  have hheap : start.heap.Idles (start.without id record).heap :=
    Heap.idles_withdraw record.pair
  have hbefore : ∀ other seat, (start.without id record).registry.seat? other = some seat →
      start.registry.seat? other = some seat := by
    intro other seat hseat
    rw [Classes.without, seat?_takeOut hrecord] at hseat
    split at hseat
    · cases hseat
    · exact hseat
  constructor
  case made =>
    exact fun other seat h => hheap.hasPair _ (lineage.made other seat (hbefore other seat h))
  case number =>
    intro other seat h
    have hseat := hbefore other seat h
    exact (hheap.id _ (lineage.made other seat hseat)).trans (lineage.number other seat hseat)
  case inOrder => exact lineage.inOrder.transfer hheap.link_eq
  case linked => exact fun other seat h => lineage.linked other seat (hbefore other seat h)
  case withdrawn =>
    intro pair hgone kind
    by_cases heq : record.pair = pair
    · subst heq
      exact start.heap.table?_withdraw_self _ _
    · have hstart : ¬ start.registry.Houses pair := by
        rintro ⟨other, seat, hseat, rfl⟩
        refine hgone ⟨other, seat, ?_, rfl⟩
        rw [Classes.without, seat?_takeOut hrecord, if_neg, hseat]
        rintro rfl
        cases (seat?_of_record hrecord).symm.trans hseat
        exact heq rfl
      exact (start.heap.table?_withdraw_of_ne heq kind).trans (lineage.withdrawn pair hstart kind)

theorem carries_without {id : ClassId} {record : Record}
    (hrecord : start.registry.record? id = some record) :
    start.Carries (start.without id record) := by
  rintro ⟨order, lineage⟩
  have hheap : start.heap.Idles (start.without id record).heap :=
    Heap.idles_withdraw record.pair
  refine ⟨⟨order, lineage.without hrecord⟩, hheap.toDozes, ?_,
    fun pair _ _ => hheap.unlinked pair, .push _ rfl⟩
  rintro pair _ hgone ⟨other, seat, hseat, rfl⟩
  rw [Classes.without, seat?_takeOut hrecord] at hseat
  split at hseat
  · cases hseat
  · exact hgone ⟨other, seat, hseat, rfl⟩

theorem Removal.carries {stack : List ClassId} {pairs : List PairId}
    (removal : start.Removal stack pairs final) : start.Carries final := by
  induction removal with
  | done => exact .refl
  | skip _ _ ih => exact ih
  | remove registered _ ih => exact (carries_without registered).trans ih

/-! ### Removing all classes -/

/-- A registry is left without classes, and their pairs without tables. -/
def cleared (classes : Classes) : Classes :=
  { classes with
    heap := classes.registry.classes.foldl (fun heap record => heap.withdraw record.pair)
      classes.heap
    registry := .empty classes.registry.policy }

end Classes

theorem Heap.withdrawAll_spec (records : List Record) (heap : Heap) :
    heap.Idles (records.foldl (fun heap record => heap.withdraw record.pair) heap) ∧
      ∀ pair, (∃ record ∈ records, record.pair = pair) ∨
          (∀ kind, heap.table? ⟨pair, kind⟩ = none) → ∀ kind,
        (records.foldl (fun heap record => heap.withdraw record.pair) heap).table? ⟨pair, kind⟩ =
          none := by
  induction records generalizing heap with
  | nil =>
    refine ⟨.refl, ?_⟩
    rintro pair (⟨record, hrecord, -⟩ | hnone)
    · cases hrecord
    · exact hnone
  | cons record rest ih =>
    obtain ⟨hidles, htables⟩ := ih (heap.withdraw record.pair)
    refine ⟨(idles_withdraw record.pair).trans hidles, ?_⟩
    intro pair hpair
    apply htables
    by_cases heq : record.pair = pair
    · subst heq
      exact .inr fun kind => heap.table?_withdraw_self _ kind
    · rcases hpair with ⟨other, hother, rfl⟩ | hnone
      · rcases List.mem_cons.mp hother with rfl | hmem
        · exact absurd rfl heq
        · exact .inl ⟨other, hmem, rfl⟩
      · exact .inr fun kind => (heap.table?_withdraw_of_ne heq kind).trans (hnone kind)

theorem Classes.carries_cleared {start : Classes} : start.Carries start.cleared := by
  rintro ⟨order, lineage⟩
  obtain ⟨hheap, htables⟩ := start.heap.withdrawAll_spec start.registry.classes
  refine ⟨⟨order, ?_, ?_, lineage.inOrder.transfer hheap.link_eq, ?_, ?_⟩, hheap.toDozes, ?_,
    fun pair _ _ => hheap.unlinked pair, .refl _⟩
  · exact fun _ _ h => nomatch h
  · exact fun _ _ h => nomatch h
  · exact fun _ _ h => nomatch h
  · intro pair _
    apply htables
    by_cases hhouses : start.registry.Houses pair
    · obtain ⟨id, seat, hseat, rfl⟩ := hhouses
      obtain ⟨record, hrecord, rfl⟩ := Option.map_eq_some_iff.mp hseat
      refine .inl ⟨record, ?_, rfl⟩
      rw [classes_eq]
      exact List.mem_filterMap.mpr ⟨id, (mem_ids _).mpr ⟨record, hrecord⟩, hrecord⟩
    · exact .inr (lineage.withdrawn pair hhouses)
  · exact fun pair _ _ => not_houses_empty _ pair

end LateBinding
