import LateBinding.Proofs.Execution.Actions
import LateBinding.Proofs.Tables.Linked

/-!
# What stays true of pairs and objects

In every reachable session the registered classes are in their places, and nothing of them is
released. From there on a pair keeps the number and the name of its class, an object keeps its class,
and a class that was removed stays removed: whoever is registered under its name later on, or gets its
number after a shutdown, moves into another pair.
-/

namespace LateBinding

namespace Classes

variable {policy : CategoryConflictPolicy} {start final : Classes}

/-- What holds of the classes between the things that are done in one go. -/
structure Steady (policy : CategoryConflictPolicy) (classes : Classes) : Prop where
  atRest : classes.AtRest policy
  settled : classes.Settled
  inPlace : classes.InPlace []
  held : classes.Held
  onlyLinked : classes.heap.OnlyLinked

theorem Change.abides (change : start.Change final) : start.heap.Abides final.heap := by
  cases change with
  | registers _ registers => exact registers.abides
  | applies applies => exact applies.abides
  | adds adds => exact adds.abides
  | replaces replaces => exact replaces.abides
  | removes removal => exact removal.abides

theorem Change.sameObjects_or (change : start.Change final) (atRest : start.AtRest policy) :
    final.heap.objects = start.heap.objects ∧ (final.heap.loose = start.heap.loose ∨
      ∃ stack pairs, start.Removal stack pairs final) := by
  have hsame : start.heap.SameObjects final.heap → final.heap.objects = start.heap.objects ∧
      (final.heap.loose = start.heap.loose ∨ ∃ stack pairs, start.Removal stack pairs final) :=
    fun same => ⟨same.objects, .inl same.loose⟩
  cases change with
  | registers _ registers => exact hsame registers.sameObjects
  | applies applies => exact hsame applies.sameObjects
  | adds adds =>
    cases adds with
    | unknown => exact ⟨rfl, .inl rfl⟩
    | defined => exact ⟨rfl, .inl rfl⟩
    | adds _ alters => exact hsame alters.sameObjects
  | replaces replaces =>
    cases replaces with
    | unknown => exact ⟨rfl, .inl rfl⟩
    | replaces alters => exact hsame alters.sameObjects
  | @removes stack pairs _ removal =>
    obtain ⟨ids, takesOut, -⟩ :=
      removal.takesOut (atRest.consistent.loosen _)
    exact ⟨takesOut.heap.objects, .inr ⟨stack, pairs, removal⟩⟩

theorem Change.steady (change : start.Change final) (steady : start.Steady policy) :
    final.Steady policy where
  atRest := change.atRest steady.atRest
  settled := (change.carries steady.settled).1
  inPlace := by
    have consistent := steady.atRest.consistent
    cases change with
    | registers free registers =>
      exact registers.inPlace free consistent steady.settled steady.inPlace
    | applies applies => exact applies.inPlace steady.inPlace
    | adds adds => exact adds.inPlace steady.inPlace
    | replaces replaces => exact replaces.inPlace steady.inPlace
    | removes removal =>
      exact removal.inPlace (consistent.loosen _)
        fun id record hrecord hlinked _ =>
          steady.inPlace id record hrecord hlinked List.not_mem_nil
  held := by
    obtain ⟨-, hloose | ⟨stack, pairs, removal⟩⟩ := change.sameObjects_or steady.atRest
    · exact steady.held.advance (change.carries steady.settled).2 change.abides
        fun pair hpair => .inl (hloose ▸ hpair)
    · exact removal.held (steady.atRest.consistent.loosen _) steady.settled steady.held
  onlyLinked := by
    have consistent := steady.atRest.consistent
    cases change with
    | registers _ registers => exact registers.onlyLinked steady.settled steady.onlyLinked
    | applies applies => exact applies.onlyLinked consistent steady.settled steady.onlyLinked
    | adds adds => exact adds.onlyLinked consistent steady.settled steady.onlyLinked
    | replaces replaces => exact replaces.onlyLinked consistent steady.settled steady.onlyLinked
    | removes removal => exact removal.onlyLinked steady.onlyLinked

/-- The linked classes have tables, and nobody else has. -/
theorem Steady.isLinked_iff {classes : Classes} (steady : classes.Steady policy) (cls : ClassRef) :
    classes.heap.isLinked cls = true ↔ ∃ id record,
      classes.registry.record? id = some record ∧ record.pair = cls.pair ∧
        record.state ≠ .pending := by
  obtain ⟨order, lineage⟩ := steady.settled
  obtain ⟨pair, kind⟩ := cls
  rw [Heap.isLinked, Option.isSome_iff_ne_none]
  constructor
  · intro htable
    have hhouses : classes.registry.Houses pair := by
      by_contra hgone
      exact htable (lineage.withdrawn pair hgone kind)
    obtain ⟨id, record, hrecord, rfl⟩ := Registry.houses_iff.mp hhouses
    refine ⟨id, record, hrecord, rfl, fun hpending => ?_⟩
    exact htable (steady.onlyLinked _ ((lineage.link_eq_none_iff hrecord).mpr hpending) kind)
  · rintro ⟨id, record, hrecord, rfl, hlinked⟩
    obtain ⟨plain, metaclass, hplain, hmetaclass, -⟩ :=
      steady.atRest.upToDate.published id record hrecord hlinked List.not_mem_nil
    cases kind with
    | plain => exact Option.ne_none_iff_exists'.mpr ⟨plain, hplain⟩
    | metaclass => exact Option.ne_none_iff_exists'.mpr ⟨metaclass, hmetaclass⟩

/-- A heap may change beside the tables and links of its pairs, and release what was put aside. -/
theorem Steady.transfer (steady : start.Steady policy) (hregistry : final.registry = start.registry)
    (same : start.heap.SameTables final.heap) (ages : start.heap.Ages final.heap)
    (hlink : ∀ pair, (final.heap.pair pair).link = (start.heap.pair pair).link)
    (htables : ∀ cls, final.heap.table? cls = start.heap.table? cls)
    (hloose : ∀ pair ∈ final.heap.loose, pair ∈ start.heap.loose)
    (hreleased : ∀ pair, pair ∉ start.heap.loose →
      (final.heap.pair pair).released = (start.heap.pair pair).released) : final.Steady policy where
  atRest := by
    refine ⟨?_, ?_, ?_⟩
    · rw [hregistry]
      exact steady.atRest.policy_eq
    · rw [hregistry]
      exact steady.atRest.consistent
    · exact steady.atRest.upToDate.transfer same (congrArg Registry.record? hregistry)
        (congrArg Registry.policy hregistry)
  settled := by
    obtain ⟨order, lineage⟩ := steady.settled
    exact ⟨order, lineage.transfer ages hlink (congrArg Registry.seat? hregistry)
      fun pair _ kind => htables ⟨pair, kind⟩⟩
  inPlace := steady.inPlace.of_record? hlink (congrArg Registry.record? hregistry)
  held := by
    constructor
    · intro pair hhouses kind
      rw [hregistry] at hhouses
      rw [hreleased pair fun hmem => (steady.held.loose pair hmem).2 hhouses]
      exact steady.held.held pair hhouses kind
    · intro pair hpair
      obtain ⟨hmade, hgone⟩ := steady.held.loose pair (hloose pair hpair)
      rw [hregistry]
      exact ⟨ages.hasPair pair hmade, hgone⟩
  onlyLinked := steady.onlyLinked.transfer (fun pair hnone => (hlink pair).symm.trans hnone)
    fun pair kind hnone => (htables ⟨pair, kind⟩).trans hnone

theorem Steady.of_pairs (steady : start.Steady policy) (hregistry : final.registry = start.registry)
    (hpairs : final.heap.pairs = start.heap.pairs) (hloose : final.heap.loose = start.heap.loose) :
    final.Steady policy := by
  have hpair := Heap.pair_of_pairs hpairs
  apply steady.transfer hregistry (.of_pairs hpairs) (Heap.idles_of_pairs hpairs).toAges
  · exact fun pair => by rw [hpair]
  · exact fun cls => by rw [Heap.table?, Heap.table?, hpair]
  · exact fun pair hmem => hloose ▸ hmem
  · exact fun pair _ => by rw [hpair]

theorem Steady.cleared (steady : start.Steady policy) : start.cleared.Steady policy where
  atRest := by
    rw [← steady.atRest.policy_eq]
    exact .empty _ _ _
  settled := (carries_cleared steady.settled).1
  inPlace := fun _ _ hrecord => nomatch hrecord
  held := held_cleared steady.settled steady.held
  onlyLinked := onlyLinked_cleared steady.onlyLinked

theorem objects_cleared (classes : Classes) :
    classes.cleared.heap.objects = classes.heap.objects := by
  have hall : ∀ (records : List Record) (heap : Heap),
      (records.foldl (fun heap record => heap.withdraw record.pair) heap).objects =
        heap.objects := by
    intro records
    induction records with
    | nil => exact fun heap => rfl
    | cons record rest ih => exact fun heap => ih _
  exact hall _ _

end Classes

namespace Session

variable {options : Options} {policy : CategoryConflictPolicy} {start middle final : Session}

def Steady (policy : CategoryConflictPolicy) (session : Session) : Prop :=
  session.classes.Steady policy

/-- Pairs and objects stay what they were, and classes that were removed stay removed and do not
link any more. -/
structure Remembers (start final : Session) : Prop where
  ages : start.heap.Ages final.heap
  name : ∀ pair, start.heap.HasPair pair → (final.heap.pair pair).name = (start.heap.pair pair).name
  gone : ∀ pair, start.heap.HasPair pair → ¬ start.system.registry.Houses pair →
    ¬ final.system.registry.Houses pair
  unlinked : ∀ pair, start.heap.HasPair pair → ¬ start.system.registry.Houses pair →
    (start.heap.pair pair).link = none → (final.heap.pair pair).link = none
  classOf : ∀ object cls, start.heap.classOf? object = some cls →
    final.heap.classOf? object = some cls

theorem Remembers.refl : start.Remembers start :=
  ⟨.refl, fun _ _ => rfl, fun _ _ h => h, fun _ _ _ h => h, fun _ _ h => h⟩

theorem Remembers.trans (first : start.Remembers middle) (second : middle.Remembers final) :
    start.Remembers final where
  ages := first.ages.trans second.ages
  name pair h := (second.name pair (first.ages.hasPair pair h)).trans (first.name pair h)
  gone pair hpair h := second.gone pair (first.ages.hasPair pair hpair) (first.gone pair hpair h)
  unlinked pair hpair hgone h :=
    second.unlinked pair (first.ages.hasPair pair hpair) (first.gone pair hpair hgone)
      (first.unlinked pair hpair hgone h)
  classOf object cls h := second.classOf object cls (first.classOf object cls h)

theorem Remembers.of_objects (ages : start.heap.Ages final.heap)
    (hname : ∀ pair, start.heap.HasPair pair →
      (final.heap.pair pair).name = (start.heap.pair pair).name)
    (hgone : ∀ pair, start.heap.HasPair pair → ¬ start.system.registry.Houses pair →
      ¬ final.system.registry.Houses pair)
    (hunlinked : ∀ pair, start.heap.HasPair pair → ¬ start.system.registry.Houses pair →
      (start.heap.pair pair).link = none → (final.heap.pair pair).link = none)
    (hobjects : final.heap.objects = start.heap.objects) : start.Remembers final where
  ages := ages
  name := hname
  gone := hgone
  unlinked := hunlinked
  classOf object cls h := by
    rw [Heap.classOf?, Heap.object, hobjects]
    exact h

/-! ### Deeds -/

theorem Deed.steady {given : Value → Prop} (deed : start.Deed given final)
    (steady : start.Steady policy) : final.Steady policy := by
  cases deed with
  | note quiet => exact Classes.Steady.of_pairs steady rfl rfl rfl
  | intern => exact Classes.Steady.of_pairs steady rfl rfl rfl
  | store fits => exact Classes.Steady.of_pairs steady rfl fits.pairs fits.loose
  | classes change => exact change.steady steady
  | shutdown => exact Classes.Steady.cleared steady

theorem Deed.remembers {given : Value → Prop} (deed : start.Deed given final)
    (steady : start.Steady policy) : start.Remembers final := by
  obtain ⟨-, advances⟩ := deed.change.carries steady.settled
  have ages := advances.dozes.toAges
  cases deed with
  | note quiet => exact .of_objects ages (fun _ _ => rfl) advances.gone advances.unlinked rfl
  | intern => exact .of_objects ages (fun _ _ => rfl) advances.gone advances.unlinked rfl
  | store fits =>
    exact ⟨ages, (Heap.abides_of_pairs fits.pairs).name, advances.gone, advances.unlinked,
      fits.classOf⟩
  | classes change =>
    exact .of_objects ages change.abides.name advances.gone advances.unlinked
      (change.sameObjects_or steady.atRest).1
  | shutdown =>
    exact .of_objects ages start.classes.abides_cleared.name advances.gone advances.unlinked
      start.classes.objects_cleared

theorem Deeds.spec (deeds : start.Deeds final) (steady : start.Steady policy) :
    final.Steady policy ∧ start.Remembers final := by
  induction deeds with
  | refl => exact ⟨steady, .refl⟩
  | tail _ deed ih =>
    obtain ⟨hmiddle, remembers⟩ := ih
    exact ⟨deed.steady hmiddle, remembers.trans (deed.remembers hmiddle)⟩

/-! ### Moves -/

theorem Move.spec (move : start.Move final) (steady : start.Steady policy) :
    final.Steady policy ∧ start.Remembers final := by
  have atRest : start.AtRest policy := steady.atRest
  cases move with
  | perform run =>
    exact Deeds.spec ((Act.roams_perform (fun _ _ => trivial) start atRest).deeds_of_ok run) steady
  | register run => exact Deeds.spec ((Act.roams_register _ start atRest).deeds_of_ok run) steady
  | load run => exact Deeds.spec ((Act.roams_load _ _ start atRest).deeds_of_ok run) steady
  | report event =>
    exact ⟨Classes.Steady.of_pairs steady rfl rfl rfl,
      .of_objects .refl (fun _ _ => rfl) (fun _ _ h => h) (fun _ _ _ h => h) rfl⟩
  | markInitialized id =>
    have ages := start.heap.ages_markInitialized id
    have abides := start.heap.abides_markInitialized id
    have hlink := start.heap.link_markInitialized id
    refine ⟨?_, .of_objects ages abides.name (fun _ _ h => h)
      (fun pair _ _ hnone => (hlink pair).trans hnone) rfl⟩
    exact Classes.Steady.transfer steady rfl (start.heap.sameTables_markInitialized id) ages hlink
      (start.heap.table?_markInitialized id) (fun _ h => h) fun pair _ => abides.released pair
  | release held =>
    obtain ⟨hidles, htables⟩ := start.heap.release_spec held
    obtain ⟨hloose, hkept⟩ := start.heap.release_loose held
    have same := start.heap.sameTables_release held
    refine ⟨?_, .of_objects hidles.toAges same.name (fun _ _ h => h)
      (fun pair _ _ => hidles.unlinked pair) (start.heap.objects_release held)⟩
    exact Classes.Steady.transfer steady rfl same hidles.toAges hidles.link_eq
      (fun cls => congrArg (Sided.get · cls.kind) (htables cls.pair)) hloose
      fun pair hpair => congrArg ClassPair.released (hkept pair hpair)

theorem steady_start (options : Options) :
    (Session.start options).Steady options.categoryConflicts where
  atRest := atRest_start options
  settled := Classes.settled_empty _ _
  inPlace := fun _ _ hrecord => nomatch hrecord
  held := ⟨fun pair hhouses => absurd hhouses (Registry.not_houses_empty _ pair),
    fun _ hpair => nomatch hpair⟩
  onlyLinked := by
    intro pair _ kind
    cases kind <;> rfl

theorem Reachable.steady {session : Session} (reachable : session.Reachable options) :
    session.Steady options.categoryConflicts := by
  induction reachable with
  | start => exact steady_start options
  | move _ move ih => exact (move.spec ih).1

/-! ### What was decided once -/

/-- The options stay, and the selector table is one that was set up with them. -/
structure Equipped (options : Options) (session : Session) : Prop where
  options_eq : session.system.options = options
  policy_eq : session.system.selectors.policy = options.typeMismatch
  sound : session.system.selectors.Sound

theorem equipped_start (options : Options) : (Session.start options).Equipped options where
  options_eq := rfl
  policy_eq := rfl
  sound := SelectorTable.sound_withCapacity _ _

theorem Deed.equipped {given : Value → Prop} (deed : start.Deed given final)
    (equipped : start.Equipped options) : final.Equipped options where
  options_eq := deed.change.options_eq.trans equipped.options_eq
  policy_eq := by
    cases deed with
    | intern policy => exact policy.trans equipped.policy_eq
    | _ => exact equipped.policy_eq
  sound := deed.change.selectors equipped.sound

theorem Deeds.equipped (deeds : start.Deeds final) (equipped : start.Equipped options) :
    final.Equipped options := by
  induction deeds with
  | refl => exact equipped
  | tail _ deed ih => exact deed.equipped ih

theorem Move.equipped (move : start.Move final) (atRest : start.AtRest policy)
    (equipped : start.Equipped options) : final.Equipped options := by
  cases move with
  | perform run =>
    exact Deeds.equipped ((Act.roams_perform (fun _ _ => trivial) start atRest).deeds_of_ok run)
      equipped
  | register run =>
    exact Deeds.equipped ((Act.roams_register _ start atRest).deeds_of_ok run) equipped
  | load run => exact Deeds.equipped ((Act.roams_load _ _ start atRest).deeds_of_ok run) equipped
  | _ => exact ⟨equipped.options_eq, equipped.policy_eq, equipped.sound⟩

theorem Reachable.equipped {session : Session} (reachable : session.Reachable options) :
    session.Equipped options := by
  induction reachable with
  | start => exact equipped_start options
  | move before move ih => exact move.equipped before.atRest ih

/-! ### Later sessions -/

theorem Onward.spec (onward : start.Onward final) (reachable : start.Reachable options) :
    final.Reachable options ∧ start.Remembers final := by
  induction onward with
  | refl => exact ⟨reachable, .refl⟩
  | tail _ move ih =>
    obtain ⟨hmiddle, remembers⟩ := ih
    exact ⟨hmiddle.move move, remembers.trans (move.spec hmiddle.steady).2⟩

end Session

end LateBinding
