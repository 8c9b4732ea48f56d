import LateBinding.Proofs.Heap.Closed
import LateBinding.Proofs.Registry.Lineage
import LateBinding.Proofs.Selectors
import LateBinding.Proofs.System.Sound
import Mathlib.Logic.Relation

/-!
# The steps of a session

A session goes from step to step. In most steps something is noted, interned, stored or released, or
the classes change; in none of these does the turn of a class to be initialized come. A *turn* is a
step of its own: the class is linked, its turn has not come yet, and that of its superclass has. The
class counts as initialized from then on, and its initializer is announced if its metaclass
implements it.

From these steps alone it follows that no initializer is announced twice, and that it is announced
after that of the superclass.
-/

namespace LateBinding

/-! ### Changes of the classes -/

namespace Classes

inductive Change (start : Classes) : Classes → Prop
  | registers {definition : ClassDefinition} {order : List ClassId} {final : Classes}
      (free : start.registry.idOf? definition.name = none)
      (registers : start.Registers definition order final) : Change start final
  | applies {category : CategoryDefinition} {status : CategoryStatus} {final : Classes}
      (applies : start.Applies category status final) : Change start final
  | adds {id : ClassId} {kind : ClassKind} {method : MethodDefinition} {added : Bool}
      {final : Classes} (adds : start.Adds id kind method added final) : Change start final
  | replaces {id : ClassId} {kind : ClassKind} {method : MethodDefinition} {replaced : Option Imp}
      {final : Classes} (replaces : start.Replaces id kind method replaced final) :
      Change start final
  | removes {stack : List ClassId} {pairs : List PairId} {final : Classes}
      (removal : start.Removal stack pairs final) : Change start final

variable {start final : Classes}

theorem Change.carries (change : start.Change final) : start.Carries final := by
  cases change with
  | registers _ registers => exact registers.carries
  | applies applies => exact applies.carries
  | adds adds => exact adds.carries
  | replaces replaces => exact replaces.carries
  | removes removal => exact removal.carries

theorem Change.atRest {policy : CategoryConflictPolicy} (change : start.Change final)
    (atRest : start.AtRest policy) : final.AtRest policy := by
  cases change with
  | registers free registers => exact registers.atRest free atRest
  | applies applies => exact applies.atRest atRest
  | adds adds => exact adds.atRest atRest
  | replaces replaces => exact replaces.atRest atRest
  | removes removal => exact removal.atRest atRest

end Classes

namespace Session

/-! ### The steps -/

/-- A step in which nobody's turn to be initialized comes. -/
inductive Change (start : Session) : Session → Prop
  | note {event : Event} (quiet : event.initializes = none) :
      Change start { start with log := start.log.push event }
  | intern {selectors : SelectorTable}
      (grows : start.system.selectors.Sound →
        selectors.Sound ∧ start.system.selectors.Grows selectors) :
      Change start { start with system := { start.system with selectors } }
  | store {heap : Heap} {statics : StaticQueue} {forward : Option Imp}
      (pairs : heap.pairs = start.heap.pairs) :
      Change start { start with heap, system := { start.system with statics, forward } }
  | classes {classes : Classes} (change : start.classes.Change classes) :
      Change start (start.withClasses classes)
  | release (held : List Value) : Change start { start with heap := start.heap.release held }
  | shutdown :
      Change start
        { heap := start.classes.cleared.heap
          system :=
            { start.system with
              selectors := start.system.selectors.clear
              registry := start.classes.cleared.registry
              statics := []
              forward := none }
          log := start.log }

/-- What an action does at a time: a change in which nothing is released, each object keeps its
class once it has one, and nothing is put into a slot but what was given. -/
inductive Deed (given : Value → Prop) (start : Session) : Session → Prop
  | note {event : Event} (quiet : event.initializes = none) :
      Deed given start { start with log := start.log.push event }
  | intern {selectors : SelectorTable} (policy : selectors.policy = start.system.selectors.policy)
      (grows : start.system.selectors.Sound →
        selectors.Sound ∧ start.system.selectors.Grows selectors) :
      Deed given start { start with system := { start.system with selectors } }
  | store {heap : Heap} {statics : StaticQueue} {forward : Option Imp}
      (fits : start.heap.Fits given heap) :
      Deed given start { start with heap, system := { start.system with statics, forward } }
  | classes {classes : Classes} (change : start.classes.Change classes) :
      Deed given start (start.withClasses classes)
  | shutdown :
      Deed given start
        { heap := start.classes.cleared.heap
          system :=
            { start.system with
              selectors := start.system.selectors.clear
              registry := start.classes.cleared.registry
              statics := []
              forward := none }
          log := start.log }

/-- Whether the initializer is interned and the metaclass of a pair implements it. -/
def understandsInitializer (session : Session) (pair : PairId) : Bool :=
  match session.system.selectors.lookup session.system.options.initializerSelector with
  | .ok sel => (session.heap.lookup ⟨pair, .metaclass⟩ sel).isSome
  | .error _ => false

/-- What the metaclass of a pair implements the initializer with, and the selector of it. -/
def initializer? (session : Session) (pair : PairId) : Option (Sel × Imp) :=
  match session.system.selectors.lookup session.system.options.initializerSelector with
  | .ok sel => (session.heap.lookup ⟨pair, .metaclass⟩ sel).map (sel, ·)
  | .error _ => none

theorem isSome_initializer? (session : Session) (pair : PairId) :
    (session.initializer? pair).isSome = session.understandsInitializer pair := by
  unfold initializer? understandsInitializer
  split
  · exact Option.isSome_map
  · rfl

/-- A class's turn can come: it is linked, its turn has not come, and that of its superclass has. -/
structure Due (session : Session) (pair : PairId) : Prop where
  linked : (session.heap.pair pair).link ≠ none
  waiting : (session.heap.pair pair).initialized = false
  above : ∀ above, session.heap.superclass? ⟨pair, .plain⟩ = some above →
    session.heap.isInitialized above = true

/-- The session in which the turn of a class has come. -/
def begun (session : Session) (pair : PairId) : Session :=
  { session with
    heap := session.heap.markInitialized pair
    log :=
      if session.understandsInitializer pair then
        session.log.push (.initializing pair (session.heap.className ⟨pair, .plain⟩))
      else session.log }

inductive Step (start : Session) : Session → Prop
  | change {final : Session} (change : start.Change final) : Step start final
  | turn {pair : PairId} (due : start.Due pair) : Step start (start.begun pair)

/-- Steps without turns lead from one session to the other. -/
def Trail : Session → Session → Prop := Relation.ReflTransGen Change

/-- What actions do that are given some values leads from one session to the other. -/
def DeedsOf (given : Value → Prop) : Session → Session → Prop := Relation.ReflTransGen (Deed given)

/-- What actions do, whatever they are given. -/
abbrev Deeds : Session → Session → Prop := DeedsOf fun _ => True

def Path : Session → Session → Prop := Relation.ReflTransGen Step

/-- The sessions that steps lead to from a fresh system. -/
def Lived (options : Options) (session : Session) : Prop := (start options).Path session

variable {options : Options} {start middle final : Session}

theorem Deed.change {given : Value → Prop} (deed : start.Deed given final) :
    start.Change final := by
  cases deed with
  | note quiet => exact .note quiet
  | intern _ grows => exact .intern grows
  | store fits => exact .store fits.pairs
  | classes change => exact .classes change
  | shutdown => exact .shutdown

theorem DeedsOf.trail {given : Value → Prop} (deeds : start.DeedsOf given final) :
    start.Trail final :=
  Relation.ReflTransGen.mono (fun _ _ => Deed.change) _ _ deeds

theorem Trail.path (trail : start.Trail final) : start.Path final :=
  Relation.ReflTransGen.mono (fun _ _ => Step.change) _ _ trail

/-! ### What holds of a session after every step -/

structure Orderly (options : Options) (session : Session) : Prop where
  options_eq : session.system.options = options
  atRest : session.AtRest options.categoryConflicts
  settled : session.classes.Settled
  selectors : session.system.selectors.Sound
  begun : ∀ pair, (session.heap.pair pair).initialized = true →
    (session.heap.pair pair).link ≠ none

theorem orderly_start (options : Options) : (Session.start options).Orderly options where
  options_eq := rfl
  atRest := atRest_start options
  settled := Classes.settled_empty _ _
  selectors := SelectorTable.sound_withCapacity _ _
  begun _ hinitialized := nomatch hinitialized

theorem Change.carries (change : start.Change final) : start.classes.Carries final.classes := by
  cases change with
  | note quiet => exact Classes.carries_report quiet
  | intern => exact .refl
  | store pairs =>
    refine Classes.carries_of_seats (Heap.idles_of_pairs pairs) rfl ?_ (.refl _)
    intro pair _ kind
    exact congrArg (fun pairOf => (pairOf pair).tables.get kind) (Heap.pair_of_pairs pairs)
  | classes change => exact change.carries
  | release held =>
    obtain ⟨hidles, htables⟩ := start.heap.release_spec held
    refine Classes.carries_of_seats hidles rfl ?_ (.refl _)
    intro pair _ kind
    exact congrArg (Sided.get · kind) (htables pair)
  | shutdown => exact Classes.carries_cleared

theorem Change.atRest {policy : CategoryConflictPolicy} (change : start.Change final)
    (atRest : start.AtRest policy) : final.AtRest policy := by
  cases change with
  | note => exact atRest.transfer ⟨.refl, rfl⟩
  | intern => exact atRest.transfer ⟨.refl, rfl⟩
  | store pairs => exact atRest.transfer ⟨.of_pairs pairs, rfl⟩
  | classes change => exact change.atRest atRest
  | release held => exact atRest.transfer ⟨start.heap.sameTables_release held, rfl⟩
  | shutdown =>
    have hpolicy : start.system.registry.policy = policy := atRest.policy_eq
    subst hpolicy
    exact .empty _ _ _

theorem Trail.atRest {policy : CategoryConflictPolicy} (trail : start.Trail final)
    (atRest : start.AtRest policy) : final.AtRest policy := by
  induction trail with
  | refl => exact atRest
  | tail _ change ih => exact change.atRest ih

theorem Change.selectors (change : start.Change final) (sound : start.system.selectors.Sound) :
    final.system.selectors.Sound := by
  cases change with
  | intern grows => exact (grows sound).1
  | shutdown => exact sound.clear
  | _ => exact sound

theorem Change.options_eq (change : start.Change final) :
    final.system.options = start.system.options := by
  cases change <;> rfl

theorem Change.orderly (change : start.Change final) (orderly : start.Orderly options) :
    final.Orderly options := by
  obtain ⟨hsettled, advances⟩ := change.carries orderly.settled
  refine ⟨change.options_eq.trans orderly.options_eq, change.atRest orderly.atRest, hsettled,
    change.selectors orderly.selectors, ?_⟩
  intro pair hinitialized
  rw [show (final.heap.pair pair).initialized = (start.heap.pair pair).initialized from
    advances.dozes.initialized pair] at hinitialized
  exact advances.dozes.linked (orderly.begun pair hinitialized)

theorem Due.initialized_begun {pair : PairId} (due : start.Due pair) (other : PairId) :
    ((start.begun pair).heap.pair other).initialized = true ↔
      other = pair ∨ (start.heap.pair other).initialized = true := by
  obtain ⟨link, hlink⟩ := Option.ne_none_iff_exists'.mp due.linked
  exact Heap.initialized_markInitialized (Heap.hasPair_of_link hlink) other

theorem Due.initialized_self {pair : PairId} (due : start.Due pair) :
    ((start.begun pair).heap.pair pair).initialized = true :=
  (due.initialized_begun pair).mpr (.inl rfl)

theorem Due.orderly {pair : PairId} (due : start.Due pair) (orderly : start.Orderly options) :
    (start.begun pair).Orderly options := by
  have hlink := fun other => start.heap.link_markInitialized pair other
  obtain ⟨order, lineage⟩ := orderly.settled
  refine ⟨orderly.options_eq, ?_, ⟨order, ?_⟩, orderly.selectors, ?_⟩
  · exact orderly.atRest.transfer ⟨start.heap.sameTables_markInitialized pair, rfl⟩
  · refine lineage.transfer (Heap.ages_markInitialized pair) hlink rfl ?_
    intro other _ kind
    exact start.heap.table?_markInitialized pair ⟨other, kind⟩
  · intro other hinitialized
    rw [begun, hlink]
    rcases (due.initialized_begun other).mp hinitialized with rfl | hbefore
    · exact due.linked
    · exact orderly.begun other hbefore

/-! ### What steps leave as it was -/

/-- The class of a pair was removed, or a name still has the selector that it had. -/
def Faithful (session : Session) (name : String) (sel : Sel) (pair : PairId) : Prop :=
  ¬ session.system.registry.Houses pair ∨ session.system.selectors.lookup name = .ok sel

/-- What was reached stays reached: in the heap, in the registry and in the log. -/
structure Follows (start final : Session) : Prop where
  ages : start.heap.Ages final.heap
  initialized : ∀ pair, (start.heap.pair pair).initialized = true →
    (final.heap.pair pair).initialized = true
  gone : ∀ pair, start.heap.HasPair pair → ¬ start.system.registry.Houses pair →
    ¬ final.system.registry.Houses pair
  faithful : ∀ name sel pair, start.heap.HasPair pair → start.Faithful name sel pair →
    final.Faithful name sel pair
  log : ∃ events : Array Event, final.log = start.log ++ events

theorem Follows.refl : start.Follows start :=
  ⟨.refl, fun _ h => h, fun _ _ h => h, fun _ _ _ _ h => h, #[], Array.append_empty.symm⟩

theorem Follows.trans (first : start.Follows middle) (second : middle.Follows final) :
    start.Follows final where
  ages := first.ages.trans second.ages
  initialized pair h := second.initialized pair (first.initialized pair h)
  gone pair hpair h := second.gone pair (first.ages.hasPair pair hpair) (first.gone pair hpair h)
  faithful name sel pair hpair h :=
    second.faithful name sel pair (first.ages.hasPair pair hpair)
      (first.faithful name sel pair hpair h)
  log := by
    obtain ⟨events, hevents⟩ := first.log
    obtain ⟨others, hothers⟩ := second.log
    exact ⟨events ++ others, by rw [hothers, hevents, Array.append_assoc]⟩

theorem Follows.getElem?_log (follows : start.Follows final) {index : Nat}
    (hindex : index < start.log.size) : final.log[index]? = start.log[index]? := by
  obtain ⟨events, hevents⟩ := follows.log
  rw [hevents, Array.getElem?_append_left hindex]

theorem Follows.isInitialized (follows : start.Follows final) {cls : ClassRef}
    (hinitialized : start.heap.isInitialized cls = true) :
    final.heap.isInitialized cls = true := by
  obtain ⟨pair, kind⟩ := cls
  cases kind with
  | plain => exact follows.initialized pair hinitialized
  | metaclass => cases hinitialized

/-- A class that was removed implements nothing. -/
theorem Faithful.initializer?_eq {sel : Sel} {pair : PairId}
    (faithful : start.Faithful options.initializerSelector sel pair)
    (orderly : start.Orderly options) :
    start.initializer? pair = (start.heap.lookup ⟨pair, .metaclass⟩ sel).map (sel, ·) := by
  rw [initializer?, orderly.options_eq]
  rcases faithful with hgone | hlookup
  · obtain ⟨order, lineage⟩ := orderly.settled
    have htable : start.heap.table? ⟨pair, .metaclass⟩ = none :=
      lineage.withdrawn pair hgone .metaclass
    have hnone : ∀ sel, start.heap.lookup ⟨pair, .metaclass⟩ sel = none := by
      intro sel
      rw [Heap.lookup, htable, Option.bind_none]
    simp only [hnone, Option.map_none]
    split <;> rfl
  · rw [hlookup]

/-- Interning keeps all selectors, and a shutdown that forgets them removes all classes. -/
theorem Change.lookup_eq {name : String} {sel : Sel} (change : start.Change final)
    (sound : start.system.selectors.Sound)
    (hlookup : start.system.selectors.lookup name = .ok sel) :
    (∀ pair, ¬ final.system.registry.Houses pair) ∨
      final.system.selectors.lookup name = .ok sel := by
  cases change with
  | intern grows =>
    obtain ⟨hsound, hgrows⟩ := grows sound
    rw [sound.lookup_eq_ok_iff] at hlookup
    exact .inr ((hsound.lookup_eq_ok_iff name sel).mpr (hgrows sel name hlookup))
  | shutdown => exact .inl (Registry.not_houses_empty _)
  | _ => exact .inr hlookup

theorem Change.follows (change : start.Change final) (orderly : start.Orderly options) :
    start.Follows final := by
  obtain ⟨-, advances⟩ := change.carries orderly.settled
  obtain ⟨events, hevents, -⟩ := advances.quietly
  refine ⟨advances.dozes.toAges, ?_, advances.gone, ?_, events, hevents⟩
  · intro pair h
    exact (advances.dozes.initialized pair).trans h
  · rintro name sel pair hpair (hgone | hlookup)
    · exact .inl (advances.gone pair hpair hgone)
    · exact (change.lookup_eq orderly.selectors hlookup).imp_left fun h => h pair

theorem Due.follows {pair : PairId} (due : start.Due pair) : start.Follows (start.begun pair) where
  ages := Heap.ages_markInitialized pair
  initialized other h := (due.initialized_begun other).mpr (.inr h)
  gone _ _ h := h
  faithful _ _ _ _ h := h
  log := by
    rw [begun]
    split
    · exact ⟨_, Array.push_eq_append⟩
    · exact ⟨#[], Array.append_empty.symm⟩

theorem Step.orderly (step : start.Step final) (orderly : start.Orderly options) :
    final.Orderly options := by
  cases step with
  | change change => exact change.orderly orderly
  | turn due => exact due.orderly orderly

theorem Step.follows (step : start.Step final) (orderly : start.Orderly options) :
    start.Follows final := by
  cases step with
  | change change => exact change.follows orderly
  | turn due => exact due.follows

theorem Path.spec (path : start.Path final) (orderly : start.Orderly options) :
    final.Orderly options ∧ start.Follows final := by
  induction path with
  | refl => exact ⟨orderly, .refl⟩
  | tail _ step ih =>
    obtain ⟨hmiddle, follows⟩ := ih
    exact ⟨step.orderly hmiddle, follows.trans (step.follows hmiddle)⟩

theorem Path.orderly (path : start.Path final) (orderly : start.Orderly options) :
    final.Orderly options := (path.spec orderly).1

theorem Path.follows (path : start.Path final) (orderly : start.Orderly options) :
    start.Follows final := (path.spec orderly).2

theorem Lived.orderly {session : Session} (lived : session.Lived options) :
    session.Orderly options := Path.orderly lived (orderly_start options)

/-- Without turns, nobody's turn comes. -/
theorem Trail.dozes (trail : start.Trail final) (orderly : start.Orderly options) :
    start.heap.Dozes final.heap := by
  induction trail with
  | refl => exact .refl
  | tail before change ih =>
    have hmiddle := Path.orderly (Trail.path before) orderly
    exact ih.trans (change.carries hmiddle.settled).2.dozes

/-! ### Turns on a path -/

/-- A class that became initialized had its turn. -/
theorem Path.exists_turn {pair : PairId} (path : start.Path final)
    (orderly : start.Orderly options) (hbefore : (start.heap.pair pair).initialized = false)
    (hafter : (final.heap.pair pair).initialized = true) :
    ∃ before, start.Path before ∧ before.Due pair ∧ (before.begun pair).Path final := by
  induction path with
  | refl => exact absurd hafter (by rw [hbefore]; exact Bool.false_ne_true)
  | @tail middle final path step ih =>
    by_cases hmiddle : (middle.heap.pair pair).initialized = true
    · obtain ⟨before, hpath, due, hrest⟩ := ih hmiddle
      exact ⟨before, hpath, due, hrest.tail step⟩
    · cases step with
      | change change =>
        have advances := (change.carries (Path.orderly path orderly).settled).2
        exact absurd ((advances.dozes.initialized pair).symm.trans hafter) hmiddle
      | turn due =>
        obtain rfl := ((due.initialized_begun pair).mp hafter).resolve_right hmiddle
        exact ⟨middle, path, due, .refl⟩

/-- What is announced in a log was announced in a turn. -/
theorem Path.exists_turn_of_log {pair : PairId} {name : String} {index : Nat}
    (path : start.Path final) (orderly : start.Orderly options) (hold : start.log.size ≤ index)
    (hevent : final.log[index]? = some (.initializing pair name)) :
    ∃ before, start.Path before ∧ before.Due pair ∧ before.understandsInitializer pair = true ∧
      before.log.size = index ∧ (before.begun pair).Path final := by
  induction path with
  | refl =>
    rw [Array.getElem?_eq_none hold] at hevent
    cases hevent
  | @tail middle final path step ih =>
    by_cases hindex : index < middle.log.size
    · rw [(step.follows (Path.orderly path orderly)).getElem?_log hindex] at hevent
      obtain ⟨before, hpath, due, hunderstands, hsize, hrest⟩ := ih hevent
      exact ⟨before, hpath, due, hunderstands, hsize, hrest.tail step⟩
    · cases step with
      | change change =>
        obtain ⟨events, hevents, hquiet⟩ :=
          (change.carries (Path.orderly path orderly).settled).2.quietly
        replace hevents : final.log = middle.log ++ events := hevents
        rw [hevents, Array.getElem?_append_right (Nat.le_of_not_lt hindex)] at hevent
        have hnone := hquiet _ (Array.mem_of_getElem? hevent)
        cases hnone
      | @turn other due =>
        rw [begun] at hevent
        dsimp only at hevent
        split at hevent
        · next hunderstands =>
          rw [Array.getElem?_push] at hevent
          split at hevent
          · next hsize =>
            cases hevent
            exact ⟨middle, path, due, hunderstands, hsize.symm, .refl⟩
          · exact absurd (Array.getElem?_eq_some_iff.mp hevent).1 hindex
        · exact absurd (Array.getElem?_eq_some_iff.mp hevent).1 hindex

/-- Whoever was announced has had its turn. -/
theorem Lived.initialized_of_initializing {pair : PairId} {name : String} {index : Nat}
    (lived : final.Lived options) (hevent : final.log[index]? = some (.initializing pair name)) :
    (final.heap.pair pair).initialized = true := by
  have hstart := orderly_start options
  obtain ⟨before, hpath, due, -, -, hrest⟩ :=
    Path.exists_turn_of_log lived hstart (Nat.zero_le index) hevent
  have hbegun := due.orderly (hpath.orderly hstart)
  exact (hrest.follows hbegun).initialized pair due.initialized_self

/-- Whoever has had its turn is announced no more. -/
theorem Path.not_initializing {pair : PairId} {name : String} {index : Nat}
    (path : start.Path final) (orderly : start.Orderly options)
    (hdone : (start.heap.pair pair).initialized = true) (hlate : start.log.size ≤ index) :
    final.log[index]? ≠ some (.initializing pair name) := by
  intro hevent
  obtain ⟨before, hpath, due, -⟩ := path.exists_turn_of_log orderly hlate hevent
  have hbefore := (hpath.follows orderly).initialized pair hdone
  rw [due.waiting] at hbefore
  cases hbefore

/-- A class is announced in its turn, if at all: before that it was not initialized yet, and ever
after it is. -/
theorem Due.initializing_iff {pair : PairId} {name : String} {index : Nat} (due : start.Due pair)
    (lived : start.Lived options) (path : (start.begun pair).Path final) :
    final.log[index]? = some (.initializing pair name) ↔
      start.understandsInitializer pair = true ∧ index = start.log.size ∧
        name = start.heap.className ⟨pair, .plain⟩ := by
  have hbegun : (start.begun pair).Orderly options := due.orderly lived.orderly
  have follows := path.follows hbegun
  by_cases hold : index < start.log.size
  · rw [(due.follows.trans follows).getElem?_log hold]
    refine iff_of_false ?_ fun h => Nat.ne_of_lt hold h.2.1
    intro hevent
    have hwaiting := due.waiting
    rw [lived.initialized_of_initializing hevent] at hwaiting
    cases hwaiting
  · by_cases hlate : (start.begun pair).log.size ≤ index
    · refine iff_of_false (path.not_initializing hbegun due.initialized_self hlate) ?_
      rintro ⟨hunderstands, rfl, -⟩
      rw [begun, if_pos hunderstands, Array.size_push] at hlate
      exact Nat.not_succ_le_self _ hlate
    · rw [follows.getElem?_log (Nat.lt_of_not_le hlate)]
      rw [begun] at hlate ⊢
      dsimp only at hlate ⊢
      split at hlate
      · next hunderstands =>
        rw [Array.size_push] at hlate
        obtain rfl : index = start.log.size := by omega
        rw [if_pos hunderstands, Array.getElem?_push_size, Option.some_inj,
          Event.initializing.injEq, and_iff_right rfl, and_iff_right hunderstands,
          and_iff_right rfl]
        exact eq_comm
      · exact absurd (Nat.le_of_not_lt hold) hlate

end Session

end LateBinding
