import LateBinding.Proofs.Execution.Binding
import LateBinding.Proofs.Execution.Stepwise
import LateBinding.Proofs.Registry.Breadth
import LateBinding.Proofs.Registry.TopDown

/-!
# The order in which classes link

Registering a class and loading a unit reply with the classes that linked in the order in which they
did: each once, after its superclass. A class that is registered links first of all, then those that
wait for it, in the order in which they were registered, then those that wait for them.
-/

namespace LateBinding

open Registry

/-! ### Whose turn it is -/

theorem Classes.Change.inTurn {policy : CategoryConflictPolicy} {start final : Classes}
    (change : start.Change final) (atRest : start.AtRest policy)
    (inTurn : start.registry.InTurn) : final.registry.InTurn := by
  cases change with
  | registers _ registers => exact registers.inTurn atRest.consistent inTurn
  | applies applies =>
    cases applies with
    | waits => exact inTurn
    | merges _ alters => exact alters.inTurn inTurn
  | adds adds =>
    cases adds with
    | unknown => exact inTurn
    | defined => exact inTurn
    | adds _ alters => exact alters.inTurn inTurn
  | replaces replaces =>
    cases replaces with
    | unknown => exact inTurn
    | replaces alters => exact alters.inTurn inTurn
  | removes removal => exact removal.inTurn inTurn

namespace Session

variable {options : Options} {policy : CategoryConflictPolicy} {session start final : Session}

theorem inTurn_empty : (Registry.empty policy).InTurn := by
  intro name
  rw [waitersOf, Registry.empty]
  simp

theorem Deed.inTurn {given : Value → Prop} (deed : start.Deed given final)
    (steady : start.Steady policy) (inTurn : start.system.registry.InTurn) :
    final.system.registry.InTurn := by
  cases deed with
  | note => exact inTurn
  | intern => exact inTurn
  | store => exact inTurn
  | classes change => exact change.inTurn steady.atRest inTurn
  | shutdown => exact inTurn_empty

theorem Deeds.inTurn (deeds : start.Deeds final) (steady : start.Steady policy)
    (inTurn : start.system.registry.InTurn) : final.system.registry.InTurn := by
  induction deeds with
  | refl => exact inTurn
  | tail before deed ih => exact deed.inTurn (Deeds.spec before steady).1 ih

theorem Move.inTurn (move : start.Move final) (steady : start.Steady policy)
    (inTurn : start.system.registry.InTurn) : final.system.registry.InTurn := by
  have atRest : start.AtRest policy := steady.atRest
  cases move with
  | perform run =>
    exact Deeds.inTurn ((Act.roams_perform (fun _ _ => trivial) start atRest).deeds_of_ok run)
      steady inTurn
  | register run =>
    exact Deeds.inTurn ((Act.roams_register _ start atRest).deeds_of_ok run) steady inTurn
  | load run => exact Deeds.inTurn ((Act.roams_load _ _ start atRest).deeds_of_ok run) steady inTurn
  | _ => exact inTurn

theorem Reachable.inTurn (reachable : session.Reachable options) :
    session.system.registry.InTurn := by
  induction reachable with
  | start => exact inTurn_empty
  | move before move ih => exact move.inTurn before.steady ih

/-! ### What links in one call -/

/-- The classes of a list link and no others do, each after its superclass if that links too. Their
pairs are those of another list. -/
structure LinksInOrder (start final : Session) (order : List ClassId) (pairs : List PairId) :
    Prop where
  pairs_eq : order.map (fun id => (final.system.registry.record? id).map (·.pair)) =
    pairs.map some
  once : order.Nodup ∧ pairs.Nodup
  mem_iff : ∀ id, id ∈ order ↔
    final.system.registry.IsLinked id ∧ ¬ start.system.registry.IsLinked id
  superclassesFirst : final.system.registry.SuperclassesFirst order

theorem Knows.map_eq {β : Type} {ids : List ClassId} (known : session.Knows ids)
    (ofRecord : Record → β) (ofPair : PairId → β)
    (hsame : ∀ id record, session.system.registry.record? id = some record →
      ofRecord record = ofPair record.pair) :
    ids.map (fun id => (session.system.registry.record? id).map ofRecord) =
      ((session.pairsOf ids).map ofPair).map some := by
  induction ids with
  | nil => rfl
  | cons id rest ih =>
    obtain ⟨record, hrecord⟩ := known id List.mem_cons_self
    have hrest := ih fun other hother => known other (List.mem_cons_of_mem _ hother)
    have hpairs : session.pairsOf (id :: rest) = record.pair :: session.pairsOf rest := by
      simp [pairsOf, hrecord]
    rw [List.map_cons, hrest, hrecord, hpairs, List.map_cons, List.map_cons, Option.map_some,
      hsame id record hrecord]

theorem Knows.length_pairsOf {ids : List ClassId} (known : session.Knows ids) :
    (session.pairsOf ids).length = ids.length := by
  have hmap := congrArg List.length (known.map_eq (·.pair) id fun _ _ _ => rfl)
  simpa using hmap.symm

section

variable {order : List ClassId}
  (topDown : start.system.registry.LinksTopDown final.system.registry order)

include topDown

theorem knows_of_topDown : final.Knows order := by
  intro id hid
  obtain ⟨record, hrecord, -⟩ := ((topDown.anew.mem_iff id).mp hid).1
  exact ⟨record, hrecord⟩

theorem linksInOrder_of_topDown (atRest : final.AtRest policy) :
    start.LinksInOrder final order (final.pairsOf order) where
  pairs_eq := by
    have hmap := (knows_of_topDown topDown).map_eq (·.pair) id fun _ _ _ => rfl
    rwa [List.map_id] at hmap
  once := by
    refine ⟨topDown.nodup, topDown.nodup.filterMap ?_⟩
    intro id other pair hid hother
    obtain ⟨record, hrecord, rfl⟩ := Option.map_eq_some_iff.mp hid
    obtain ⟨another, hanother, hpair⟩ := Option.map_eq_some_iff.mp hother
    exact atRest.upToDate.housed.id_unique hrecord hanother hpair.symm
  mem_iff := topDown.anew.mem_iff
  superclassesFirst := atRest.hierarchy.superclassesFirst topDown.sorted

end

/-- The class that is registered links first, then whoever waited for it, then whoever waited for
them, and so on. Whoever has the same distance from it stands in the order of those it waited for. -/
def LevelByLevel (start : Session) (name : String) (order : List ClassId) : Prop :=
  let level := generation start.system.registry.waitersFor (start.system.registry.waitersOf name)
  ∃ depth, level depth = [] ∧
    order = start.system.registry.nextId :: (List.range depth).flatMap level

end Session

namespace Act

variable {policy : CategoryConflictPolicy} {start final : Session}

theorem enterClass_linksTopDown {spec : ClassSpec} {answer : PairId × List ClassId}
    (atRest : start.AtRest policy) (hfree : start.system.registry.idOf? spec.name = none)
    (hrun : enterClass spec start = .ok answer final) :
    start.system.registry.LinksTopDown final.system.registry answer.2 := by
  obtain ⟨defined, definition, -, hregistry, -, -, registers⟩ :=
    (enterClass_registers spec atRest hfree).of_ok hrun
  rw [← hregistry]
  exact registers.linksTopDown

/-- What entering one class leads to, entering several does, one after the other. -/
theorem enterClasses_reaches (reaches : Session → List ClassId → Session → Prop)
    (hrefl : ∀ session, reaches session [] session)
    (htrans : ∀ first middle last linked others, middle.AtRest policy →
      reaches first linked middle → reaches middle others last → reaches first (linked ++ others) last)
    (hone : ∀ spec first answer last, first.AtRest policy →
      first.system.registry.idOf? spec.name = none → enterClass spec first = .ok answer last →
        reaches first answer.2 last)
    {specs : List ClassSpec} {linked : List ClassId} (atRest : start.AtRest policy)
    (hnodup : (specs.map (·.name)).Nodup)
    (hfree : ∀ spec ∈ specs, start.system.registry.idOf? spec.name = none)
    (hrun : enterClasses specs start = .ok linked final) :
    final.AtRest policy ∧ reaches start linked final := by
  induction specs generalizing start linked with
  | nil =>
    cases hrun
    exact ⟨atRest, hrefl _⟩
  | cons spec rest ih =>
    rw [List.map_cons, List.nodup_cons] at hnodup
    have hhere := hfree spec List.mem_cons_self
    rw [enterClasses_cons] at hrun
    obtain ⟨answer, middle, hentered, hrest⟩ := EStateM.bind_eq_ok_iff.mp hrun
    rw [map_eq_pure_bind] at hrest
    obtain ⟨others, after, hothers, hpure⟩ := EStateM.bind_eq_ok_iff.mp hrest
    cases hpure
    obtain ⟨hmiddle, hnames⟩ := (enterClass_leads spec atRest hhere).of_ok hentered
    obtain ⟨hfinal, further⟩ :=
      ih hmiddle hnodup.2 (free_of_enterClass hnodup.1 hfree hnames) hothers
    have first := hone spec start answer middle atRest hhere hentered
    exact ⟨hfinal, htrans _ _ _ _ _ hmiddle first further⟩

theorem enterClasses_linksTopDown {specs : List ClassSpec} {linked : List ClassId}
    (atRest : start.AtRest policy) (hnodup : (specs.map (·.name)).Nodup)
    (hfree : ∀ spec ∈ specs, start.system.registry.idOf? spec.name = none)
    (hrun : enterClasses specs start = .ok linked final) :
    final.AtRest policy ∧ start.system.registry.LinksTopDown final.system.registry linked := by
  refine enterClasses_reaches
    (fun first linked last => first.system.registry.LinksTopDown last.system.registry linked)
    (fun _ => .of_stays (fun _ => Iff.rfl) fun _ _ linkedTo => linkedTo) ?_ ?_ atRest hnodup hfree hrun
  · exact fun _ _ _ _ _ hmiddle first further => first.trans hmiddle.hierarchy further
  · exact fun _ _ _ _ hfirst hhere hentered => enterClass_linksTopDown hfirst hhere hentered

theorem applyCategory_linksTopDown {before : Registry} {linked : List ClassId}
    (spec : CategorySpec) : (applyCategory spec).Keeps fun session =>
      session.AtRest policy ∧ before.LinksTopDown session.system.registry linked := by
  intro session h
  obtain ⟨atRest, topDown⟩ := h
  refine (keeps_applyCategory spec session atRest).and ?_
  rw [applyCategory, leads_bind]
  refine ((keeps_defineMethods keeps_atRest_of_same spec.methods) session ⟨atRest, rfl⟩).mono ?_
  intro methods defined h
  obtain ⟨hdefined, hregistry⟩ := h
  rw [leads_onClasses]
  refine (Linking.applyCategory_leads hdefined.consistent (.inl trivial)).mono ?_
  intro status classes applies
  have hsame : session.system.registry.LinksTopDown classes.registry [] := by
    rw [← hregistry]
    exact applies.linksTopDown
  have hboth := topDown.trans atRest.hierarchy hsame
  rwa [List.append_nil] at hboth

/-- Categories do not change who is linked, nor below whom. -/
theorem applied_linksTopDown {specs : List ClassSpec} {categories : List CategorySpec}
    {linked : List ClassId} {statuses : List CategoryStatus} {entered : Session}
    (atRest : start.AtRest policy) (hnodup : (specs.map (·.name)).Nodup)
    (hfree : ∀ spec ∈ specs, start.system.registry.idOf? spec.name = none)
    (hentered : enterClasses specs start = .ok linked entered)
    (happlied : categories.mapM applyCategory entered = .ok statuses final) :
    start.system.registry.LinksTopDown final.system.registry linked := by
  obtain ⟨henteredAtRest, topDown⟩ := enterClasses_linksTopDown atRest hnodup hfree hentered
  exact ((Keeps.mapM applyCategory_linksTopDown entered ⟨henteredAtRest, topDown⟩).of_ok happlied).2

/-- The classes of a unit are entered, then its categories are applied. What is done besides has
nothing to do with the registry. -/
theorem load_parts {unit : LoadUnit} {imps : String → Option Imp} {report : LoadReport}
    {pairs : List PairId} (atRest : start.AtRest policy)
    (hrun : load unit imps start = .ok (.ok (report, pairs)) final) :
    ∃ classes specs linked statuses interned entered applied,
      unit.resolve imps start.system.registry = .ok (classes, specs) ∧
      interned.AtRest policy ∧ interned.system.registry = start.system.registry ∧
      enterClasses classes interned = .ok linked entered ∧
      specs.mapM applyCategory entered = .ok statuses applied ∧
      final.system.registry = applied.system.registry ∧ pairs = final.pairsOf linked ∧
      report.linked = pairs.map fun pair => (final.heap.pair pair).name := by
  rw [load, bind_of_ok (run_get start)] at hrun
  cases hresolve : unit.resolve imps start.system.registry with
  | error error =>
    rw [hresolve] at hrun
    cases hrun
  | ok declared =>
    rw [hresolve] at hrun
    dsimp only at hrun
    rw [execute_eq] at hrun
    obtain ⟨answer, executed, hexecuted, hreply⟩ := EStateM.bind_eq_ok_iff.mp hrun
    cases hreply
    obtain ⟨_, interned, hinterned, hrest⟩ := EStateM.bind_eq_ok_iff.mp hexecuted
    obtain ⟨linked, entered, hentered, hrest⟩ := EStateM.bind_eq_ok_iff.mp hrest
    obtain ⟨statuses, applied, happlied, hrest⟩ := EStateM.bind_eq_ok_iff.mp hrest
    obtain ⟨_, finished, hfinished, hrest⟩ := EStateM.bind_eq_ok_iff.mp hrest
    obtain ⟨statics, made, hmade, hlast⟩ := EStateM.bind_eq_ok_iff.mp hrest
    cases hlast
    cases (run_finishLinking applied linked).symm.trans hfinished
    obtain ⟨hinternedAtRest, hregistry⟩ :=
      (keeps_selectors unit start ⟨atRest, rfl⟩).of_ok hinterned
    have hstatics := (Keeps.mapM (keeps_createStatics (keeps_registry_of_same
      (applied.bound (applied.pairsOf linked)).system.registry)) _ rfl).of_ok hmade
    rw [applied.registry_bound] at hstatics
    refine ⟨declared.1, declared.2, linked, statuses, interned, entered, applied, rfl,
      hinternedAtRest, hregistry, hentered, happlied, hstatics, ?_, rfl⟩
    rw [Session.pairsOf, ← hstatics]
    rfl

theorem load_linksTopDown {unit : LoadUnit} {imps : String → Option Imp} {report : LoadReport}
    {pairs : List PairId} (atRest : start.AtRest policy)
    (hrun : load unit imps start = .ok (.ok (report, pairs)) final) :
    ∃ order, start.system.registry.LinksTopDown final.system.registry order ∧
      pairs = final.pairsOf order ∧
      report.linked = pairs.map fun pair => (final.heap.pair pair).name := by
  obtain ⟨classes, specs, linked, statuses, interned, entered, applied, hresolve, hinterned,
    hregistry, hentered, happlied, hfinal, hpairs, hlinked⟩ := load_parts atRest hrun
  obtain ⟨hnodup, hfree⟩ := LoadUnit.resolve_names hresolve
  rw [← hregistry] at hfree
  have topDown := applied_linksTopDown hinterned hnodup hfree hentered happlied
  rw [hregistry, ← hfinal] at topDown
  exact ⟨linked, topDown, hpairs, hlinked⟩

theorem register_linksTopDown {spec : ClassSpec} {made : PairId} {pairs : List PairId}
    (atRest : start.AtRest policy) (hrun : register spec start = .ok (.ok (made, pairs)) final) :
    ∃ order, start.system.registry.LinksTopDown final.system.registry order ∧
      pairs = final.pairsOf order ∧ (order = [] ∨ start.LevelByLevel spec.name order) ∧
      (final.system.registry.record? start.system.registry.nextId).map (·.pair) = some made := by
  obtain ⟨hreply, -⟩ | ⟨answer, entered, hfree, hentered, hreply, rfl⟩ := register_cases hrun
  · cases hreply
  cases hreply
  obtain ⟨defined, definition, hdefined, hregistry, hname, hpair, registers⟩ :=
    (enterClass_registers spec atRest hfree).of_ok hentered
  have hnone : defined.classes.registry.idOf? definition.name = none := by
    rw [hname, ← hfree, ← hregistry]
    rfl
  rw [entered.registry_bound]
  refine ⟨answer.2, hregistry ▸ registers.linksTopDown, ?_, ?_, ?_⟩
  · rw [Session.pairsOf, Session.pairsOf, entered.registry_bound]
  · refine (registers.breadth hdefined.consistent hnone).imp_right ?_
    intro h
    obtain ⟨others, hothers, breadth⟩ := h
    obtain ⟨depth, horder, hlast⟩ := breadth.levels
    rw [hname, show defined.classes.registry = start.system.registry from hregistry] at horder hlast
    rw [hothers, horder, show defined.classes.registry = start.system.registry from hregistry]
    exact ⟨depth, hlast, rfl⟩
  · have hcontent := registers.content?_eq defined.classes.registry.nextId
    rw [if_pos rfl] at hcontent
    obtain ⟨record, hrecord, hsame⟩ := Option.map_eq_some_iff.mp hcontent
    rw [show start.system.registry = defined.classes.registry from hregistry.symm]
    rw [show entered.system.registry.record? _ = some record from hrecord, hpair]
    exact congrArg some (congrArg Content.pair hsame)

end Act

namespace Session

variable {options : Options} {session : Session}

/-- Whenever classes are registered or loaded, those that link are reported once each, after their
superclass, and no others are. One class that is registered is followed by those that wait for it,
level by level; whoever waits for the same class stands in the order of their registration, for a
new class comes after all that are registered. -/
theorem Reachable.links_in_order (reachable : session.Reachable options) :
    session.system.registry.InTurn ∧
    (∀ id record, session.system.registry.record? id = some record →
      id.index < session.system.registry.nextId.index) ∧
    (∀ spec made pairs final, Act.register spec session = .ok (.ok (made, pairs)) final →
      (final.system.registry.record? session.system.registry.nextId).map (·.pair) = some made ∧
      ∃ order, session.LinksInOrder final order pairs ∧
        (order = [] ∨ session.LevelByLevel spec.name order)) ∧
    (∀ unit imps report pairs final, Act.load unit imps session = .ok (.ok (report, pairs)) final →
      ∃ order, session.LinksInOrder final order pairs ∧
        order.map (fun id => (final.system.registry.record? id).map (·.name)) =
          report.linked.map some) := by
  have atRest := reachable.atRest
  refine ⟨reachable.inTurn, fun _ _ => Registry.index_lt_of_record? _, ?_, ?_⟩
  · intro spec made pairs final hrun
    obtain ⟨order, topDown, rfl, hlevels, hmade⟩ := Act.register_linksTopDown atRest hrun
    have hfinal := (Act.keeps_register spec session atRest).of_ok hrun
    exact ⟨hmade, order, linksInOrder_of_topDown topDown hfinal, hlevels⟩
  · intro unit imps report pairs final hrun
    obtain ⟨order, topDown, rfl, hlinked⟩ := Act.load_linksTopDown atRest hrun
    have hfinal := (Act.keeps_load unit imps session atRest).of_ok hrun
    refine ⟨order, linksInOrder_of_topDown topDown hfinal, ?_⟩
    rw [hlinked]
    exact (knows_of_topDown topDown).map_eq (·.name) (fun pair => (final.heap.pair pair).name)
      fun id record hrecord => (hfinal.upToDate.housed.pairName id record hrecord).symm

def budSample : ClassSpec := { leafSample with name := "Bud", superclass := some "Leaf" }

def twigSample : ClassSpec := { leafSample with name := "Twig" }

/-- The bud waits for the leaf, the leaf and the twig wait for the root. -/
theorem links_in_order_by_level :
    let session := (((start {}).afterRegister leafSample).afterRegister budSample).afterRegister
      twigSample
    session.Reachable {} ∧
    (∃ final order, Act.register rootSample session =
        .ok (.ok (⟨3⟩, [⟨3⟩, ⟨0⟩, ⟨2⟩, ⟨1⟩])) final ∧
      session.LinksInOrder final order [⟨3⟩, ⟨0⟩, ⟨2⟩, ⟨1⟩] ∧ session.LevelByLevel "Root" order) ∧
    (∃ report final order, Act.load upperUnit (fun _ => some ⟨5⟩) session =
        .ok (.ok (report, [⟨3⟩, ⟨0⟩, ⟨2⟩, ⟨1⟩])) final ∧
      session.LinksInOrder final order [⟨3⟩, ⟨0⟩, ⟨2⟩, ⟨1⟩] ∧
      report.linked = ["Root", "Leaf", "Twig", "Bud"]) := by
  intro session
  have reachable : session.Reachable {} :=
    ((Reachable.start.afterRegister leafSample).afterRegister budSample).afterRegister twigSample
  obtain ⟨-, -, hregister, hload⟩ := reachable.links_in_order
  refine ⟨reachable, ?_, ?_⟩
  · have hreply : ((Act.register rootSample).run' session).bind Except.toOption =
        some (⟨3⟩, [⟨3⟩, ⟨0⟩, ⟨2⟩, ⟨1⟩]) := by decide +kernel
    obtain ⟨final, hrun⟩ := exists_run_of_value hreply
    obtain ⟨-, order, inOrder, hempty | hlevels⟩ := hregister _ _ _ final hrun
    · subst hempty
      cases inOrder.pairs_eq
    · exact ⟨final, order, hrun, inOrder, hlevels⟩
  · have hreply : (((Act.load upperUnit fun _ => some ⟨5⟩).run' session).bind
        Except.toOption).map (fun answer => (answer.1.linked, answer.2)) =
          some (["Root", "Leaf", "Twig", "Bud"], [⟨3⟩, ⟨0⟩, ⟨2⟩, ⟨1⟩]) := by decide +kernel
    obtain ⟨⟨report, pairs⟩, hanswer, hsame⟩ := Option.map_eq_some_iff.mp hreply
    obtain ⟨hlinked, rfl⟩ := Prod.mk.inj hsame
    obtain ⟨final, hrun⟩ := exists_run_of_value hanswer
    obtain ⟨order, inOrder, -⟩ := hload _ _ report _ final hrun
    exact ⟨report, final, order, hrun, inOrder, hlinked⟩

end Session

end LateBinding
