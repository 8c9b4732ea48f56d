import LateBinding.Proofs.Execution.Onward
import LateBinding.Proofs.Execution.WhenLinking
import LateBinding.Proofs.System.Postponing
import LateBinding.Proofs.System.Resolving

/-!
# Loading a unit, one call after the other

As long as no initializers run, loading a unit comes to the same as interning its selectors,
registering its classes, applying its categories and registering its static instances by calls of
their own. Loading binds what waits for the classes only after the categories, registering binds it
right away; but entering classes and categories has nothing to do with objects.
-/

namespace LateBinding

open Registry

/-! ### What stays while classes are entered -/

namespace Session

variable {policy : CategoryConflictPolicy} {start middle final : Session}

/-- Pairs keep their names, and classes their pairs. -/
structure Enlarges (start final : Session) : Prop where
  hasPair : ∀ pair, start.heap.HasPair pair → final.heap.HasPair pair
  name : ∀ pair, start.heap.HasPair pair → (final.heap.pair pair).name = (start.heap.pair pair).name
  seat : ∀ id record, start.system.registry.record? id = some record →
    ∃ later, final.system.registry.record? id = some later ∧ later.pair = record.pair

theorem Enlarges.refl : start.Enlarges start :=
  ⟨fun _ h => h, fun _ _ => rfl, fun _ record h => ⟨record, h, rfl⟩⟩

theorem Enlarges.trans (first : start.Enlarges middle) (second : middle.Enlarges final) :
    start.Enlarges final where
  hasPair pair h := second.hasPair pair (first.hasPair pair h)
  name pair h := (second.name pair (first.hasPair pair h)).trans (first.name pair h)
  seat id record h := by
    obtain ⟨between, hbetween, hfirst⟩ := first.seat id record h
    obtain ⟨later, hlater, hsecond⟩ := second.seat id between hbetween
    exact ⟨later, hlater, hsecond.trans hfirst⟩

/-- All classes of a list are registered. -/
def Knows (session : Session) (ids : List ClassId) : Prop :=
  ∀ id ∈ ids, ∃ record, session.system.registry.record? id = some record

theorem Knows.enlarged {ids : List ClassId} (known : start.Knows ids)
    (enlarges : start.Enlarges final) : final.Knows ids := by
  intro id hid
  obtain ⟨record, hrecord⟩ := known id hid
  obtain ⟨later, hlater, -⟩ := enlarges.seat id record hrecord
  exact ⟨later, hlater⟩

theorem Enlarges.pairsOf_eq (enlarges : start.Enlarges final) {ids : List ClassId}
    (known : start.Knows ids) : final.pairsOf ids = start.pairsOf ids := by
  apply List.filterMap_congr
  intro id hid
  obtain ⟨record, hrecord⟩ := known id hid
  obtain ⟨later, hlater, hpair⟩ := enlarges.seat id record hrecord
  rw [hrecord, hlater, Option.map_some, Option.map_some, hpair]

theorem pairsOf_append (session : Session) (first second : List ClassId) :
    session.pairsOf (first ++ second) = session.pairsOf first ++ session.pairsOf second :=
  List.filterMap_append

end Session

/-- A category is applied to a class where it is. -/
theorem Classes.Applies.seat {start final : Classes} {category : CategoryDefinition}
    {status : CategoryStatus} (applies : start.Applies category status final) {id : ClassId}
    {record : Record} (hrecord : start.registry.record? id = some record) :
    ∃ later, final.registry.record? id = some later ∧ later.pair = record.pair := by
  cases applies with
  | waits => exact ⟨record, hrecord, rfl⟩
  | @merges known old _ _ alters =>
    have hrecords := alters.record?_eq id
    by_cases hid : known = id
    · subst hid
      have hold : start.registry.record? known = some old := alters.registered
      rw [hrecord] at hold
      cases hold
      exact ⟨_, hrecords.trans (if_pos rfl), rfl⟩
    · exact ⟨record, (hrecords.trans (if_neg hid)).trans hrecord, rfl⟩

namespace Act

variable {α β : Type} {policy : CategoryConflictPolicy} {start final : Session}

theorem WalksOf.enlarges {action : Act α} {reply : α} (walks : action.Walks start)
    (steady : start.Steady policy) (hrun : action start = .ok reply final)
    (hseat : ∀ id record, start.system.registry.record? id = some record →
      ∃ later, final.system.registry.record? id = some later ∧ later.pair = record.pair) :
    final.Steady policy ∧ start.Enlarges final := by
  obtain ⟨hfinal, remembers⟩ := Session.Deeds.spec (walks.deeds_of_ok hrun) steady
  exact ⟨hfinal, remembers.ages.hasPair, remembers.name, hseat⟩

theorem enterClass_enlarges {spec : ClassSpec} {answer : PairId × List ClassId}
    (steady : start.Steady policy) (hfree : start.system.registry.idOf? spec.name = none)
    (hrun : enterClass spec start = .ok answer final) :
    final.Steady policy ∧ start.Enlarges final ∧ final.Knows answer.2 ∧
      final.heap.HasPair answer.1 ∧ (final.heap.pair answer.1).name = spec.name := by
  have atRest : start.AtRest policy := steady.atRest
  obtain ⟨defined, definition, hdefined, hregistry, hname, hpair, registers⟩ :=
    (enterClass_registers spec atRest hfree).of_ok hrun
  have hcontent := registers.content?_eq
  have hseat : ∀ id record, start.system.registry.record? id = some record →
      ∃ later, final.system.registry.record? id = some later ∧ later.pair = record.pair := by
    intro id record hrecord
    rw [← hregistry] at hrecord
    have hne : defined.classes.registry.nextId ≠ id := by
      rintro rfl
      have hnone := defined.classes.registry.standing?_nextId
      rw [standing?, show defined.classes.registry.record? _ = some record from hrecord] at hnone
      cases hnone
    have hhere := hcontent id
    rw [if_neg hne, content?_of_record (show defined.classes.registry.record? id = _ from hrecord)]
      at hhere
    obtain ⟨later, hlater, hsame⟩ := Option.map_eq_some_iff.mp hhere
    exact ⟨later, hlater, congrArg Content.pair hsame⟩
  obtain ⟨hfinal, enlarges⟩ :=
    (walks_enterClass spec atRest hfree).enlarges steady hrun hseat
  have hown := hcontent defined.classes.registry.nextId
  rw [if_pos rfl] at hown
  obtain ⟨made, hmade, hsame⟩ := Option.map_eq_some_iff.mp hown
  have hmadePair : made.pair = answer.1 := (congrArg Content.pair hsame).trans hpair.symm
  have hmadeName : made.name = spec.name := (congrArg Content.name hsame).trans hname
  have housed := hfinal.atRest.upToDate.housed
  refine ⟨hfinal, enlarges, ?_, ?_, ?_⟩
  · intro id hid
    obtain ⟨record, hrecord, -⟩ :=
      (((enterClass_linksAnew spec atRest hfree).of_ok hrun).mem_iff id |>.mp hid).1
    exact ⟨record, hrecord⟩
  · rw [← hmadePair]
    exact housed.hasPair _ made hmade
  · rw [← hmadePair, ← hmadeName]
    exact housed.pairName _ made hmade

theorem applyCategory_enlarges {spec : CategorySpec} {status : CategoryStatus}
    (steady : start.Steady policy) (hrun : applyCategory spec start = .ok status final) :
    final.Steady policy ∧ start.Enlarges final := by
  have atRest : start.AtRest policy := steady.atRest
  refine (roams_applyCategory spec start atRest).enlarges steady hrun ?_
  intro id record hrecord
  have leads : (applyCategory spec).Leads True start fun _ final =>
      ∃ later, final.system.registry.record? id = some later ∧ later.pair = record.pair := by
    rw [applyCategory, leads_bind]
    refine (keeps_defineMethods keeps_atRest_of_same spec.methods start ⟨atRest, rfl⟩).mono ?_
    rintro methods defined ⟨hdefined, hregistry⟩
    rw [← hregistry] at hrecord
    rw [leads_onClasses]
    exact (Linking.applyCategory_leads hdefined.consistent (.inl trivial)).mono
      fun _ _ applies => applies.seat hrecord
  exact leads.of_ok hrun

theorem applyCategories_enlarges {specs : List CategorySpec} {statuses : List CategoryStatus}
    (steady : start.Steady policy) (hrun : specs.mapM applyCategory start = .ok statuses final) :
    final.Steady policy ∧ start.Enlarges final := by
  have hone : ∀ spec, (applyCategory spec).Keeps fun session =>
      session.Steady policy ∧ start.Enlarges session := by
    rintro spec session ⟨hsession, enlarges⟩
    refine leads_of_ok fun status after happly => ?_
    obtain ⟨hafter, further⟩ := applyCategory_enlarges hsession happly
    exact ⟨hafter, enlarges.trans further⟩
  exact (Keeps.mapM hone start ⟨steady, .refl⟩).of_ok hrun

/-! ### Registering class by class -/

theorem run_register {spec : ClassSpec} {answer : PairId × List ClassId}
    (hfree : start.system.registry.idOf? spec.name = none)
    (hrun : enterClass spec start = .ok answer final) :
    register spec start =
      .ok (.ok (answer.1, final.pairsOf answer.2)) (final.bound (final.pairsOf answer.2)) := by
  have hnone : ¬ (start.system.registry.idOf? spec.name).isSome = true := by simp [hfree]
  rw [register, bind_of_ok (run_get start), if_neg hnone, bind_of_ok hrun]
  exact bind_of_ok (run_finishLinking final answer.2) _

/-- The name is taken, or the class is entered and what waits is bound. -/
theorem register_cases {spec : ClassSpec} {reply : Except RegistryError (PairId × List PairId)}
    (hrun : register spec start = .ok reply final) :
    (reply = .error (.duplicateClass spec.name) ∧ final = start) ∨
      ∃ answer entered, start.system.registry.idOf? spec.name = none ∧
        enterClass spec start = .ok answer entered ∧
        reply = .ok (answer.1, entered.pairsOf answer.2) ∧
        final = entered.bound (entered.pairsOf answer.2) := by
  cases hfree : start.system.registry.idOf? spec.name with
  | some id =>
    have htaken : (start.system.registry.idOf? spec.name).isSome = true := by rw [hfree]; rfl
    rw [register, bind_of_ok (run_get start), if_pos htaken] at hrun
    cases hrun
    exact .inl ⟨rfl, rfl⟩
  | none =>
    cases hentered : enterClass spec start with
    | error reason entered =>
      have hfreeName : ¬ (start.system.registry.idOf? spec.name).isSome = true := by simp [hfree]
      rw [register, bind_of_ok (run_get start), if_neg hfreeName, bind_of_error hentered] at hrun
      cases hrun
    | ok answer entered =>
      cases (run_register hfree hentered).symm.trans hrun
      exact .inr ⟨answer, entered, rfl, rfl, rfl, rfl⟩

/-- The class is registered after the binding for `earlier`, or that binding is put off. -/
theorem run_register_bound {spec : ClassSpec} {answer : PairId × List ClassId}
    {earlier : List PairId} (hfree : start.system.registry.idOf? spec.name = none)
    (hrun : enterClass spec start = .ok answer final)
    (hnames : ∀ pair ∈ earlier, (final.heap.pair pair).name = (start.heap.pair pair).name) :
    register spec (start.bound earlier) =
      .ok (.ok (answer.1, final.pairsOf answer.2))
        (final.bound (earlier ++ final.pairsOf answer.2)) := by
  have hregistry := start.registry_bound earlier
  have hpairs : (final.bound earlier).pairsOf answer.2 = final.pairsOf answer.2 := by
    rw [final.bound_eq_beside]
    rfl
  have hbound := (apart_enterClass spec).run_bound hrun hnames
  rw [run_register (by rw [hregistry, hfree]) hbound, hpairs, Session.bound_append]

/-- To register classes one after the other, where what waits is bound each time, comes to entering
all of them and binding afterwards. The classes of `earlier` linked before: for them the binding is
put off. -/
theorem mapM_register {specs : List ClassSpec} {linked : List ClassId} {earlier : List PairId}
    (steady : start.Steady policy) (hearlier : ∀ pair ∈ earlier, start.heap.HasPair pair)
    (hnodup : (specs.map (·.name)).Nodup)
    (hfree : ∀ spec ∈ specs, start.system.registry.idOf? spec.name = none)
    (hrun : enterClasses specs start = .ok linked final) :
    final.Steady policy ∧ start.Enlarges final ∧ final.Knows linked ∧
      ∃ registered : List (PairId × List PairId),
        specs.mapM register (start.bound earlier) =
          .ok (registered.map .ok) (final.bound (earlier ++ final.pairsOf linked)) ∧
        registered.flatMap (·.2) = final.pairsOf linked ∧
        (∀ call ∈ registered, final.heap.HasPair call.1) ∧
        registered.map (fun call => (final.heap.pair call.1).name) = specs.map (·.name) := by
  induction specs generalizing start linked earlier with
  | nil =>
    cases hrun
    refine ⟨steady, .refl, fun _ hid => absurd hid List.not_mem_nil, [], ?_, rfl,
      fun _ hcall => absurd hcall List.not_mem_nil, rfl⟩
    change _ = EStateM.Result.ok [] (final.bound (earlier ++ []))
    rw [List.append_nil]
    rfl
  | cons spec rest ih =>
    rw [List.map_cons, List.nodup_cons] at hnodup
    have hhere := hfree spec List.mem_cons_self
    rw [enterClasses_cons] at hrun
    obtain ⟨answer, middle, hentered, hrest⟩ := EStateM.bind_eq_ok_iff.mp hrun
    rw [map_eq_pure_bind] at hrest
    obtain ⟨others, after, hothers, hpure⟩ := EStateM.bind_eq_ok_iff.mp hrest
    cases hpure
    obtain ⟨hmiddle, enlarges, hknows, hpair, hname⟩ :=
      enterClass_enlarges steady hhere hentered
    obtain ⟨-, hnames⟩ := (enterClass_leads spec steady.atRest hhere).of_ok hentered
    have hlater : ∀ pair ∈ earlier ++ middle.pairsOf answer.2, middle.heap.HasPair pair := by
      intro pair hmem
      rcases List.mem_append.mp hmem with hold | hnew
      · exact enlarges.hasPair pair (hearlier pair hold)
      · exact Session.AtRest.hasPair_of_pairsOf hmiddle.atRest pair hnew
    obtain ⟨hfinal, further, hknowsRest, registered, hregister, hflat, hpairs, hall⟩ :=
      ih hmiddle hlater hnodup.2 (free_of_enterClass hnodup.1 hfree hnames) hothers
    have hsame : final.pairsOf answer.2 = middle.pairsOf answer.2 := further.pairsOf_eq hknows
    have hfirst := run_register_bound hhere hentered
      fun pair hmem => enlarges.name pair (hearlier pair hmem)
    refine ⟨hfinal, enlarges.trans further, ?_, (answer.1, middle.pairsOf answer.2) :: registered,
      ?_, ?_, ?_, ?_⟩
    · intro id hid
      rcases List.mem_append.mp hid with hown | hother
      · exact hknows.enlarged further id hown
      · exact hknowsRest id hother
    · rw [List.mapM_cons, bind_of_ok hfirst, bind_of_ok hregister, Session.pairsOf_append, hsame,
        List.append_assoc]
      rfl
    · rw [List.flatMap_cons, hflat, Session.pairsOf_append, hsame]
    · intro call hcall
      rcases List.mem_cons.mp hcall with rfl | hmem
      · exact further.hasPair _ hpair
      · exact hpairs call hmem
    · rw [List.map_cons, List.map_cons, hall, further.name _ hpair, hname]

/-! ### What a unit declares, by calls of their own -/

/-- What a unit declares, one call for each selector, class, category and literal, and one for each
group of static instances. -/
def declareEach (unit : LoadUnit) (classes : List ClassSpec) (categories : List CategorySpec) :
    Act (List (Except RegistryError (PairId × List PairId)) × List CategoryStatus ×
      List (List ObjectId)) := do
  unit.selectors.forM fun ref => discard (intern ref.name ref.types)
  let registered ← classes.mapM register
  let statuses ← categories.mapM applyCategory
  let statics ← unit.statics.mapM fun group => do
    let objects ← group.instances.mapM fun slots => createLiteral (slots.map .ofConstant)
    let _ ← registerStatics group.className objects
    return objects
  return (registered, statuses, statics)

end Act

/-- A report from the replies to the calls. -/
def LoadReport.ofReplies (unit : LoadUnit) (heap : Heap)
    (registered : List (PairId × List PairId)) (statuses : List CategoryStatus)
    (statics : List (List ObjectId)) : LoadReport where
  unit := unit.name
  selectors := unit.selectors.length
  registered := registered.map fun call => (heap.pair call.1).name
  linked := (registered.flatMap (·.2)).map fun pair => (heap.pair pair).name
  categoriesApplied := statuses.count .applied
  categoriesPending := statuses.count .pending
  statics := statics.flatten

/-- That a unit was executed is noted at the end. -/
def Session.noting (session : Session) (report : LoadReport) : Session :=
  { session with
    log := session.log.push
      (.unitExecuted report.unit report.registered.length report.linked.length) }

namespace Act

variable {policy : CategoryConflictPolicy} {start final : Session}

theorem walks_selectors (unit : LoadUnit) (atRest : start.AtRest policy) :
    (unit.selectors.forM fun ref => discard (intern ref.name ref.types)).Walks start :=
  RoamsOf.forM (fun ref _ => (roams_intern ref.name ref.types).map _) start atRest

theorem declareEach_of_execute {unit : LoadUnit} {classes : List ClassSpec}
    {categories : List CategorySpec} {answer : LoadReport × List PairId}
    (steady : start.Steady policy) (hnodup : (classes.map (·.name)).Nodup)
    (hfree : ∀ spec ∈ classes, start.system.registry.idOf? spec.name = none)
    (hrun : execute unit classes categories start = .ok answer final) :
    ∃ registered statuses statics after,
      declareEach unit classes categories start =
        .ok (registered.map .ok, statuses, statics) after ∧
      final = after.noting answer.1 ∧
      answer.1 = .ofReplies unit after.heap registered statuses statics := by
  rw [execute_eq] at hrun
  obtain ⟨_, interned, hinterned, hrun⟩ := EStateM.bind_eq_ok_iff.mp hrun
  obtain ⟨linked, entered, hentered, hrun⟩ := EStateM.bind_eq_ok_iff.mp hrun
  obtain ⟨statuses, applied, happlied, hrun⟩ := EStateM.bind_eq_ok_iff.mp hrun
  obtain ⟨pairs, finished, hfinished, hrun⟩ := EStateM.bind_eq_ok_iff.mp hrun
  obtain ⟨statics, after, hstatics, hlast⟩ := EStateM.bind_eq_ok_iff.mp hrun
  have hregistry := ((keeps_selectors unit start ⟨steady.atRest, rfl⟩).of_ok hinterned).2
  rw [← hregistry] at hfree
  obtain ⟨hsteady, -⟩ :=
    Session.Deeds.spec ((walks_selectors unit steady.atRest).deeds_of_ok hinterned) steady
  have hnothing : ∀ pair ∈ ([] : List PairId), interned.heap.HasPair pair :=
    fun _ h => absurd h List.not_mem_nil
  obtain ⟨hsteady, -, hknows, registered, hregister, hflat, hpairs, hnames⟩ :=
    mapM_register hsteady hnothing hnodup hfree hentered
  obtain ⟨happliedSteady, enlarges⟩ := applyCategories_enlarges hsteady happlied
  -- the categories do not mind that the classes that wait for them have been bound already
  have hcategories : categories.mapM applyCategory (entered.bound (entered.pairsOf linked)) =
      .ok statuses (applied.bound (entered.pairsOf linked)) :=
    (apart_applyCategories categories).run_bound happlied fun pair hpair =>
      enlarges.name pair (Session.AtRest.hasPair_of_pairsOf hsteady.atRest pair hpair)
  have hfinish := run_finishLinking applied linked
  rw [enlarges.pairsOf_eq hknows, hfinished] at hfinish
  obtain ⟨rfl, rfl⟩ := EStateM.Result.ok.inj hfinish
  have hboundSteady : (applied.bound (entered.pairsOf linked)).Steady policy :=
    (Session.Deeds.spec ((roams_finishLinking linked applied happliedSteady.atRest).deeds_of_ok
      hfinished) happliedSteady).1
  obtain ⟨-, remembers⟩ := Session.Deeds.spec
    ((RoamsOf.mapM roams_createStatics _ hboundSteady.atRest).deeds_of_ok hstatics) hboundSteady
  have hname : ∀ call ∈ registered,
      (after.heap.pair call.1).name = (entered.heap.pair call.1).name := by
    intro call hcall
    have hpair := enlarges.hasPair _ (hpairs call hcall)
    have hbound : (applied.bound (entered.pairsOf linked)).heap.pair call.1 =
        applied.heap.pair call.1 := by
      rw [applied.bound_eq_beside]
      rfl
    have hbefore := remembers.name call.1 (by rw [applied.bound_eq_beside]; exact hpair)
    rw [hbefore, hbound, enlarges.name _ (hpairs call hcall)]
  refine ⟨registered, statuses, statics, after, ?_, ?_, ?_⟩
  · rw [declareEach, bind_of_ok hinterned]
    refine (bind_of_ok hregister _).trans ?_
    exact (bind_of_ok hcategories _).trans (bind_of_ok hstatics _)
  · cases hlast
    rfl
  · cases hlast
    have hregistered : registered.map (fun call => (after.heap.pair call.1).name) =
        classes.map (·.name) := (List.map_congr_left hname).trans hnames
    rw [LoadReport.ofReplies, hregistered, hflat]

end Act

/-! ### Requests without initializers -/

namespace Host

variable {σ : Type} {options : Options} {world : World σ}
  {answer : (request : Request) → Run σ request.Reply} (host : Host σ)

/-- What comes after the action is left out if no initializers are sent. -/
theorem liftAct_bind_of_silent {ε α β : Type} {action : Act (Except ε α)} {reply : α → β}
    {values : α → List Value} {linked : α → List PairId}
    {next : Except ε α → Run σ (Except ε β)}
    (herror : ∀ error, next (.error error) = pure (.error error))
    (hok : ∀ value, next (.ok value) =
      (Run.framed (values value) (host.runInitializers answer (linked value)) >>= fun _ =>
        pure (.ok (reply value))))
    (hsilent : options.sendInitialize = false)
    (hoptions : ∀ outcome final, action world.session = .ok outcome final →
      final.system.options = options) :
    (Run.liftAct action >>= next) world =
      (Except.map reply <$> Run.liftAct action : Run σ (Except ε β)) world := by
  cases hrun : action world.session with
  | error reason final =>
    change EStateM.bind (Run.liftAct action) next world = EStateM.map _ (Run.liftAct action) world
    simp only [EStateM.bind, EStateM.map, Run.liftAct, hrun]
  | ok outcome final =>
    rw [Run.liftAct_bind hrun, map_eq_pure_bind, Run.liftAct_bind hrun]
    cases outcome with
    | error error =>
      rw [herror]
      rfl
    | ok value =>
      have hnot : ¬ final.Sends options := by
        rintro ⟨hsend, -⟩
        rw [hsilent] at hsend
        cases hsend
      rw [hok]
      apply host.finish_of_not_sends
      · exact hoptions _ final hrun
      · exact hnot

theorem answer_register_of_silent (reachable : world.session.Reachable options)
    (hsilent : options.sendInitialize = false) (depth : Nat) (spec : ClassSpec) :
    host.answer (depth + 1) (.register spec) world =
      (Except.map (fun call => (⟨call.1, .plain⟩ : ClassRef)) <$>
        Run.liftAct (Act.register spec) : Run σ (Except RegistryError ClassRef)) world := by
  refine host.liftAct_bind_of_silent (fun _ => rfl) (fun _ => rfl) hsilent ?_
  exact fun _ _ hrun => (reachable.move (.register hrun)).equipped.options_eq

theorem answer_load_of_silent (reachable : world.session.Reachable options)
    (hsilent : options.sendInitialize = false) (depth : Nat) (unit : LoadUnit)
    (imps : String → Option Imp) :
    host.answer (depth + 1) (.load unit imps) world =
      (Except.map Prod.fst <$> Run.liftAct (Act.load unit imps) :
        Run σ (Except LoadError LoadReport)) world := by
  refine host.liftAct_bind_of_silent (fun _ => rfl) (fun _ => rfl) hsilent ?_
  exact fun _ _ hrun => (reachable.move (.load hrun)).equipped.options_eq

end Host

namespace Session

/-- As long as initializers are switched off, to register a class does no more than to enter it and
to bind what waits for it. To load a unit leads to the same session as to intern its selectors,
register its classes, apply its categories and register its static instances one after the other
would, but for the note that it was executed, and it reports what these calls reply. -/
theorem Reachable.load_eq_calls {σ : Type} {options : Options} {world : World σ}
    (reachable : world.session.Reachable options) (hsilent : options.sendInitialize = false)
    (host : Host σ) (depth : Nat) :
    (∀ spec, host.answer (depth + 1) (.register spec) world =
      (Except.map (fun call => (⟨call.1, .plain⟩ : ClassRef)) <$>
        Run.liftAct (Act.register spec) : Run σ (Except RegistryError ClassRef)) world) ∧
    ∀ (unit : LoadUnit) (imps : String → Option Imp) (report : LoadReport) (final : World σ),
      host.answer (depth + 1) (.load unit imps) world = .ok (.ok report) final →
      ∃ classes categories registered statuses statics after,
        List.Forall₂ (ClassDef.Supplied imps) unit.classes classes ∧
        List.Forall₂ (CategoryDef.Supplied imps) unit.categories categories ∧
        Act.declareEach unit classes categories world.session =
          .ok (registered.map .ok, statuses, statics) after ∧
        report = .ofReplies unit after.heap registered statuses statics ∧
        final = { world with session := after.noting report } := by
  refine ⟨host.answer_register_of_silent reachable hsilent depth, ?_⟩
  intro unit imps report final hrun
  rw [host.answer_load_of_silent reachable hsilent, map_eq_pure_bind] at hrun
  obtain ⟨outcome, middle, hlift, hpure⟩ := EStateM.bind_eq_ok_iff.mp hrun
  obtain ⟨session, hload, rfl⟩ := Run.liftAct_eq_ok_iff.mp hlift
  cases hresolve : unit.resolve imps world.session.system.registry with
  | error error =>
    rw [Act.load, Act.bind_of_ok (Act.run_get _), hresolve] at hload
    cases hload
    cases hpure
  | ok declared =>
    obtain ⟨classes, categories⟩ := declared
    obtain ⟨hnodup, hfree⟩ := LoadUnit.resolve_names hresolve
    obtain ⟨hclasses, hcategories⟩ := LoadUnit.supplied_of_resolve hresolve
    rw [Act.load, Act.bind_of_ok (Act.run_get _), hresolve] at hload
    obtain ⟨answered, executed, hexecute, hreply⟩ := EStateM.bind_eq_ok_iff.mp hload
    cases hreply
    cases hpure
    obtain ⟨registered, statuses, statics, after, hcalls, rfl, hreport⟩ :=
      Act.declareEach_of_execute reachable.steady hnodup hfree hexecute
    exact ⟨classes, categories, registered, statuses, statics, after, hclasses, hcategories, hcalls,
      hreport, rfl⟩

/-- A root class with a category of its own and a constant object of the class that waits for it. -/
def upperUnit : LoadUnit :=
  { version := LoadUnit.currentVersion, flags := LoadUnit.staticsFlag, name := "upper.m"
    selectors := [⟨"pong", none⟩]
    classes := [{ name := "Root", superclass := none, size := 0
                  methods := ⟨[⟨"ping", "v@:", "ping"⟩], []⟩, protocols := [] }]
    categories := [{ name := "More", className := "Root"
                     methods := ⟨[⟨"pong", "v@:", "pong"⟩], []⟩, protocols := [] }]
    statics := [⟨"Leaf", [[]]⟩] }

/-- Loading the unit links the class that waits, for which an object waits in turn. -/
theorem load_eq_calls_releasing :
    let options : Options := { sendInitialize := false }
    let host : Host Unit := ⟨fun _ _ => .done (.ok .nil), fun _ => []⟩
    let session := (((start options).afterRegister leafSample).afterPerform
      (.createLiteral [])).afterPerform (.registerStatics "Leaf" [⟨0⟩])
    let world : World Unit := ⟨session, (), [], []⟩
    let report : LoadReport :=
      { unit := "upper.m", selectors := 1, registered := ["Root"], linked := ["Root", "Leaf"]
        categoriesApplied := 1, categoriesPending := 0, statics := [⟨1⟩] }
    session.Reachable options ∧ options.sendInitialize = false ∧ ∃ final,
      host.answer 1 (.load upperUnit fun _ => some ⟨5⟩) world = .ok (.ok report) final ∧
      ∃ classes categories registered statuses statics after,
        List.Forall₂ (ClassDef.Supplied fun _ => some ⟨5⟩) upperUnit.classes classes ∧
        List.Forall₂ (CategoryDef.Supplied fun _ => some ⟨5⟩) upperUnit.categories categories ∧
        Act.declareEach upperUnit classes categories session =
          .ok (registered.map .ok, statuses, statics) after ∧
        report = .ofReplies upperUnit after.heap registered statuses statics ∧
        final = { world with session := after.noting report } := by
  intro options host session world report
  have reachable : world.session.Reachable options :=
    ((Reachable.start.afterRegister leafSample).afterPerform _).afterPerform _
  have hvalue : ((host.answer 1 (.load upperUnit fun _ => some ⟨5⟩)).run' world).bind
      Except.toOption = some report := by decide +kernel
  have hrun := Run.eq_ok_of_value hvalue
  exact ⟨reachable, rfl, _, hrun, (reachable.load_eq_calls rfl host 0).2 _ _ _ _ hrun⟩

end Session

end LateBinding
