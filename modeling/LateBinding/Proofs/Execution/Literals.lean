import LateBinding.Proofs.Execution.Binding

/-!
# When literals get their class

A literal is made without a class and is registered under the name of one. It gets the first class
of that name that is linked while it is registered, also if the class it was waiting for was removed
before it could link; and it keeps the class that it got.
-/

namespace LateBinding

/-! ### Loading a unit -/

namespace LoadUnit

/-- The names that static instances are registered under, one after the other. -/
def homes (groups : List StaticGroup) : List String :=
  groups.flatMap fun group => group.instances.map fun _ => group.className

def dealings (unit : LoadUnit) : Except LoadError (LoadReport × List PairId) → Dealings
  | .ok (report, _) => ⟨report.statics, [], (homes unit.statics).zip report.statics⟩
  | .error _ => .nothing

end LoadUnit

namespace Session

variable {start final : Session} {dealings : Dealings}

/-- What is noted in the log does not matter. -/
theorem Furthers.noting (furthers : start.Furthers dealings final) (log : Array Event) :
    start.Furthers dealings { final with log } := by
  obtain ⟨⟨stay, made, exist, waits, kept, bound, origin⟩, hlinked⟩ := furthers
  exact ⟨⟨stay, made, exist, waits, kept, bound, origin⟩, hlinked⟩

end Session

namespace Act

variable {α : Type} {policy : CategoryConflictPolicy} {start final : Session}

/-- The action makes no objects and registers none, and linked classes stay linked. -/
def Furthering (policy : CategoryConflictPolicy) (action : Act α) : Prop :=
  ∀ start : Session, action.Keeps fun session =>
    session.AtRest policy ∧ session.Unlinked ∧ start.Furthers .nothing session

theorem furthering_of {action : Act α} (hkeeps : action.Keeps (Session.AtRest policy))
    (hfurthers : ∀ (session final : Session) (reply : α), session.AtRest policy →
      session.Unlinked → action session = .ok reply final → session.Furthers .nothing final) :
    action.Furthering policy := by
  rintro start session ⟨atRest, unlinked, furthers⟩
  refine leads_of_ok fun reply final hrun => ?_
  have hstep := hfurthers session final reply atRest unlinked hrun
  exact ⟨(hkeeps session atRest).of_ok hrun, hstep.provides.unlinked, furthers.trans hstep⟩

theorem furthering_intern (name : String) (types : Option String) :
    (intern name types).Furthering policy := by
  apply furthering_of (keeps_intern (fun _ _ same h => h.transfer same) name types)
  intro start final sel _ unlinked hrun
  have hregistry := (keeps_intern (keeps_registry_of_same _) name types start rfl).of_ok hrun
  have hhome := Session.classForName?_of_registry hregistry
  exact ((apart_intern name types).provides hrun unlinked (.of_eq hhome)).furthers hhome

theorem furthering_register (spec : ClassSpec) : (register spec).Furthering policy :=
  furthering_of (keeps_register spec)
    fun _ _ _ atRest unlinked hrun => furthers_register atRest unlinked hrun

theorem furthering_applyCategory (spec : CategorySpec) :
    (applyCategory spec).Furthering policy := by
  apply furthering_of (keeps_applyCategory spec)
  intro start final status atRest unlinked hrun
  have hhome := (applyCategory_classForName? spec atRest).of_ok hrun
  exact ((apart_applyCategory spec).provides hrun unlinked (.of_eq hhome)).furthers hhome

theorem furthers_createLiterals {list : List (List Value)} {objects : List ObjectId}
    (unlinked : start.Unlinked) (hrun : list.mapM createLiteral start = .ok objects final) :
    objects.length = list.length ∧ start.Furthers ⟨objects, [], []⟩ final := by
  induction list generalizing start objects with
  | nil =>
    cases hrun
    exact ⟨rfl, .refl unlinked⟩
  | cons slots rest ih =>
    rw [List.mapM_cons] at hrun
    obtain ⟨object, middle, hfirst, hrun⟩ := EStateM.bind_eq_ok_iff.mp hrun
    obtain ⟨others, after, hothers, hpure⟩ := EStateM.bind_eq_ok_iff.mp hrun
    cases hpure
    have provides := provides_createLiteral unlinked hfirst
    obtain ⟨hlength, furthers⟩ := ih provides.unlinked hothers
    have hregistry := (keeps_createLiteral (keeps_registry_of_same _) slots start rfl).of_ok hfirst
    have hstep := provides.furthers (Session.classForName?_of_registry hregistry)
    exact ⟨congrArg Nat.succ hlength, hstep.trans furthers⟩

/-- The objects of a group are made first and registered then. -/
theorem furthers_createStatics {group : StaticGroup} {objects : List ObjectId}
    (unlinked : start.Unlinked) (hrun : createStatics group start = .ok objects final) :
    objects.length = group.instances.length ∧
      start.Furthers ⟨objects, [], objects.map (group.className, ·)⟩ final := by
  obtain ⟨_, middle, hmade, hrun⟩ := EStateM.bind_eq_ok_iff.mp hrun
  obtain ⟨count, after, hregistered, hpure⟩ := EStateM.bind_eq_ok_iff.mp hrun
  cases hpure
  have hlist : (group.instances.map fun slots => slots.map Value.ofConstant).mapM createLiteral
      start = .ok objects middle := by
    rw [List.mapM_map]
    exact hmade
  obtain ⟨hlength, furthers⟩ := furthers_createLiterals unlinked hlist
  have hregistry := (keeps_registerStatics (keeps_registry_of_same _) group.className objects middle
    rfl).of_ok hregistered
  have hexist : ∀ object ∈ objects, middle.heap.HasObject object := fun object h =>
    (furthers.provides.made object (List.mem_append_left _ h)).2
  have hstep := (provides_registerStatics hexist furthers.provides.unlinked hregistered).furthers
    (Session.classForName?_of_registry hregistry)
  refine ⟨hlength.trans (List.length_map _), ?_⟩
  have hboth := furthers.trans hstep
  rwa [Dealings.and, List.append_nil] at hboth

theorem furthers_createGroups {groups : List StaticGroup} {statics : List (List ObjectId)}
    (unlinked : start.Unlinked) (hrun : groups.mapM createStatics start = .ok statics final) :
    start.Furthers ⟨statics.flatten, [], (LoadUnit.homes groups).zip statics.flatten⟩ final := by
  induction groups generalizing start statics with
  | nil =>
    cases hrun
    exact .refl unlinked
  | cons group rest ih =>
    rw [List.mapM_cons] at hrun
    obtain ⟨objects, middle, hfirst, hrun⟩ := EStateM.bind_eq_ok_iff.mp hrun
    obtain ⟨others, after, hothers, hpure⟩ := EStateM.bind_eq_ok_iff.mp hrun
    cases hpure
    obtain ⟨hlength, hstep⟩ := furthers_createStatics unlinked hfirst
    have hnames : (group.instances.map fun _ => group.className).zip objects =
        objects.map (group.className, ·) := by
      rw [List.map_const', ← hlength, ← List.map_const', ← List.map_prod_right_eq_zip]
    have hzip : (LoadUnit.homes (group :: rest)).zip (objects ++ others.flatten) =
        objects.map (group.className, ·) ++ (LoadUnit.homes rest).zip others.flatten := by
      rw [LoadUnit.homes, List.flatMap_cons, List.zip_append, hnames, ← LoadUnit.homes]
      rw [List.length_map, hlength]
    rw [List.flatten_cons, hzip]
    exact hstep.trans (ih hstep.provides.unlinked hothers)

theorem furthers_declareEach {unit : LoadUnit} {classes : List ClassSpec}
    {categories : List CategorySpec}
    {registered : List (Except RegistryError (PairId × List PairId))}
    {statuses : List CategoryStatus} {statics : List (List ObjectId)}
    (atRest : start.AtRest policy) (unlinked : start.Unlinked)
    (hrun : declareEach unit classes categories start =
      .ok (registered, statuses, statics) final) :
    start.Furthers
      ⟨statics.flatten, [], (LoadUnit.homes unit.statics).zip statics.flatten⟩ final := by
  obtain ⟨_, interned, hinterned, hrun⟩ := EStateM.bind_eq_ok_iff.mp hrun
  obtain ⟨_, entered, hentered, hrun⟩ := EStateM.bind_eq_ok_iff.mp hrun
  obtain ⟨_, applied, happlied, hrun⟩ := EStateM.bind_eq_ok_iff.mp hrun
  obtain ⟨_, after, hstatics, hpure⟩ := EStateM.bind_eq_ok_iff.mp hrun
  cases hpure
  have hintern : ∀ ref : SelectorRef,
      (discard (intern ref.name ref.types) : Act PUnit).Keeps fun session =>
        session.AtRest policy ∧ session.Unlinked ∧ start.Furthers .nothing session :=
    fun ref => (furthering_intern ref.name ref.types start).map _
  have hfirst := (Keeps.forM hintern start ⟨atRest, unlinked, .refl unlinked⟩).of_ok hinterned
  have hsecond := (Keeps.mapM (furthering_register · start) interned hfirst).of_ok hentered
  have hthird := (Keeps.mapM (furthering_applyCategory · start) entered hsecond).of_ok happlied
  obtain ⟨-, hunlinked, furthers⟩ := hthird
  exact furthers.trans (furthers_createGroups hunlinked hstatics)

theorem furthers_load {unit : LoadUnit} {imps : String → Option Imp}
    {reply : Except LoadError (LoadReport × List PairId)} (steady : start.Steady policy)
    (unlinked : start.Unlinked) (hrun : load unit imps start = .ok reply final) :
    start.Furthers (unit.dealings reply) final := by
  rw [load, bind_of_ok (run_get start)] at hrun
  cases hresolve : unit.resolve imps start.system.registry with
  | error error =>
    rw [hresolve] at hrun
    cases hrun
    exact .refl unlinked
  | ok declared =>
    obtain ⟨hnodup, hfree⟩ := LoadUnit.resolve_names hresolve
    rw [hresolve] at hrun
    obtain ⟨answered, executed, hexecute, hreply⟩ := EStateM.bind_eq_ok_iff.mp hrun
    cases hreply
    obtain ⟨registered, statuses, statics, after, hcalls, rfl, hreport⟩ :=
      declareEach_of_execute steady hnodup hfree hexecute
    have hstatics : answered.1.statics = statics.flatten := by rw [hreport, LoadReport.ofReplies]
    rw [LoadUnit.dealings, hstatics]
    exact (furthers_declareEach steady.atRest unlinked hcalls).noting _

end Act

/-! ### Every reachable session -/

namespace Session

variable {options : Options} {policy : CategoryConflictPolicy} {start final : Session}

/-- Also objects that there are not may be registered. -/
theorem Unlinked.registerStatics {className : String} {objects : List ObjectId} {count : Nat}
    (unlinked : start.Unlinked)
    (hrun : Act.registerStatics className objects start = .ok count final) : final.Unlinked := by
  rw [Act.registerStatics, Act.bind_of_ok (Act.run_get start)] at hrun
  cases hcls : start.classForName? className with
  | some cls =>
    rw [hcls] at hrun
    cases hrun
    exact unlinked
  | none =>
    rw [hcls] at hrun
    cases hrun
    intro entry hentry
    rcases (StaticQueue.mem_addAll _ _ _ _).mp hentry with hwaits | hnew
    · exact unlinked entry hwaits
    · rw [(Act.mem_registered.mp hnew).1]
      exact hcls

theorem Unlinked.perform {operation : Operation} {reply : operation.Reply}
    (unlinked : start.Unlinked) (atRest : start.AtRest policy)
    (hrun : operation.perform start = .ok reply final) : final.Unlinked := by
  have hprovides (hnone : (operation.dealings reply).entries = [])
      (hclears : operation.clears = false) : start.Provides (operation.dealings reply) final :=
    Operation.provides atRest unlinked (by simp [hnone]) hclears hrun
  cases operation with
  | registerStatics className objects => exact unlinked.registerStatics hrun
  | shutdown =>
    cases (Act.shutdown_eq start).symm.trans hrun
    exact fun _ h => absurd h List.not_mem_nil
  | createInstance cls =>
    have hnone : ((Operation.createInstance cls).dealings reply).entries = [] := by
      cases reply <;> rfl
    exact (hprovides hnone rfl).unlinked
  | _ => exact (hprovides rfl rfl).unlinked

theorem Unlinked.move (unlinked : start.Unlinked) (steady : start.Steady policy)
    (move : start.Move final) : final.Unlinked := by
  cases move with
  | perform run => exact unlinked.perform steady.atRest run
  | register run => exact (Act.furthers_register steady.atRest unlinked run).provides.unlinked
  | load run => exact (Act.furthers_load steady unlinked run).provides.unlinked
  | report event => exact unlinked
  | markInitialized id => exact unlinked
  | release held => exact unlinked

theorem Reachable.unlinked {session : Session} (reachable : session.Reachable options) :
    session.Unlinked := by
  induction reachable with
  | start => exact fun _ h => absurd h List.not_mem_nil
  | move before move ih => exact ih.move before.steady move

/-! ### Chronicles -/

/-- What happened to a session in one go: what was done with objects, whether the system was shut
down, and what session came of it. -/
structure Chapter where
  dealings : Dealings
  clears : Bool
  session : Session

/-- A session takes a move, by which nothing is registered that is not there. -/
inductive Takes (start : Session) : Chapter → Prop
  | perform {operation : Operation} {reply : operation.Reply} {final : Session}
      (known : ∀ entry ∈ (operation.dealings reply).entries, start.heap.HasObject entry.2)
      (run : operation.perform start = .ok reply final) :
      Takes start ⟨operation.dealings reply, operation.clears, final⟩
  | register {spec : ClassSpec} {reply : Except RegistryError (PairId × List PairId)}
      {final : Session} (run : Act.register spec start = .ok reply final) :
      Takes start ⟨.nothing, false, final⟩
  | load {unit : LoadUnit} {imps : String → Option Imp}
      {reply : Except LoadError (LoadReport × List PairId)} {final : Session}
      (run : Act.load unit imps start = .ok reply final) :
      Takes start ⟨unit.dealings reply, false, final⟩
  | report (event : Event) :
      Takes start ⟨.nothing, false, { start with log := start.log.push event }⟩
  | markInitialized (id : PairId) :
      Takes start ⟨.nothing, false, { start with heap := start.heap.markInitialized id }⟩
  | release (held : List Value) :
      Takes start ⟨.nothing, false, { start with heap := start.heap.release held }⟩

variable {chapter : Chapter}

theorem Takes.move (takes : start.Takes chapter) : start.Move chapter.session := by
  cases takes with
  | perform _ run => exact .perform run
  | register run => exact .register run
  | load run => exact .load run
  | report event => exact .report start event
  | markInitialized id => exact .markInitialized start id
  | release held => exact .release start held

/-- Every move is taken, except one that registers an object that there is not. -/
theorem Move.exists_takes (move : start.Move final) :
    (∃ chapter, start.Takes chapter ∧ chapter.session = final) ∨
      ∃ className objects count, Act.registerStatics className objects start = .ok count final ∧
        ∃ object ∈ objects, ¬ start.heap.HasObject object := by
  cases move with
  | @perform _ operation reply run =>
    by_cases known : ∀ entry ∈ (operation.dealings reply).entries, start.heap.HasObject entry.2
    · exact .inl ⟨_, .perform known run, rfl⟩
    · rw [not_forall] at known
      obtain ⟨entry, hentry⟩ := known
      obtain ⟨hmem, hnot⟩ := Classical.not_imp.mp hentry
      cases operation with
      | registerStatics className objects =>
        exact .inr ⟨className, objects, reply, run, entry.2, (Act.mem_registered.mp hmem).2, hnot⟩
      | createInstance cls => cases reply <;> cases hmem
      | _ => cases hmem
  | register run => exact .inl ⟨_, .register run, rfl⟩
  | load run => exact .inl ⟨_, .load run, rfl⟩
  | report event => exact .inl ⟨_, .report event, rfl⟩
  | markInitialized id => exact .inl ⟨_, .markInitialized id, rfl⟩
  | release held => exact .inl ⟨_, .release held, rfl⟩

/-- A shutdown forgets whoever waits and leaves the objects alone. -/
structure Forgets (start : Session) (chapter : Chapter) : Prop where
  clears : chapter.clears = true
  dealings : chapter.dealings = .nothing
  statics : chapter.session.system.statics = []
  objects : chapter.session.heap.objects = start.heap.objects

/-- A chapter provides for what is registered, unless it forgets it. -/
theorem Takes.provides_or (takes : start.Takes chapter) (steady : start.Steady policy)
    (unlinked : start.Unlinked) :
    chapter.clears = false ∧ start.Provides chapter.dealings chapter.session ∨
      start.Forgets chapter := by
  have hsame : ∀ session : Session, session.system = start.system →
      session.heap.objects = start.heap.objects → start.Provides .nothing session :=
    fun session hsystem hobjects => unlinked.provides_of_objects
      (.of_registry (congrArg System.registry hsystem)) (congrArg System.statics hsystem) hobjects
  cases takes with
  | @perform operation reply final known run =>
    cases hclears : operation.clears with
    | false => exact .inl ⟨rfl, Operation.provides steady.atRest unlinked known hclears run⟩
    | true =>
      cases operation with
      | shutdown =>
        cases (Act.shutdown_eq start).symm.trans run
        exact .inr ⟨rfl, rfl, rfl, start.classes.objects_cleared⟩
      | _ => cases hclears
  | register run => exact .inl ⟨rfl, (Act.furthers_register steady.atRest unlinked run).provides⟩
  | load run => exact .inl ⟨rfl, (Act.furthers_load steady unlinked run).provides⟩
  | report event => exact .inl ⟨rfl, hsame _ rfl rfl⟩
  | markInitialized id => exact .inl ⟨rfl, hsame _ rfl rfl⟩
  | release held => exact .inl ⟨rfl, hsame _ rfl (start.heap.objects_release held)⟩

theorem Takes.nil_or_nil (takes : start.Takes chapter) :
    chapter.dealings.literals = [] ∨ chapter.dealings.instances = [] := by
  cases takes with
  | @perform operation reply =>
    cases operation with
    | createInstance cls => cases reply <;> exact .inl rfl
    | _ => exact .inr rfl
  | @load unit imps reply => cases reply <;> exact .inr rfl
  | _ => exact .inr rfl

/-- The session after some chapters, of which the last one comes first. -/
def after (options : Options) : List Chapter → Session
  | [] => .start options
  | chapter :: _ => chapter.session

inductive Chronicle (options : Options) : List Chapter → Prop
  | start : Chronicle options []
  | takes {chapter : Chapter} {history : List Chapter} (before : Chronicle options history)
      (takes : (after options history).Takes chapter) : Chronicle options (chapter :: history)

/-- A move by which no object is registered that there is not. -/
structure KnownMove (start final : Session) : Prop where
  move : start.Move final
  known : ∀ className objects count, Act.registerStatics className objects start = .ok count final →
    ∀ object ∈ objects, start.heap.HasObject object

theorem KnownMove.exists_takes (knownMove : start.KnownMove final) :
    ∃ chapter, start.Takes chapter ∧ chapter.session = final := by
  rcases knownMove.move.exists_takes with
    taken | ⟨className, objects, count, run, object, hmem, hnot⟩
  · exact taken
  · exact absurd (knownMove.known className objects count run object hmem) hnot

/-- A history goes on as long as such moves are made, so the histories are the runs: whatever such
moves lead to from a fresh system is the end of one. -/
theorem Chronicle.exists_later {history : List Chapter} (chronicle : Chronicle options history)
    (moves : Relation.ReflTransGen KnownMove (after options history) final) :
    ∃ later, Chronicle options (later ++ history) ∧ after options (later ++ history) = final := by
  induction moves with
  | refl => exact ⟨[], chronicle, rfl⟩
  | tail _ knownMove ih =>
    obtain ⟨later, before, rfl⟩ := ih
    obtain ⟨chapter, takes, rfl⟩ := knownMove.exists_takes
    exact ⟨chapter :: later, before.takes takes, rfl⟩

/-- The object was registered under the name, and the system was not shut down since. -/
def Enlisted (name : String) (object : ObjectId) : List Chapter → Prop
  | [] => False
  | chapter :: before => (name, object) ∈ chapter.dealings.entries ∨
      chapter.clears = false ∧ Enlisted name object before

/-- While the object is registered under the name, a class of that name is linked. -/
def Meets (options : Options) (name : String) (object : ObjectId) (moment : List Chapter)
    (cls : ClassRef) : Prop :=
  Enlisted name object moment ∧ (after options moment).classForName? name = some cls

variable {history later moment : List Chapter} {name : String} {object : ObjectId} {cls : ClassRef}

theorem Enlisted.append (enlisted : Enlisted name object history)
    (hkept : ∀ chapter ∈ later, chapter.clears = false) :
    Enlisted name object (later ++ history) := by
  induction later with
  | nil => exact enlisted
  | cons chapter rest ih =>
    rw [List.forall_mem_cons] at hkept
    exact .inr ⟨hkept.1, ih hkept.2⟩

theorem Enlisted.mem_entries (enlisted : Enlisted name object history) :
    ∃ chapter ∈ history, (name, object) ∈ chapter.dealings.entries := by
  induction history with
  | nil => exact enlisted.elim
  | cons chapter before ih =>
    rcases enlisted with hnew | ⟨-, henlisted⟩
    · exact ⟨chapter, List.mem_cons_self, hnew⟩
    · obtain ⟨other, hmem, hentry⟩ := ih henlisted
      exact ⟨other, List.mem_cons_of_mem _ hmem, hentry⟩

namespace Chronicle

theorem of_suffix (chronicle : Chronicle options history) (hsuffix : moment <:+ history) :
    Chronicle options moment := by
  induction chronicle with
  | start => exact List.suffix_nil.mp hsuffix ▸ .start
  | takes before takes ih =>
    rcases List.suffix_cons_iff.mp hsuffix with rfl | hsuffix
    · exact before.takes takes
    · exact ih hsuffix

theorem reachable (chronicle : Chronicle options history) :
    (after options history).Reachable options := by
  induction chronicle with
  | start => exact .start
  | takes _ takes ih => exact ih.move takes.move

theorem onward (chronicle : Chronicle options history) (hsuffix : moment <:+ history) :
    (after options moment).Onward (after options history) := by
  induction chronicle with
  | start => exact List.suffix_nil.mp hsuffix ▸ .refl
  | takes before takes ih =>
    rcases List.suffix_cons_iff.mp hsuffix with rfl | hsuffix
    · exact .refl
    · exact (ih hsuffix).tail takes.move

theorem provides_or (chronicle : Chronicle options (chapter :: history)) :
    chapter.clears = false ∧ (after options history).Provides chapter.dealings chapter.session ∨
      (after options history).Forgets chapter := by
  cases chronicle with
  | takes before takes => exact takes.provides_or before.reachable.steady before.reachable.unlinked

theorem present (chronicle : Chronicle options history) : (after options history).Present := by
  induction chronicle with
  | start => exact fun _ h => absurd h List.not_mem_nil
  | takes before takes ih =>
    rcases (before.takes takes).provides_or with ⟨-, provides⟩ | ⟨-, -, hstatics, -⟩
    · exact provides.present ih
    · intro entry hentry
      rw [after, hstatics] at hentry
      cases hentry

/-- Whoever waits was registered. -/
theorem enlisted (chronicle : Chronicle options history)
    (hwaits : (name, object) ∈ (after options history).system.statics) :
    Enlisted name object history := by
  induction chronicle with
  | start => cases hwaits
  | takes before takes ih =>
    rcases (before.takes takes).provides_or with ⟨hclears, provides⟩ | ⟨-, -, hstatics, -⟩
    · rcases ((provides.waits _).mp hwaits).1 with hbefore | hnew
      · exact .inr ⟨hclears, ih hbefore⟩
      · exact .inl hnew
    · rw [after, hstatics] at hwaits
      cases hwaits

/-- Whoever was registered waits or has got a class. -/
theorem waits_or_bound (chronicle : Chronicle options history)
    (enlisted : Enlisted name object history) :
    (name, object) ∈ (after options history).system.statics ∨
      ∃ cls, (after options history).heap.classOf? object = some cls := by
  induction chronicle with
  | start => exact enlisted.elim
  | @takes chapter history before takes ih =>
    rcases (before.takes takes).provides_or with ⟨-, provides⟩ | ⟨hclears, hdealings, -, -⟩
    · have hawaits : (after options history).Awaits chapter.dealings (name, object) ∨
          ∃ cls, chapter.session.heap.classOf? object = some cls := by
        rcases enlisted with hnew | ⟨-, henlisted⟩
        · exact .inl (.inr hnew)
        · rcases ih henlisted with hwaits | ⟨cls, hcls⟩
          · exact .inl (.inl hwaits)
          · exact .inr ⟨cls, provides.kept object cls hcls⟩
      rcases hawaits with awaits | hbound
      · cases hhome : chapter.session.classForName? name with
        | none => exact .inl ((provides.waits _).mpr ⟨awaits, hhome⟩)
        | some cls => exact .inr (provides.bound before.present name object cls awaits hhome)
      · exact .inr hbound
    · rcases enlisted with hnew | ⟨hkept, -⟩
      · rw [hdealings] at hnew
        cases hnew
      · cases hclears.symm.trans hkept

/-- Whoever is registered when a class of the name is linked has got a class. -/
theorem bound_of_meets (chronicle : Chronicle options history)
    (meets : Meets options name object history cls) :
    ∃ own, (after options history).heap.classOf? object = some own := by
  obtain ⟨henlisted, hhome⟩ := meets
  refine (chronicle.waits_or_bound henlisted).resolve_left fun hwaits => ?_
  cases (chronicle.reachable.unlinked _ hwaits).symm.trans hhome

theorem kept (chronicle : Chronicle options history) (hsuffix : moment <:+ history)
    (hcls : (after options moment).heap.classOf? object = some cls) :
    (after options history).heap.classOf? object = some cls :=
  ((chronicle.onward hsuffix).spec (chronicle.of_suffix hsuffix).reachable).2.classOf object cls
    hcls

/-- An object that was not made with a class has got the first one that it met. -/
theorem first_of_bound (chronicle : Chronicle options history)
    (hmade : ∀ chapter ∈ history, object ∉ chapter.dealings.instances)
    (hcls : (after options history).heap.classOf? object = some cls) :
    ∃ name moment, moment <:+ history ∧ Meets options name object moment cls ∧
      ∀ earlier name other, earlier <:+ moment → Meets options name object earlier other →
        earlier = moment := by
  induction chronicle with
  | start => cases hcls
  | @takes chapter history before takes ih =>
    have hbefore : (after options history).heap.classOf? object = some cls →
        ∃ name moment, moment <:+ chapter :: history ∧ Meets options name object moment cls ∧
          ∀ earlier name other, earlier <:+ moment → Meets options name object earlier other →
            earlier = moment := by
      intro hcls
      obtain ⟨name, moment, hsuffix, hmoment⟩ :=
        ih (fun other h => hmade other (List.mem_cons_of_mem _ h)) hcls
      exact ⟨name, moment, hsuffix.trans (List.suffix_cons _ _), hmoment⟩
    rcases (before.takes takes).provides_or with ⟨hclears, provides⟩ | ⟨-, -, -, hobjects⟩
    · cases hown : (after options history).heap.classOf? object with
      | some own =>
        cases (provides.kept object own hown).symm.trans hcls
        exact hbefore hown
      | none =>
        rcases provides.origin object cls (hmade chapter List.mem_cons_self) hcls with
          hearlier | ⟨name, awaits, hhome⟩
        · exact hbefore hearlier
        · refine ⟨name, chapter :: history, List.suffix_rfl, ⟨?_, hhome⟩, ?_⟩
          · rcases awaits with hwaits | hnew
            · exact .inr ⟨hclears, before.enlisted hwaits⟩
            · exact .inl hnew
          · -- had it met a class before, it would have got one
            intro earlier name other hsuffix meets
            rcases List.suffix_cons_iff.mp hsuffix with heq | hsuffix
            · exact heq
            · obtain ⟨own, hearlier⟩ := (before.of_suffix hsuffix).bound_of_meets meets
              cases hown.symm.trans (before.kept hsuffix hearlier)
    · apply hbefore
      rw [← Heap.classOf?_of_objects hobjects]
      exact hcls

theorem hasObject (chronicle : Chronicle options history) (hmem : chapter ∈ history)
    (hmade : object ∈ chapter.dealings.literals ++ chapter.dealings.instances) :
    (after options history).heap.HasObject object := by
  induction chronicle with
  | start => cases hmem
  | @takes last history before takes ih =>
    rcases (before.takes takes).provides_or with ⟨-, provides⟩ | ⟨-, hdealings, -, hobjects⟩
    · rcases List.mem_cons.mp hmem with rfl | hmem
      · exact (provides.made object hmade).2
      · exact provides.stay object (ih hmem)
    · rw [after, Heap.hasObject_of_objects hobjects]
      rcases List.mem_cons.mp hmem with rfl | hmem
      · rw [hdealings] at hmade
        cases hmade
      · exact ih hmem

/-- What a chapter makes was not made before. -/
theorem not_made (chronicle : Chronicle options (chapter :: history)) {earlier : Chapter}
    (hmem : earlier ∈ history)
    (hmade : object ∈ earlier.dealings.literals ++ earlier.dealings.instances) :
    object ∉ chapter.dealings.literals ++ chapter.dealings.instances := by
  intro hagain
  rcases chronicle.provides_or with ⟨-, provides⟩ | ⟨-, hdealings, -, -⟩
  · have before := chronicle.of_suffix (List.suffix_cons _ _)
    exact (provides.made object hagain).1 (before.hasObject hmem hmade)
  · rw [hdealings] at hagain
    cases hagain

/-- A literal is not made as an instance. -/
theorem not_mem_instances (chronicle : Chronicle options history)
    (hliteral : ∃ chapter ∈ history, object ∈ chapter.dealings.literals) :
    ∀ chapter ∈ history, object ∉ chapter.dealings.instances := by
  induction chronicle with
  | start =>
    obtain ⟨_, hmem, -⟩ := hliteral
    cases hmem
  | @takes last history before takes ih =>
    obtain ⟨chapter, hmem, hliteral⟩ := hliteral
    intro other hother hinstance
    have hnew {earlier : Chapter} (hearlier : earlier ∈ history) :
        object ∈ earlier.dealings.literals ++ earlier.dealings.instances →
          object ∉ last.dealings.literals ++ last.dealings.instances :=
      (before.takes takes).not_made hearlier
    rcases List.mem_cons.mp hmem with rfl | hearlier
    · rcases List.mem_cons.mp hother with rfl | hearlier
      · rcases takes.nil_or_nil with hnil | hnil
        · exact List.not_mem_nil (hnil ▸ hliteral)
        · exact List.not_mem_nil (hnil ▸ hinstance)
      · exact hnew hearlier (List.mem_append_right _ hinstance) (List.mem_append_left _ hliteral)
    · rcases List.mem_cons.mp hother with rfl | hlater
      · exact hnew hearlier (List.mem_append_left _ hliteral) (List.mem_append_right _ hinstance)
      · exact ih ⟨chapter, hearlier, hliteral⟩ other hlater hinstance

end Chronicle

/-- In no reachable session does an object wait under the name of a linked class. A literal that was
registered under one name only is bound if and only if a class of that name was linked while it was
registered, right away or later on, and its class is the first one. An object keeps its class in all
later sessions. When a class is removed, whoever waits still waits and no object gets or loses a
class; and as long as the system is not shut down, whoever waits has got a class once one of that
name is linked again, and waits until it has got one. -/
theorem literals_bound_when_linked (options : Options) :
    (∀ session : Session, session.Reachable options → ∀ name object,
      (name, object) ∈ session.system.statics → session.classForName? name = none) ∧
    (∀ history name object, Chronicle options history →
      (∃ chapter ∈ history, object ∈ chapter.dealings.literals) →
      (∀ chapter ∈ history, ∀ other, (other, object) ∈ chapter.dealings.entries → other = name) →
      ((∃ cls, (after options history).heap.classOf? object = some cls) ↔
        ∃ moment cls, moment <:+ history ∧ Meets options name object moment cls) ∧
      ∀ cls, (after options history).heap.classOf? object = some cls →
        ∃ moment, moment <:+ history ∧ Meets options name object moment cls ∧
          ∀ earlier other, earlier <:+ moment → Meets options name object earlier other →
            earlier = moment) ∧
    (∀ (session final : Session) object cls, session.Reachable options → session.Onward final →
      session.heap.classOf? object = some cls → final.heap.classOf? object = some cls) ∧
    (∀ (session final : Session) name reply, session.Reachable options →
      (Operation.unregister name).perform session = .ok reply final →
      final.system.statics = session.system.statics ∧
        final.heap.classOf? = session.heap.classOf?) ∧
    ∀ later history name object, Chronicle options (later ++ history) →
      (name, object) ∈ (after options history).system.statics →
      (∀ chapter ∈ later, chapter.clears = false) →
      (∀ cls, (after options (later ++ history)).classForName? name = some cls →
        ∃ own, (after options (later ++ history)).heap.classOf? object = some own) ∧
      ((after options (later ++ history)).heap.classOf? object = none →
        (name, object) ∈ (after options (later ++ history)).system.statics) := by
  refine ⟨fun session reachable name object hwaits => reachable.unlinked _ hwaits, ?_, ?_, ?_, ?_⟩
  · intro history name object chronicle hliteral honly
    have hfirst : ∀ cls, (after options history).heap.classOf? object = some cls →
        ∃ moment, moment <:+ history ∧ Meets options name object moment cls ∧
          ∀ earlier other, earlier <:+ moment → Meets options name object earlier other →
            earlier = moment := by
      intro cls hcls
      obtain ⟨other, moment, hsuffix, meets, hearliest⟩ :=
        chronicle.first_of_bound (chronicle.not_mem_instances hliteral) hcls
      obtain ⟨chapter, hmem, hentry⟩ := meets.1.mem_entries
      cases honly chapter (hsuffix.subset hmem) other hentry
      exact ⟨moment, hsuffix, meets, fun earlier other => hearliest earlier name other⟩
    refine ⟨⟨?_, ?_⟩, hfirst⟩
    · rintro ⟨cls, hcls⟩
      obtain ⟨moment, hsuffix, meets, -⟩ := hfirst cls hcls
      exact ⟨moment, cls, hsuffix, meets⟩
    · rintro ⟨moment, cls, hsuffix, meets⟩
      obtain ⟨own, hown⟩ := (chronicle.of_suffix hsuffix).bound_of_meets meets
      exact ⟨own, chronicle.kept hsuffix hown⟩
  · exact fun session final object cls reachable onward => (onward.spec reachable).2.classOf _ _
  · intro session final name reply _ hrun
    have hfinal := (Act.apart_unregister name).eq_beside hrun
    exact ⟨congrArg (·.system.statics) hfinal,
      Heap.classOf?_of_objects (congrArg (·.heap.objects) hfinal)⟩
  · intro later history name object chronicle hwaits hkept
    have before := chronicle.of_suffix (List.suffix_append later history)
    have henlisted := (before.enlisted hwaits).append hkept
    refine ⟨fun cls hcls => chronicle.bound_of_meets ⟨henlisted, hcls⟩, fun hnone => ?_⟩
    refine (chronicle.waits_or_bound henlisted).resolve_right ?_
    rintro ⟨cls, hcls⟩
    cases hnone.symm.trans hcls

def performed (options : Options) (history : List Chapter) (operation : Operation) :
    List Chapter :=
  match operation.perform (after options history) with
  | .ok reply final => ⟨operation.dealings reply, operation.clears, final⟩ :: history
  | .error _ _ => history

def registered (options : Options) (history : List Chapter) (spec : ClassSpec) : List Chapter :=
  match Act.register spec (after options history) with
  | .ok _ final => ⟨.nothing, false, final⟩ :: history
  | .error _ _ => history

theorem Chronicle.performed (chronicle : Chronicle options history) {operation : Operation}
    (known : ∀ reply, ∀ entry ∈ (operation.dealings reply).entries,
      (after options history).heap.HasObject entry.2) :
    Chronicle options (performed options history operation) := by
  unfold Session.performed
  cases hrun : operation.perform (after options history) with
  | ok reply final => exact chronicle.takes (.perform (known reply) hrun)
  | error reason final => exact chronicle

theorem Chronicle.registered (chronicle : Chronicle options history) (spec : ClassSpec) :
    Chronicle options (registered options history spec) := by
  unfold Session.registered
  cases hrun : Act.register spec (after options history) with
  | ok reply final => exact chronicle.takes (.register hrun)
  | error reason final => exact chronicle

/-- The class that the literal waits for is removed before it can link. The literal gets the next
class of the name, and keeps it when that one is removed and another links. -/
theorem literals_bound_after_removal :
    let waiting := registered {} (performed {} (performed {} [] (.createLiteral []))
      (.registerStatics "Leaf" [⟨0⟩])) leafSample
    let removed := performed {} waiting (.unregister "Leaf")
    let linked := registered {} (registered {} removed leafSample) rootSample
    let again := registered {} (registered {} (performed {} linked (.unregister "Root")) rootSample)
      leafSample
    Chronicle {} again ∧ ("Leaf", ⟨0⟩) ∈ (after {} removed).system.statics ∧
      (after {} linked).heap.classOf? ⟨0⟩ = some ⟨⟨1⟩, .plain⟩ ∧
      (after {} again).classForName? "Leaf" = some ⟨⟨4⟩, .plain⟩ ∧
      (after {} again).heap.classOf? ⟨0⟩ = some ⟨⟨1⟩, .plain⟩ ∧
      ∃ moment, moment <:+ again ∧ Meets {} "Leaf" ⟨0⟩ moment ⟨⟨1⟩, .plain⟩ ∧
        ∀ earlier other, earlier <:+ moment → Meets {} "Leaf" ⟨0⟩ earlier other →
          earlier = moment := by
  intro waiting removed linked again
  have hwaiting : Chronicle {} waiting := by
    refine ((Chronicle.start.performed ?_).performed ?_).registered _
    · exact fun _ _ h => absurd h List.not_mem_nil
    · intro _ entry hentry
      rw [List.mem_singleton.mp hentry]
      decide +kernel
  have hlinked : Chronicle {} linked :=
    ((hwaiting.performed fun reply _ h => absurd h List.not_mem_nil).registered _).registered _
  have hagain : Chronicle {} again :=
    ((hlinked.performed fun reply _ h => absurd h List.not_mem_nil).registered _).registered _
  have hliteral : ∃ chapter ∈ again, ⟨0⟩ ∈ chapter.dealings.literals := by decide +kernel
  have honly : ∀ chapter ∈ again, ∀ entry ∈ chapter.dealings.entries, entry.1 = "Leaf" := by
    decide +kernel
  have hclass : (after {} again).heap.classOf? ⟨0⟩ = some ⟨⟨1⟩, .plain⟩ := by decide +kernel
  obtain ⟨-, hbound, -⟩ := literals_bound_when_linked {}
  obtain ⟨-, hfirst⟩ := hbound again "Leaf" ⟨0⟩ hagain hliteral
    fun chapter hmem other hentry => honly chapter hmem (other, ⟨0⟩) hentry
  refine ⟨hagain, ?_, ?_, ?_, hclass, hfirst _ hclass⟩ <;> decide +kernel

end Session

end LateBinding
