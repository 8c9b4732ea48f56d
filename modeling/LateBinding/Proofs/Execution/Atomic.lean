import LateBinding.Proofs.Execution.Reachable

/-!
# What fails changes nothing

An error that the caller receives is decided before anything is changed: the name of a class, the
handle, the selector, and for a unit the symbols and names of all that it declares. So whatever is
answered by an error leaves everything as it was.

While a unit is loaded its classes are entered one after the other, with selectors interned in
between. Looking at each name once more right before its class is entered would find it free: the
classes of a unit have different names, and interning enters no class.
-/

namespace LateBinding

namespace Act

variable {α β ε : Type}

/-! ### Errors come first -/

/-- If the reply is an error, the session is as it was. -/
def Atomic (action : Act (Except ε α)) : Prop :=
  ∀ start, action.Leads True start fun reply final => ∀ error, reply = .error error → final = start

/-- The reply is no error. -/
def Succeeds (action : Act (Except ε α)) : Prop :=
  ∀ start, action.Leads True start fun reply _ => ∀ error, reply ≠ .error error

theorem atomic_error (error : ε) : (pure (.error error) : Act (Except ε α)).Atomic :=
  fun _ _ _ => rfl

theorem succeeds_ok (value : α) : (pure (.ok value) : Act (Except ε α)).Succeeds :=
  fun _ _ h => nomatch h

theorem Succeeds.atomic {action : Act (Except ε α)} (succeeds : action.Succeeds) :
    action.Atomic := fun start =>
  (succeeds start).mono fun _ _ hreply error herror => absurd herror (hreply error)

theorem succeeds_bind (first : Act α) {next : α → Act (Except ε β)}
    (hnext : ∀ value, (next value).Succeeds) : (first >>= next).Succeeds := by
  intro start
  rw [leads_bind]
  unfold Leads
  cases first start with
  | ok value after => exact hnext value after
  | error reason after => trivial

/-- Nothing may come after an error but the error itself. -/
theorem Atomic.bind {first : Act (Except ε α)} {next : Except ε α → Act (Except ε β)}
    (hfirst : first.Atomic) (herror : ∀ error, (next (.error error)).Atomic)
    (hok : ∀ value, (next (.ok value)).Succeeds) : (first >>= next).Atomic := by
  intro start
  rw [leads_bind]
  refine (hfirst start).mono ?_
  intro reply after hunchanged
  cases reply with
  | error error =>
    rw [hunchanged error rfl]
    exact herror error start
  | ok value =>
    exact (hok value after).mono fun _ _ hreply error herror => absurd herror (hreply error)

theorem atomic_get_bind {next : Session → Act (Except ε α)} (h : ∀ session, (next session).Atomic) :
    (get >>= next).Atomic := fun start => h start start

theorem atomic_unregister (name : String) : (unregister name).Atomic := by
  apply atomic_get_bind
  intro session
  cases session.system.registry.idOf? name with
  | none => exact atomic_error _
  | some id => exact (succeeds_bind _ succeeds_ok).atomic

theorem atomic_createInstance (cls : ClassRef) : (createInstance cls).Atomic := by
  apply atomic_get_bind
  intro session
  dsimp only
  split
  · exact atomic_error _
  · split
    · exact atomic_error _
    · exact (succeeds_bind _ fun _ => succeeds_ok _).atomic

theorem atomic_resolveMethod (cls : ClassRef) (sel : Sel) (imp : Imp) (types : Option String) :
    (resolveMethod cls sel imp types).Atomic := by
  apply atomic_get_bind
  intro session
  cases session.system.registry.resolve session.heap cls with
  | error error => exact atomic_error _
  | ok id =>
    dsimp only
    split
    · exact (succeeds_bind _ fun _ => succeeds_ok _).atomic
    · exact atomic_error _

theorem atomic_addMethod (cls : ClassRef) (sel : Sel) (imp : Imp) (types : Option String) :
    (addMethod cls sel imp types).Atomic :=
  (atomic_resolveMethod cls sel imp types).bind (fun _ => atomic_error _)
    fun _ => succeeds_bind _ succeeds_ok

theorem atomic_replaceMethod (cls : ClassRef) (sel : Sel) (imp : Imp) (types : Option String) :
    (replaceMethod cls sel imp types).Atomic :=
  (atomic_resolveMethod cls sel imp types).bind (fun _ => atomic_error _)
    fun _ => succeeds_bind _ succeeds_ok

theorem atomic_register (spec : ClassSpec) : (register spec).Atomic := by
  apply atomic_get_bind
  intro session
  split
  · exact atomic_error _
  · exact (succeeds_bind _ fun _ => succeeds_bind _ fun _ => succeeds_ok _).atomic

theorem atomic_load (unit : LoadUnit) (imps : String → Option Imp) : (load unit imps).Atomic := by
  apply atomic_get_bind
  intro session
  cases unit.resolve imps session.system.registry with
  | error error => exact atomic_error _
  | ok declared => exact (succeeds_bind _ succeeds_ok).atomic

/-! ### Looking at a name once more -/

/-- Enter a class unless its name is taken by the time its methods are defined. -/
def enterIfFree (spec : ClassSpec) : Act (Except RegistryError (PairId × List ClassId)) := do
  let methods ← defineMethods spec.methods
  if ((← get).system.registry.idOf? spec.name).isSome then
    return .error (.duplicateClass spec.name)
  return .ok (← onClasses (Linking.register
    { name := spec.name, superclass := spec.superclass, size := spec.size, methods
      protocols := spec.protocols }))

/-- Enter classes one after the other, as long as their names are free. -/
def enterAllIfFree : List ClassSpec → Act (Except RegistryError (List ClassId))
  | [] => return .ok []
  | spec :: rest => do
    match ← enterIfFree spec with
    | .error error => return .error error
    | .ok (_, linked) =>
      match ← enterAllIfFree rest with
      | .error error => return .error error
      | .ok others => return .ok (linked ++ others)

/-- What is done for a unit after its classes have been entered. -/
def finishUnit (unit : LoadUnit) (classes : List ClassSpec) (categories : List CategorySpec)
    (linked : List ClassId) : Act (LoadReport × List PairId) := do
  let statuses ← categories.mapM applyCategory
  let pairs ← finishLinking linked
  let statics := (← unit.statics.mapM createStatics).flatten
  let heap := (← get).heap
  let loadReport : LoadReport :=
    { unit := unit.name
      selectors := unit.selectors.length
      registered := classes.map (·.name)
      linked := pairs.map fun pair => (heap.pair pair).name
      categoriesApplied := statuses.count .applied
      categoriesPending := statuses.count .pending
      statics }
  report (.unitExecuted unit.name loadReport.registered.length loadReport.linked.length)
  return (loadReport, pairs)

/-- Register a class, looking at its name once more before it is entered. -/
def registerIfFree (spec : ClassSpec) : Act (Except RegistryError (PairId × List PairId)) := do
  if ((← get).system.registry.idOf? spec.name).isSome then
    return .error (.duplicateClass spec.name)
  match ← enterIfFree spec with
  | .error error => return .error error
  | .ok (pair, linked) => return .ok (pair, ← finishLinking linked)

/-- Load a unit, looking at the name of each class once more before it is entered. A name that is
taken then would end the loading in the middle. -/
def loadIfFree (unit : LoadUnit) (imps : String → Option Imp) :
    Act (Except LoadError (LoadReport × List PairId)) := do
  match unit.resolve imps (← get).system.registry with
  | .error error => return .error error
  | .ok (classes, categories) =>
    unit.selectors.forM fun ref => discard (intern ref.name ref.types)
    match ← enterAllIfFree classes with
    | .error error => return .error (.registry error)
    | .ok linked => return .ok (← finishUnit unit classes categories linked)

theorem execute_eq (unit : LoadUnit) (classes : List ClassSpec) (categories : List CategorySpec) :
    execute unit classes categories =
      (unit.selectors.forM (fun ref => discard (intern ref.name ref.types)) >>= fun _ =>
        enterClasses classes >>= finishUnit unit classes categories) := rfl

section

variable {first : Act α} {start after : Session} {reason : Abort}

theorem bind_of_ok {value : α} (h : first start = .ok value after) (next : α → Act β) :
    (first >>= next) start = next value after := by
  change EStateM.bind first next start = _
  rw [EStateM.bind, h]

theorem bind_of_error (h : first start = .error reason after) (next : α → Act β) :
    (first >>= next) start = .error reason after := by
  change EStateM.bind first next start = _
  rw [EStateM.bind, h]

theorem map_of_ok {value : α} (h : first start = .ok value after) (f : α → β) :
    (f <$> first) start = .ok (f value) after := by
  change EStateM.map f first start = _
  rw [EStateM.map, h]

theorem map_of_error (h : first start = .error reason after) (f : α → β) :
    (f <$> first) start = .error reason after := by
  change EStateM.map f first start = _
  rw [EStateM.map, h]

theorem run_get (start : Session) : (get : Act Session) start = .ok start start := rfl

end

variable {policy : CategoryConflictPolicy} {start : Session}

/-- Defining methods enters no class. -/
theorem enterIfFree_eq {spec : ClassSpec} (hfree : start.system.registry.idOf? spec.name = none) :
    enterIfFree spec start = (Except.ok <$> enterClass spec) start := by
  have hkeeps : (defineMethods spec.methods).Keeps fun session =>
      session.system.registry = start.system.registry :=
    keeps_defineMethods (fun _ _ same h => same.registry.trans h) spec.methods
  rw [enterIfFree, enterClass, map_bind]
  cases hrun : defineMethods spec.methods start with
  | error reason final => rw [bind_of_error hrun, bind_of_error hrun]
  | ok methods final =>
    have hname : ¬ (final.system.registry.idOf? spec.name).isSome = true := by
      rw [(hkeeps start rfl).of_ok hrun, hfree]
      decide
    rw [bind_of_ok hrun, bind_of_ok hrun, bind_of_ok (run_get final), if_neg hname]
    rfl

theorem enterAllIfFree_eq {specs : List ClassSpec} (atRest : start.AtRest policy)
    (hnodup : (specs.map (·.name)).Nodup)
    (hfree : ∀ spec ∈ specs, start.system.registry.idOf? spec.name = none) :
    enterAllIfFree specs start = (Except.ok <$> enterClasses specs) start := by
  -- entering a class leaves the names of the others free
  induction specs generalizing start with
  | nil => rfl
  | cons spec rest ih =>
    rw [List.map_cons, List.nodup_cons] at hnodup
    have hhere := hfree spec List.mem_cons_self
    have hhead := enterIfFree_eq hhere
    rw [enterAllIfFree, enterClasses_cons, map_bind]
    cases hrun : enterClass spec start with
    | error reason after =>
      rw [map_of_error hrun] at hhead
      rw [bind_of_error hhead, bind_of_error hrun]
    | ok entered after =>
      obtain ⟨hentered, hnames⟩ := (enterClass_leads spec atRest hhere).of_ok hrun
      have htail := ih hentered hnodup.2 (free_of_enterClass hnodup.1 hfree hnames)
      rw [map_of_ok hrun] at hhead
      rw [bind_of_ok hhead, bind_of_ok hrun]
      cases hothers : enterClasses rest after with
      | error reason final =>
        rw [map_of_error hothers] at htail
        rw [map_of_error (map_of_error hothers _)]
        exact bind_of_error htail _
      | ok others final =>
        rw [map_of_ok hothers] at htail
        rw [map_of_ok (map_of_ok hothers _)]
        exact bind_of_ok htail _

theorem registerIfFree_eq (spec : ClassSpec) (start : Session) :
    registerIfFree spec start = register spec start := by
  rw [registerIfFree, register, bind_of_ok (run_get start), bind_of_ok (run_get start)]
  split
  · rfl
  · next hfree =>
    have hhead := enterIfFree_eq (Option.not_isSome_iff_eq_none.mp hfree)
    cases hrun : enterClass spec start with
    | error reason after =>
      rw [map_of_error hrun] at hhead
      rw [bind_of_error hhead, bind_of_error hrun]
    | ok entered after =>
      rw [map_of_ok hrun] at hhead
      rw [bind_of_ok hhead, bind_of_ok hrun]

theorem loadIfFree_eq (unit : LoadUnit) (imps : String → Option Imp) (atRest : start.AtRest policy) :
    loadIfFree unit imps start = load unit imps start := by
  rw [loadIfFree, load, bind_of_ok (run_get start), bind_of_ok (run_get start)]
  cases hresolve : unit.resolve imps start.system.registry with
  | error error => rfl
  | ok declared =>
    obtain ⟨classes, categories⟩ := declared
    obtain ⟨hnodup, hfree⟩ := LoadUnit.resolve_names hresolve
    dsimp only
    rw [execute_eq, bind_assoc]
    cases hrun : unit.selectors.forM (fun ref => discard (intern ref.name ref.types)) start with
    | error reason after => rw [bind_of_error hrun, bind_of_error hrun]
    | ok _ after =>
      obtain ⟨hafter, hregistry⟩ := (keeps_selectors unit start ⟨atRest, rfl⟩).of_ok hrun
      have hall := enterAllIfFree_eq hafter hnodup (by rwa [hregistry])
      rw [bind_of_ok hrun, bind_of_ok hrun, bind_assoc]
      cases hentered : enterClasses classes after with
      | error reason final =>
        rw [map_of_error hentered] at hall
        rw [bind_of_error hall, bind_of_error hentered]
      | ok linked final =>
        rw [map_of_ok hentered] at hall
        rw [bind_of_ok hall, bind_of_ok hentered]

end Act

/-! ### Failing operations and requests -/

inductive Operation.Fails : (operation : Operation) → operation.Reply → Prop
  | unregister {name : String} (error : RegistryError) : Fails (.unregister name) (.error error)
  | addMethod {cls : ClassRef} {sel : Sel} {imp : Imp} {types : Option String}
      (error : RegistryError) : Fails (.addMethod cls sel imp types) (.error error)
  | replaceMethod {cls : ClassRef} {sel : Sel} {imp : Imp} {types : Option String}
      (error : RegistryError) : Fails (.replaceMethod cls sel imp types) (.error error)
  | createInstance {cls : ClassRef} (error : RegistryError) :
      Fails (.createInstance cls) (.error error)

inductive Request.Fails : (request : Request) → request.Reply → Prop
  | register {spec : ClassSpec} (error : RegistryError) : Fails (.register spec) (.error error)
  | load {unit : LoadUnit} {imps : String → Option Imp} (error : LoadError) :
      Fails (.load unit imps) (.error error)
  | loadBytes {bytes : List UInt8} {imps : String → Option Imp} (error : LoadError) :
      Fails (.loadBytes bytes imps) (.error error)

theorem Operation.Fails.unchanged {operation : Operation} {reply : operation.Reply}
    {start final : Session} (fails : operation.Fails reply)
    (hrun : operation.perform start = .ok reply final) : final = start := by
  cases fails with
  | unregister error => exact (Act.atomic_unregister _ start).of_ok hrun error rfl
  | addMethod error => exact (Act.atomic_addMethod _ _ _ _ start).of_ok hrun error rfl
  | replaceMethod error => exact (Act.atomic_replaceMethod _ _ _ _ start).of_ok hrun error rfl
  | createInstance error => exact (Act.atomic_createInstance _ start).of_ok hrun error rfl

namespace Run

variable {σ α β : Type} {world final : World σ}

theorem liftAct_eq_ok_iff {action : Act α} {reply : α} :
    (liftAct action : Run σ α) world = .ok reply final ↔
      ∃ session, action world.session = .ok reply session ∧ final = { world with session } := by
  obtain ⟨session, host, held, pinned⟩ := world
  unfold liftAct
  dsimp only
  cases action session with
  | ok value after =>
    constructor
    · rintro ⟨⟩
      exact ⟨after, rfl, rfl⟩
    · rintro ⟨_, ⟨⟩, rfl⟩
      rfl
  | error reason after =>
    constructor
    · exact fun h => nomatch h
    · rintro ⟨_, ⟨⟩, _⟩

/-- An action that changes nothing if it fails, followed by something that does not fail. -/
theorem unchanged_of_atomic {ε γ : Type} {action : Act (Except ε α)} (atomic : action.Atomic)
    {next : Except ε α → Run σ (Except ε γ)} {error : ε}
    (herror : ∀ error, next (.error error) = pure (.error error))
    (hok : ∀ value middle final, next (.ok value) middle ≠ .ok (.error error) final)
    (hrun : (liftAct action >>= next) world = .ok (.error error) final) : final = world := by
  obtain ⟨reply, middle, hlift, hnext⟩ := EStateM.bind_eq_ok_iff.mp hrun
  obtain ⟨session, haction, rfl⟩ := liftAct_eq_ok_iff.mp hlift
  cases reply with
  | error error =>
    rw [herror] at hnext
    cases hnext
    rw [(atomic world.session).of_ok haction error rfl]
  | ok value => exact absurd hnext (hok value _ final)

/-- What ends in a reply of its own does not end in another one. -/
theorem ne_of_bind_pure (first : Run σ α) {reply reply' : β} (hne : reply ≠ reply') :
    (first >>= fun _ => pure reply) world ≠ .ok reply' final := by
  intro hrun
  obtain ⟨_, _, _, hpure⟩ := EStateM.bind_eq_ok_iff.mp hrun
  cases hpure
  exact hne rfl

end Run

namespace Host

variable {σ : Type} {world final : World σ} (host : Host σ)
  {answer : (request : Request) → Run σ request.Reply}

theorem load_unchanged {unit : LoadUnit} {imps : String → Option Imp} {error : LoadError}
    (hrun : host.load answer unit imps world = .ok (.error error) final) : final = world := by
  rw [Host.load] at hrun
  refine Run.unchanged_of_atomic (Act.atomic_load unit imps) ?_ ?_ hrun
  · exact fun _ => rfl
  · exact fun _ _ _ => Run.ne_of_bind_pure _ (by simp)

theorem unchanged_of_fails {request : Request} {reply : request.Reply} (fails : request.Fails reply)
    (depth : Nat) (hrun : host.answer depth request world = .ok reply final) : final = world := by
  cases depth with
  | zero => cases hrun
  | succ depth =>
    cases fails with
    | register error =>
      rw [answer, answerWith] at hrun
      refine Run.unchanged_of_atomic (Act.atomic_register _) ?_ ?_ hrun
      · exact fun _ => rfl
      · exact fun _ _ _ => Run.ne_of_bind_pure _ (by simp)
    | load error => exact host.load_unchanged hrun
    | @loadBytes bytes imps error =>
      rw [answer, answerWith] at hrun
      cases hdecode : LoadUnit.decode bytes with
      | error invalid =>
        rw [hdecode] at hrun
        cases hrun
        rfl
      | ok unit =>
        rw [hdecode] at hrun
        exact host.load_unchanged hrun

end Host

namespace Session

/-- In every reachable session, an operation or a request that is answered by an error leaves
everything as it was. Looking at names once more, right before the classes are entered, makes no
difference to registering and loading: none is found to be taken there. -/
theorem Reachable.failure_changes_nothing {σ : Type} {options : Options} {world : World σ}
    (reachable : world.session.Reachable options) :
    (∀ (operation : Operation) (reply : operation.Reply) (session : Session),
      operation.perform world.session = .ok reply session → operation.Fails reply →
        session = world.session) ∧
    (∀ (host : Host σ) (depth : Nat) (request : Request) (reply : request.Reply) (final : World σ),
      host.answer depth request world = .ok reply final → request.Fails reply → final = world) ∧
    (∀ spec, Act.registerIfFree spec world.session = Act.register spec world.session) ∧
    ∀ unit imps, Act.loadIfFree unit imps world.session = Act.load unit imps world.session := by
  refine ⟨?_, ?_, ?_, ?_⟩
  · intro operation reply session hrun fails
    exact fails.unchanged hrun
  · intro host depth request reply final hrun fails
    exact host.unchanged_of_fails fails depth hrun
  · intro spec
    exact Act.registerIfFree_eq spec world.session
  · intro unit imps
    exact Act.loadIfFree_eq unit imps reachable.atRest

/-- A unit whose second class has the name of one that is registered. -/
def takenSample : LoadUnit :=
  { version := 1, flags := 0, name := "taken.o"
    selectors := [⟨"ping", none⟩]
    classes := [⟨"Leaf", some "Root", 0, ⟨[], []⟩, []⟩, ⟨"Root", none, 0, ⟨[], []⟩, []⟩]
    categories := [], statics := [] }

theorem failure_changes_nothing_taken :
    let host : Host Unit := ⟨fun _ _ => .done (.ok .nil), fun _ => []⟩
    let world : World Unit := ⟨(start {}).afterRegister rootSample, (), [], []⟩
    ∃ final, host.answer 1 (.load takenSample fun _ => none) world =
      .ok (.error (.registry (.duplicateClass "Root"))) final ∧ final = world := by
  intro host world
  have reachable : world.session.Reachable {} := Reachable.start.afterRegister rootSample
  have hresolve : takenSample.resolve (fun _ => none) world.session.system.registry =
      .error (.registry (.duplicateClass "Root")) := by
    have hnames : (world.session.system.registry.idOf? "Leaf").isSome = false ∧
        (world.session.system.registry.idOf? "Root").isSome = true := by decide +kernel
    simp [LoadUnit.resolve, takenSample, LoadUnit.resolveClasses, LoadUnit.resolveCategories,
      LoadUnit.resolveSides, LoadUnit.resolveMethods, hnames, Bind.bind, Except.bind, pure,
      Except.pure, throw, throwThe, MonadExceptOf.throw]
  have hrun : host.answer 1 (.load takenSample fun _ => none) world =
      .ok (.error (.registry (.duplicateClass "Root"))) world := by
    have hload : Act.load takenSample (fun _ => none) world.session =
        .ok (.error (.registry (.duplicateClass "Root"))) world.session := by
      rw [Act.load, Act.bind_of_ok (Act.run_get _), hresolve]
      rfl
    exact EStateM.bind_eq_ok_iff.mpr ⟨_, _, Run.liftAct_eq_ok_iff.mpr ⟨_, hload, rfl⟩, rfl⟩
  exact ⟨world, hrun, (reachable.failure_changes_nothing).2.1 host 1 _ _ _ hrun (.load _)⟩

end Session

end LateBinding
