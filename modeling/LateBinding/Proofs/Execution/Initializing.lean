import LateBinding.Proofs.Dispatch.Answers
import LateBinding.Proofs.Execution.Chains
import LateBinding.Proofs.Execution.Walking

/-!
# Initializing classes

When a request has linked classes, nothing is done but to attend to them and to those above them.
One after the other their turns come, that of a class after that of its superclass, whatever the
programs that run in between do, for what was initialized stays so and links stay as they are. In
its turn a class is sent the initializer once, if its metaclass implements it, and what the
initializer replies makes no difference. All classes that linked have had their turns when the
request replies.
-/

namespace LateBinding

open Session

namespace Run

variable {σ α β : Type} {world : World σ}

theorem settle_bind (holds : σ → List Value) (next : Unit → Run σ α) :
    (settle holds >>= next) world = next () (world.settle holds) := rfl

theorem bind_apply (first : Run σ α) (next : α → Run σ β) (world : World σ) :
    (first >>= next) world = match first world with
      | .ok value middle => next value middle
      | .error halt final => .error halt final := by
  change EStateM.bind first next world = _
  rw [EStateM.bind]
  cases first world <;> rfl

theorem get_bind (next : World σ → Run σ α) :
    ((get : Run σ (World σ)) >>= next) world = next world world := rfl

theorem liftAct_bind {action : Act α} {next : α → Run σ β} {reply : α} {entered : Session}
    (hrun : action world.session = .ok reply entered) :
    (liftAct action >>= next) world = next reply { world with session := entered } := by
  change EStateM.bind (liftAct action) next world = _
  simp only [EStateM.bind, liftAct, hrun]

end Run

theorem Request.Enters.trail {start entered : Session} {policy : CategoryConflictPolicy}
    {request : Request} {reply : request.Reply} (enters : request.Enters start reply entered)
    (atRest : start.AtRest policy) : start.Trail entered := by
  cases enters with
  | register run => exact (Act.roams_register _ start atRest).of_ok run
  | load run => exact (Act.roams_load _ _ start atRest).of_ok run
  | loadBytes _ run => exact (Act.roams_load _ _ start atRest).of_ok run
  | undecoded _ => exact .refl

namespace Session

variable {options : Options} {start session final : Session}

/-- Classes that link now are sent the initializer: the options say so, and it is interned. -/
def Sends (options : Options) (session : Session) : Prop :=
  options.sendInitialize = true ∧
    ∃ sel, session.system.selectors.lookup options.initializerSelector = .ok sel

/-- A class that linked between two sessions is sent the initializer. -/
def SendsTo (options : Options) (start entered : Session) (pair : PairId) : Prop :=
  entered.Sends options ∧ start.system.registry.LinksPair entered.system.registry pair

/-- The classes that linked since a registry have had their turn, if initializers are to be sent and
the initializer was interned when the classes had linked. -/
def Served (options : Options) (before : Registry) (entered final : Session) : Prop :=
  options.sendInitialize = true → ∀ sel,
    entered.system.selectors.lookup options.initializerSelector = .ok sel →
      ∀ id, before.LinksPair entered.system.registry id → (final.heap.pair id).initialized = true

/-- Nobody linked while nothing happened. -/
theorem served_self : Served options start.system.registry start final :=
  fun _ _ _ pair hlinks => absurd hlinks (Registry.not_linksPair_self _ pair)

end Session

/-! ### Calls of initializers -/

section

variable {σ : Type}

/-- The world in which the turn of a class has come. -/
def World.begun (world : World σ) (pair : PairId) : World σ :=
  { world with session := world.session.begun pair }

/-- The world after an initializer has replied: an error is noted, and nothing else comes of it. -/
def World.heeding (world : World σ) (name : String) : Except DispatchError Value → World σ
  | .ok _ => world
  | .error error =>
    { world with session.log :=
        world.session.log.push (.initializerFailed name error.message) }

namespace Host

/-- What a call of the initializer comes to. The turn of a class comes, and its metaclass implements
the initializer: the body of the implementation runs for a message to the class object, with the
selector of the initializer and no arguments, from the session in which the turn has come. -/
structure Calls (host : Host σ) (answer : (request : Request) → Run σ request.Reply)
    (pair : PairId) (world : World σ)
    (result : EStateM.Result Halt (World σ) (Except DispatchError Value)) : Prop where
  due : world.session.Due pair
  runs : ∃ sel imp, world.session.initializer? pair = some (sel, imp) ∧
    result = Run.framed [.classObject ⟨pair, .plain⟩]
      ((host.body imp ⟨.classObject ⟨pair, .plain⟩, sel, []⟩).run host.holds answer)
      (world.begun pair)

/-- One of the things that are done to initialize some classes, and nothing else is done: what is
held on to changes, what nothing holds on to is released, or the turn comes of one of the classes or
of one above. In its turn a class is sent the initializer once, if there is one. -/
inductive Attends (host : Host σ) (answer : (request : Request) → Run σ request.Reply)
    (among : PairId → Prop) (world : World σ) : World σ → Prop
  | hold (held pinned : List Value) : Attends host answer among world { world with held, pinned }
  | settle : Attends host answer among world (world.settle host.holds)
  | idle {pair low : PairId} (member : among low) (stands : world.session.heap.StandsOver pair low)
      (due : world.session.Due pair) (nothing : world.session.initializer? pair = none) :
      Attends host answer among world (world.begun pair)
  | call {pair low : PairId} {reply : Except DispatchError Value} {final : World σ}
      (member : among low) (stands : world.session.heap.StandsOver pair low)
      (calls : host.Calls answer pair world (.ok reply final)) :
      Attends host answer among world
        (final.heeding (world.session.heap.className ⟨pair, .plain⟩) reply)

/-- All that is done to initialize some classes. -/
def Attending (host : Host σ) (answer : (request : Request) → Run σ request.Reply)
    (among : PairId → Prop) : World σ → World σ → Prop :=
  Relation.ReflTransGen (host.Attends answer among)

/-- Classes are initialized until the initializer of one is called and the call does not come
back. -/
inductive Interrupts (host : Host σ) (answer : (request : Request) → Run σ request.Reply)
    (among : PairId → Prop) (world : World σ) (halt : Halt) (final : World σ) : Prop
  | call {middle : World σ} {pair low : PairId}
      (attending : host.Attending answer among world middle)
      (member : among low) (stands : middle.session.heap.StandsOver pair low)
      (calls : host.Calls answer pair middle (.error halt final)) :
      Interrupts host answer among world halt final

/-- What comes of a request that links classes: the reply is that of what it does in one go, and
then initializers are sent to the classes that linked. It does not come if what is done in one go
ends everything, or if the call of an initializer does not come back. -/
inductive Serves (options : Options) (host : Host σ)
    (answer : (request : Request) → Run σ request.Reply) (request : Request) (world : World σ) :
    EStateM.Result Halt (World σ) request.Reply → Prop
  | replies {reply : request.Reply} {entered : Session} {final : World σ}
      (enters : request.Enters world.session reply entered)
      (attending : host.Attending answer (SendsTo options world.session entered)
        { world with session := entered } final)
      (served : Served options world.session.system.registry entered final.session) :
      Serves options host answer request world (.ok reply final)
  | interrupted {reply : request.Reply} {entered : Session} {halt : Halt} {final : World σ}
      (enters : request.Enters world.session reply entered)
      (interrupts : host.Interrupts answer (SendsTo options world.session entered)
        { world with session := entered } halt final) :
      Serves options host answer request world (.error halt final)
  | aborts {halt : Halt} {final : World σ} (trail : world.session.Trail final.session)
      (never : ∀ reply entered, ¬ request.Enters world.session reply entered) :
      Serves options host answer request world (.error halt final)

end Host

/-! ### What can be told of them -/

variable {options : Options} {told : Prop → Session → Session → Prop} {among : PairId → Prop}
  {answer : (request : Request) → Run σ request.Reply} {host : Host σ} {world : World σ}

theorem World.trail_heeding (world : World σ) (name : String)
    (reply : Except DispatchError Value) :
    world.session.Trail (world.heeding name reply).session := by
  cases reply with
  | ok value => exact .refl
  | error error => exact .single (.note rfl)

namespace Host

/-- What can be told of requests can be told of the call of an initializer. -/
theorem Calls.tells {tells : Prop → Session → Session → Prop} (account : Account options tells)
    (hanswer : ∀ request, (answer request).Accounts options tells) {pair : PairId}
    {result : EStateM.Result Halt (World σ) (Except DispatchError Value)}
    (calls : host.Calls answer pair world result) (lived : world.session.Lived options) :
    (world.begun pair).Tells tells result := by
  obtain ⟨due, sel, imp, -, rfl⟩ := calls
  have hrun := Program.accounts_run account hanswer host.holds
    (host.body imp ⟨.classObject ⟨pair, .plain⟩, sel, []⟩)
  exact hrun.framed account _ _ (lived.tail (.turn due))

/-- What is told of turns and of calls of initializers. -/
structure Recounts (host : Host σ) (answer : (request : Request) → Run σ request.Reply)
    (among : PairId → Prop) (options : Options) (told : Prop → Session → Session → Prop) :
    Prop where
  account : Account options told
  idle : ∀ {world : World σ} {pair low : PairId}, world.session.Lived options → among low →
    world.session.heap.StandsOver pair low → world.session.Due pair →
      world.session.initializer? pair = none →
        told False world.session (world.session.begun pair)
  call : ∀ {world : World σ} {pair low : PairId}
    {result : EStateM.Result Halt (World σ) (Except DispatchError Value)},
    world.session.Lived options → among low → world.session.heap.StandsOver pair low →
      host.Calls answer pair world result → world.Tells told result

variable (recounts : host.Recounts answer among options told)

include recounts

theorem Attends.tells {final : World σ} (attends : host.Attends answer among world final)
    (lived : world.session.Lived options) : told False world.session final.session := by
  have account := recounts.account
  cases attends with
  | hold => exact account.trail lived .refl
  | settle => exact account.trail lived (world.trail_settle host.holds)
  | idle member stands due nothing => exact recounts.idle lived member stands due nothing
  | @call pair _ reply called member stands calls =>
    have hcall : told False world.session called.session := recounts.call lived member stands calls
    exact account.trans lived hcall
      (account.trail (lived.trans (account.path hcall)) (called.trail_heeding _ reply))

theorem Attending.tells {final : World σ} (attending : host.Attending answer among world final)
    (lived : world.session.Lived options) : told False world.session final.session := by
  induction attending with
  | refl => exact recounts.account.trail lived .refl
  | tail _ attends ih =>
    exact recounts.account.trans lived ih
      (attends.tells recounts (lived.trans (recounts.account.path ih)))

theorem Interrupts.tells {halt : Halt} {final : World σ}
    (interrupts : host.Interrupts answer among world halt final)
    (lived : world.session.Lived options) : told True world.session final.session := by
  obtain ⟨attending, member, stands, calls⟩ := interrupts
  have hfirst := attending.tells recounts lived
  exact recounts.account.trans lived hfirst
    (recounts.call (lived.trans (recounts.account.path hfirst)) member stands calls)

omit recounts

theorem recounts_path (hanswer : ∀ request, (answer request).Roams options) :
    host.Recounts answer among options fun _ => Path where
  account := account_path options
  idle _ _ _ due _ := .single (.turn due)
  call lived _ _ calls := by
    have hrest := calls.tells (account_path options) hanswer lived
    exact Run.tells_of_first (account_path options) lived (.single (.turn calls.due)) hrest

theorem Attending.path {final : World σ} (attending : host.Attending answer among world final)
    (hanswer : ∀ request, (answer request).Roams options) (lived : world.session.Lived options) :
    world.session.Path final.session := attending.tells (recounts_path hanswer) lived

theorem Serves.tells {request : Request}
    {result : EStateM.Result Halt (World σ) request.Reply}
    (serves : host.Serves options answer request world result)
    (recounts : ∀ entered,
      host.Recounts answer (SendsTo options world.session entered) options told)
    (lived : world.session.Lived options) : world.Tells told result := by
  have account := (recounts world.session).account
  cases serves with
  | @replies _ entered _ enters attending =>
    have trail := enters.trail lived.orderly.atRest
    exact account.trans lived (account.trail lived trail)
      (attending.tells (recounts entered) (lived.trans trail.path))
  | @interrupted _ entered _ _ enters interrupts =>
    have trail := enters.trail lived.orderly.atRest
    exact account.trans lived (account.trail lived trail)
      (interrupts.tells (recounts entered) (lived.trans trail.path))
  | aborts trail => exact account.trail lived trail

theorem Attending.trans {middle final : World σ}
    (first : host.Attending answer among world middle)
    (second : host.Attending answer among middle final) :
    host.Attending answer among world final := Relation.ReflTransGen.trans first second

theorem Interrupts.of_attending {middle final : World σ} {halt : Halt}
    (first : host.Attending answer among world middle)
    (interrupts : host.Interrupts answer among middle halt final) :
    host.Interrupts answer among world halt final := by
  obtain ⟨attending, member, stands, calls⟩ := interrupts
  exact ⟨first.trans attending, member, stands, calls⟩

end Host

end

/-! ### Runs that do nothing else -/

section

variable {σ α β : Type} {options : Options} {among : PairId → Prop} {world : World σ}
  {answer : (request : Request) → Run σ request.Reply} {post weaker : α → Session → Prop}
  (host : Host σ)

namespace Host

/-- Nothing is done in a run but to initialize some classes, and more is known of the result. -/
def AttendsIn (answer : (request : Request) → Run σ request.Reply) (among : PairId → Prop)
    (run : Run σ α) (world : World σ) (post : α → Session → Prop) : Prop :=
  match run world with
  | .ok value final => host.Attending answer among world final ∧ post value final.session
  | .error halt final => host.Interrupts answer among world halt final

variable {host}

theorem attendsIn_pure {value : α} (h : post value world.session) :
    host.AttendsIn answer among (pure value) world post := ⟨.refl, h⟩

theorem attendsIn_of_eq {run rest : Run σ α} {middle : World σ} (heq : run world = rest middle)
    (first : host.Attending answer among world middle)
    (attends : host.AttendsIn answer among rest middle post) :
    host.AttendsIn answer among run world post := by
  unfold AttendsIn at attends ⊢
  rw [heq]
  split
  · next value final hrest =>
    rw [hrest] at attends
    exact ⟨first.trans attends.1, attends.2⟩
  · next halt final hrest =>
    rw [hrest] at attends
    exact attends.of_attending first

theorem attendsIn_bind {first : Run σ α} {next : α → Run σ β} {post : β → Session → Prop}
    {reached : α → Session → Prop} (hfirst : host.AttendsIn answer among first world reached)
    (hnext : ∀ value middle, host.Attending answer among world middle →
      reached value middle.session → host.AttendsIn answer among (next value) middle post) :
    host.AttendsIn answer among (first >>= next) world post := by
  unfold AttendsIn at hfirst
  cases hrun : first world with
  | ok value middle =>
    rw [hrun] at hfirst
    refine attendsIn_of_eq ?_ hfirst.1 (hnext value middle hfirst.1 hfirst.2)
    rw [Run.bind_apply, hrun]
  | error halt final =>
    rw [hrun] at hfirst
    rw [AttendsIn, Run.bind_apply, hrun]
    exact hfirst

theorem AttendsIn.mono {run : Run σ α} (attends : host.AttendsIn answer among run world post)
    (hpost : ∀ value final, host.Attending answer among world final → post value final.session →
      weaker value final.session) : host.AttendsIn answer among run world weaker := by
  unfold AttendsIn at attends ⊢
  split
  · next value final hrun =>
    rw [hrun] at attends
    exact ⟨attends.1, hpost value final attends.1 attends.2⟩
  · next halt final hrun =>
    rw [hrun] at attends
    exact attends

theorem AttendsIn.framed {inner : Run σ α} (values : List Value)
    (attends : ∀ framed : World σ, framed.session = world.session →
      host.AttendsIn answer among inner framed post) :
    host.AttendsIn answer among (Run.framed values inner) world post := by
  have hinner := attends
    { world with held := [], pinned := values ++ world.held ++ world.pinned } rfl
  have hold : host.Attending answer among world
      { world with held := [], pinned := values ++ world.held ++ world.pinned } :=
    .single (.hold _ _)
  unfold AttendsIn at hinner ⊢
  rw [Run.framed_apply]
  cases hrun : inner { world with held := [], pinned := values ++ world.held ++ world.pinned } with
  | ok value final =>
    rw [hrun] at hinner
    exact ⟨(hold.trans hinner.1).tail (.hold _ _), hinner.2⟩
  | error halt final =>
    rw [hrun] at hinner
    exact hinner.of_attending hold

end Host

end

/-! ### Turns -/

section

variable {σ α : Type} {options : Options} {among : PairId → Prop} {world : World σ}
  {entered : Session} {sel : Sel} {answer : (request : Request) → Run σ request.Reply}

/-- All that a batch of classes needs to know of the session at its beginning: the initializer is
interned by then. -/
structure Session.Enrolls (options : Options) (sel : Sel) (entered session : Session) : Prop where
  lived : entered.Lived options
  lookup_eq : entered.system.selectors.lookup options.initializerSelector = .ok sel
  path : entered.Path session

namespace Session.Enrolls

variable {session later : Session} (enrolls : Enrolls options sel entered session)

include enrolls

theorem trans (path : session.Path later) : Enrolls options sel entered later :=
  ⟨enrolls.lived, enrolls.lookup_eq, enrolls.path.trans path⟩

theorem follows : entered.Follows session := enrolls.path.follows enrolls.lived.orderly

theorem orderly : session.Orderly options := enrolls.path.orderly enrolls.lived.orderly

theorem later_lived : session.Lived options := enrolls.lived.trans enrolls.path

theorem initializer?_eq {id : PairId} (hlinked : (entered.heap.pair id).link ≠ none) :
    session.initializer? id = (session.heap.lookup ⟨id, .metaclass⟩ sel).map (sel, ·) := by
  obtain ⟨link, hlink⟩ := Option.ne_none_iff_exists'.mp hlinked
  have hfaithful := enrolls.follows.faithful options.initializerSelector sel id
    (Heap.hasPair_of_link hlink) (.inr enrolls.lookup_eq)
  exact hfaithful.initializer?_eq enrolls.orderly

/-- The classes above are found in the order of linking, so the walk up is not cut short. -/
theorem precedes {id : PairId} (hlinked : (entered.heap.pair id).link ≠ none) :
    session.heap.Precedes (fun other => (entered.heap.pair other).link ≠ none) id
      (session.heap.uninitializedChain session.heap.pairs.size ⟨id, .plain⟩) := by
  obtain ⟨order, lineage⟩ := enrolls.orderly.settled
  have hmem := (lineage.inOrder.mem_iff id).mpr (enrolls.follows.ages.linked hlinked)
  have hup : ∀ id parent root, (entered.heap.pair id).link ≠ none →
      (session.heap.pair id).link = some (.child parent root) →
      (entered.heap.pair parent).link ≠ none := by
    intro id parent root hid hlink
    obtain ⟨before, hbefore⟩ := enrolls.lived.orderly.settled
    obtain ⟨link, hfirst⟩ := Option.ne_none_iff_exists'.mp hid
    cases (enrolls.follows.ages.link id link hfirst).symm.trans hlink
    exact (hbefore.inOrder.mem_iff parent).mp (hbefore.inOrder.parent_mem hfirst)
  exact lineage.inOrder.precedes hup hlinked
    (Nat.lt_of_lt_of_le (List.idxOf_lt_length_of_mem hmem) lineage.inOrder.length_le)

end Session.Enrolls

namespace Host

variable (host : Host σ)

/-- What follows once the turn of a class has come: its initializer is called, if there is one. -/
def attend (answer : (request : Request) → Run σ request.Reply) (heap : Heap) (sel : Sel)
    (id : PairId) : Run σ Unit :=
  match heap.lookup ⟨id, .metaclass⟩ sel with
  | none => return
  | some imp => do
    match ← host.invoke answer imp ⟨.classObject ⟨id, .plain⟩, sel, []⟩ none with
    | .ok _ => return
    | .error error =>
      Run.liftAct (Act.report
        (.initializerFailed (heap.className ⟨id, .plain⟩) error.message))

/-- If a class still waits, then its turn comes now. -/
theorem initializeOne_eq_attend {settled : World σ} {id : PairId}
    (hsettle : world.settle host.holds = settled)
    (hwaiting : ¬ settled.session.heap.isInitialized ⟨id, .plain⟩ = true)
    (hinitializer : settled.session.initializer? id =
      (settled.session.heap.lookup ⟨id, .metaclass⟩ sel).map (sel, ·)) :
    host.initializeOne answer sel ⟨id, .plain⟩ world =
      host.attend answer settled.session.heap sel id (settled.begun id) := by
  obtain ⟨session, state, held, pinned⟩ := settled
  have hunderstands : session.understandsInitializer id =
      (session.heap.lookup ⟨id, .metaclass⟩ sel).isSome := by
    rw [← session.isSome_initializer?, hinitializer, Option.isSome_map]
  rw [initializeOne, Run.settle_bind, hsettle, Run.get_bind]
  dsimp only at hwaiting ⊢
  rw [if_neg hwaiting, attend, World.begun, Session.begun, hunderstands]
  cases session.heap.lookup ⟨id, .metaclass⟩ sel <;> rfl

variable (hanswer : ∀ request, (answer request).Roams options)

include hanswer

/-- The turn of a class comes, and whatever is done in it, the class counts as initialized then. -/
theorem attendsIn_turn {run : Run σ Unit} {low id : PairId}
    (heq : run world = host.attend answer world.session.heap sel id (world.begun id))
    (lived : world.session.Lived options) (member : among low)
    (stands : world.session.heap.StandsOver id low) (due : world.session.Due id)
    (hinitializer : world.session.initializer? id =
      (world.session.heap.lookup ⟨id, .metaclass⟩ sel).map (sel, ·)) :
    host.AttendsIn answer among run world
      fun _ session => session.heap.isInitialized ⟨id, .plain⟩ = true := by
  have hdone : ∀ session, (world.session.begun id).Path session →
      session.heap.isInitialized ⟨id, .plain⟩ = true := fun session path =>
    (path.follows (due.orderly lived.orderly)).initialized id due.initialized_self
  rw [AttendsIn, heq, attend]
  cases hlookup : world.session.heap.lookup ⟨id, .metaclass⟩ sel with
  | none =>
    rw [hlookup] at hinitializer
    exact ⟨.single (.idle member stands due hinitializer), hdone _ .refl⟩
  | some imp =>
    rw [hlookup] at hinitializer
    dsimp only
    rw [Run.bind_apply]
    cases hresult : host.invoke answer imp ⟨.classObject ⟨id, .plain⟩, sel, []⟩ none
        (world.begun id) with
    | ok reply final =>
      have calls : host.Calls answer id world (.ok reply final) :=
        ⟨due, sel, imp, hinitializer, hresult.symm⟩
      have path : (world.session.begun id).Path final.session :=
        calls.tells (account_path options) hanswer lived
      cases reply with
      | ok value => exact ⟨.single (.call member stands calls), hdone _ path⟩
      | error error =>
        exact ⟨.single (.call member stands calls), hdone _ (path.tail (.change (.note rfl)))⟩
    | error halt final =>
      exact .call .refl member stands ⟨due, sel, imp, hinitializer, hresult.symm⟩

theorem attendsIn_initializeOne (enrolls : Enrolls options sel entered world.session)
    {low id : PairId} (member : among low) (stands : world.session.heap.StandsOver id low)
    (hlinked : (entered.heap.pair id).link ≠ none)
    (habove : ∀ above, world.session.heap.superclass? ⟨id, .plain⟩ = some above →
      world.session.heap.isInitialized above = true) :
    host.AttendsIn answer among (host.initializeOne answer sel ⟨id, .plain⟩) world
      fun _ session => session.heap.isInitialized ⟨id, .plain⟩ = true := by
  have settles : host.Attending answer among world (world.settle host.holds) := .single .settle
  have path := settles.path hanswer enrolls.later_lived
  generalize hsettle : world.settle host.holds = settled at settles path
  have henrolls := enrolls.trans path
  by_cases hdone : settled.session.heap.isInitialized ⟨id, .plain⟩ = true
  · have hrun : host.initializeOne answer sel ⟨id, .plain⟩ world =
        (pure () : Run σ Unit) settled := by
      rw [initializeOne, Run.settle_bind, hsettle, Run.get_bind]
      dsimp only
      rw [if_pos hdone]
    exact attendsIn_of_eq hrun settles (attendsIn_pure hdone)
  · have follows := path.follows enrolls.orderly
    have hbefore := enrolls.follows.ages.linked hlinked
    have due : settled.session.Due id := by
      refine ⟨follows.ages.linked hbefore, eq_false_of_ne_true hdone, ?_⟩
      intro above h
      exact follows.isInitialized (habove above (follows.ages.superclass?_eq hbefore h))
    have hinitializer := henrolls.initializer?_eq hlinked
    let turn : Run σ Unit := fun _ => host.attend answer settled.session.heap sel id
      (settled.begun id)
    have hrun : host.initializeOne answer sel ⟨id, .plain⟩ world = turn settled :=
      host.initializeOne_eq_attend hsettle hdone hinitializer
    exact attendsIn_of_eq hrun settles (host.attendsIn_turn hanswer rfl henrolls.later_lived member
      (stands.ages follows.ages) due hinitializer)

theorem attendsIn_initializeEach {classes : List ClassRef}
    (enrolls : Enrolls options sel entered world.session)
    (inTurn : world.session.heap.InTurn classes)
    (hknown : ∀ cls ∈ classes, ∃ id, cls = ⟨id, .plain⟩ ∧ (entered.heap.pair id).link ≠ none)
    {low : PairId} (member : among low)
    (hstands : ∀ cls ∈ classes, world.session.heap.StandsOver cls.pair low) :
    host.AttendsIn answer among (host.initializeEach answer sel classes) world
      fun _ session => ∀ cls ∈ classes, session.heap.isInitialized cls = true := by
  induction classes generalizing world with
  | nil => exact attendsIn_pure fun _ h => absurd h List.not_mem_nil
  | cons cls rest ih =>
    obtain ⟨id, rfl, hlinked⟩ := hknown cls List.mem_cons_self
    have hrest := fun other h => hknown other (List.mem_cons_of_mem _ h)
    have hfirst : host.AttendsIn answer among (Run.framed ((⟨id, .plain⟩ :: rest).map .classObject)
        (host.initializeOne answer sel ⟨id, .plain⟩)) world
          fun _ session => session.heap.isInitialized ⟨id, .plain⟩ = true := by
      apply AttendsIn.framed
      intro framed hframed
      rw [← hframed] at enrolls inTurn hstands
      exact host.attendsIn_initializeOne hanswer enrolls member (hstands _ List.mem_cons_self)
        hlinked fun _ h => inTurn.head h
    refine attendsIn_bind hfirst ?_
    intro _ middle attending hself
    have path := attending.path hanswer enrolls.later_lived
    have follows := path.follows enrolls.orderly
    have hturns : middle.session.heap.InTurn rest := by
      refine inTurn.tail follows.ages ?_ (fun _ h => follows.isInitialized h) hself
      intro other hother
      obtain ⟨id, rfl, hlinked⟩ := hrest other hother
      exact enrolls.follows.ages.linked hlinked
    have hlater : ∀ cls ∈ rest, middle.session.heap.StandsOver cls.pair low := fun cls hcls =>
      (hstands cls (List.mem_cons_of_mem _ hcls)).ages follows.ages
    have henrolls := enrolls.trans path
    refine (ih henrolls hturns hrest hlater).mono ?_
    intro _ final hothers hall other hother
    rcases List.mem_cons.mp hother with rfl | hmem
    · exact ((hothers.path hanswer henrolls.later_lived).follows henrolls.orderly).isInitialized
        hself
    · exact hall other hmem

theorem attendsIn_initializeClass (enrolls : Enrolls options sel entered world.session)
    {id : PairId} (member : among id) (hlinked : (entered.heap.pair id).link ≠ none) :
    host.AttendsIn answer among (host.initializeClass answer sel id) world
      fun _ session => (session.heap.pair id).initialized = true := by
  have settles : host.Attending answer among world (world.settle host.holds) := .single .settle
  have henrolls := enrolls.trans (settles.path hanswer enrolls.later_lived)
  have precedes := henrolls.precedes hlinked
  have hattend := host.attendsIn_initializeEach hanswer henrolls precedes.inTurn precedes.known
    member fun _ => Heap.standsOver_of_mem_uninitializedChain
  have heq : host.initializeClass answer sel id world = host.initializeEach answer sel
      ((world.settle host.holds).session.heap.uninitializedChain
        (world.settle host.holds).session.heap.pairs.size ⟨id, .plain⟩)
      (world.settle host.holds) := rfl
  refine attendsIn_of_eq heq settles (hattend.mono ?_)
  intro _ final attending hall
  rcases precedes.covers with hdone | hchain
  · have path := attending.path hanswer henrolls.later_lived
    exact (path.follows henrolls.orderly).initialized id hdone
  · exact hall _ hchain

theorem attendsIn_initializeClasses {linked : List PairId}
    (enrolls : Enrolls options sel entered world.session) (members : ∀ id ∈ linked, among id)
    (hlinked : ∀ id ∈ linked, (entered.heap.pair id).link ≠ none) :
    host.AttendsIn answer among (linked.forM (host.initializeClass answer sel)) world
      fun _ session => ∀ id ∈ linked, (session.heap.pair id).initialized = true := by
  induction linked generalizing world with
  | nil => exact attendsIn_pure fun _ h => absurd h List.not_mem_nil
  | cons id rest ih =>
    refine attendsIn_bind (host.attendsIn_initializeClass hanswer enrolls
      (members id List.mem_cons_self) (hlinked id List.mem_cons_self)) ?_
    intro _ middle attending hself
    have henrolls := enrolls.trans (attending.path hanswer enrolls.later_lived)
    refine (ih henrolls (fun other h => members other (List.mem_cons_of_mem _ h))
      fun other h => hlinked other (List.mem_cons_of_mem _ h)).mono ?_
    intro _ final hothers hall other hother
    rcases List.mem_cons.mp hother with rfl | hmem
    · have path := hothers.path hanswer henrolls.later_lived
      exact (path.follows henrolls.orderly).initialized other hself
    · exact hall other hmem

/-! ### Requests -/

theorem attendsIn_runInitializers (lived : world.session.Lived options) {linked : List PairId}
    (members : world.session.Sends options → ∀ id ∈ linked, among id)
    (hlinked : ∀ id ∈ linked, (world.session.heap.pair id).link ≠ none) :
    host.AttendsIn answer among (host.runInitializers answer linked) world
      fun _ session => options.sendInitialize = true → ∀ sel,
        world.session.system.selectors.lookup options.initializerSelector = .ok sel →
          ∀ id ∈ linked, (session.heap.pair id).initialized = true := by
  refine attendsIn_of_eq (Run.get_bind _) .refl ?_
  rw [lived.orderly.options_eq]
  split
  · next hsend =>
    rw [Bool.and_eq_true] at hsend
    cases hlookup : world.session.system.selectors.lookup options.initializerSelector with
    | error error => exact attendsIn_pure fun _ _ h => nomatch h
    | ok sel =>
      have hmembers := members ⟨hsend.1, sel, hlookup⟩
      refine (host.attendsIn_initializeClasses hanswer ⟨lived, hlookup, .refl⟩ hmembers
        hlinked).mono ?_
      intro _ final _ hall _ _ _
      exact hall
  · next hnone =>
    refine attendsIn_pure ?_
    intro hsend _ _ id hid
    rw [hsend, Bool.true_and, Bool.not_eq_true', List.isEmpty_eq_false_iff, not_not] at hnone
    rw [hnone] at hid
    exact absurd hid List.not_mem_nil

/-- The reply is that of what went before, whatever the initializers reply. -/
theorem attendsIn_finish {β : Type} {start : Session} (lived : world.session.Lived options)
    {linked : List PairId} (values : List Value) (reply : β)
    (hlinked : ∀ id, id ∈ linked ↔
      start.system.registry.LinksPair world.session.system.registry id) :
    host.AttendsIn answer (SendsTo options start world.session)
      (Run.framed values (host.runInitializers answer linked) >>= fun _ => pure reply) world
      fun value session => value = reply ∧
        Served options start.system.registry world.session session := by
  have hlink : ∀ id ∈ linked, (world.session.heap.pair id).link ≠ none := fun id hid =>
    lived.orderly.settled.link_of_linksPair ((hlinked id).mp hid)
  have hframed : host.AttendsIn answer (SendsTo options start world.session)
      (Run.framed values (host.runInitializers answer linked)) world
      fun _ session => Served options start.system.registry world.session session := by
    apply AttendsIn.framed
    intro framed hframed
    rw [← hframed] at lived hlink hlinked ⊢
    refine (host.attendsIn_runInitializers hanswer lived ?_ hlink).mono ?_
    · exact fun sends id hid => ⟨sends, (hlinked id).mp hid⟩
    · intro _ session _ hall hsend sel hlookup id hid
      exact hall hsend sel hlookup id ((hlinked id).mpr hid)
  refine attendsIn_bind hframed ?_
  intro _ final _ served
  exact attendsIn_pure ⟨rfl, served⟩

omit hanswer

/-- A request does something in one go, and nothing then but to initialize the classes that
linked. -/
theorem serves_linking {request : Request} {action : Act α} {next : α → Run σ request.Reply}
    (walks : action.Walks world.session)
    (hnever : ∀ reason session, action world.session = .error reason session →
      ∀ reply entered, ¬ request.Enters world.session reply entered)
    (hnext : ∀ outcome (middle : World σ), action world.session = .ok outcome middle.session →
      ∃ reply, request.Enters world.session reply middle.session ∧
        host.AttendsIn answer (SendsTo options world.session middle.session) (next outcome) middle
          fun value session => value = reply ∧
            Served options world.session.system.registry middle.session session) :
    host.Serves options answer request world ((Run.liftAct action >>= next) world) := by
  cases hrun : action world.session with
  | ok outcome entered =>
    obtain ⟨reply, enters, attends⟩ := hnext outcome { world with session := entered } hrun
    rw [Run.liftAct_bind hrun]
    unfold AttendsIn at attends
    cases hresult : next outcome { world with session := entered } with
    | ok value final =>
      rw [hresult] at attends
      obtain ⟨attending, rfl, served⟩ := attends
      exact .replies enters attending served
    | error halt final =>
      rw [hresult] at attends
      exact .interrupted enters attends
  | error reason final =>
    have hlift : (Run.liftAct action >>= next) world =
        .error (.abort reason) { world with session := final } := by
      rw [Run.bind_apply, Run.liftAct, hrun]
    rw [hlift]
    have trail := walks.trail
    rw [Act.after, hrun] at trail
    exact .aborts trail (hnever reason final hrun)

/-- What is left to do when a unit was loaded in one go. -/
def finishLoad (answer : (request : Request) → Run σ request.Reply) :
    Except LoadError (LoadReport × List PairId) → Run σ (Except LoadError LoadReport)
  | .error error => return .error error
  | .ok (report, linked) => do
    let held := linked.map fun pair => Value.classObject ⟨pair, .plain⟩
    let objects := report.statics.map Value.object
    Run.framed (held ++ objects) (host.runInitializers answer linked)
    return .ok report

theorem load_eq_finishLoad (unit : LoadUnit) (imps : String → Option Imp) :
    host.load answer unit imps = Run.liftAct (Act.load unit imps) >>= host.finishLoad answer := by
  unfold load
  congr 1

include hanswer

theorem attendsIn_finishLoad {start : Session} (lived : start.Lived options) {unit : LoadUnit}
    {imps : String → Option Imp} {outcome : Except LoadError (LoadReport × List PairId)}
    (hrun : Act.load unit imps start = .ok outcome world.session) :
    host.AttendsIn answer (SendsTo options start world.session) (host.finishLoad answer outcome)
      world fun value session => value = outcome.map Prod.fst ∧
        Served options start.system.registry world.session session := by
  have atRest := lived.orderly.atRest
  have hlinks := (Act.load_linksPair unit imps atRest).of_ok hrun
  have walks : (Act.load unit imps).Walks start := Act.roams_load unit imps _ atRest
  cases outcome with
  | error error =>
    have hsame := (Act.atomic_load unit imps start).of_ok hrun error rfl
    rw [hsame]
    exact attendsIn_pure ⟨rfl, served_self⟩
  | ok answered =>
    exact host.attendsIn_finish hanswer (lived.trans (walks.of_ok hrun).path) _ _
      (hlinks answered rfl)

theorem serves_register (lived : world.session.Lived options) (spec : ClassSpec) :
    host.Serves options answer (.register spec) world
      (host.answerWith answer (.register spec) world) := by
  have atRest := lived.orderly.atRest
  have walks : (Act.register spec).Walks world.session := Act.roams_register spec _ atRest
  refine host.serves_linking walks ?_ ?_
  · rintro reason session hrun reply entered (@⟨_, outcome, _, hok⟩)
    cases hrun.symm.trans hok
  · intro outcome middle hrun
    refine ⟨_, .register hrun, ?_⟩
    have hlinks := (Act.register_linksPair spec atRest).of_ok hrun
    cases outcome with
    | error error =>
      have hsame := (Act.atomic_register spec world.session).of_ok hrun error rfl
      rw [hsame]
      exact attendsIn_pure ⟨rfl, served_self⟩
    | ok answered =>
      obtain ⟨made, linked⟩ := answered
      exact host.attendsIn_finish hanswer (lived.trans (walks.of_ok hrun).path) _ _
        (hlinks made linked rfl)

/-- By cases on the request: a unit is loaded by itself or from its bytes. -/
theorem serves_answerWith (lived : world.session.Lived options) {request : Request}
    (hlinks : request.links = true) :
    host.Serves options answer request world (host.answerWith answer request world) := by
  have walks : ∀ unit imps, (Act.load unit imps).Walks world.session := fun unit imps =>
    Act.roams_load unit imps _ lived.orderly.atRest
  cases request with
  | send message => cases hlinks
  | sendSuper current message => cases hlinks
  | call imp message => cases hlinks
  | register spec => exact host.serves_register hanswer lived spec
  | load unit imps =>
    rw [answerWith, load_eq_finishLoad]
    refine host.serves_linking (walks unit imps) ?_ ?_
    · intro reason session hrun reply entered enters
      cases enters with
      | load hok => cases hrun.symm.trans hok
    · exact fun outcome middle hrun => ⟨_, .load hrun, host.attendsIn_finishLoad hanswer lived hrun⟩
  | loadBytes bytes imps =>
    unfold answerWith
    dsimp only
    cases hdecode : LoadUnit.decode bytes with
    | error error => exact .replies (.undecoded hdecode) .refl served_self
    | ok unit =>
      dsimp only
      rw [load_eq_finishLoad]
      refine host.serves_linking (walks unit imps) ?_ ?_
      · intro reason session hrun reply entered enters
        cases enters with
        | loadBytes hother hok =>
          cases hdecode.symm.trans hother
          cases hrun.symm.trans hok
        | undecoded hfails => cases hdecode.symm.trans hfails
      · exact fun outcome middle hrun =>
          ⟨_, .loadBytes hdecode hrun, host.attendsIn_finishLoad hanswer lived hrun⟩

omit hanswer

/-- What can be told of a request that links classes, if it can be told of the requests within it,
can be told of all requests. -/
theorem accounts_answer {tells : Nat → Prop → Session → Session → Prop}
    (account : ∀ depth, Account options (tells depth))
    (wider : ∀ depth cut start final, tells depth cut start final →
      tells (depth + 1) cut start final)
    (hserves : ∀ depth request (world : World σ) result,
      (∀ request, (host.answer depth request).Accounts options (tells depth)) →
        world.session.Lived options →
          host.Serves options (host.answer depth) request world result →
            world.Tells (tells (depth + 1)) result) (depth : Nat) (request : Request) :
    (host.answer depth request).Accounts options (tells depth) := by
  induction depth generalizing request with
  | zero => exact fun _ lived => (account 0).trail lived .refl
  | succ depth ih =>
    intro world lived
    rw [answer]
    cases hlinks : request.links with
    | true =>
      exact hserves depth request world _ ih lived (host.serves_answerWith
        (fun other => (ih other).roams (account depth)) lived hlinks)
    | false =>
      exact (host.accounts_answerWith (account depth) ih hlinks world lived).mono (wider depth)

theorem roams_answer (depth : Nat) (request : Request) :
    (host.answer depth request).Roams options := by
  refine host.accounts_answer (fun _ => account_path options) (fun _ _ _ _ path => path) ?_ depth
    request
  intro depth request world result hanswer lived serves
  exact serves.tells (fun _ => recounts_path hanswer) lived

end Host

end

end LateBinding
