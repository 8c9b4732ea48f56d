import LateBinding.Proofs.Execution.Initializing

/-!
# Initializers run once, superclasses first, and none is left out

The log tells when the initializer of a class is about to run, and whenever it does the body of the
implementation found is run on the class object. Over a whole run no class is told of twice, and
each after its superclass. Registering and loading reply as they would have replied before any
initializer ran; by then all classes that linked have had their turns, and those whose metaclass
implemented the initializer in their turn were called. Only if the call of an initializer does not
come back is there no reply.
-/

namespace LateBinding

open Session

namespace Session

variable {options : Options} {start final : Session}

/-- The log tells at a place that the initializer of a class is about to run. The call that begins
there is `Host.CallsAt`. -/
def SentAt (session : Session) (pair : PairId) (index : Nat) : Prop :=
  ∃ name, session.log[index]? = some (.initializing pair name)

/-- A session in which the turn of a class came, on the way from one session to another. -/
structure TurnsAt (start : Session) (pair : PairId) (final before : Session) : Prop where
  reached : start.Path before
  due : before.Due pair
  rest : (before.begun pair).Path final

/-- What has to hold of the initializers that ran in the whole life of a session, as the log
tells. -/
structure InitializedInTurn (options : Options) (final : Session) : Prop where
  once : ∀ pair index place, final.SentAt pair index → final.SentAt pair place → index = place
  turn : ∀ pair index, final.SentAt pair index →
    ∃ before, (Session.start options).TurnsAt pair final before
  inOrder : ∀ pair index before, final.SentAt pair index →
    (Session.start options).TurnsAt pair final before → before.log.size = index ∧
      ∀ above, before.heap.superclass? ⟨pair, .plain⟩ = some above →
        before.heap.isInitialized above = true ∧
          ∀ place, final.SentAt above.pair place → place < index
  above : ∀ pair index above, final.SentAt pair index →
    final.heap.superclass? ⟨pair, .plain⟩ = some above → final.heap.isInitialized above = true

end Session

/-- On the way from one session to another, when the log had some length, the runtime called the
initializer of a class. The requests of the implementation were answered less deep than those of the
run, and the call came back unless the run was cut short. -/
inductive Host.CallsAt {σ : Type} (host : Host σ) (depth : Nat) (cut : Prop) (start : Session)
    (pair : PairId) (index : Nat) (final : Session) : Prop
  | returned {level : Nat} {world after : World σ} {reply : Except DispatchError Value}
      (within : level < depth) (reached : start.Path world.session)
      (size : world.session.log.size = index)
      (calls : host.Calls (host.answer level) pair world (.ok reply after))
      (rest : after.session.Path final) : CallsAt host depth cut start pair index final
  | stopped {level : Nat} {world after : World σ} {halt : Halt}
      (within : level < depth) (reached : start.Path world.session)
      (size : world.session.log.size = index)
      (calls : host.Calls (host.answer level) pair world (.error halt after))
      (rest : after.session.Path final) (stops : cut) :
      CallsAt host depth cut start pair index final

/-- The turn of a class came between two sessions, and the class was sent the initializer if its
metaclass implemented it by then: it was called, and the call came back. -/
structure Host.Initializes {σ : Type} (host : Host σ) (depth : Nat) (entered : Session) (sel : Sel)
    (pair : PairId) (final : Session) : Prop where
  initialized : final.heap.isInitialized ⟨pair, .plain⟩ = true
  turn : ∃ before, entered.TurnsAt pair final before
  sent : ∀ before, entered.TurnsAt pair final before →
    ((∃ index, final.SentAt pair index) ↔
      (before.heap.lookup ⟨pair, .metaclass⟩ sel).isSome = true)
  called : ∀ index, final.SentAt pair index → host.CallsAt depth False entered pair index final

namespace Session

variable {options : Options} {start final before : Session} {pair : PairId}

theorem TurnsAt.follows (turnsAt : start.TurnsAt pair final before) (lived : start.Lived options) :
    before.Follows final := by
  have hlived : before.Lived options := lived.trans turnsAt.reached
  exact turnsAt.due.follows.trans (turnsAt.rest.follows (turnsAt.due.orderly hlived.orderly))

theorem TurnsAt.sentAt_iff (turnsAt : start.TurnsAt pair final before)
    (lived : start.Lived options) (index : Nat) :
    final.SentAt pair index ↔
      before.understandsInitializer pair = true ∧ index = before.log.size := by
  have hlived : before.Lived options := lived.trans turnsAt.reached
  unfold SentAt
  simp only [turnsAt.due.initializing_iff hlived turnsAt.rest]
  constructor
  · rintro ⟨name, hunderstands, hindex, -⟩
    exact ⟨hunderstands, hindex⟩
  · rintro ⟨hunderstands, hindex⟩
    exact ⟨_, hunderstands, hindex, rfl⟩

theorem Lived.exists_turnsAt {index : Nat} (lived : final.Lived options)
    (hsent : final.SentAt pair index) :
    ∃ before, (Session.start options).TurnsAt pair final before := by
  obtain ⟨name, hevent⟩ := hsent
  obtain ⟨before, hpath, due, -, -, hrest⟩ :=
    Path.exists_turn_of_log lived (orderly_start options) (Nat.zero_le index) hevent
  exact ⟨before, hpath, due, hrest⟩

theorem Lived.initializedInTurn (lived : final.Lived options) :
    final.InitializedInTurn options where
  once := by
    intro pair index place hindex hplace
    obtain ⟨before, turnsAt⟩ := lived.exists_turnsAt hindex
    have hiff := turnsAt.sentAt_iff .refl
    exact ((hiff index).mp hindex).2.trans ((hiff place).mp hplace).2.symm
  turn := fun _ _ => lived.exists_turnsAt
  inOrder := by
    intro pair index before hsent turnsAt
    obtain ⟨-, rfl⟩ := (turnsAt.sentAt_iff .refl index).mp hsent
    refine ⟨rfl, ?_⟩
    intro above habove
    have hdone := turnsAt.due.above above habove
    refine ⟨hdone, ?_⟩
    rintro place ⟨name, hevent⟩
    obtain ⟨parent, root, -, rfl⟩ := Heap.superclass?_plain habove
    have hpath : before.Path final := .head (.turn turnsAt.due) turnsAt.rest
    by_contra hlate
    exact hpath.not_initializing (Lived.orderly turnsAt.reached) hdone (Nat.le_of_not_lt hlate)
      hevent
  above := by
    intro pair index above hsent habove
    obtain ⟨before, turnsAt⟩ := lived.exists_turnsAt hsent
    have follows := turnsAt.follows .refl
    exact follows.isInitialized (turnsAt.due.above above
      (follows.ages.superclass?_eq turnsAt.due.linked habove))

/-- The turn of a class that links has not come yet: only linked classes have had theirs, and nobody
moves into the pair of another class. -/
theorem Lived.waiting_of_linksPair {entered : Session} (lived : start.Lived options)
    (trail : start.Trail entered)
    (hlinks : start.system.registry.LinksPair entered.system.registry pair) :
    (entered.heap.pair pair).initialized = false := by
  rw [(trail.dozes lived.orderly).initialized pair]
  by_contra hnot
  have hdone := eq_true_of_ne_false hnot
  obtain ⟨id, record, hrecord, rfl, hlinked, hnew⟩ := hlinks
  have hlink := lived.orderly.begun record.pair hdone
  obtain ⟨link, hsome⟩ := Option.ne_none_iff_exists'.mp hlink
  have hpair := Heap.hasPair_of_link hsome
  have hlater : entered.Orderly options := trail.path.orderly lived.orderly
  have follows := trail.path.follows lived.orderly
  obtain ⟨order, lineage⟩ := lived.orderly.settled
  obtain ⟨later, hlineage⟩ := hlater.settled
  have hhouses : start.system.registry.Houses record.pair := by
    by_contra hgone
    exact follows.gone record.pair hpair hgone (Registry.houses_of_record hrecord)
  obtain ⟨other, seat, hseat, hsame⟩ := hhouses
  have hother : other = id := by
    have hnumber := hlineage.number id record.seat (Registry.seat?_of_record hrecord)
    have hbefore := lineage.number other seat hseat
    rw [hsame] at hbefore
    exact hbefore.symm.trans ((follows.ages.id record.pair hpair).symm.trans hnumber)
  subst hother
  have hmem := (lineage.inOrder.mem_iff record.pair).mpr hlink
  rw [← hsame, ← lineage.linked other seat hseat] at hmem
  obtain ⟨old, hold, rfl⟩ := Option.map_eq_some_iff.mp hseat
  exact hnew ⟨old, hold, of_decide_eq_true hmem⟩

/-! ### Calls -/

theorem Follows.sentAt_iff {index : Nat} (follows : start.Follows final)
    (hindex : index < start.log.size) : final.SentAt pair index ↔ start.SentAt pair index := by
  unfold SentAt
  rw [follows.getElem?_log hindex]

theorem Trail.not_sentAt {index : Nat} (trail : start.Trail final) (lived : start.Lived options)
    (hnew : start.log.size ≤ index) : ¬ final.SentAt pair index := by
  rintro ⟨name, hevent⟩
  have hfinal : final.Lived options := lived.trans trail.path
  have hdone := hfinal.initialized_of_initializing hevent
  rw [(trail.dozes lived.orderly).initialized pair] at hdone
  exact trail.path.not_initializing lived.orderly hdone hnew hevent

/-- In the turn of a class nobody else is announced. -/
theorem sentAt_begun {session : Session} {other : PairId} {index : Nat}
    (hnew : session.log.size ≤ index) (hsent : (session.begun pair).SentAt other index) :
    index = session.log.size ∧ other = pair ∧ (session.initializer? pair).isSome = true := by
  obtain ⟨name, hevent⟩ := hsent
  rw [begun, ← session.isSome_initializer?] at hevent
  dsimp only at hevent
  split at hevent
  · next hsome =>
    rw [Array.getElem?_push] at hevent
    split at hevent
    · next heq =>
      cases hevent
      exact ⟨heq, rfl, hsome⟩
    · exact absurd (Array.getElem?_eq_some_iff.mp hevent).1 (Nat.not_lt.mpr hnew)
  · exact absurd (Array.getElem?_eq_some_iff.mp hevent).1 (Nat.not_lt.mpr hnew)

end Session

namespace Host

variable {σ : Type} {options : Options} {host : Host σ} {depth : Nat} {cut weaker : Prop}
  {start middle final : Session} {pair : PairId} {index : Nat}

theorem CallsAt.earlier (callsAt : host.CallsAt depth cut middle pair index final)
    (path : start.Path middle) : host.CallsAt depth cut start pair index final := by
  cases callsAt with
  | returned within reached size calls rest =>
    exact .returned within (path.trans reached) size calls rest
  | stopped within reached size calls rest stops =>
    exact .stopped within (path.trans reached) size calls rest stops

theorem CallsAt.later (callsAt : host.CallsAt depth cut start pair index middle)
    (path : middle.Path final) : host.CallsAt depth cut start pair index final := by
  cases callsAt with
  | returned within reached size calls rest =>
    exact .returned within reached size calls (rest.trans path)
  | stopped within reached size calls rest stops =>
    exact .stopped within reached size calls (rest.trans path) stops

theorem CallsAt.mono {deeper : Nat} (callsAt : host.CallsAt depth cut start pair index final)
    (hdepth : depth ≤ deeper) (hcut : cut → weaker) :
    host.CallsAt deeper weaker start pair index final := by
  cases callsAt with
  | returned within reached size calls rest =>
    exact .returned (Nat.lt_of_lt_of_le within hdepth) reached size calls rest
  | stopped within reached size calls rest stops =>
    exact .stopped (Nat.lt_of_lt_of_le within hdepth) reached size calls rest (hcut stops)

/-- A call is announced when it begins. -/
theorem CallsAt.sentAt (callsAt : host.CallsAt depth cut start pair index final)
    (lived : start.Lived options) : final.SentAt pair index := by
  have announced : ∀ {level : Nat} {world after : World σ} {result}, start.Path world.session →
      host.Calls (host.answer level) pair world result → world.session.log.size = index →
        (world.session.begun pair).Path after.session → after.session.Path final →
          final.SentAt pair index := by
    intro level world after result reached calls size called rest
    obtain ⟨due, sel, imp, hinitializer, -⟩ := calls
    have hlived : world.session.Lived options := lived.trans reached
    refine ⟨_, (due.initializing_iff hlived (called.trans rest)).mpr ⟨?_, size.symm, rfl⟩⟩
    rw [← world.session.isSome_initializer?, hinitializer]
    rfl
  cases callsAt with
  | returned within reached size calls rest =>
    exact announced reached calls size
      (calls.tells (account_path options) (host.roams_answer _) (lived.trans reached)) rest
  | stopped within reached size calls rest stops =>
    exact announced reached calls size
      (calls.tells (account_path options) (host.roams_answer _) (lived.trans reached)) rest

/-- Steps lead from one session to the other, and whoever is announced on the way is called. -/
structure CallsAnnounced (host : Host σ) (depth : Nat) (cut : Prop) (start final : Session) :
    Prop where
  path : start.Path final
  called : ∀ pair index, start.log.size ≤ index → final.SentAt pair index →
    host.CallsAt depth cut start pair index final

theorem CallsAnnounced.mono {deeper : Nat} (announced : host.CallsAnnounced depth cut start final)
    (hdepth : depth ≤ deeper) (hcut : cut → weaker) :
    host.CallsAnnounced deeper weaker start final :=
  ⟨announced.path, fun pair index hnew hsent =>
    (announced.called pair index hnew hsent).mono hdepth hcut⟩

theorem account_callsAnnounced (host : Host σ) (depth : Nat) :
    Account options (host.CallsAnnounced depth) where
  path := CallsAnnounced.path
  trail lived trail :=
    ⟨trail.path, fun _ _ hnew hsent => absurd hsent (trail.not_sentAt lived hnew)⟩
  trans := by
    intro cut start middle final lived first second
    refine ⟨first.path.trans second.path, ?_⟩
    intro pair index hnew hsent
    have hmiddle : middle.Orderly options := first.path.orderly lived.orderly
    by_cases hindex : index < middle.log.size
    · have hearly := ((second.path.follows hmiddle).sentAt_iff hindex).mp hsent
      exact ((first.called pair index hnew hearly).later second.path).mono Nat.le.refl False.elim
    · exact (second.called pair index (Nat.le_of_not_lt hindex) hsent).earlier first.path

/-- In its turn a class is called, and whoever else is announced until the call is over was called
within it. -/
theorem Calls.announced {world : World σ}
    {result : EStateM.Result Halt (World σ) (Except DispatchError Value)}
    (calls : host.Calls (host.answer depth) pair world result)
    (hanswer : ∀ request, (host.answer depth request).Accounts options (host.CallsAnnounced depth))
    (lived : world.session.Lived options) :
    world.Tells (host.CallsAnnounced (depth + 1)) result := by
  have turn : world.session.Path (world.session.begun pair) := .single (.turn calls.due)
  have within : ∀ {cut : Prop} {after : Session},
      host.CallsAnnounced depth cut (world.session.begun pair) after →
        host.CallsAt (depth + 1) cut world.session pair world.session.log.size after →
          host.CallsAnnounced (depth + 1) cut world.session after := by
    intro cut after announced here
    refine ⟨turn.trans announced.path, ?_⟩
    intro other index hnew hsent
    by_cases hindex : index < (world.session.begun pair).log.size
    · have follows := announced.path.follows (calls.due.orderly lived.orderly)
      obtain ⟨rfl, rfl, -⟩ := sentAt_begun hnew ((follows.sentAt_iff hindex).mp hsent)
      exact here
    · exact ((announced.called other index (Nat.le_of_not_lt hindex) hsent).earlier turn).mono
        (Nat.le_succ depth) id
  have htells := calls.tells (host.account_callsAnnounced depth) hanswer lived
  cases result with
  | ok reply after =>
    exact within htells (.returned (Nat.lt_succ_self depth) .refl rfl calls .refl)
  | error halt after =>
    exact within htells (.stopped (Nat.lt_succ_self depth) .refl rfl calls .refl trivial)

theorem recounts_callsAnnounced {among : PairId → Prop}
    (hanswer : ∀ request,
      (host.answer depth request).Accounts options (host.CallsAnnounced depth)) :
    host.Recounts (host.answer depth) among options (host.CallsAnnounced (depth + 1)) where
  account := host.account_callsAnnounced (depth + 1)
  idle := by
    intro world pair low lived _ _ due nothing
    refine ⟨.single (.turn due), ?_⟩
    intro other index hnew hsent
    obtain ⟨-, -, hsome⟩ := sentAt_begun hnew hsent
    rw [nothing] at hsome
    cases hsome
  call lived _ _ calls := calls.announced hanswer lived

theorem announces_answer (host : Host σ) (depth : Nat) (request : Request) :
    (host.answer depth request).Accounts options (host.CallsAnnounced depth) := by
  refine host.accounts_answer (fun depth => host.account_callsAnnounced depth) ?_ ?_ depth request
  · exact fun depth _ _ _ announced => announced.mono (Nat.le_succ depth) id
  · exact fun _ _ _ _ hanswer lived serves =>
      serves.tells (fun _ => recounts_callsAnnounced hanswer) lived

theorem announces_run {α : Type} (host : Host σ) (depth : Nat) (program : Program σ α) :
    (host.run depth program).Accounts options (host.CallsAnnounced depth) :=
  program.accounts_run (host.account_callsAnnounced depth) (host.announces_answer depth) host.holds

end Host

namespace Session

variable {options : Options} {start final : Session} {pair : PairId}

theorem Lived.initializes {σ : Type} {host : Host σ} {depth : Nat} {entered : Session}
    {request : Request} {reply : request.Reply} {sel : Sel} (lived : start.Lived options)
    (enters : request.Enters start reply entered)
    (served : Served options start.system.registry entered final)
    (announced : host.CallsAnnounced depth False entered final)
    (hsend : options.sendInitialize = true)
    (hlookup : entered.system.selectors.lookup options.initializerSelector = .ok sel)
    (hlinks : start.system.registry.LinksPair entered.system.registry pair) :
    host.Initializes depth entered sel pair final := by
  have trail := enters.trail lived.orderly.atRest
  have hlived : entered.Lived options := lived.trans trail.path
  have hdone := served hsend sel hlookup pair hlinks
  have hwaiting := lived.waiting_of_linksPair trail hlinks
  refine ⟨hdone, ?_, ?_, ?_⟩
  · obtain ⟨before, hpath, due, hrest⟩ :=
      announced.path.exists_turn hlived.orderly hwaiting hdone
    exact ⟨before, hpath, due, hrest⟩
  · intro before turnsAt
    have enrolls : Enrolls options sel entered before := ⟨hlived, hlookup, turnsAt.reached⟩
    have hinitializer :=
      enrolls.initializer?_eq (hlived.orderly.settled.link_of_linksPair hlinks)
    rw [← Option.isSome_map, ← hinitializer, before.isSome_initializer?]
    simp only [turnsAt.sentAt_iff hlived, exists_and_left, exists_eq, and_true]
  · intro index hsent
    refine announced.called pair index ?_ hsent
    by_contra hearly
    have follows := announced.path.follows hlived.orderly
    obtain ⟨name, hevent⟩ := (follows.sentAt_iff (Nat.lt_of_not_le hearly)).mp hsent
    rw [hlived.initialized_of_initializing hevent] at hwaiting
    cases hwaiting

theorem exists_register_of_made {session : Session} {spec : ClassSpec} {made : PairId}
    (hmade : ((Act.register spec).run' session).any
      (fun reply => reply.toOption.any (·.1 == made)) = true) :
    ∃ linked, Act.register spec session =
      .ok (.ok (made, linked)) (session.afterRegister spec) := by
  unfold EStateM.run' EStateM.run at hmade
  unfold afterRegister
  cases hregister : Act.register spec session with
  | error reason final =>
    rw [hregister] at hmade
    cases hmade
  | ok outcome final =>
    rw [hregister] at hmade
    cases outcome with
    | error error => cases hmade
    | ok answered =>
      have heq : answered.1 = made := eq_of_beq hmade
      exact ⟨answered.2, by rw [← heq]⟩

/-- Whatever the programs of a host do, at whatever depth: in a run that ends or is cut short no
class is sent the initializer twice, and each after its superclass. Where the log tells of it the
body of the implementation runs on the class object, and nowhere else is it called. A request that
links classes replies as it would have before the initializers ran. Nothing is done between then and
the reply but to initialize those classes and the ones above them, and at the reply each class that
linked has had its turn. It fails to reply only if the call of an initializer does not come back. -/
theorem Lived.initializers_in_turn {σ : Type} {world : World σ}
    (lived : world.session.Lived options) (host : Host σ) (depth : Nat) :
    (∀ (α : Type) (program : Program σ α) (final : World σ),
      ((∃ value, host.run depth program world = .ok value final) ∨
        ∃ halt, host.run depth program world = .error halt final) →
      final.session.Lived options ∧ final.session.InitializedInTurn options ∧
        ∀ pair index, world.session.log.size ≤ index → (final.session.SentAt pair index ↔
          host.CallsAt depth (∃ halt, host.run depth program world = .error halt final)
            world.session pair index final.session)) ∧
    (∀ (request : Request) (reply : request.Reply) (final : World σ),
      host.answer (depth + 1) request world = .ok reply final → request.links = true →
      ∃ entered, request.Enters world.session reply entered ∧ entered.Path final.session ∧
        host.Attending (host.answer depth) (SendsTo options world.session entered)
          { world with session := entered } final ∧
        (options.sendInitialize = true → ∀ sel,
          entered.system.selectors.lookup options.initializerSelector = .ok sel → ∀ pair,
            world.session.system.registry.LinksPair entered.system.registry pair →
              host.Initializes (depth + 1) entered sel pair final.session)) ∧
    ∀ (request : Request) (reply : request.Reply) (entered : Session),
      request.Enters world.session reply entered →
      (∃ final, host.answer (depth + 1) request world = .ok reply final) ∨
        ∃ halt final, host.answer (depth + 1) request world = .error halt final ∧
          host.Interrupts (host.answer depth) (SendsTo options world.session entered)
            { world with session := entered } halt final := by
  refine ⟨?_, ?_, ?_⟩
  · intro α program final hrun
    have announced : host.CallsAnnounced depth
        (∃ halt, host.run depth program world = .error halt final) world.session final.session :=
      (host.announces_run depth program world lived).of_end
        (fun hcut announced => announced.mono Nat.le.refl hcut) hrun
    have hfinal : final.session.Lived options := lived.trans announced.path
    refine ⟨hfinal, hfinal.initializedInTurn, ?_⟩
    intro pair index hnew
    exact ⟨announced.called pair index hnew, fun callsAt => callsAt.sentAt lived⟩
  · intro request reply final hrun hlinks
    have serves := host.serves_answerWith (host.roams_answer depth) lived hlinks
    have hanswer : host.answerWith (host.answer depth) request world = .ok reply final := hrun
    rw [hanswer] at serves
    cases serves with
    | @replies _ entered _ enters attending served =>
      have hentered : entered.Lived options := lived.trans (enters.trail lived.orderly.atRest).path
      have announced : host.CallsAnnounced (depth + 1) False entered final.session :=
        attending.tells (Host.recounts_callsAnnounced (host.announces_answer depth)) hentered
      refine ⟨entered, enters, announced.path, attending, ?_⟩
      intro hsend sel hlookup pair hpair
      exact lived.initializes enters served announced hsend hlookup hpair
  · intro request reply entered enters
    have serves := host.serves_answerWith (host.roams_answer depth) lived enters.links
    rw [Host.answer]
    cases hrun : host.answerWith (host.answer depth) request world with
    | ok other final =>
      rw [hrun] at serves
      cases serves with
      | replies entersOther =>
        obtain ⟨rfl, -⟩ := enters.unique entersOther
        exact .inl ⟨final, rfl⟩
    | error halt final =>
      rw [hrun] at serves
      cases serves with
      | interrupted entersOther interrupts =>
        obtain ⟨-, rfl⟩ := enters.unique entersOther
        exact .inr ⟨halt, final, rfl, interrupts⟩
      | aborts _ never => exact absurd enters (never reply entered)

/-- A root class that implements the initializer. -/
def eagerSample : ClassSpec :=
  { name := "Root", superclass := none, size := 0
    methods := ⟨[], [⟨"initialize", none, ⟨1⟩⟩]⟩, protocols := [] }

/-- A host whose implementations all reply with an error. -/
def failingHost : Host Unit := ⟨fun _ _ => .done (.error (.raised "failed")), fun _ => []⟩

end Session

/-! ### Runs of one host -/

/-- The world at the end of a run, or where it is cut short. -/
def Run.after {σ α : Type} (run : Run σ α) (world : World σ) : World σ :=
  match run world with
  | .ok _ final => final
  | .error _ final => final

theorem Run.eq_ok_of_value {σ ε α : Type} {run : Run σ (Except ε α)} {world : World σ} {value : α}
    (hvalue : (run.run' world).bind Except.toOption = some value) :
    run world = .ok (.ok value) (run.after world) := by
  unfold EStateM.run' EStateM.run at hvalue
  unfold after
  cases hrun : run world with
  | ok reply final =>
    rw [hrun] at hvalue
    cases reply with
    | ok other =>
      cases hvalue
      rfl
    | error error => cases hvalue
  | error halt final =>
    rw [hrun] at hvalue
    cases hvalue

namespace Session

theorem sentAt_of_initializes {session : Session} {pair : PairId} {index : Nat}
    (hevent : session.log[index]?.bind (·.initializes) = some pair) :
    session.SentAt pair index := by
  obtain ⟨event, hget, hpair⟩ := Option.bind_eq_some_iff.mp hevent
  cases event with
  | initializing other name =>
    cases hpair
    exact ⟨name, hget⟩
  | _ => cases hpair

/-- The registration of the class with an initializer, where all implementations fail. -/
theorem failingHost_register :
    let world : World Unit := ⟨.start {}, (), [], []⟩
    let entered := world.session.afterRegister eagerSample
    ∃ final linked, Act.register eagerSample world.session = .ok (.ok (⟨0⟩, linked)) entered ∧
      failingHost.answer 1 (.register eagerSample) world = .ok (.ok ⟨⟨0⟩, .plain⟩) final ∧
      entered.system.selectors.lookup "initialize" = .ok ⟨1⟩ ∧
      world.session.system.registry.LinksPair entered.system.registry ⟨0⟩ ∧
      final.session.SentAt ⟨0⟩ 1 := by
  intro world entered
  let run := failingHost.answer 1 (.register eagerSample)
  have hfacts : entered.system.selectors.lookup "initialize" = .ok ⟨1⟩ ∧
      (entered.system.registry.record? ⟨0⟩).any
        (fun record => record.pair == ⟨0⟩ && record.isLinked) = true ∧
      ((Act.register eagerSample).run' world.session).any
        (fun reply => reply.toOption.any (·.1 == ⟨0⟩)) = true ∧
      (run.run' world).bind Except.toOption = some ⟨⟨0⟩, .plain⟩ ∧
      (run.after world).session.log[1]?.bind (·.initializes) = some ⟨0⟩ := by
    decide +kernel
  obtain ⟨hlookup, hany, hmade, hvalue, hlog⟩ := hfacts
  obtain ⟨linked, hrun⟩ := exists_register_of_made hmade
  refine ⟨run.after world, linked, hrun, Run.eq_ok_of_value hvalue, hlookup, ?_,
    sentAt_of_initializes hlog⟩
  obtain ⟨record, hrecord, hpair⟩ := (Option.any_eq_true _ _).mp hany
  rw [Bool.and_eq_true] at hpair
  refine ⟨⟨0⟩, record, hrecord, eq_of_beq hpair.1, of_decide_eq_true hpair.2, ?_⟩
  rintro ⟨old, hold, -⟩
  cases hold

/-- The initializer fails, but it was called, the class is registered and has had its turn. -/
theorem initializers_in_turn_failing :
    let world : World Unit := ⟨.start {}, (), [], []⟩
    let entered := world.session.afterRegister eagerSample
    ∃ final, failingHost.answer 1 (.register eagerSample) world = .ok (.ok ⟨⟨0⟩, .plain⟩) final ∧
      failingHost.Initializes 1 entered ⟨1⟩ ⟨0⟩ final.session ∧
      failingHost.CallsAt 1 False entered ⟨0⟩ 1 final.session := by
  intro world entered
  obtain ⟨final, linked, hrun, hanswer, hlookup, hlinks, hsent⟩ := failingHost_register
  have lived : world.session.Lived {} := .refl
  obtain ⟨other, enters, -, -, hinitializes⟩ :=
    (lived.initializers_in_turn failingHost 0).2.1 _ _ final hanswer rfl
  obtain ⟨-, rfl⟩ := enters.unique (.register hrun)
  have initializes := hinitializes rfl ⟨1⟩ hlookup ⟨0⟩ hlinks
  exact ⟨final, hanswer, initializes, initializes.called 1 hsent⟩

end Session

end LateBinding
