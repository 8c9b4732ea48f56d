import LateBinding.Proofs.Execution.Called
import LateBinding.Proofs.Execution.Initializers

/-!
# Initializers run when classes link, if theirs is interned by then

A class is sent the initializer while the request that links it goes on, provided that the
initializer is interned once the classes have linked. If it is not, the request ends at once and the
class waits: its turn comes along with that of a class that is linked below it later on. To intern
the initializer once more makes no difference, but to intern it before a class links does.
-/

namespace LateBinding

open Session

/-! ### When no initializers are sent -/

namespace Host

variable {σ : Type} {options : Options} {world : World σ}
  {answer : (request : Request) → Run σ request.Reply} (host : Host σ)

theorem runInitializers_of_not_sends (hoptions : world.session.system.options = options)
    (hnot : ¬ world.session.Sends options) (linked : List PairId) :
    host.runInitializers answer linked world = .ok () world := by
  rw [runInitializers, Run.get_bind, hoptions]
  by_cases hsend : options.sendInitialize = true
  · cases hlookup : world.session.system.selectors.lookup options.initializerSelector with
    | error error => split <;> rfl
    | ok sel => exact absurd ⟨hsend, sel, hlookup⟩ hnot
  · rw [eq_false_of_ne_true hsend]
    rfl

theorem finish_of_not_sends {β : Type} (hoptions : world.session.system.options = options)
    (hnot : ¬ world.session.Sends options) (values : List Value) (linked : List PairId)
    (reply : β) :
    (Run.framed values (host.runInitializers answer linked) >>= fun _ => pure reply) world =
      .ok reply world := by
  have hinner : host.runInitializers answer linked
      { world with held := [], pinned := values ++ world.held ++ world.pinned } =
        .ok () { world with held := [], pinned := values ++ world.held ++ world.pinned } := by
    apply host.runInitializers_of_not_sends
    · exact hoptions
    · exact hnot
  have hframed : Run.framed values (host.runInitializers answer linked) world = .ok () world := by
    rw [Run.framed_apply, hinner]
  rw [Run.bind_apply, hframed]
  rfl

/-- What was done in one go is all that comes of the request. -/
theorem answerWith_of_not_sends {request : Request} {reply : request.Reply} {entered : Session}
    (lived : world.session.Lived options) (enters : request.Enters world.session reply entered)
    (hnot : ¬ entered.Sends options) :
    host.answerWith answer request world = .ok reply { world with session := entered } := by
  have hoptions : entered.system.options = options :=
    ((enters.trail lived.orderly.atRest).path.orderly lived.orderly).options_eq
  have hload : ∀ (unit : LoadUnit) (imps : String → Option Imp)
      (outcome : Except LoadError (LoadReport × List PairId)),
      Act.load unit imps world.session = .ok outcome entered →
        host.load answer unit imps world =
          .ok (outcome.map Prod.fst) { world with session := entered } := by
    intro unit imps outcome hrun
    rw [load, Run.liftAct_bind hrun]
    cases outcome with
    | error error => rfl
    | ok answered => exact host.finish_of_not_sends hoptions hnot _ _ _
  cases enters with
  | @register spec outcome _ hrun =>
    rw [answerWith, Run.liftAct_bind hrun]
    cases outcome with
    | error error => rfl
    | ok answered => exact host.finish_of_not_sends hoptions hnot _ _ _
  | load hrun => exact hload _ _ _ hrun
  | @loadBytes bytes unit imps outcome _ hdecode hrun =>
    rw [answerWith, hdecode]
    exact hload unit imps outcome hrun
  | undecoded hfails =>
    rw [answerWith, hfails]
    rfl

end Host

/-! ### Whose turn has come -/

namespace Session

variable {options : Options} {start entered final : Session} {pair : PairId}

/-- Nobody's turn comes before that of the superclass. -/
theorem Lived.initialized_superclass {cls above : ClassRef} (lived : final.Lived options)
    (hdone : final.heap.isInitialized cls = true)
    (habove : final.heap.superclass? cls = some above) :
    final.heap.isInitialized above = true := by
  obtain ⟨pair, kind⟩ := cls
  cases kind with
  | metaclass => cases hdone
  | plain =>
    obtain ⟨before, path, due, rest⟩ := Path.exists_turn lived (orderly_start options) rfl hdone
    have follows := TurnsAt.follows ⟨path, due, rest⟩ .refl
    exact follows.isInitialized (due.above above (follows.ages.superclass?_eq due.linked habove))

/-- What becomes of a class that a request links, from when the classes have linked until the
reply. -/
structure SentWhenLinking (options : Options) (entered final : Session) (pair : PairId) : Prop where
  notBefore : ∀ index, ¬ entered.SentAt pair index
  /-- If initializers are sent then nothing of this is left for later: not for the class, and not for
  those above it. -/
  during : entered.Sends options →
    (∀ above, Relation.ReflTransGen (fun low high => final.heap.superclass? low = some high)
      ⟨pair, .plain⟩ above → final.heap.isInitialized above = true) ∧
    ∀ later, final.Path later → ∀ index, later.SentAt pair index →
      entered.log.size ≤ index ∧ index < final.log.size
  /-- If not, nobody is sent anything, and the class waits. -/
  missed : ¬ entered.Sends options →
    final = entered ∧ final.heap.isInitialized ⟨pair, .plain⟩ = false

theorem Lived.sentWhenLinking {request : Request} {reply : request.Reply}
    (lived : start.Lived options) (enters : request.Enters start reply entered)
    (path : entered.Path final) (served : Served options start.system.registry entered final)
    (hmissed : ¬ entered.Sends options → final = entered)
    (hlinks : start.system.registry.LinksPair entered.system.registry pair) :
    SentWhenLinking options entered final pair := by
  have trail := enters.trail lived.orderly.atRest
  have hentered : entered.Lived options := lived.trans trail.path
  have hfinal : final.Lived options := hentered.trans path
  have hwaiting := lived.waiting_of_linksPair trail hlinks
  have notBefore : ∀ index, ¬ entered.SentAt pair index := by
    rintro index ⟨name, hevent⟩
    rw [hentered.initialized_of_initializing hevent] at hwaiting
    cases hwaiting
  refine ⟨notBefore, ?_, ?_⟩
  · rintro ⟨hsend, sel, hlookup⟩
    have hdone : final.heap.isInitialized ⟨pair, .plain⟩ = true :=
      served hsend sel hlookup pair hlinks
    refine ⟨?_, ?_⟩
    · intro above habove
      induction habove with
      | refl => exact hdone
      | tail _ hsuper ih => exact hfinal.initialized_superclass ih hsuper
    · rintro later rest index ⟨name, hevent⟩
      refine ⟨?_, ?_⟩
      · by_contra hearly
        have follows := Path.follows (path.trans rest) hentered.orderly
        rw [follows.getElem?_log (Nat.lt_of_not_le hearly)] at hevent
        exact notBefore index ⟨name, hevent⟩
      · by_contra hlate
        exact rest.not_initializing hfinal.orderly hdone (Nat.le_of_not_lt hlate) hevent
  · intro hnot
    obtain rfl := hmissed hnot
    exact ⟨rfl, hwaiting⟩

end Session

/-! ### Interning once more -/

theorem Act.intern_of_lookup {session : Session} {name : String} {sel : Sel}
    (hlookup : session.system.selectors.lookup name = .ok sel) :
    Act.intern name none session = .ok sel session := by
  have hknown : session.system.selectors.uids.get? name = some sel := by
    unfold SelectorTable.lookup at hlookup
    split at hlookup
    · next found hfound =>
      cases hlookup
      exact hfound
    · cases hlookup
  have hintern : session.system.selectors.intern name none =
      .ok (sel, session.system.selectors, none) := by
    rw [SelectorTable.intern, hknown]
    rfl
  rw [Act.intern, Act.bind_of_ok (Act.run_get session), hintern]
  rfl

theorem Host.run_intern_of_lookup {σ α : Type} {world : World σ} (host : Host σ) (depth : Nat)
    (program : Program σ α) {name : String} {sel : Sel}
    (hlookup : world.session.system.selectors.lookup name = .ok sel) :
    host.run depth (.act (.intern name none) fun _ => program) world =
      host.run depth program (world.settle host.holds) := by
  have hsettled : (world.settle host.holds).session.system = world.session.system := by
    unfold World.settle
    split <;> rfl
  rw [← hsettled] at hlookup
  rw [run, Program.run, Run.settle_bind]
  exact Run.liftAct_bind (Act.intern_of_lookup hlookup)

namespace Session

variable {options : Options}

/-- Whatever the programs of a host do, at whatever depth: a class is sent the initializer only
because a request links it or a class below it when the initializer is interned, and before its turn
has come. The classes that a request links when it is interned, and those above them, have had their
turns at the reply and are never sent the initializer later. To intern a name that is interned
changes nothing. -/
theorem Lived.initialized_when_linking {σ : Type} {world : World σ}
    (lived : world.session.Lived options) (host : Host σ) (depth : Nat) :
    (∀ (α : Type) (program : Program σ α) (final : World σ),
      ((∃ value, host.run depth program world = .ok value final) ∨
        ∃ halt, host.run depth program world = .error halt final) →
      ∀ pair index, world.session.log.size ≤ index → final.session.SentAt pair index →
        Called options world.session final.session pair) ∧
    (∀ (request : Request) (reply : request.Reply) (final : World σ),
      host.answer depth request world = .ok reply final → request.links = true →
      ∃ entered, request.Enters world.session reply entered ∧ entered.Path final.session ∧
        ∀ pair, world.session.system.registry.LinksPair entered.system.registry pair →
          SentWhenLinking options entered final.session pair) ∧
    ∀ (α : Type) (program : Program σ α) (name : String) (sel : Sel),
      world.session.system.selectors.lookup name = .ok sel →
      host.run depth (.act (.intern name none) fun _ => program) world =
        host.run depth program (world.settle host.holds) := by
  refine ⟨?_, ?_, fun _ program _ _ hlookup => host.run_intern_of_lookup depth program hlookup⟩
  · intro α program final hrun pair index hlate hsent
    have tracked : Tracked options (fun _ => False) world.session final.session :=
      (host.tracks_run depth program world lived).of_end (fun _ tracked => tracked) hrun
    have hfinal : final.session.Lived options := lived.trans tracked.path
    obtain ⟨name, hevent⟩ := hsent
    have hdone := hfinal.initialized_of_initializing hevent
    have hwaiting : (world.session.heap.pair pair).initialized = false := by
      by_contra hbefore
      exact tracked.path.not_initializing lived.orderly (eq_true_of_ne_false hbefore) hlate hevent
    rcases tracked.called pair hwaiting hdone with ⟨_, hnobody, -⟩ | called
    · exact hnobody.elim
    · exact called
  · intro request reply final hrun hlinks
    cases depth with
    | zero => cases hrun
    | succ depth =>
      have hanswer : host.answerWith (host.answer depth) request world = .ok reply final := hrun
      have serves := host.serves_answerWith (host.roams_answer depth) lived hlinks
      rw [hanswer] at serves
      cases serves with
      | @replies _ entered _ enters attending served =>
        have hentered := lived.trans (enters.trail lived.orderly.atRest).path
        have path : entered.Path final.session :=
          attending.path (host.roams_answer depth) hentered
        refine ⟨entered, enters, path, ?_⟩
        intro pair hpair
        refine lived.sentWhenLinking enters path served ?_ hpair
        intro hnot
        cases hanswer.symm.trans (host.answerWith_of_not_sends lived enters hnot)
        rfl

/-- A class that has an initializer when it links is sent it then, although the call fails, and never
again. -/
theorem initialized_when_linking_failing :
    let world : World Unit := ⟨start {}, (), [], []⟩
    let entered := world.session.afterRegister eagerSample
    ∃ final, failingHost.answer 1 (.register eagerSample) world = .ok (.ok ⟨⟨0⟩, .plain⟩) final ∧
      entered.Sends {} ∧ SentWhenLinking {} entered final.session ⟨0⟩ := by
  intro world entered
  obtain ⟨final, linked, hrun, hanswer, hlookup, hlinks, -⟩ := failingHost_register
  have lived : world.session.Lived {} := .refl
  obtain ⟨other, enters, -, hsent⟩ :=
    (lived.initialized_when_linking failingHost 1).2.1 _ _ final hanswer rfl
  obtain ⟨-, rfl⟩ := enters.unique (.register hrun)
  exact ⟨final, hanswer, ⟨rfl, ⟨1⟩, hlookup⟩, hsent ⟨0⟩ hlinks⟩

def upperSample : ClassSpec :=
  { name := "A", superclass := none, size := 0, methods := ⟨[], []⟩, protocols := [] }

def lowerSample : ClassSpec :=
  { name := "B", superclass := some "A", size := 0, methods := ⟨[], []⟩, protocols := [] }

/-- Give the first class an initializer that it did not have when it linked, and register a class
below it. -/
def lateInitializer : Program Unit (Except RegistryError ClassRef) :=
  .act (.intern "initialize" none) fun sel =>
    .act (.addMethod ⟨⟨0⟩, .metaclass⟩ sel ⟨7⟩ none) fun _ => .ask (.register lowerSample) .done

theorem not_sentAt_of_all {session : Session} {pair : PairId}
    (hall : session.log.all (fun event => event.initializes ≠ some pair) = true) (index : Nat) :
    ¬ session.SentAt pair index := by
  rintro ⟨name, hevent⟩
  have hquiet := Array.all_eq_true_iff_forall_mem.mp hall _ (Array.mem_of_getElem? hevent)
  exact of_decide_eq_true hquiet rfl

/-- The first class is linked and its registration is over when the initializer is interned. It is
sent to that class all the same, when a class is registered below it. If it was interned before, the
first class is not sent it. -/
theorem late_initializer_reaches_linked :
    let host := Host.replying .nil
    let world : World Unit := ⟨start {}, (), [], []⟩
    let late : Program Unit (Except RegistryError ClassRef) :=
      .ask (.register upperSample) fun _ => lateInitializer
    (∃ linked final, host.answer 1 (.register upperSample) world = .ok (.ok ⟨⟨0⟩, .plain⟩) linked ∧
      linked.session.heap.isLinked ⟨⟨0⟩, .plain⟩ = true ∧
      host.run 2 lateInitializer linked = .ok (.ok ⟨⟨1⟩, .plain⟩) final ∧
      final.session.SentAt ⟨0⟩ 3 ∧ linked.session.log.size ≤ 3) ∧
    (∃ final, host.run 2 late world = .ok (.ok ⟨⟨1⟩, .plain⟩) final ∧ final.session.SentAt ⟨0⟩ 3) ∧
    ∃ final, host.run 2 (.act (.intern "initialize" none) fun _ => late) world =
        .ok (.ok ⟨⟨1⟩, .plain⟩) final ∧ ∀ index, ¬ final.session.SentAt ⟨0⟩ index := by
  intro host world late
  let first := host.answer 1 (.register upperSample)
  let linked := first.after world
  let second := host.run 2 lateInitializer
  let whole := host.run 2 late
  let early := host.run 2 (.act (.intern "initialize" none) fun _ => late)
  have hvalues : (first.run' world).bind Except.toOption = some ⟨⟨0⟩, .plain⟩ ∧
      (second.run' linked).bind Except.toOption = some ⟨⟨1⟩, .plain⟩ ∧
      (whole.run' world).bind Except.toOption = some ⟨⟨1⟩, .plain⟩ ∧
      (early.run' world).bind Except.toOption = some ⟨⟨1⟩, .plain⟩ := by decide +kernel
  have hlogs : (second.after linked).session.log[3]?.bind (·.initializes) = some ⟨0⟩ ∧
      (whole.after world).session.log[3]?.bind (·.initializes) = some ⟨0⟩ ∧
      (early.after world).session.log.all (fun event => event.initializes ≠ some ⟨0⟩) = true ∧
      linked.session.heap.isLinked ⟨⟨0⟩, .plain⟩ = true ∧ linked.session.log.size ≤ 3 := by
    decide +kernel
  obtain ⟨hfirst, hsecond, hwhole, hearly⟩ := hvalues
  obtain ⟨hlate, hsame, hnone, hlinked, hsize⟩ := hlogs
  refine ⟨⟨linked, second.after linked, Run.eq_ok_of_value hfirst, hlinked,
    Run.eq_ok_of_value hsecond, sentAt_of_initializes hlate, hsize⟩, ?_, ?_⟩
  · exact ⟨whole.after world, Run.eq_ok_of_value hwhole, sentAt_of_initializes hsame⟩
  · exact ⟨early.after world, Run.eq_ok_of_value hearly, not_sentAt_of_all hnone⟩

end Session

end LateBinding
