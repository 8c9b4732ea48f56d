import LateBinding.Proofs.Execution.Initializing

/-!
# Who calls an initializer

The turn of a class comes only because a request has linked the class or one below it, at a time
when initializers were to be sent and theirs was interned. So whatever the programs of a run do,
each class that became initialized on the way was called by such a request.
-/

namespace LateBinding

namespace Session

/-- On the way from one session to another a request linked a class at a time when initializers were
sent. It was the class of this pair or one below it, and the turn of this class had not come. -/
inductive Called (options : Options) (start final : Session) (pair : PairId) : Prop
  | linking {request : Request} {reply : request.Reply} {before entered : Session} {low : PairId}
      (reached : start.Path before) (enters : request.Enters before reply entered)
      (rest : entered.Path final) (sends : entered.Sends options)
      (links : before.system.registry.LinksPair entered.system.registry low)
      (stands : final.heap.StandsOver pair low)
      (waiting : (entered.heap.pair pair).initialized = false) : Called options start final pair

/-- Steps lead from one session to the other. Whoever became initialized on the way stands over one
of some classes or was called. -/
structure Tracked (options : Options) (among : PairId → Prop) (start final : Session) : Prop where
  path : start.Path final
  called : ∀ pair, (start.heap.pair pair).initialized = false →
    (final.heap.pair pair).initialized = true →
      (∃ low, among low ∧ final.heap.StandsOver pair low) ∨ Called options start final pair

variable {options : Options} {among wider : PairId → Prop} {start middle final : Session}

theorem Called.later {pair : PairId} (called : Called options start middle pair)
    (lived : start.Lived options) (rest : middle.Path final) : Called options start final pair := by
  obtain ⟨reached, enters, path, sends, links, stands, waiting⟩ := called
  have hbefore := Lived.orderly (lived.trans reached)
  have hmiddle := path.orderly ((enters.trail hbefore.atRest).path.orderly hbefore)
  exact .linking reached enters (path.trans rest) sends links
    (stands.ages (rest.follows hmiddle).ages) waiting

theorem Called.earlier {pair : PairId} (called : Called options middle final pair)
    (path : start.Path middle) : Called options start final pair := by
  obtain ⟨reached, enters, rest, sends, links, stands, waiting⟩ := called
  exact .linking (path.trans reached) enters rest sends links stands waiting

theorem Tracked.refl : Tracked options among start start :=
  ⟨.refl, fun _ hbefore hafter => nomatch hbefore.symm.trans hafter⟩

theorem Tracked.trans (first : Tracked options among start middle)
    (second : Tracked options among middle final) (lived : start.Lived options) :
    Tracked options among start final := by
  have follows := second.path.follows (first.path.orderly lived.orderly)
  refine ⟨first.path.trans second.path, ?_⟩
  intro pair hbefore hafter
  cases hmiddle : (middle.heap.pair pair).initialized with
  | true =>
    rcases first.called pair hbefore hmiddle with ⟨low, hlow, stands⟩ | called
    · exact .inl ⟨low, hlow, stands.ages follows.ages⟩
    · exact .inr (called.later lived second.path)
  | false =>
    rcases second.called pair hmiddle hafter with hover | called
    · exact .inl hover
    · exact .inr (called.earlier first.path)

theorem Tracked.weaken (tracked : Tracked options among start final)
    (hwider : ∀ low, among low → wider low) : Tracked options wider start final := by
  refine ⟨tracked.path, ?_⟩
  intro pair hbefore hafter
  rcases tracked.called pair hbefore hafter with ⟨low, hlow, stands⟩ | called
  · exact .inl ⟨low, hwider low hlow, stands⟩
  · exact .inr called

theorem Trail.tracked (trail : start.Trail final) (lived : start.Lived options) :
    Tracked options among start final := by
  refine ⟨trail.path, ?_⟩
  intro pair hbefore hafter
  rw [(trail.dozes lived.orderly).initialized pair, hbefore] at hafter
  cases hafter

/-- Those that a request linked excuse those above them. -/
theorem Tracked.enters {entered : Session} {request : Request} {reply : request.Reply}
    (lived : start.Lived options) (enters : request.Enters start reply entered)
    (tracked : Tracked options (SendsTo options start entered) entered final) :
    Tracked options (fun _ => False) start final := by
  have trail := enters.trail lived.orderly.atRest
  refine ⟨trail.path.trans tracked.path, ?_⟩
  intro pair hbefore hafter
  have hwaiting := ((trail.dozes lived.orderly).initialized pair).trans hbefore
  rcases tracked.called pair hwaiting hafter with ⟨low, ⟨sends, links⟩, stands⟩ | called
  · exact .inr (.linking .refl enters tracked.path sends links stands hwaiting)
  · exact .inr (called.earlier trail.path)

/-- In its turn a class becomes initialized, and nobody else does. -/
theorem Due.tracked {pair low : PairId} (due : start.Due pair) (member : among low)
    (stands : start.heap.StandsOver pair low) : Tracked options among start (start.begun pair) := by
  refine ⟨.single (.turn due), ?_⟩
  intro other hbefore hafter
  rcases (due.initialized_begun other).mp hafter with rfl | hdone
  · exact .inl ⟨low, member, stands.ages due.follows.ages⟩
  · cases hbefore.symm.trans hdone

theorem account_tracked (options : Options) (among : PairId → Prop) :
    Account options fun _ => Tracked options among where
  path := Tracked.path
  trail lived trail := trail.tracked lived
  trans lived first second := first.trans second lived

end Session

open Session

namespace Host

variable {σ : Type} {options : Options} {among : PairId → Prop}
  {answer : (request : Request) → Run σ request.Reply} (host : Host σ)

theorem recounts_tracked
    (hanswer : ∀ request,
      (answer request).Accounts options fun _ => Tracked options fun _ => False) :
    host.Recounts answer among options fun _ => Tracked options among where
  account := account_tracked options among
  idle _ member stands due _ := due.tracked member stands
  call := by
    intro world pair low result lived member stands calls
    have htells := calls.tells (account_tracked options _) hanswer lived
    have hrest : (world.begun pair).Tells (fun _ => Tracked options among) result :=
      htells.mono fun _ _ _ tracked => tracked.weaken fun _ h => h.elim
    exact Run.tells_of_first (account_tracked options among) lived
      (calls.due.tracked member stands) hrest

/-- What a request does in one go links classes, and the turns that come then are due to them. -/
theorem tracks_answer (depth : Nat) (request : Request) :
    (host.answer depth request).Accounts options fun _ => Tracked options fun _ => False := by
  refine host.accounts_answer (fun _ => account_tracked options _) (fun _ _ _ _ tracked => tracked)
    ?_ depth request
  intro depth request world result hanswer lived serves
  have hentered : ∀ {reply entered}, request.Enters world.session reply entered →
      entered.Lived options := fun enters => lived.trans (enters.trail lived.orderly.atRest).path
  cases serves with
  | replies enters attending =>
    exact Tracked.enters lived enters
      (attending.tells (host.recounts_tracked hanswer) (hentered enters))
  | interrupted enters interrupts =>
    exact Tracked.enters lived enters
      (interrupts.tells (host.recounts_tracked hanswer) (hentered enters))
  | aborts trail => exact trail.tracked lived

theorem tracks_run {α : Type} (depth : Nat) (program : Program σ α) :
    (host.run depth program).Accounts options fun _ => Tracked options fun _ => False :=
  program.accounts_run (account_tracked options _) (host.tracks_answer depth) host.holds

end Host

end LateBinding
