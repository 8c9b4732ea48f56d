import LateBinding.Proofs.Execution.Actions
import LateBinding.Proofs.Execution.Linked

/-!
# What can be told of a run

Whatever programs do, a run goes from step to step, and so does one that is cut short. This and more
can be told of a run by the sessions where it begins and where it ends. If it can be told of what
passes without turns, and of what is done one after the other, then it can be told of a program when
it can be told of the requests that the program makes.
-/

namespace LateBinding

open Session

theorem World.trail_settle {σ : Type} (world : World σ) (holds : σ → List Value) :
    world.session.Trail (world.settle holds).session := by
  unfold settle
  split
  · exact .refl
  · exact .single (.release _)

/-- What is told of where something begins and where it ends, or is cut short: at least that steps
lead there. It holds of what passes without turns and of what is done one after the other. -/
structure Session.Account (options : Options) (tells : Prop → Session → Session → Prop) : Prop where
  path : ∀ {cut : Prop} {start final : Session}, tells cut start final → start.Path final
  trail : ∀ {cut : Prop} {start final : Session}, start.Lived options → start.Trail final →
    tells cut start final
  trans : ∀ {cut : Prop} {start middle final : Session}, start.Lived options →
    tells False start middle → tells cut middle final → tells cut start final

theorem Session.account_path (options : Options) : Account options fun _ => Path where
  path path := path
  trail _ trail := trail.path
  trans _ first second := Relation.ReflTransGen.trans first second

/-- It is told of a world and the result that a run has there. -/
def World.Tells {σ α : Type} (tells : Prop → Session → Session → Prop) (world : World σ) :
    EStateM.Result Halt (World σ) α → Prop
  | .ok _ final => tells False world.session final.session
  | .error _ final => tells True world.session final.session

theorem World.Tells.mono {σ α : Type} {tells told : Prop → Session → Session → Prop}
    {world : World σ} {result : EStateM.Result Halt (World σ) α} (htells : world.Tells tells result)
    (hmono : ∀ cut start final, tells cut start final → told cut start final) :
    world.Tells told result := by
  cases result with
  | ok value final => exact hmono _ _ _ htells
  | error halt final => exact hmono _ _ _ htells

/-- It is told of where a run ends or is cut short. -/
theorem World.Tells.of_end {σ α : Type} {tells : Prop → Session → Session → Prop}
    {world final : World σ} {result : EStateM.Result Halt (World σ) α}
    (htells : world.Tells tells result)
    (hmono : ∀ {cut weaker : Prop} {start final : Session}, (cut → weaker) →
      tells cut start final → tells weaker start final)
    (hend : (∃ value, result = .ok value final) ∨ ∃ halt, result = .error halt final) :
    tells (∃ halt, result = .error halt final) world.session final.session := by
  rcases hend with ⟨value, rfl⟩ | ⟨halt, rfl⟩
  · exact hmono False.elim htells
  · exact hmono (fun _ => ⟨halt, rfl⟩) htells

namespace Run

variable {σ α β : Type} {options : Options} {tells : Prop → Session → Session → Prop}

/-- It is told of the run wherever steps have led to. -/
def Accounts (options : Options) (tells : Prop → Session → Session → Prop) (run : Run σ α) : Prop :=
  ∀ world : World σ, world.session.Lived options → world.Tells tells (run world)

/-- The run is a path wherever steps have led to. -/
abbrev Roams (options : Options) (run : Run σ α) : Prop := run.Accounts options fun _ => Path

variable (account : Account options tells) {world : World σ}

include account

/-- First one thing is done, and the run goes on from there. -/
theorem tells_of_first {middle : World σ} {result : EStateM.Result Halt (World σ) α}
    (lived : world.session.Lived options) (first : tells False world.session middle.session)
    (rest : middle.Tells tells result) : world.Tells tells result := by
  cases result with
  | ok value final => exact account.trans lived first rest
  | error halt final => exact account.trans lived first rest

theorem tells_refl (lived : world.session.Lived options) (value : α) :
    world.Tells tells (.ok value world : EStateM.Result Halt (World σ) α) :=
  account.trail lived .refl

theorem tells_bind {first : Run σ α} {next : α → Run σ β} (lived : world.session.Lived options)
    (hfirst : world.Tells tells (first world))
    (hnext : ∀ value middle, first world = .ok value middle → middle.session.Lived options →
      middle.Tells tells (next value middle)) : world.Tells tells ((first >>= next) world) := by
  change world.Tells tells (EStateM.bind first next world)
  rw [EStateM.bind]
  cases hrun : first world with
  | ok value middle =>
    rw [hrun] at hfirst
    exact tells_of_first account lived hfirst
      (hnext value middle hrun (lived.trans (account.path hfirst)))
  | error halt final =>
    rw [hrun] at hfirst
    exact hfirst

theorem accounts_pure (value : α) : (pure value : Run σ α).Accounts options tells :=
  fun _ lived => tells_refl account lived value

theorem accounts_modify {change : World σ → World σ}
    (hsession : ∀ world, (change world).session = world.session) :
    (modify change : Run σ PUnit).Accounts options tells := by
  intro world lived
  change tells False world.session (change world).session
  rw [hsession]
  exact account.trail lived .refl

theorem accounts_settle (holds : σ → List Value) : (settle holds).Accounts options tells :=
  fun world lived => account.trail lived (world.trail_settle holds)

omit account in
theorem accounts_get_bind {next : World σ → Run σ α}
    (accounts : ∀ world, (next world).Accounts options tells) :
    ((get : Run σ (World σ)) >>= next).Accounts options tells :=
  fun world lived => accounts world world lived

theorem accounts_liftAct {action : Act α} (roams : action.Roams options.categoryConflicts) :
    (liftAct action : Run σ α).Accounts options tells := by
  rintro ⟨session, host, held, pinned⟩ lived
  have trail := (roams session lived.orderly.atRest).trail
  unfold Act.after at trail
  unfold liftAct
  dsimp only
  cases hrun : action session with
  | ok value final =>
    rw [hrun] at trail
    exact account.trail lived trail
  | error reason final =>
    rw [hrun] at trail
    exact account.trail lived trail

theorem Accounts.bind {first : Run σ α} {next : α → Run σ β}
    (hfirst : first.Accounts options tells)
    (hnext : ∀ value, (next value).Accounts options tells) :
    (first >>= next).Accounts options tells := fun world lived =>
  tells_bind account lived (hfirst world lived) fun value middle _ => hnext value middle

theorem Accounts.framed {inner : Run σ α} (values : List Value)
    (accounts : inner.Accounts options tells) : (framed values inner).Accounts options tells := by
  rintro ⟨session, host, held, pinned⟩ lived
  have hrest : World.Tells tells ⟨session, host, [], values ++ held ++ pinned⟩
      ((inner >>= fun result => do
        modify fun world => { world with held, pinned }
        return result) ⟨session, host, [], values ++ held ++ pinned⟩) := by
    refine tells_bind account lived (accounts _ lived) ?_
    intro value middle _ hmiddle
    exact account.trail hmiddle .refl
  exact hrest

/-- Whatever is told of a run, steps lead to its end. -/
theorem Accounts.roams {run : Run σ α} (accounts : run.Accounts options tells) :
    run.Roams options :=
  fun world lived => (accounts world lived).mono fun _ _ _ => account.path

end Run

/-! ### Programs -/

section

variable {σ : Type} {options : Options} {tells : Prop → Session → Session → Prop}
  {answer : (request : Request) → Run σ request.Reply} (account : Account options tells)
  (hanswer : ∀ request, (answer request).Accounts options tells)

include account hanswer

theorem Program.accounts_run {α : Type} (held : σ → List Value) (program : Program σ α) :
    (program.run held answer).Accounts options tells := by
  induction program with
  | done value => exact Run.accounts_pure account value
  | look next ih =>
    exact (Run.accounts_settle account held).bind account fun _ => Run.accounts_get_bind ih
  | keep host next ih =>
    rw [run]
    exact Run.Accounts.bind account (Run.accounts_modify account fun _ => rfl) fun _ => ih
  | hold values next ih =>
    rw [run]
    exact Run.Accounts.bind account (Run.accounts_modify account fun _ => rfl) fun _ => ih
  | act operation next ih =>
    have hact : (Run.liftAct operation.perform : Run σ operation.Reply).Accounts options tells :=
      Run.accounts_liftAct account (Act.roams_perform fun _ _ => trivial)
    exact (Run.accounts_settle account held).bind account fun _ => hact.bind account ih
  | ask request next ih =>
    exact (Run.accounts_settle account held).bind account fun _ =>
      (hanswer request).bind account ih

namespace Host

variable (host : Host σ)

theorem accounts_invoke (imp : Imp) (message : Message) (via : Option ClassRef) :
    (host.invoke answer imp message via).Accounts options tells :=
  (Program.accounts_run account hanswer host.holds _).framed account _

theorem accounts_deliver (message : Message) (route : Route) :
    (host.deliver answer message route).Accounts options tells := by
  cases route with
  | nowhere => exact Run.accounts_pure account _
  | refuse error => exact Run.accounts_pure account _
  | run imp via => exact host.accounts_invoke account hanswer imp message (some via)
  | forward handler via =>
    apply Run.accounts_get_bind
    intro world
    exact (Run.accounts_liftAct account (Act.roams_report rfl)).bind account fun _ =>
      host.accounts_invoke account hanswer handler message (some via)

/-- What does not link classes runs at most one program. -/
theorem accounts_answerWith {request : Request} (hnone : request.links = false) :
    (host.answerWith answer request).Accounts options tells := by
  cases request with
  | send message =>
    exact Run.accounts_get_bind fun _ => host.accounts_deliver account hanswer message _
  | sendSuper current message =>
    exact Run.accounts_get_bind fun _ =>
      (host.accounts_deliver account hanswer message _).framed account _
  | call imp message => exact host.accounts_invoke account hanswer imp message none
  | register spec => cases hnone
  | load unit imps => cases hnone
  | loadBytes bytes imps => cases hnone

end Host

end

end LateBinding
