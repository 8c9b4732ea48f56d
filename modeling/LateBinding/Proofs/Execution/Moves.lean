import LateBinding.Execution.Run
import Mathlib.Logic.Relation

/-!
# A run is made of moves

Whatever the programs of a host do, they change a session one move at a time: an operation, the part
of a request that is done in one go, or a note that is taken on the way. A run leads onward by such
moves, however deep its requests stand within one another, also if it is cut short because they stand
too deep. If something ends everything, then it is one of the actions that moves are made by.
-/

namespace LateBinding

/-- What a run does to a session in one go. -/
inductive Act.Primitive : {α : Type} → Act α → Prop
  | perform (operation : Operation) : Primitive operation.perform
  | register (spec : ClassSpec) : Primitive (Act.register spec)
  | load (unit : LoadUnit) (imps : String → Option Imp) : Primitive (Act.load unit imps)
  | report (event : Event) : Primitive (Act.report event)
  | markInitialized (id : PairId) : Primitive (Act.onHeap (·.markInitialized id))

namespace Session

/-- A change of a session that nothing comes in between. -/
inductive Move : Session → Session → Prop
  | perform {start final : Session} {operation : Operation} {reply : operation.Reply}
      (run : operation.perform start = .ok reply final) : Move start final
  | register {start final : Session} {spec : ClassSpec}
      {reply : Except RegistryError (PairId × List PairId)}
      (run : Act.register spec start = .ok reply final) : Move start final
  | load {start final : Session} {unit : LoadUnit} {imps : String → Option Imp}
      {reply : Except LoadError (LoadReport × List PairId)}
      (run : Act.load unit imps start = .ok reply final) : Move start final
  | report (start : Session) (event : Event) :
      Move start { start with log := start.log.push event }
  | markInitialized (start : Session) (id : PairId) :
      Move start { start with heap := start.heap.markInitialized id }
  | release (start : Session) (held : List Value) :
      Move start { start with heap := start.heap.release held }

/-- The sessions that moves lead to from a session. -/
def Onward : Session → Session → Prop := Relation.ReflTransGen Move

/-- Something that is done in one go ends everything. -/
inductive Fails (start : Session) (reason : Abort) : Prop
  | action {α : Type} {action : Act α} {final : Session} (primitive : action.Primitive)
      (run : action start = .error reason final) : Fails start reason

end Session

theorem Act.Primitive.move {α : Type} {action : Act α} {start final : Session} {reply : α}
    (primitive : action.Primitive) (hrun : action start = .ok reply final) : start.Move final := by
  cases primitive with
  | perform operation => exact .perform hrun
  | register spec => exact .register hrun
  | load unit imps => exact .load hrun
  | report event =>
    cases hrun
    exact .report start event
  | markInitialized id =>
    cases hrun
    exact .markInitialized start id

namespace Run

variable {σ α β : Type}

/-- The run is put together from actions that make moves, and else looks at the world or changes what
is beside the session. -/
inductive OfMoves {σ : Type} : {α : Type} → Run σ α → Prop
  | pure {α : Type} (value : α) : OfMoves (pure value)
  | tooDeep {α : Type} : OfMoves (throw .tooDeep : Run σ α)
  | get : OfMoves (get : Run σ (World σ))
  | beside {change : World σ → World σ}
      (hsession : ∀ world, (change world).session = world.session) :
      OfMoves (modify change : Run σ PUnit)
  | settle (held : σ → List Value) : OfMoves (settle held)
  | act {α : Type} {action : Act α} (primitive : action.Primitive) : OfMoves (liftAct action)
  | bind {α β : Type} {first : Run σ α} {next : α → Run σ β} (hfirst : OfMoves first)
      (hnext : ∀ value, OfMoves (next value)) : OfMoves (first >>= next)

theorem OfMoves.forM {list : List α} {step : α → Run σ PUnit}
    (ofMoves : ∀ item, (step item).OfMoves) : (list.forM step).OfMoves := by
  induction list with
  | nil => exact .pure PUnit.unit
  | cons item rest ih => exact (ofMoves item).bind fun _ => ih

theorem OfMoves.framed {inner : Run σ α} (values : List Value) (ofMoves : inner.OfMoves) :
    (framed values inner).OfMoves := by
  refine OfMoves.get.bind fun world => ?_
  exact OfMoves.bind (.beside fun _ => rfl) fun _ => ofMoves.bind fun value =>
    OfMoves.bind (.beside fun _ => rfl) fun _ => .pure value

/-- What comes of a run: moves that lead onward, also where it is cut short, or an action on the way
that ends everything. -/
def Traced (world : World σ) : EStateM.Result Halt (World σ) α → Prop
  | .ok _ final => world.session.Onward final.session
  | .error .tooDeep final => world.session.Onward final.session
  | .error (.abort reason) _ => ∃ before, world.session.Onward before ∧ before.Fails reason

theorem Traced.later {world middle : World σ} {result : EStateM.Result Halt (World σ) α}
    (onward : world.session.Onward middle.session) (traced : Traced middle result) :
    Traced world result := by
  match result, traced with
  | .ok _ final, traced => exact onward.trans traced
  | .error .tooDeep final, traced => exact onward.trans traced
  | .error (.abort reason) _, ⟨before, hbefore, fails⟩ => exact ⟨before, onward.trans hbefore, fails⟩

theorem OfMoves.traced {run : Run σ α} (ofMoves : run.OfMoves) (world : World σ) :
    Traced world (run world) := by
  induction ofMoves generalizing world with
  | pure value => exact .refl
  | tooDeep => exact .refl
  | get => exact .refl
  | @beside change hsession =>
    change world.session.Onward (change world).session
    rw [hsession]
    exact .refl
  | settle held =>
    change world.session.Onward (world.settle held).session
    unfold World.settle
    split
    · exact .refl
    · exact .single (.release world.session _)
  | @act _ action primitive =>
    obtain ⟨session, host, held, pinned⟩ := world
    unfold liftAct
    cases hrun : action session with
    | ok reply final =>
      simp only [hrun]
      exact .single (primitive.move hrun)
    | error reason final =>
      simp only [hrun]
      exact ⟨session, .refl, .action primitive hrun⟩
  | @bind _ _ first next _ _ ihFirst ihNext =>
    have hfirst := ihFirst world
    change Traced world (EStateM.bind first next world)
    unfold EStateM.bind
    cases hrun : first world with
    | ok value middle =>
      rw [hrun] at hfirst
      exact .later hfirst (ihNext value middle)
    | error halt middle =>
      rw [hrun] at hfirst
      cases halt <;> exact hfirst

end Run

section

variable {σ : Type} {answer : (request : Request) → Run σ request.Reply}
  (hanswer : ∀ request, (answer request).OfMoves)

include hanswer

theorem Program.ofMoves_run {α : Type} (held : σ → List Value) (program : Program σ α) :
    (program.run held answer).OfMoves := by
  -- what a program does by itself are moves
  induction program with
  | done value => exact .pure value
  | look next ih => exact (Run.OfMoves.settle held).bind fun _ => Run.OfMoves.get.bind ih
  | keep host next ih =>
    rw [run]
    exact Run.OfMoves.bind (.beside fun _ => rfl) fun _ => ih
  | hold values next ih =>
    rw [run]
    exact Run.OfMoves.bind (.beside fun _ => rfl) fun _ => ih
  | act operation next ih =>
    exact (Run.OfMoves.settle held).bind fun _ =>
      (Run.OfMoves.act (.perform operation)).bind ih
  | ask request next ih =>
    exact (Run.OfMoves.settle held).bind fun _ => (hanswer request).bind ih

namespace Host

variable (host : Host σ)

theorem ofMoves_invoke (imp : Imp) (message : Message) (via : Option ClassRef) :
    (host.invoke answer imp message via).OfMoves :=
  (Program.ofMoves_run hanswer host.holds _).framed _

theorem ofMoves_deliver (message : Message) (route : Route) :
    (host.deliver answer message route).OfMoves := by
  cases route with
  | nowhere => exact .pure _
  | refuse error => exact .pure _
  | run imp via => exact host.ofMoves_invoke hanswer imp message (some via)
  | forward handler via =>
    refine Run.OfMoves.get.bind fun world => ?_
    exact (Run.OfMoves.act (.report _)).bind fun _ =>
      host.ofMoves_invoke hanswer handler message (some via)

theorem ofMoves_initializeOne (sel : Sel) (cls : ClassRef) :
    (host.initializeOne answer sel cls).OfMoves := by
  refine (Run.OfMoves.settle host.holds).bind fun _ => Run.OfMoves.get.bind fun world => ?_
  dsimp only
  split
  · exact .pure _
  · refine (Run.OfMoves.act (.markInitialized cls.pair)).bind fun _ => ?_
    cases world.session.heap.lookup ⟨cls.pair, .metaclass⟩ sel with
    | none => exact .pure _
    | some imp =>
      refine (Run.OfMoves.act (.report _)).bind fun _ =>
        (host.ofMoves_invoke hanswer imp _ none).bind ?_
      rintro (error | value)
      · exact .act (.report _)
      · exact .pure _

theorem ofMoves_initializeEach (sel : Sel) (classes : List ClassRef) :
    (host.initializeEach answer sel classes).OfMoves := by
  induction classes with
  | nil => exact .pure _
  | cons cls rest ih =>
    exact ((host.ofMoves_initializeOne hanswer sel cls).framed _).bind fun _ => ih

theorem ofMoves_runInitializers (linked : List PairId) :
    (host.runInitializers answer linked).OfMoves := by
  refine Run.OfMoves.get.bind fun world => ?_
  dsimp only
  split
  · cases world.session.system.selectors.lookup
      world.session.system.options.initializerSelector with
    | error error => exact .pure _
    | ok sel =>
      exact .forM fun pair => (Run.OfMoves.settle host.holds).bind fun _ =>
        Run.OfMoves.get.bind fun world => host.ofMoves_initializeEach hanswer sel _
  · exact .pure _

theorem ofMoves_load (unit : LoadUnit) (imps : String → Option Imp) :
    (host.load answer unit imps).OfMoves := by
  refine (Run.OfMoves.act (.load unit imps)).bind ?_
  rintro (error | ⟨loadReport, linked⟩)
  · exact .pure _
  · exact ((host.ofMoves_runInitializers hanswer linked).framed _).bind fun _ => .pure _

theorem ofMoves_answerWith (request : Request) : (host.answerWith answer request).OfMoves := by
  cases request with
  | send message =>
    exact Run.OfMoves.get.bind fun world => host.ofMoves_deliver hanswer message _
  | sendSuper current message =>
    exact Run.OfMoves.get.bind fun world => (host.ofMoves_deliver hanswer message _).framed _
  | call imp message => exact host.ofMoves_invoke hanswer imp message none
  | register spec =>
    refine (Run.OfMoves.act (.register spec)).bind ?_
    rintro (error | ⟨pair, linked⟩)
    · exact .pure _
    · exact ((host.ofMoves_runInitializers hanswer linked).framed _).bind fun _ => .pure _
  | load unit imps => exact host.ofMoves_load hanswer unit imps
  | loadBytes bytes imps =>
    unfold answerWith
    dsimp only
    cases LoadUnit.decode bytes with
    | error error => exact .pure _
    | ok unit => exact host.ofMoves_load hanswer unit imps

omit hanswer

theorem ofMoves_answer (depth : Nat) (request : Request) : (host.answer depth request).OfMoves := by
  induction depth generalizing request with
  | zero => exact .tooDeep
  | succ depth ih => exact host.ofMoves_answerWith ih request

theorem ofMoves_run {α : Type} (depth : Nat) (program : Program σ α) :
    (host.run depth program).OfMoves :=
  program.ofMoves_run (host.ofMoves_answer depth) host.holds

end Host

end

/-- Whatever the programs of a host do, a run leads onward, also if it is cut short. -/
theorem Session.onward_run {σ α : Type} {world final : World σ} (host : Host σ) (depth : Nat)
    (program : Program σ α) (hrun : (∃ value, host.run depth program world = .ok value final) ∨
      host.run depth program world = .error .tooDeep final) :
    world.session.Onward final.session := by
  have traced := (host.ofMoves_run depth program).traced world
  rcases hrun with ⟨value, hrun⟩ | hrun <;>
  · rw [hrun] at traced
    exact traced

end LateBinding
