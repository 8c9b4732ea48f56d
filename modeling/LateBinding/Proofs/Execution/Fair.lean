import LateBinding.Proofs.Execution.Onward
import LateBinding.Proofs.Execution.Reachable
import LateBinding.Proofs.System.Shutdown

/-!
# Fair moves

A host has no values but those that it was handed out, so what it puts into a slot refers to what is
there. As long as all moves are fair in this way, the heap refers to nothing that is not in it.
-/

namespace LateBinding.Session

variable {options : Options} {policy : CategoryConflictPolicy} {given : Value → Prop}
  {start middle final : Session}

/-! ### Deeds -/

theorem closed_of_objects (closed : start.heap.Closed) (steady : final.Steady policy)
    (remembers : start.Remembers final) (hobjects : final.heap.objects = start.heap.objects) :
    final.heap.Closed ∧ ∀ value, start.heap.Has value → final.heap.Has value := by
  have hhas : ∀ id, start.heap.HasObject id → final.heap.HasObject id := by
    intro id hid
    rwa [Heap.HasObject, hobjects]
  refine ⟨closed.of_objects hobjects remembers.ages.hasPair ?_,
    fun _ hvalue => hvalue.mono remembers.ages.hasPair hhas⟩
  exact fun id hid => (steady.held.loose id hid).1

theorem Deed.closed (deed : start.Deed given final) (steady : start.Steady policy)
    (hgiven : ∀ value, given value → start.heap.Has value) (closed : start.heap.Closed) :
    final.heap.Closed ∧ ∀ value, start.heap.Has value → final.heap.Has value := by
  have hsame := closed_of_objects closed (deed.steady steady) (deed.remembers steady)
  cases deed with
  | note => exact hsame rfl
  | intern => exact hsame rfl
  | store fits => exact ⟨fits.closed hgiven closed, fun _ => fits.has⟩
  | classes change => exact hsame (change.sameObjects_or steady.atRest).1
  | shutdown => exact hsame start.classes.objects_cleared

theorem DeedsOf.closed (deeds : start.DeedsOf given final) (steady : start.Steady policy)
    (hgiven : ∀ value, given value → start.heap.Has value) (closed : start.heap.Closed) :
    final.heap.Closed := by
  have hall : final.Steady policy ∧ final.heap.Closed ∧
      ∀ value, start.heap.Has value → final.heap.Has value := by
    induction deeds with
    | refl => exact ⟨steady, closed, fun _ h => h⟩
    | tail _ deed ih =>
      obtain ⟨hsteady, hclosed, hhas⟩ := ih
      obtain ⟨hfinal, hlater⟩ :=
        deed.closed hsteady (fun value h => hhas value (hgiven value h)) hclosed
      exact ⟨deed.steady hsteady, hfinal, fun value h => hlater value (hhas value h)⟩
  exact hall.2.1

/-! ### Moves -/

/-- A move in which nothing is put into a slot that refers to what is not there. -/
inductive FairMove : Session → Session → Prop
  | perform {start final : Session} {operation : Operation} {reply : operation.Reply}
      (stored : ∀ value ∈ operation.stored, start.heap.Has value)
      (run : operation.perform start = .ok reply final) : FairMove start final
  | register {start final : Session} {spec : ClassSpec}
      {reply : Except RegistryError (PairId × List PairId)}
      (run : Act.register spec start = .ok reply final) : FairMove start final
  | load {start final : Session} {unit : LoadUnit} {imps : String → Option Imp}
      {reply : Except LoadError (LoadReport × List PairId)}
      (run : Act.load unit imps start = .ok reply final) : FairMove start final
  | report (start : Session) (event : Event) :
      FairMove start { start with log := start.log.push event }
  | markInitialized (start : Session) (id : PairId) :
      FairMove start { start with heap := start.heap.markInitialized id }
  | release (start : Session) (held : List Value) :
      FairMove start { start with heap := start.heap.release held }

/-- The sessions that fair moves lead to from a fresh system. -/
inductive FairlyReachable (options : Options) : Session → Prop
  | start : FairlyReachable options (.start options)
  | move {session final : Session} (reachable : FairlyReachable options session)
      (move : session.FairMove final) : FairlyReachable options final

theorem FairMove.move (move : start.FairMove final) : start.Move final := by
  cases move with
  | perform _ run => exact .perform run
  | register run => exact .register run
  | load run => exact .load run
  | report event => exact .report start event
  | markInitialized id => exact .markInitialized start id
  | release held => exact .release start held

theorem FairlyReachable.reachable (fairly : final.FairlyReachable options) :
    final.Reachable options := by
  induction fairly with
  | start => exact .start
  | move _ move ih => exact ih.move move.move

theorem FairMove.closed (move : start.FairMove final) (steady : start.Steady policy)
    (closed : start.heap.Closed) : final.heap.Closed := by
  have atRest : start.AtRest policy := steady.atRest
  obtain ⟨hsteady, remembers⟩ := move.move.spec steady
  have hsame := closed_of_objects closed hsteady remembers
  have hgiven : ∀ value, start.heap.Has value → start.heap.Has value := fun _ h => h
  cases move with
  | perform stored run =>
    exact ((Act.roams_perform stored start atRest).deeds_of_ok run).closed steady hgiven closed
  | register run =>
    exact ((Act.roams_register _ start atRest).deeds_of_ok run).closed steady hgiven closed
  | load run =>
    exact ((Act.roams_load _ _ start atRest).deeds_of_ok run).closed steady hgiven closed
  | report event => exact closed
  | markInitialized id => exact (hsame rfl).1
  | release held => exact (hsame (start.heap.objects_release held)).1

theorem FairlyReachable.closed (fairly : final.FairlyReachable options) : final.heap.Closed := by
  induction fairly with
  | start => exact .empty
  | move before move ih => exact move.closed before.reachable.steady ih

theorem FairlyReachable.afterRegister (fairly : start.FairlyReachable options) (spec : ClassSpec) :
    (start.afterRegister spec).FairlyReachable options := by
  unfold Session.afterRegister
  cases hrun : Act.register spec start with
  | ok reply final => exact fairly.move (.register hrun)
  | error reason final => exact fairly

theorem FairlyReachable.afterPerform (fairly : start.FairlyReachable options)
    {operation : Operation} (stored : ∀ value ∈ operation.stored, start.heap.Has value) :
    (start.afterPerform operation).FairlyReachable options := by
  unfold Session.afterPerform
  cases hrun : operation.perform start with
  | ok reply final => exact fairly.move (.perform stored hrun)
  | error reason final => exact fairly

/-- A shutdown leads to a session that is closed as well, and nothing disappears from its heap. -/
theorem FairlyReachable.shutDown (fairly : start.FairlyReachable options) :
    start.shutDown.FairlyReachable options ∧
      ∀ value, start.heap.Has value → start.shutDown.heap.Has value := by
  have move : start.FairMove start.shutDown :=
    .perform (fun _ h => absurd h List.not_mem_nil) (show Operation.shutdown.perform start = _ from
      Act.shutdown_eq start)
  have hfinal := fairly.move move
  have remembers := (move.move.spec fairly.reachable.steady).2
  exact ⟨hfinal, (closed_of_objects fairly.closed hfinal.reachable.steady remembers
    start.classes.objects_cleared).2⟩

end LateBinding.Session
