import LateBinding.Proofs.Execution.Fair
import LateBinding.Proofs.Scenario.Bodies
import LateBinding.Proofs.System.Report
import LateBinding.Proofs.System.Shutdown

/-!
# Scenarios after a shutdown

A system that was shut down cannot be told from a new one. What it did before lies in the heap as
the ground that everything later stands on; a scenario that starts without handles reaches nothing
of it. So all its steps are answered as they are by a new system, only that the identities of pairs
and objects are counted on from the ground. Class numbers and uids start anew.
-/

namespace LateBinding

/-! ### The ground that is left -/

def Heap.offset (heap : Heap) : Offset := ⟨heap.pairs.size, heap.objects.size⟩

def Heap.Closed.ground {heap : Heap} (closed : heap.Closed) : Ground heap.offset :=
  ⟨heap, rfl, rfl, closed⟩

theorem Heap.Has.below {heap : Heap} {value : Value} (hvalue : heap.Has value) :
    heap.offset.Below value := by
  cases value <;> exact hvalue

theorem Ground.under_empty {offset : Offset} (ground : Ground offset) :
    ground.under .empty = ground.heap := by
  unfold under
  simp [Heap.empty]

namespace Session

variable {options : Options} {session : Session}

/-- A session that was shut down carries nothing but the ground. -/
theorem carries_shutDown (atRest : session.AtRest options.categoryConflicts)
    (equipped : session.Equipped options) (closed : session.shutDown.heap.Closed) :
    closed.ground.Carries (.start options) { session.shutDown with log := #[] } where
  classes := by
    refine Ground.classes_eq closed.ground.under_empty.symm ?_ Array.map_empty.symm
    refine Eq.trans ?_ (Registry.rename_empty _ _).symm
    rw [← atRest.policy_eq]
    rfl
  selectors := by
    change SelectorTable.Alike (.withCapacity _ options.typeMismatch) session.system.selectors.clear
    rw [← equipped.policy_eq]
    exact SelectorTable.alike_clear equipped.sound
  statics := rfl
  forward := rfl
  options := equipped.options_eq

end Session

namespace Scenario

/-! ### Steps in a row -/

/-- Steps one after the other, with what came of each. -/
def Script.takeAll (script : Script) : List Step → Session → Desk → List Taken
  | [], _, _ => []
  | step :: rest, session, desk =>
    let (taken, session, desk) := script.take step session desk
    taken :: script.takeAll rest session desk

def Outcome.moved (offset : Offset) : Outcome → Outcome
  | .answered answer => .answered (answer.map (·.moved offset))
  | .halted halt => .halted halt

def Taken.moved (offset : Offset) (taken : Taken) : Taken where
  outcome := taken.outcome.moved offset
  log := taken.log.map (·.rename offset.pair)
  notes := taken.notes.map (·.moved offset)

/-- The stage that a step is taken on. -/
def Stage.opening (session : Session) (desk : Desk) : Stage where
  session := { session with log := #[] }
  host := { desk with notes := #[] }
  held := []
  pinned := []

/-- What is told of a step, and what the next step goes on with. -/
def Stage.closing (stage : Stage) (outcome : Outcome) : Taken × Session × Desk :=
  ({ outcome, log := stage.session.log.toList, notes := stage.host.notes.toList }, stage.session,
    stage.host)

theorem Script.take_eq (script : Script) (step : Step) (session : Session) (desk : Desk) :
    script.take step session desk =
      match script.host.run depthLimit (step.program script []) (Stage.opening session desk) with
      | .ok answer stage => Stage.closing stage (.answered answer)
      | .error halt stage => Stage.closing stage (.halted halt) := by
  unfold take Stage.opening
  dsimp only
  generalize script.host.run depthLimit (step.program script []) _ = result
  cases result <;> rfl

/-- Sessions and desks that a step finds the same, but for the ground. -/
def Resumes (offset : Offset) (policy : CategoryConflictPolicy) (session image : Session)
    (desk desk' : Desk) : Prop :=
  (Stage.opening session desk).Stacked offset policy (Desk.Stacked offset) []
    (Stage.opening image desk')

variable {offset : Offset} {policy : CategoryConflictPolicy} {session image : Session}
  {desk desk' : Desk}

theorem resumes_of_stacked {stage other : Stage}
    (stacked : stage.Stacked offset policy (Desk.Stacked offset) [] other) :
    Resumes offset policy stage.session other.session stage.host other.host := by
  obtain ⟨ground, hcarries⟩ := stacked.carries
  have hclasses : (Stage.opening other.session other.host).session.classes =
      ground.relocation.classes (Stage.opening stage.session stage.host).session.classes :=
    Ground.classes_eq hcarries.heap_eq hcarries.registry_eq Array.map_empty.symm
  exact {
    carries := ⟨ground, { hcarries with classes := hclasses }⟩
    steady := Classes.Steady.of_pairs stacked.steady rfl rfl rfl
    linked := fun _ h => nomatch h
    host := { stacked.host with notes := Array.map_empty.symm }
    held := rfl
    pinned := rfl }

theorem taken_closing {stage other : Stage}
    (stacked : stage.Stacked offset policy (Desk.Stacked offset) [] other) (outcome : Outcome) :
    (other.closing (outcome.moved offset)).1 = (stage.closing outcome).1.moved offset := by
  obtain ⟨ground, hcarries⟩ := stacked.carries
  unfold Stage.closing Taken.moved
  dsimp only
  rw [hcarries.log_eq, stacked.host.notes, Array.toList_map, Array.toList_map]

theorem Resumes.take (resumes : Resumes offset policy session image desk desk') (script : Script)
    (step : Step) :
    let (taken, later, desk) := script.take step session desk
    let (taken', later', desk') := script.take step image desk'
    taken' = taken.moved offset ∧ Resumes offset policy later later' desk desk' := by
  have grounded := script.grounded_host offset policy
  have hmatches : Matches _ (Alike (Answers offset)) (Stage.opening session desk)
      (Stage.opening image desk') (script.host.run depthLimit (step.program script []))
      (script.host.run depthLimit (step.program script [])) :=
    (step.alike_program script []).run grounded.roots (Host.answers_answer grounded depthLimit)
      resumes
  rw [Script.take_eq, Script.take_eq]
  revert hmatches
  unfold Matches
  cases script.host.run depthLimit (step.program script []) (Stage.opening session desk) with
  | ok answer stage =>
    cases script.host.run depthLimit (step.program script []) (Stage.opening image desk') with
    | error halt' other => exact False.elim
    | ok answer' other =>
      rintro ⟨halike, stacked⟩
      rw [alike_iff_eq_map.mp halike]
      exact ⟨taken_closing stacked (.answered answer), resumes_of_stacked stacked⟩
  | error halt stage =>
    cases script.host.run depthLimit (step.program script []) (Stage.opening image desk') with
    | ok answer' other => exact False.elim
    | error halt' other =>
      rintro ⟨rfl, stacked⟩
      exact ⟨taken_closing stacked (.halted halt'), resumes_of_stacked stacked⟩

theorem Resumes.takeAll (resumes : Resumes offset policy session image desk desk')
    (script : Script) (steps : List Step) :
    script.takeAll steps image desk' = (script.takeAll steps session desk).map (·.moved offset) := by
  induction steps generalizing session image desk desk' with
  | nil => rfl
  | cons step rest ih =>
    obtain ⟨htaken, hlater⟩ := resumes.take script step
    exact congrArg₂ List.cons htaken (ih hlater)

end Scenario

/-! ### Starting afresh -/

namespace Session

variable {options : Options} {session : Session}

theorem FairlyReachable.resumes_start (fairly : session.FairlyReachable options)
    {held : List Value} (hheld : ∀ value ∈ held, session.heap.Has value) :
    Scenario.Resumes session.shutDown.heap.offset options.categoryConflicts (.start options)
      session.shutDown .empty { Scenario.Desk.empty with elsewhere := held } where
  carries := by
    obtain ⟨hfinal, -⟩ := fairly.shutDown
    exact ⟨hfinal.closed.ground, carries_shutDown fairly.reachable.atRest
      fairly.reachable.equipped hfinal.closed⟩
  steady := steady_start options
  linked _ h := nomatch h
  host := {
    classes := rfl
    objects := rfl
    tables := rfl
    notes := Array.map_empty.symm
    elsewhere := rfl
    below := fun value hvalue => (fairly.shutDown.2 value (hheld value hvalue)).below }
  held := rfl
  pinned := rfl

theorem Reachable.table?_shutDown (reachable : session.Reachable options) (cls : ClassRef) :
    session.shutDown.heap.table? cls = none := by
  obtain ⟨order, lineage⟩ := (reachable.steady.cleared).settled
  exact lineage.withdrawn cls.pair (Registry.not_houses_empty _ cls.pair) cls.kind

theorem Equipped.intern_shutDown (equipped : session.Equipped options) (name : String)
    (types : Option String) :
    ∃ after, (Operation.intern name types).perform session.shutDown = .ok ⟨1⟩ after := by
  have hnew : session.shutDown.system.selectors.uids.get? name = none :=
    equipped.sound.uids.get?_clear name
  have hroom : session.shutDown.system.selectors.size < maxUid := Nat.zero_lt_succ _
  refine ⟨{ session.shutDown with
    system.selectors := session.shutDown.system.selectors.extended name types }, ?_⟩
  rw [Operation.perform, Act.intern, Act.bind_of_ok (Act.run_get _),
    SelectorTable.intern_eq_extended types hnew hroom]
  rfl

/-- A shutdown succeeds. It reports what was unresolved, and no class has a table afterwards. From
there on every scenario that starts without handles goes as it does in a new system with the same
options, whatever is held from before: its steps have the same answers, events and notes. -/
theorem FairlyReachable.shutdown_starts_afresh (fairly : session.FairlyReachable options)
    {held : List Value} (hheld : ∀ value ∈ held, session.heap.Has value) :
    ∃ report final, Operation.shutdown.perform session = .ok report final ∧
      ShutdownReport.Covers report session.system ∧
      (∀ cls, final.heap.table? cls = none) ∧
      final.system.registry.nextId = ⟨0⟩ ∧
      (∀ name types, ∃ after, (Operation.intern name types).perform final = .ok ⟨1⟩ after) ∧
      ∀ (script : Scenario.Script) (steps : List Scenario.Step),
        script.takeAll steps final { Scenario.Desk.empty with elsewhere := held } =
          (script.takeAll steps (.start options) .empty).map (·.moved final.heap.offset) :=
  ⟨session.system.shutdownReport, session.shutDown, Act.shutdown_eq session,
    System.covers_shutdownReport fairly.reachable.atRest.consistent,
    fairly.reachable.table?_shutDown, rfl, fairly.reachable.equipped.intern_shutDown,
    fun script steps => (fairly.resumes_start hheld).takeAll script steps⟩

/-- A class, one that waits for its superclass, and a category that waits for its class. -/
def pendingSample : Session :=
  (((start {}).afterRegister rootSample).afterRegister
    ⟨"Orphan", some "Missing", 0, .both [], []⟩).afterPerform
    (.applyCategory ⟨"Extras", "Nowhere", .both [], []⟩)

/-- A static instance waits as well. It keeps the first class in its slot. -/
def unsettledSample : Session :=
  (pendingSample.afterPerform (.createLiteral [.classObject ⟨⟨0⟩, .plain⟩])).afterPerform
    (.registerStatics "Ghost" [⟨0⟩])

theorem fairlyReachable_unsettledSample : unsettledSample.FairlyReachable {} := by
  have hnone : ∀ {heap : Heap}, ∀ value ∈ ([] : List Value), heap.Has value :=
    fun _ h => absurd h List.not_mem_nil
  have hclass : 0 < pendingSample.heap.pairs.size := by decide +kernel
  have hpending : pendingSample.FairlyReachable {} :=
    ((FairlyReachable.start.afterRegister _).afterRegister _).afterPerform hnone
  refine (hpending.afterPerform fun value hvalue => ?_).afterPerform hnone
  obtain rfl := List.mem_singleton.mp hvalue
  exact hclass

/-- The static instance is held on, and a class of the same name is registered again. -/
theorem unsettledSample_starts_afresh :
    let held : List Value := [.object ⟨0⟩, .classObject ⟨⟨0⟩, .metaclass⟩]
    let steps : List Scenario.Step :=
      [.stats, .register ⟨"Root", none, 0, .both [], []⟩ "root", .create (.named "root") "object",
        .intern "pong" none, .inspect (.named "root")]
    unsettledSample.FairlyReachable {} ∧ (∀ value ∈ held, unsettledSample.heap.Has value) ∧
      unsettledSample.heap.isLinked ⟨⟨0⟩, .plain⟩ = true ∧
      ∃ final, Operation.shutdown.perform unsettledSample =
          .ok ⟨[("Orphan", "Missing")], [("Nowhere", "Extras")], [("Ghost", 1)], 2, 2⟩ final ∧
        final.heap.table? ⟨⟨0⟩, .plain⟩ = none ∧
        Scenario.Script.empty.takeAll steps final { Scenario.Desk.empty with elsewhere := held } =
          (Scenario.Script.empty.takeAll steps (.start {}) .empty).map
            (·.moved final.heap.offset) := by
  intro held steps
  have hfacts : unsettledSample.heap.isLinked ⟨⟨0⟩, .plain⟩ = true ∧
      0 < unsettledSample.heap.objects.size ∧ 0 < unsettledSample.heap.pairs.size ∧
      unsettledSample.system.shutdownReport =
        ⟨[("Orphan", "Missing")], [("Nowhere", "Extras")], [("Ghost", 1)], 2, 2⟩ := by
    decide +kernel
  obtain ⟨hlinked, hobject, hclass, hreport⟩ := hfacts
  have hheld : ∀ value ∈ held, unsettledSample.heap.Has value := by
    intro value hvalue
    rcases List.mem_pair.mp hvalue with rfl | rfl
    · exact hobject
    · exact hclass
  obtain ⟨report, final, hrun, -, htables, -, -, hsteps⟩ :=
    fairlyReachable_unsettledSample.shutdown_starts_afresh hheld
  cases (Act.shutdown_eq unsettledSample).symm.trans hrun
  rw [hreport] at hrun
  exact ⟨fairlyReachable_unsettledSample, hheld, hlinked, _, hrun, htables _, hsteps _ steps⟩

end Session

end LateBinding
