import LateBinding.Execution.Program
import LateBinding.Heap.Release

/-!
# Running programs

A request is answered by running the programs that it calls for, which may make requests in turn. A
depth bounds how many requests stand within one another; if it is reached the run ends without an
answer, and a greater depth goes further.

Initializers run once the classes have linked: for each class that linked, the classes above it that
were not initialized yet come first. A class's turn comes only once, whether or not its metaclass
implements the initializer, and an initializer that fails is reported and otherwise disregarded.

Before anything is looked at or done, the removed classes that nothing holds are released.
-/

namespace LateBinding

inductive Halt where
  | abort (reason : Abort)
  /-- More requests stand within one another than the depth allows. -/
  | tooDeep
  deriving DecidableEq, Repr

abbrev Run (σ : Type) := EStateM Halt (World σ)

/-- The values that keep classes from being released. -/
def World.roots {σ : Type} (holds : σ → List Value) (world : World σ) : List Value :=
  holds world.host ++ world.held ++ world.pinned ++
    world.session.system.statics.map fun (_, object) => .object object

def World.settle {σ : Type} (holds : σ → List Value) (world : World σ) : World σ :=
  if world.session.heap.loose.isEmpty then world
  else { world with session.heap := world.session.heap.release (world.roots holds) }

namespace Run

variable {σ α : Type}

def settle (holds : σ → List Value) : Run σ Unit := modify (·.settle holds)

def liftAct (action : Act α) : Run σ α := fun world =>
  match world with
  | ⟨session, host, held, pinned⟩ =>
    match action session with
    | .ok value session => .ok value ⟨session, host, held, pinned⟩
    | .error reason session => .error (.abort reason) ⟨session, host, held, pinned⟩

/-- Run something while the program that waits for it holds on to some more values. -/
def framed (values : List Value) (inner : Run σ α) : Run σ α := do
  let ⟨_, _, held, pinned⟩ ← get
  modify fun world => { world with held := [], pinned := values ++ held ++ pinned }
  let result ← inner
  modify fun world => { world with held, pinned }
  return result

end Run

/-- Run a program, where requests are answered by `answer`. -/
def Program.run {σ α : Type} (holds : σ → List Value)
    (answer : (request : Request) → Run σ request.Reply) : Program σ α → Run σ α
  | .done value => return value
  | .look next => do
    Run.settle holds
    (next (← get)).run holds answer
  | .keep host next => do
    modify ({ · with host })
    next.run holds answer
  | .hold values next => do
    modify ({ · with held := values })
    next.run holds answer
  | .act operation next => do
    Run.settle holds
    let reply ← Run.liftAct operation.perform
    (next reply).run holds answer
  | .ask request next => do
    Run.settle holds
    let reply ← answer request
    (next reply).run holds answer

/-- The classes from a class upward that are not initialized yet, the uppermost first, at most the
given number. -/
def Heap.uninitializedChain (heap : Heap) : Nat → ClassRef → List ClassRef
  | 0, _ => []
  | left + 1, cls =>
    if heap.isInitialized cls then []
    else (heap.superclass? cls).elim [] (heap.uninitializedChain left) ++ [cls]

namespace Host

variable {σ : Type}

def invoke (host : Host σ) (answer : (request : Request) → Run σ request.Reply) (imp : Imp)
    (message : Message) (via : Option ClassRef) : Run σ (Except DispatchError Value) :=
  Run.framed (message.receiver :: message.args ++ via.toList.map .classObject)
    ((host.body imp message).run host.holds answer)

def deliver (host : Host σ) (answer : (request : Request) → Run σ request.Reply)
    (message : Message) : Route → Run σ (Except DispatchError Value)
  | .nowhere => return .ok .nil
  | .refuse error => return .error error
  | .run imp via => host.invoke answer imp message (some via)
  | .forward handler via => do
    let name := (← get).session.heap.className via
    Run.liftAct (Act.report (.forwarding name message.sel))
    host.invoke answer handler message (some via)

def initializeOne (host : Host σ) (answer : (request : Request) → Run σ request.Reply) (sel : Sel)
    (cls : ClassRef) : Run σ Unit := do
  Run.settle host.holds
  let heap := (← get).session.heap
  if heap.isInitialized cls then return
  Run.liftAct (Act.onHeap (·.markInitialized cls.pair))
  match heap.lookup ⟨cls.pair, .metaclass⟩ sel with
  | none => return
  | some imp =>
    Run.liftAct (Act.report (.initializing cls.pair (heap.className cls)))
    match ← host.invoke answer imp ⟨.classObject cls, sel, []⟩ none with
    | .ok _ => return
    | .error error =>
      Run.liftAct (Act.report (.initializerFailed (heap.className cls) error.message))

def initializeEach (host : Host σ) (answer : (request : Request) → Run σ request.Reply)
    (sel : Sel) : List ClassRef → Run σ Unit
  | [] => return
  | cls :: rest => do
    Run.framed ((cls :: rest).map .classObject) (host.initializeOne answer sel cls)
    host.initializeEach answer sel rest

def initializeClass (host : Host σ) (answer : (request : Request) → Run σ request.Reply)
    (sel : Sel) (pair : PairId) : Run σ Unit := do
  Run.settle host.holds
  let heap := (← get).session.heap
  host.initializeEach answer sel (heap.uninitializedChain heap.pairs.size ⟨pair, .plain⟩)

/-- Initialize classes that have linked, unless the options say otherwise. The initializer has to be
interned by then. -/
def runInitializers (host : Host σ) (answer : (request : Request) → Run σ request.Reply)
    (linked : List PairId) : Run σ Unit := do
  let system := (← get).session.system
  if system.options.sendInitialize && !linked.isEmpty then
    match system.selectors.lookup system.options.initializerSelector with
    | .error _ => return
    | .ok sel => linked.forM (host.initializeClass answer sel)

def load (host : Host σ) (answer : (request : Request) → Run σ request.Reply) (unit : LoadUnit)
    (imps : String → Option Imp) : Run σ (Except LoadError LoadReport) := do
  match ← Run.liftAct (Act.load unit imps) with
  | .error error => return .error error
  | .ok (report, linked) =>
    let held := linked.map fun pair => Value.classObject ⟨pair, .plain⟩
    let objects := report.statics.map Value.object
    Run.framed (held ++ objects) (host.runInitializers answer linked)
    return .ok report

/-- Answer a request, where the requests that this leads to are answered by `answer`. -/
def answerWith (host : Host σ) (answer : (request : Request) → Run σ request.Reply) :
    (request : Request) → Run σ request.Reply
  | .send message => do
    host.deliver answer message ((← get).session.route message.receiver message.sel)
  | .sendSuper current message => do
    let route := (← get).session.superRoute message.receiver current message.sel
    Run.framed [.classObject current] (host.deliver answer message route)
  | .call imp message => host.invoke answer imp message none
  | .register spec => do
    match ← Run.liftAct (Act.register spec) with
    | .error error => return .error error
    | .ok (pair, linked) =>
      let held := (pair :: linked).map fun pair => Value.classObject ⟨pair, .plain⟩
      Run.framed held (host.runInitializers answer linked)
      return .ok ⟨pair, .plain⟩
  | .load unit imps => host.load answer unit imps
  | .loadBytes bytes imps =>
    match LoadUnit.decode bytes with
    | .error error => return .error (.invalid error)
    | .ok unit => host.load answer unit imps

/-- Answer a request. At most the given number of requests may stand within one another. -/
def answer (host : Host σ) : Nat → (request : Request) → Run σ request.Reply
  | 0, _ => throw .tooDeep
  | depth + 1, request => host.answerWith (host.answer depth) request

def run {α : Type} (host : Host σ) (depth : Nat) (program : Program σ α) : Run σ α :=
  program.run host.holds (host.answer depth)

end Host

end LateBinding
