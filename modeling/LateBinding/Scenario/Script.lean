import LateBinding.Execution.Run
import LateBinding.Scenario.Play

/-!
# Running the implementations of a scenario

An implementation evaluates its expressions one after the other and answers the value of the last
one, or nil if it has none; a failing expression ends it. While it goes on it holds on to the values
that it still needs.
-/

namespace LateBinding.Scenario

abbrev Eval := ExceptT DispatchError (Program Desk)

namespace Eval

def see {α : Type} (held : List Value) (view : Stage → α) : Eval α := do
  ExceptT.lift (Program.holding held)
  ExceptT.mk (.look fun stage => .done (.ok (view stage)))

def find {α : Type} (held : List Value) (search : Stage → Except Failure α) : Eval α := do
  match ← see held search with
  | .ok value => return value
  | .error failure => throw (.raised failure.message)

def operate (held : List Value) (operation : Operation) : Eval operation.Reply := do
  ExceptT.lift (Program.holding held)
  ExceptT.lift (Program.perform operation)

def ask (held : List Value) (request : Request) : Eval request.Reply := do
  ExceptT.lift (Program.holding held)
  ExceptT.lift (Program.request request)

def note (held : List Value) (view : Stage → Note) : Eval Unit := do
  ExceptT.lift (Program.holding held)
  ExceptT.mk (.look fun stage =>
    .keep (stage.host.addNote (view stage)) (.done (.ok ())))

def setSlot (held : List Value) (receiver : Value) (index : Nat) (value : Value) : Eval Value := do
  match receiver with
  | .object id => return .bool (← operate (value :: held) (.setSlot id index value))
  | _ => return .bool false

def send (held : List Value) (name : String) (receiver : Value) (args : List Value) :
    Eval Value := do
  let held := receiver :: args ++ held
  let sel ← find held (·.selAt (.named name))
  match ← ask held (.send ⟨receiver, sel, args⟩) with
  | .ok value => return value
  | .error error => throw error

/-- Send the message at hand on to the class above the given one, with other arguments. -/
def sendSuper (held : List Value) (message : Message) (path : ClassPath) (args : List Value) :
    Eval Value := do
  let held := args ++ held
  let cls ← find held (·.classAt path)
  match ← ask held (.sendSuper cls { message with args }) with
  | .ok value => return value
  | .error error => throw error

def step (held : List Value) (script : Script) (step : Step) : Eval Value := do
  ExceptT.lift (Program.holding held)
  let answer ← ExceptT.lift (step.program script held)
  note held fun _ => .answer answer
  return .nil

def sumOf (values : List Value) : Value :=
  .int (values.foldl (fun sum value => sum + value.int?.getD 0) 0)

end Eval

namespace Expr

mutual

def eval (script : Script) (message : Message) (held : List Value) : Expr → Eval Value
  | .self => return message.receiver
  | .sel => return .selector message.sel
  | .argCount => return .int (Int64.ofNat message.args.length)
  | .constant path => Eval.find held (·.valueAt path)
  | .arg index => return message.arg index
  | .slot index =>
    match message.receiver with
    | .object id => Eval.see held fun stage => (stage.session.heap.slot? id index).getD .nil
    | _ => return .nil
  | .setSlot index expr => do
    Eval.setSlot held message.receiver index (← eval script message held expr)
  | .sum terms => return Eval.sumOf (← evalAll script message held terms)
  | .raise text => throw (.raised text)
  | .send name receiver args => do
    let receiver ← eval script message held receiver
    Eval.send held name receiver (← evalAll script message (receiver :: held) args)
  | .sendSuper path args => do
    Eval.sendSuper held message path (← evalAll script message held args)
  | .note label => do
    Eval.note held fun stage => .label label (stage.viewValue message.receiver)
    return .nil
  | .step inner => Eval.step held script inner

def evalAll (script : Script) (message : Message) (held : List Value) :
    List Expr → Eval (List Value)
  | [] => return []
  | expr :: rest => do
    let value ← eval script message held expr
    return value :: (← evalAll script message (value :: held) rest)

end

/-- Evaluate the expressions of a body. Gives the value of the last, or the value before them. -/
def evalBody (script : Script) (message : Message) (before : Value) : List Expr → Eval Value
  | [] => return before
  | expr :: rest => do
    evalBody script message (← eval script message [before] expr) rest

end Expr

def Script.host (script : Script) : Host Desk :=
  { body := fun imp message => (Expr.evalBody script message .nil (script.bodyOf imp)).run
    holds := Desk.holds }

def depthLimit : Nat := 10000

inductive Outcome where
  | answered (answer : Except Failure Answer)
  | halted (halt : Halt)

/-- A step that was taken: what came of it, what happened, and the notes that were left. -/
structure Taken where
  outcome : Outcome
  log : List Event
  notes : List Note

def Script.take (script : Script) (step : Step) (session : Session) (desk : Desk) :
    Taken × Session × Desk :=
  let stage : Stage :=
    { session := { session with log := #[] }, host := { desk with notes := #[] }
      held := [], pinned := [] }
  let (outcome, stage) := match script.host.run depthLimit (step.program script []) stage with
    | .ok answer stage => (Outcome.answered answer, stage)
    | .error halt stage => (Outcome.halted halt, stage)
  ({ outcome, log := stage.session.log.toList, notes := stage.host.notes.toList },
    stage.session, stage.host)

end LateBinding.Scenario
