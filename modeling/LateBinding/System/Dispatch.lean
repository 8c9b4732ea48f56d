import LateBinding.System

/-!
# Dispatch

Where a message goes is decided by the published tables alone: to the implementation that the table
of the receiver's class has for the selector, else to the forward handler, else nowhere. A message
to nil is answered by nil.
-/

namespace LateBinding

structure Message where
  receiver : Value
  sel : Sel
  args : List Value
  deriving DecidableEq, Repr

/-- An argument; one that was not given is nil. -/
def Message.arg (message : Message) (index : Nat) : Value := message.args.getD index .nil

inductive DispatchError where
  /-- Neither an implementation nor a forward handler was found. -/
  | doesNotRecognize (className selector : String)
  /-- The receiver is a value that is neither an object nor a class. -/
  | notAnObject (kind selector : String)
  | notLinked (className : String)
  | uninitializedInstance (selector : String)
  | raised (text : String)
  deriving DecidableEq, Repr

def DispatchError.message : DispatchError → String
  | .doesNotRecognize className selector => className ++ " does not recognize selector " ++ selector
  | .notAnObject kind selector => "Cannot send " ++ selector ++ " to a " ++ kind ++ " value"
  | .notLinked className => "Class " ++ className ++ " is not linked"
  | .uninitializedInstance selector =>
    "Cannot send " ++ selector ++ " to an uninitialized static instance"
  | .raised text => text

inductive Route where
  /-- Nowhere: the receiver is nil. -/
  | nowhere
  /-- To an implementation that the table of a class holds. -/
  | run (imp : Imp) (via : ClassRef)
  /-- To the forward handler, because the table of a class holds nothing. -/
  | forward (handler : Imp) (via : ClassRef)
  | refuse (error : DispatchError)
  deriving DecidableEq, Repr

namespace Session

/-- The class whose table decides about messages to a receiver; none for nil. -/
def receiverClass (session : Session) (receiver : Value) (sel : Sel) :
    Except DispatchError (Option ClassRef) :=
  match receiver with
  | .nil => .ok none
  | .object id =>
    match session.heap.classOf? id with
    | some cls => .ok (some cls)
    | none => .error (.uninitializedInstance (session.describe sel))
  | .classObject cls =>
    match session.heap.isa? cls with
    | some isa => .ok (some isa)
    | none => .error (.notLinked (session.heap.className cls))
  | other => .error (.notAnObject other.kind (session.describe sel))

def dispatch (session : Session) (cls : ClassRef) (sel : Sel) : Route :=
  match session.heap.table? cls with
  | none => .refuse (.notLinked (session.heap.className cls))
  | some table =>
    match table.get? sel, session.system.forward with
    | some imp, _ => .run imp cls
    | none, some handler => .forward handler cls
    | none, none =>
      .refuse (.doesNotRecognize (session.heap.className cls) (session.describe sel))

def route (session : Session) (receiver : Value) (sel : Sel) : Route :=
  match session.receiverClass receiver sel with
  | .error error => .refuse error
  | .ok none => .nowhere
  | .ok (some cls) => session.dispatch cls sel

/-- The side of a class that a message to its superclass starts from: for a class object as receiver
the metaclass, else the side that is given. -/
def superSide (receiver : Value) (current : ClassRef) : ClassRef :=
  match receiver, current.kind with
  | .classObject _, .plain => ⟨current.pair, .metaclass⟩
  | _, _ => current

/-- Where a message goes that a method of one class sends on to the class above. -/
def superRoute (session : Session) (receiver : Value) (current : ClassRef) (sel : Sel) : Route :=
  if receiver = .nil then .nowhere
  else
    let side := superSide receiver current
    match session.heap.superclass? side with
    | some superclass => session.dispatch superclass sel
    | none =>
      if session.heap.isLinked side then
        .refuse (.doesNotRecognize (session.heap.className current) (session.describe sel))
      else .refuse (.notLinked (session.heap.className current))

/-- The implementation that a receiver runs for a selector, without regard to forwarding. -/
def lookupImp (session : Session) (receiver : Value) (sel : Sel) : Option Imp :=
  match session.receiverClass receiver sel with
  | .ok (some cls) => session.heap.lookup cls sel
  | _ => none

end Session

end LateBinding
