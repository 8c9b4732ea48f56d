import LateBinding.System.Dispatch
import LateBinding.System.Loading
import LateBinding.System.Shutdown

/-!
# Programs

A method, an initializer and a forward handler are programs of their host: trees that say what is
done next and how it goes on with the reply. A program can do two kinds of things to the system that
runs it. An *operation* is done in one go. A *request* may run other programs: sending a message,
calling an implementation, registering a class or loading a unit, which both run initializers.
Whatever a host's programs are, they can change a session by operations and requests only.

Besides the session a program sees and changes a state of its host.
-/

namespace LateBinding

inductive Operation where
  | intern (name : String) (types : Option String)
  | internAll (names : List String)
  | applyCategory (spec : CategorySpec)
  | unregister (name : String)
  | addMethod (cls : ClassRef) (sel : Sel) (imp : Imp) (types : Option String)
  | replaceMethod (cls : ClassRef) (sel : Sel) (imp : Imp) (types : Option String)
  | createInstance (cls : ClassRef)
  | createLiteral (slots : List Value)
  | setSlot (object : ObjectId) (index : Nat) (value : Value)
  | registerStatics (className : String) (objects : List ObjectId)
  | setForward (handler : Option Imp)
  | shutdown

def Operation.Reply : Operation → Type
  | .intern .. => Sel
  | .internAll .. => Sel
  | .applyCategory .. => CategoryStatus
  | .unregister .. => Except RegistryError (List PairId)
  | .addMethod .. => Except RegistryError Bool
  | .replaceMethod .. => Except RegistryError (Option Imp)
  | .createInstance .. => Except RegistryError ObjectId
  | .createLiteral .. => ObjectId
  | .setSlot .. => Bool
  | .registerStatics .. => Nat
  | .setForward .. => Unit
  | .shutdown => ShutdownReport

def Operation.perform : (operation : Operation) → Act operation.Reply
  | .intern name types => Act.intern name types
  | .internAll names => Act.internAll names
  | .applyCategory spec => Act.applyCategory spec
  | .unregister name => Act.unregister name
  | .addMethod cls sel imp types => Act.addMethod cls sel imp types
  | .replaceMethod cls sel imp types => Act.replaceMethod cls sel imp types
  | .createInstance cls => Act.createInstance cls
  | .createLiteral slots => Act.createLiteral slots
  | .setSlot object index value => Act.setSlot object index value
  | .registerStatics className objects => Act.registerStatics className objects
  | .setForward handler => Act.setForward handler
  | .shutdown => Act.shutdown

inductive Request where
  | send (message : Message)
  /-- Send a message on to the class above the given one. -/
  | sendSuper (current : ClassRef) (message : Message)
  | call (imp : Imp) (message : Message)
  | register (spec : ClassSpec)
  | load (unit : LoadUnit) (imps : String → Option Imp)
  | loadBytes (bytes : List UInt8) (imps : String → Option Imp)

def Request.Reply : Request → Type
  | .send .. => Except DispatchError Value
  | .sendSuper .. => Except DispatchError Value
  | .call .. => Except DispatchError Value
  | .register .. => Except RegistryError ClassRef
  | .load .. => Except LoadError LoadReport
  | .loadBytes .. => Except LoadError LoadReport

structure World (σ : Type) where
  session : Session
  host : σ
  /-- What the running program holds on to. -/
  held : List Value
  /-- What the programs that wait for it hold on to. -/
  pinned : List Value

inductive Program (σ α : Type) where
  | done (value : α)
  | look (next : World σ → Program σ α)
  | keep (host : σ) (next : Program σ α)
  /-- Hold on to some values, and to no others any more. -/
  | hold (values : List Value) (next : Program σ α)
  | act (operation : Operation) (next : operation.Reply → Program σ α)
  | ask (request : Request) (next : request.Reply → Program σ α)

namespace Program

variable {σ α β : Type}

def andThen : Program σ α → (α → Program σ β) → Program σ β
  | done value, rest => rest value
  | look next, rest => look fun world => (next world).andThen rest
  | keep host next, rest => keep host (next.andThen rest)
  | hold values next, rest => hold values (next.andThen rest)
  | act operation next, rest => act operation fun reply => (next reply).andThen rest
  | ask request next, rest => ask request fun reply => (next reply).andThen rest

instance : Monad (Program σ) where
  pure := done
  bind := andThen

def world : Program σ (World σ) := look done

def session : Program σ Session := look fun world => done world.session

def host : Program σ σ := look fun world => done world.host

def modifyHost (change : σ → σ) : Program σ Unit :=
  look fun world => keep (change world.host) (done ())

/-- Hold on to some values, and to no others any more. -/
def holding (values : List Value) : Program σ Unit := hold values (done ())

def perform (operation : Operation) : Program σ operation.Reply := act operation done

def request (request : Request) : Program σ request.Reply := ask request done

@[simp] theorem andThen_done (program : Program σ α) : program.andThen done = program := by
  induction program with
  | done => rfl
  | look next ih => simp [andThen, ih]
  | keep host next ih => simp [andThen, ih]
  | hold values next ih => simp [andThen, ih]
  | act operation next ih => simp [andThen, ih]
  | ask request next ih => simp [andThen, ih]

theorem andThen_andThen {γ : Type} (program : Program σ α) (second : α → Program σ β)
    (third : β → Program σ γ) :
    (program.andThen second).andThen third =
      program.andThen fun value => (second value).andThen third := by
  induction program with
  | done => rfl
  | look next ih => simp [andThen, ih]
  | keep host next ih => simp [andThen, ih]
  | hold values next ih => simp [andThen, ih]
  | act operation next ih => simp [andThen, ih]
  | ask request next ih => simp [andThen, ih]

end Program

/-- A host: its implementations as programs, and what a state of it holds on to. -/
structure Host (σ : Type) where
  body : Imp → Message → Program σ (Except DispatchError Value)
  holds : σ → List Value

end LateBinding
