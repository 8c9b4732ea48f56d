import LateBinding.Execution.Run

/-!
# What comes of a message

A message is sent to its receiver, or sent on from a class to the class above. Both calls first find
the route of the message, and from then on they do the same: the route alone decides whether a
program of the host runs and which one, and its result is the result of the call.
-/

namespace LateBinding

variable {σ α : Type}

/-- The message goes to an implementation or to the forward handler. -/
def Route.Delivers : Route → Prop
  | .run .. => True
  | .forward .. => True
  | .nowhere => False
  | .refuse _ => False

instance (route : Route) : Decidable route.Delivers := by
  cases route <;> unfold Route.Delivers <;> infer_instance

/-- The world after it was noted that a message for a class is forwarded. -/
def World.noted (world : World σ) (via : ClassRef) (sel : Sel) : World σ :=
  { world with session.log :=
      world.session.log.push (.forwarding (world.session.heap.className via) sel) }

namespace Host

/-- What a message leads to that goes a route: a program of the host runs for the message and gives
the result, or nothing runs and nothing changes. -/
def Realizes (host : Host σ) (answer : (request : Request) → Run σ request.Reply)
    (message : Message) (world : World σ)
    (result : EStateM.Result Halt (World σ) (Except DispatchError Value)) : Route → Prop
  | .nowhere => result = .ok (.ok .nil) world
  | .refuse error => result = .ok (.error error) world
  | .run imp _ => ∃ held, result =
      Run.framed held ((host.body imp message).run host.holds answer) world
  | .forward handler via => ∃ held, result =
      Run.framed held ((host.body handler message).run host.holds answer)
        (world.noted via message.sel)

end Host

/-- A host whose implementations all reply with one value. -/
def Host.replying (value : Value) : Host Unit := ⟨fun _ _ => .done (.ok value), fun _ => []⟩

namespace Run

theorem framed_apply (values : List Value) (inner : Run σ α) (world : World σ) :
    framed values inner world =
      match inner { world with held := [], pinned := values ++ world.held ++ world.pinned } with
      | .ok value final => .ok value { final with held := world.held, pinned := world.pinned }
      | .error halt final => .error halt final := by
  change EStateM.bind inner _ _ = _
  rw [EStateM.bind]
  cases inner { world with held := [], pinned := values ++ world.held ++ world.pinned } <;> rfl

theorem framed_framed (outer inner : List Value) (run : Run σ α) :
    framed outer (framed inner run) = framed (inner ++ outer) run := by
  funext world
  have hheld : inner ++ [] ++ (outer ++ world.held ++ world.pinned) =
      inner ++ outer ++ world.held ++ world.pinned := by simp
  rw [framed_apply, framed_apply, framed_apply, hheld]
  cases run { world with held := [], pinned := inner ++ outer ++ world.held ++ world.pinned } <;> rfl

end Run

namespace Host

variable (host : Host σ) (depth : Nat) (message : Message) (world : World σ)

theorem realizes_send : host.Realizes (host.answer depth) message world
    (host.answer (depth + 1) (.send message) world)
    (world.session.route message.receiver message.sel) := by
  change host.Realizes _ _ _ (host.deliver (host.answer depth) message
    (world.session.route message.receiver message.sel) world) _
  cases world.session.route message.receiver message.sel with
  | nowhere => rfl
  | refuse error => rfl
  | run imp via => exact ⟨_, rfl⟩
  | forward handler via => exact ⟨_, rfl⟩

theorem realizes_sendSuper (current : ClassRef) : host.Realizes (host.answer depth) message world
    (host.answer (depth + 1) (.sendSuper current message) world)
    (world.session.superRoute message.receiver current message.sel) := by
  change host.Realizes _ _ _ (Run.framed [.classObject current] (host.deliver (host.answer depth)
    message (world.session.superRoute message.receiver current message.sel)) world) _
  cases world.session.superRoute message.receiver current message.sel with
  | nowhere => rfl
  | refuse error => rfl
  | run imp via =>
    exact ⟨_, congrFun (Run.framed_framed [.classObject current] _ _) world⟩
  | forward handler via =>
    exact ⟨_, congrFun (Run.framed_framed [.classObject current] _ _) (world.noted via message.sel)⟩

end Host

end LateBinding
