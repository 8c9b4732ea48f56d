import LateBinding.Proofs.Dispatch.Forwarding

/-!
# What is asked about messages

A message can be sent, or it can be asked which implementation it would run; a class can be asked
whether its instances respond to a selector, and for an instance. The four questions look in
different places: at the class of the receiver, at what its class object dispatches through, at the
tables, at whether there are any. They agree because there is one table that decides, and because a
class has tables exactly as long as it is registered and linked.
-/

namespace LateBinding

/-- A registered class that is linked stands on the pair. -/
def Registry.HousesLinked (registry : Registry) (pair : PairId) : Prop :=
  ∃ id record, registry.record? id = some record ∧ record.pair = pair ∧ record.state ≠ .pending

/-- The class whose table decides about messages to a value: the class of an object that has one,
and what a class object dispatches through. -/
def Heap.dispatchClass? (heap : Heap) : Value → Option ClassRef
  | .object id => heap.classOf? id
  | .classObject cls => heap.isa? cls
  | _ => none

/-- A value that is neither nil nor an object nor a class. -/
def Value.IsPlain : Value → Prop
  | .nil => False
  | .object _ => False
  | .classObject _ => False
  | _ => True

namespace Session

variable {options : Options} {session : Session} {receiver : Value} {cls : ClassRef} {sel : Sel}
  {imp : Imp}

/-- Where a message goes that no implementation is found for. A handler gets it only from a class
that has tables. -/
inductive Unfound (session : Session) (sel : Sel) : Value → Route → Prop
  | nil : Unfound session sel .nil .nowhere
  | plain (value : Value) (plain : value.IsPlain) :
      Unfound session sel value (.refuse (.notAnObject value.kind (session.describe sel)))
  | unbound (id : ObjectId) (unbound : session.heap.classOf? id = none) :
      Unfound session sel (.object id) (.refuse (.uninitializedInstance (session.describe sel)))
  | adrift (cls : ClassRef) (adrift : session.heap.isa? cls = none) :
      Unfound session sel (.classObject cls) (.refuse (.notLinked (session.heap.className cls)))
  | unlinked (receiver : Value) (cls : ClassRef)
      (decides : session.heap.dispatchClass? receiver = some cls)
      (unlinked : session.heap.isLinked cls = false) :
      Unfound session sel receiver (.refuse (.notLinked (session.heap.className cls)))
  | forwarded (receiver : Value) (cls : ClassRef) (handler : Imp)
      (decides : session.heap.dispatchClass? receiver = some cls)
      (lacks : session.heap.Lacks cls sel) (installed : session.system.forward = some handler) :
      Unfound session sel receiver (.forward handler cls)
  | unknown (receiver : Value) (cls : ClassRef)
      (decides : session.heap.dispatchClass? receiver = some cls)
      (lacks : session.heap.Lacks cls sel) (absent : session.system.forward = none) :
      Unfound session sel receiver
        (.refuse (.doesNotRecognize (session.heap.className cls) (session.describe sel)))

/-! ### The class that decides -/

theorem receiverClass_of_dispatchClass?
    (decides : session.heap.dispatchClass? receiver = some cls) :
    session.receiverClass receiver sel = .ok (some cls) := by
  cases receiver with
  | object id =>
    have hcls : session.heap.classOf? id = some cls := decides
    rw [receiverClass, hcls]
  | classObject own =>
    have hisa : session.heap.isa? own = some cls := decides
    rw [receiverClass, hisa]
  | _ => cases decides

theorem route_of_dispatchClass? (decides : session.heap.dispatchClass? receiver = some cls) :
    session.route receiver sel = session.dispatch cls sel := by
  rw [route, receiverClass_of_dispatchClass? decides]

theorem lookupImp_of_dispatchClass? (decides : session.heap.dispatchClass? receiver = some cls) :
    session.lookupImp receiver sel = session.heap.lookup cls sel := by
  rw [lookupImp, receiverClass_of_dispatchClass? decides]

/-- Where no class decides, no implementation is found, and the receiver alone says why. -/
theorem unfound_of_undecided (undecided : session.heap.dispatchClass? receiver = none) :
    session.lookupImp receiver sel = none ∧
      session.Unfound sel receiver (session.route receiver sel) := by
  cases receiver with
  | nil => exact ⟨rfl, .nil⟩
  | object id =>
    have hcls : session.heap.classOf? id = none := undecided
    rw [lookupImp, route, receiverClass, hcls]
    exact ⟨rfl, .unbound id hcls⟩
  | classObject own =>
    have hisa : session.heap.isa? own = none := undecided
    rw [lookupImp, route, receiverClass, hisa]
    exact ⟨rfl, .adrift own hisa⟩
  | bool value => exact ⟨rfl, .plain _ trivial⟩
  | int value => exact ⟨rfl, .plain _ trivial⟩
  | float value => exact ⟨rfl, .plain _ trivial⟩
  | text value => exact ⟨rfl, .plain _ trivial⟩
  | selector value => exact ⟨rfl, .plain _ trivial⟩

/-! ### Implementations that are found -/

theorem route_of_lookupImp (hfound : session.lookupImp receiver sel = some imp) :
    ∃ cls, session.route receiver sel = .run imp cls := by
  cases decides : session.heap.dispatchClass? receiver with
  | none => cases hfound.symm.trans (unfound_of_undecided decides).1
  | some cls =>
    rw [lookupImp_of_dispatchClass? decides] at hfound
    obtain ⟨table, htable, hget⟩ := Option.bind_eq_some_iff.mp hfound
    refine ⟨cls, ?_⟩
    rw [route_of_dispatchClass? decides, dispatch, htable]
    dsimp only
    rw [hget]

theorem unfound_of_lookupImp (hnone : session.lookupImp receiver sel = none) :
    session.Unfound sel receiver (session.route receiver sel) := by
  cases decides : session.heap.dispatchClass? receiver with
  | none => exact (unfound_of_undecided decides).2
  | some cls =>
    rw [lookupImp_of_dispatchClass? decides] at hnone
    rw [route_of_dispatchClass? decides]
    rcases session.dispatch_cases cls sel with ⟨htable, heq⟩ | ⟨table, htable, hfound⟩
    · rw [heq]
      refine .unlinked receiver cls decides ?_
      rw [Heap.isLinked, htable]
      rfl
    · rw [Heap.lookup, htable] at hnone
      have lacks : session.heap.Lacks cls sel := ⟨table, htable, hnone⟩
      rcases hfound with ⟨imp, hget, -⟩ | ⟨-, ⟨handler, hforward, heq⟩ | ⟨hforward, heq⟩⟩
      · cases hnone.symm.trans hget
      · rw [heq]
        exact .forwarded receiver cls handler decides lacks hforward
      · rw [heq]
        exact .unknown receiver cls decides lacks hforward

theorem respondsTo_iff (decides : session.heap.dispatchClass? receiver = some cls) :
    session.heap.respondsTo cls sel = true ↔ ∃ imp, session.lookupImp receiver sel = some imp := by
  rw [lookupImp_of_dispatchClass? decides, Heap.respondsTo, Option.isSome_iff_exists]

/-! ### Instances -/

/-- A class gives an instance just if it is no metaclass and has tables. -/
theorem createInstance_ok_iff : (∃ object final,
      Act.createInstance cls session = .ok (.ok object) final) ↔
    cls.kind = .plain ∧ session.heap.isLinked cls = true := by
  rw [Act.createInstance, Act.bind_of_ok (Act.run_get session)]
  dsimp only
  constructor
  · rintro ⟨object, final, hrun⟩
    split at hrun
    · cases hrun
    · next hkind =>
      split at hrun
      · cases hrun
      · next hlinked =>
        refine ⟨?_, by simpa using hlinked⟩
        cases hcls : cls.kind with
        | plain => rfl
        | metaclass => exact absurd hcls hkind
  · rintro ⟨hkind, hlinked⟩
    rw [if_neg (by rw [hkind]; nofun), if_neg (by rw [hlinked]; nofun)]
    exact ⟨_, _, rfl⟩

/-- In every reachable session: a message for which an implementation is found runs just that one, as
it was sent, and its result is the result. One for which none is found runs no method: its receiver,
the lack of tables, the forward handler or the lack of one decide what comes of it. A class responds
to a selector if an implementation is found for those whose class it is, and gives an instance if it
is no metaclass and is registered and linked. -/
theorem Reachable.queries_agree {σ : Type} {world : World σ}
    (reachable : world.session.Reachable options) (host : Host σ) (depth : Nat)
    (message : Message) (cls : ClassRef) :
    let session := world.session
    let found? := session.lookupImp message.receiver message.sel
    let answer := host.answer (depth + 1) (.send message) world
    (∀ imp, found? = some imp → ∃ held, answer =
      Run.framed held ((host.body imp message).run host.holds (host.answer depth)) world) ∧
    (found? = none → ∃ route, session.Unfound message.sel message.receiver route ∧
      host.Realizes (host.answer depth) message world answer route) ∧
    (∀ receiver sel, session.heap.dispatchClass? receiver = some cls →
      (session.heap.respondsTo cls sel = true ↔ ∃ imp, session.lookupImp receiver sel = some imp)) ∧
    (session.heap.isLinked cls = true ↔ session.system.registry.HousesLinked cls.pair) ∧
    ((∃ object final, Act.createInstance cls session = .ok (.ok object) final) ↔
      cls.kind = .plain ∧ session.system.registry.HousesLinked cls.pair) := by
  intro session found? answer
  have hsend := host.realizes_send depth message world
  have hlinked : session.heap.isLinked cls = true ↔
      session.system.registry.HousesLinked cls.pair :=
    Classes.Steady.isLinked_iff reachable.steady cls
  refine ⟨?_, ?_, fun receiver sel => respondsTo_iff, hlinked, ?_⟩
  · intro imp hfound
    obtain ⟨via, hroute⟩ := route_of_lookupImp hfound
    rw [hroute] at hsend
    exact hsend
  · intro hnone
    exact ⟨_, unfound_of_lookupImp hnone, hsend⟩
  · rw [createInstance_ok_iff, hlinked]

/-- An instance of a root class gets one message that the class implements and one that it does not.
The class gives another instance, its metaclass does not. -/
theorem queries_agree_instance :
    let object : Value := .object ⟨0⟩
    let world : World Unit := ⟨forwardingSample, (), [], []⟩
    let host := Host.replying (.int 7)
    forwardingSample.Reachable {} ∧
      (∃ imp, forwardingSample.lookupImp object ⟨1⟩ = some imp ∧ ∃ final,
        host.answer 1 (.send ⟨object, ⟨1⟩, []⟩) world = .ok (.ok (.int 7)) final) ∧
      forwardingSample.lookupImp object ⟨3⟩ = none ∧
      (∃ route, forwardingSample.Unfound ⟨3⟩ object route) ∧
      forwardingSample.heap.respondsTo ⟨⟨0⟩, .plain⟩ ⟨1⟩ = true ∧
      forwardingSample.system.registry.HousesLinked ⟨0⟩ ∧
      (∃ made final, Act.createInstance ⟨⟨0⟩, .plain⟩ forwardingSample = .ok (.ok made) final) ∧
      ¬ ∃ made final, Act.createInstance ⟨⟨0⟩, .metaclass⟩ forwardingSample =
        .ok (.ok made) final := by
  intro object world host
  have reachable : world.session.Reachable {} := reachable_forwardingSample
  have hfacts : (forwardingSample.lookupImp object ⟨1⟩).isSome = true ∧
      forwardingSample.lookupImp object ⟨3⟩ = none ∧
      forwardingSample.heap.dispatchClass? object = some ⟨⟨0⟩, .plain⟩ ∧
      forwardingSample.heap.isLinked ⟨⟨0⟩, .plain⟩ = true := by decide +kernel
  obtain ⟨hfound, hnone, decides, hlinked⟩ := hfacts
  obtain ⟨imp, hfound⟩ := Option.isSome_iff_exists.mp hfound
  obtain ⟨hruns, -, hresponds, htables, hmakes⟩ :=
    reachable.queries_agree host 0 ⟨object, ⟨1⟩, []⟩ ⟨⟨0⟩, .plain⟩
  obtain ⟨-, hunfound, -, -, -⟩ :=
    reachable.queries_agree host 0 ⟨object, ⟨3⟩, []⟩ ⟨⟨0⟩, .plain⟩
  obtain ⟨-, -, -, -, hmakesNone⟩ :=
    reachable.queries_agree host 0 ⟨object, ⟨1⟩, []⟩ ⟨⟨0⟩, .metaclass⟩
  have hhouses := htables.mp hlinked
  obtain ⟨held, hanswer⟩ := hruns imp hfound
  obtain ⟨route, hroute, -⟩ := hunfound hnone
  refine ⟨reachable, ⟨imp, hfound, _, hanswer⟩, hnone, ⟨route, hroute⟩,
    (hresponds object ⟨1⟩ decides).mpr ⟨imp, hfound⟩, hhouses, hmakes.mpr ⟨rfl, hhouses⟩, ?_⟩
  rintro hmade
  cases (hmakesNone.mp hmade).1

end Session

end LateBinding
