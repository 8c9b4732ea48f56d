import LateBinding.Proofs.Dispatch.Receivers
import LateBinding.Proofs.Execution.Onward

/-!
# The forward handler

A forward handler gets the messages that no table has anything for, with one exception: what a method
of a root class sends on for an instance. There is no class above in whose table one could look, and
the message is refused without regard to the handler.
-/

namespace LateBinding

/-- The tables of a class are published, and they have nothing for a selector. -/
def Heap.Lacks (heap : Heap) (cls : ClassRef) (sel : Sel) : Prop :=
  ∃ table, heap.table? cls = some table ∧ table.get? sel = none

/-- A registered class that linked without a superclass. -/
def Registry.IsRoot (registry : Registry) (cls : ClassRef) : Prop :=
  ∃ id record, registry.record? id = some record ∧ record.state = .linked none ∧
    cls = ⟨record.pair, .plain⟩

/-- The roots are the linked classes that have nothing above them. -/
theorem Classes.Steady.isRoot_iff {policy : CategoryConflictPolicy} {classes : Classes}
    (steady : classes.Steady policy) (cls : ClassRef) : classes.registry.IsRoot cls ↔
      classes.heap.isLinked cls = true ∧ classes.heap.superclass? cls = none := by
  have inPlace := steady.inPlace
  have held := steady.held
  constructor
  · rintro ⟨id, record, hrecord, hroot, rfl⟩
    have hlinked : record.state ≠ .pending := by
      rw [hroot]
      nofun
    refine ⟨(steady.isLinked_iff _).mpr ⟨id, record, hrecord, rfl, hlinked⟩, ?_⟩
    rw [inPlace.superclass?_eq held hrecord hlinked, classes.registry.parentPair?_of_root hroot]
  · rintro ⟨htables, hnone⟩
    obtain ⟨id, record, hrecord, hpair, hlinked⟩ := (steady.isLinked_iff cls).mp htables
    obtain ⟨pair, kind⟩ := cls
    obtain rfl : record.pair = pair := hpair
    have habove := (inPlace.superclass?_eq held hrecord hlinked kind).symm.trans hnone
    cases hparent : classes.registry.parentPair? record with
    | some pair =>
      rw [hparent] at habove
      cases habove
    | none =>
      rw [hparent] at habove
      cases kind with
      | metaclass => cases habove
      | plain =>
        refine ⟨id, record, hrecord, ?_, rfl⟩
        cases hstate : record.state with
        | pending => exact absurd hstate hlinked
        | linked superclass =>
          cases superclass with
          | none => rfl
          | some parent =>
            have hsuper : record.superclass? = some parent :=
              (record.superclass?_eq_some_iff parent).mpr hstate
            obtain ⟨upper, hupper, -⟩ :=
              steady.atRest.hierarchy.above id parent ⟨record, hrecord, hsuper⟩
            rw [Registry.parentPair?_of_under hstate hupper] at hparent
            cases hparent

namespace Session

variable {options : Options} {policy : CategoryConflictPolicy} {session : Session}
  {receiver : Value} {cls current : ClassRef} {sel : Sel} {handler : Imp}

theorem dispatch_of_lacks (hforward : session.system.forward = some handler)
    (lacks : session.heap.Lacks cls sel) : session.dispatch cls sel = .forward handler cls := by
  obtain ⟨table, htable, hget⟩ := lacks
  rw [dispatch, htable]
  dsimp only
  rw [hget, hforward]

theorem dispatch_ne_doesNotRecognize (hforward : session.system.forward = some handler)
    (className selector : String) :
    session.dispatch cls sel ≠ .refuse (.doesNotRecognize className selector) := by
  intro hrefuses
  rcases session.dispatch_cases cls sel with ⟨-, heq⟩ | ⟨table, -, hfound⟩
  · cases heq.symm.trans hrefuses
  · rcases hfound with ⟨imp, -, heq⟩ | ⟨-, ⟨taken, -, heq⟩ | ⟨hnone, -⟩⟩
    · cases heq.symm.trans hrefuses
    · cases heq.symm.trans hrefuses
    · cases hnone.symm.trans hforward

theorem receiverClass_ne_doesNotRecognize (className selector : String) :
    session.receiverClass receiver sel ≠ .error (.doesNotRecognize className selector) := by
  unfold receiverClass
  split
  · nofun
  · split <;> nofun
  · split <;> nofun
  · nofun

theorem route_ne_doesNotRecognize (hforward : session.system.forward = some handler)
    (className selector : String) :
    session.route receiver sel ≠ .refuse (.doesNotRecognize className selector) := by
  intro hrefuses
  unfold route at hrefuses
  cases hcls : session.receiverClass receiver sel with
  | error error =>
    rw [hcls] at hrefuses
    cases hrefuses
    exact receiverClass_ne_doesNotRecognize _ _ hcls
  | ok found =>
    rw [hcls] at hrefuses
    cases found with
    | none => cases hrefuses
    | some cls => exact dispatch_ne_doesNotRecognize hforward _ _ hrefuses

theorem route_of_lacks (hforward : session.system.forward = some handler)
    (hcls : session.receiverClass receiver sel = .ok (some cls))
    (lacks : session.heap.Lacks cls sel) : session.route receiver sel = .forward handler cls := by
  rw [route, hcls]
  exact dispatch_of_lacks hforward lacks

theorem superRoute_of_lacks (hforward : session.system.forward = some handler)
    (hnil : receiver ≠ .nil)
    (habove : session.heap.superclass? (superSide receiver current) = some cls)
    (lacks : session.heap.Lacks cls sel) :
    session.superRoute receiver current sel = .forward handler cls :=
  (superRoute_of_above hnil habove).trans (dispatch_of_lacks hforward lacks)

theorem superRoute_of_root (steady : session.Steady policy) (hnil : receiver ≠ .nil)
    (hinstance : receiver.class? = none) (root : session.system.registry.IsRoot current) :
    session.superRoute receiver current sel = .refuse
      (.doesNotRecognize (session.heap.className current) (session.describe sel)) := by
  obtain ⟨hlinked, hnone⟩ := (Classes.Steady.isRoot_iff steady current).mp root
  have hside : session.heap.superclass? current = none := hnone
  rw [superRoute, if_neg hnil, superSide_of_instance hinstance]
  dsimp only
  rw [hside]
  exact if_pos hlinked

/-- With a forward handler a message is refused as not recognized if it is sent on for an instance
from a root class, and never else. -/
theorem Steady.doesNotRecognize_iff (steady : session.Steady policy)
    (hforward : session.system.forward = some handler) :
    (∃ className selector, session.superRoute receiver current sel =
        .refuse (.doesNotRecognize className selector)) ↔
      receiver ≠ .nil ∧ receiver.class? = none ∧ session.system.registry.IsRoot current := by
  constructor
  · rintro ⟨className, selector, hrefuses⟩
    rcases session.superRoute_cases receiver current sel with ⟨-, heq⟩ | ⟨hnil, habove⟩
    · cases heq.symm.trans hrefuses
    · rcases habove with ⟨above, -, heq⟩ | ⟨hnone, ⟨hlinked, -⟩ | ⟨-, heq⟩⟩
      · exact absurd (heq.symm.trans hrefuses) (dispatch_ne_doesNotRecognize hforward _ _)
      · have root : session.system.registry.IsRoot (superSide receiver current) :=
          (Classes.Steady.isRoot_iff steady _).mpr ⟨hlinked, hnone⟩
        cases hinstance : receiver.class? with
        | none =>
          rw [superSide_of_instance hinstance] at root
          exact ⟨hnil, rfl, root⟩
        | some cls =>
          -- a class object starts from a metaclass, above which there is always something
          obtain rfl : receiver = .classObject cls := by
            cases receiver <;> cases hinstance
            rfl
          obtain ⟨id, record, -, -, hside⟩ := root
          have hkind := kind_superSide_classObject cls current
          rw [hside] at hkind
          cases hkind
      · cases heq.symm.trans hrefuses
  · rintro ⟨hnil, hinstance, root⟩
    exact ⟨_, _, superRoute_of_root steady hnil hinstance root⟩

/-- With a forward handler installed, whatever no table has anything for goes to the handler as it was
sent, and what the handler replies is the reply. Only what is sent on from a root class for an instance
is refused instead, and the handler does not run. -/
theorem Reachable.forwards_except_above_roots {σ : Type} {world : World σ}
    (reachable : world.session.Reachable options)
    (hforward : world.session.system.forward = some handler) (host : Host σ) (depth : Nat)
    (message : Message) (current : ClassRef) :
    let session := world.session
    let superRoute := session.superRoute message.receiver current message.sel
    ((∀ className selector, session.route message.receiver message.sel ≠
        .refuse (.doesNotRecognize className selector)) ∧
      ∀ cls, session.receiverClass message.receiver message.sel = .ok (some cls) →
        session.heap.Lacks cls message.sel →
          host.Realizes (host.answer depth) message world
            (host.answer (depth + 1) (.send message) world) (.forward handler cls)) ∧
    (∀ above, message.receiver ≠ .nil →
      session.heap.superclass? (superSide message.receiver current) = some above →
        session.heap.Lacks above message.sel →
          host.Realizes (host.answer depth) message world
            (host.answer (depth + 1) (.sendSuper current message) world)
            (.forward handler above)) ∧
    ((∃ className selector, superRoute = .refuse (.doesNotRecognize className selector)) ↔
      message.receiver ≠ .nil ∧ message.receiver.class? = none ∧
        session.system.registry.IsRoot current) ∧
    (message.receiver ≠ .nil → message.receiver.class? = none →
      session.system.registry.IsRoot current →
        host.answer (depth + 1) (.sendSuper current message) world =
          .ok (.error (.doesNotRecognize (session.heap.className current)
            (session.describe message.sel))) world) := by
  intro session superRoute
  have hsend := host.realizes_send depth message world
  have hsuper := host.realizes_sendSuper depth message world current
  refine ⟨⟨route_ne_doesNotRecognize hforward, ?_⟩, ?_,
    reachable.steady.doesNotRecognize_iff hforward, ?_⟩
  · intro cls hcls lacks
    rw [route_of_lacks hforward hcls lacks] at hsend
    exact hsend
  · intro above hnil habove lacks
    rw [superRoute_of_lacks hforward hnil habove lacks] at hsuper
    exact hsuper
  · intro hnil hinstance root
    rw [superRoute_of_root reachable.steady hnil hinstance root] at hsuper
    exact hsuper

/-- A root class with an instance, and a forward handler. -/
def forwardingSample : Session :=
  ((((start {}).afterRegister rootSample).afterPerform (.createInstance ⟨⟨0⟩, .plain⟩)).afterPerform
    (.intern "unknown" none)).afterPerform (.setForward (some ⟨9⟩))

theorem reachable_forwardingSample : forwardingSample.Reachable {} :=
  (((Reachable.start.afterRegister rootSample).afterPerform _).afterPerform _).afterPerform _

/-- The handler replies to what the instance does not know. -/
theorem forwards_except_above_roots_unknown :
    let message : Message := ⟨.object ⟨0⟩, ⟨3⟩, []⟩
    let world : World Unit := ⟨forwardingSample, (), [], []⟩
    ∃ final, (Host.replying (.int 7)).answer 1 (.send message) world = .ok (.ok (.int 7)) final := by
  intro message world
  have reachable : world.session.Reachable {} := reachable_forwardingSample
  have hfacts : forwardingSample.system.forward = some ⟨9⟩ ∧
      forwardingSample.receiverClass (.object ⟨0⟩) ⟨3⟩ = .ok (some ⟨⟨0⟩, .plain⟩) ∧
      (forwardingSample.heap.table? ⟨⟨0⟩, .plain⟩).any
        (fun table => table.get? ⟨3⟩ == none) = true := by decide +kernel
  obtain ⟨hforward, hcls, hany⟩ := hfacts
  obtain ⟨table, htable, hget⟩ := (Option.any_eq_true _ _).mp hany
  have hforwards := reachable.forwards_except_above_roots hforward (Host.replying (.int 7)) 0 message
    ⟨⟨0⟩, .plain⟩
  obtain ⟨held, hanswer⟩ := hforwards.1.2 _ hcls ⟨table, htable, eq_of_beq hget⟩
  exact ⟨_, hanswer⟩

/-- What the root class sends on for the same instance is refused, handler or not. -/
theorem sendSuper_refuses_above_root :
    let message : Message := ⟨.object ⟨0⟩, ⟨3⟩, []⟩
    let root : ClassRef := ⟨⟨0⟩, .plain⟩
    let world : World Unit := ⟨forwardingSample, (), [], []⟩
    forwardingSample.Reachable {} ∧ forwardingSample.system.forward = some ⟨9⟩ ∧
      forwardingSample.heap.isLinked root = true ∧
      forwardingSample.heap.superclass? root = none ∧
      (Host.replying (.int 7)).answer 1 (.sendSuper root message) world =
        .ok (.error (.doesNotRecognize "Root" "unknown")) world := by
  intro message root world
  have hfacts : forwardingSample.system.forward = some ⟨9⟩ ∧
      forwardingSample.heap.isLinked root = true ∧
      forwardingSample.heap.superclass? root = none ∧
      forwardingSample.superRoute (.object ⟨0⟩) root ⟨3⟩ =
        .refuse (.doesNotRecognize "Root" "unknown") := by decide +kernel
  obtain ⟨hforward, hlinked, hnone, hroute⟩ := hfacts
  have hrealizes := (Host.replying (.int 7)).realizes_sendSuper 0 message world root
  rw [hroute] at hrealizes
  exact ⟨reachable_forwardingSample, hforward, hlinked, hnone, hrealizes⟩

end Session

end LateBinding
