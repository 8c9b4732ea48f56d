import LateBinding.Proofs.Dispatch.Answers
import LateBinding.Proofs.Execution.Reachable

/-!
# Who can receive messages

A message is meant for a class object or for an object that has a class. Sending refuses all other
receivers but nil. Sending on to the class above does not look at the receiver, except for nil and for
which side of the class a class object stands on: every other value is taken for an instance.
-/

namespace LateBinding

/-- A value that messages can be delivered to. -/
def Heap.Receives (heap : Heap) : Value → Prop
  | .classObject _ => True
  | .object id => heap.classOf? id ≠ none
  | _ => False

/-- The reason to refuse a message lies with a class that has no tables or nothing in them. -/
def DispatchError.BlamesClass : DispatchError → Prop
  | .notLinked _ => True
  | .doesNotRecognize .. => True
  | _ => False

namespace Session

variable {session : Session} {receiver : Value} {cls current : ClassRef} {sel : Sel}
  {error : DispatchError}

/-- What speaks against a value as a receiver: it is neither an object nor a class, or it is an
object that has no class yet. Nil is no misfit, it answers by itself. -/
def misfit? (session : Session) (receiver : Value) (sel : Sel) : Option DispatchError :=
  match receiver with
  | .nil => none
  | .classObject _ => none
  | .object id =>
    match session.heap.classOf? id with
    | some _ => none
    | none => some (.uninitializedInstance (session.describe sel))
  | other => some (.notAnObject other.kind (session.describe sel))

/-- Only receivers that can receive messages get this one, and a misfit is refused as one. -/
structure Screens (session : Session) (receiver : Value) (sel : Sel) (route : Route) : Prop where
  receives : route.Delivers → session.heap.Receives receiver
  misfit : ∀ error, session.misfit? receiver sel = some error → route = .refuse error

/-- A class has tables, and what they have for a selector, or else a forward handler, takes the
message. -/
def Serves (session : Session) (cls : ClassRef) (sel : Sel) : Prop :=
  ∃ table, session.heap.table? cls = some table ∧
    (table.get? sel ≠ none ∨ session.system.forward ≠ none)

/-! ### Where dispatch leads -/

theorem dispatch_cases (session : Session) (cls : ClassRef) (sel : Sel) :
    session.heap.table? cls = none ∧
        session.dispatch cls sel = .refuse (.notLinked (session.heap.className cls)) ∨
      ∃ table, session.heap.table? cls = some table ∧
        ((∃ imp, table.get? sel = some imp ∧ session.dispatch cls sel = .run imp cls) ∨
          table.get? sel = none ∧
            ((∃ handler, session.system.forward = some handler ∧
                session.dispatch cls sel = .forward handler cls) ∨
              session.system.forward = none ∧ session.dispatch cls sel =
                .refuse (.doesNotRecognize (session.heap.className cls) (session.describe sel)))) := by
  unfold dispatch
  cases htable : session.heap.table? cls with
  | none => exact .inl ⟨rfl, rfl⟩
  | some table =>
    dsimp only
    refine .inr ⟨table, rfl, ?_⟩
    cases hget : table.get? sel with
    | some imp => exact .inl ⟨imp, rfl, rfl⟩
    | none =>
      refine .inr ⟨rfl, ?_⟩
      cases hforward : session.system.forward with
      | some handler => exact .inl ⟨handler, rfl, rfl⟩
      | none => exact .inr ⟨rfl, rfl⟩

theorem delivers_dispatch_iff :
    (session.dispatch cls sel).Delivers ↔ session.Serves cls sel := by
  rcases session.dispatch_cases cls sel with ⟨hnone, heq⟩ | ⟨table, htable, hfound⟩
  · rw [heq]
    refine iff_of_false id ?_
    rintro ⟨table, htable, -⟩
    cases hnone.symm.trans htable
  · rcases hfound with ⟨imp, hget, heq⟩ | ⟨hget, ⟨handler, hforward, heq⟩ | ⟨hforward, heq⟩⟩
    · rw [heq]
      exact iff_of_true trivial ⟨table, htable, .inl (by rw [hget]; nofun)⟩
    · rw [heq]
      exact iff_of_true trivial ⟨table, htable, .inr (by rw [hforward]; nofun)⟩
    · rw [heq]
      refine iff_of_false id ?_
      rintro ⟨other, hother, hserved⟩
      cases htable.symm.trans hother
      exact hserved.elim (absurd hget) (absurd hforward)

theorem superRoute_cases (session : Session) (receiver : Value) (current : ClassRef) (sel : Sel) :
    receiver = .nil ∧ session.superRoute receiver current sel = .nowhere ∨
      receiver ≠ .nil ∧
        ((∃ above, session.heap.superclass? (superSide receiver current) = some above ∧
            session.superRoute receiver current sel = session.dispatch above sel) ∨
          session.heap.superclass? (superSide receiver current) = none ∧
            (session.heap.isLinked (superSide receiver current) = true ∧
                session.superRoute receiver current sel = .refuse (.doesNotRecognize
                  (session.heap.className current) (session.describe sel)) ∨
              session.heap.isLinked (superSide receiver current) = false ∧
                session.superRoute receiver current sel =
                  .refuse (.notLinked (session.heap.className current)))) := by
  unfold superRoute
  by_cases hnil : receiver = .nil
  · exact .inl ⟨hnil, if_pos hnil⟩
  · refine .inr ⟨hnil, ?_⟩
    rw [if_neg hnil]
    dsimp only
    cases hsuper : session.heap.superclass? (superSide receiver current) with
    | some above => exact .inl ⟨above, rfl, rfl⟩
    | none =>
      refine .inr ⟨rfl, ?_⟩
      cases hlinked : session.heap.isLinked (superSide receiver current) with
      | true => exact .inl ⟨rfl, rfl⟩
      | false => exact .inr ⟨rfl, rfl⟩

theorem superRoute_of_above {above : ClassRef} (hnil : receiver ≠ .nil)
    (habove : session.heap.superclass? (superSide receiver current) = some above) :
    session.superRoute receiver current sel = session.dispatch above sel := by
  rw [superRoute, if_neg hnil]
  dsimp only
  rw [habove]

/-! ### Misfits -/

theorem receiverClass_of_misfit (hmisfit : session.misfit? receiver sel = some error) :
    session.receiverClass receiver sel = .error error := by
  unfold misfit? at hmisfit
  unfold receiverClass
  cases receiver with
  | nil => cases hmisfit
  | classObject cls => cases hmisfit
  | object id =>
    dsimp only at hmisfit ⊢
    cases hcls : session.heap.classOf? id with
    | some cls =>
      rw [hcls] at hmisfit
      cases hmisfit
    | none =>
      rw [hcls] at hmisfit
      exact congrArg Except.error (Option.some.inj hmisfit)
  | bool value => exact congrArg Except.error (Option.some.inj hmisfit)
  | int value => exact congrArg Except.error (Option.some.inj hmisfit)
  | float value => exact congrArg Except.error (Option.some.inj hmisfit)
  | text value => exact congrArg Except.error (Option.some.inj hmisfit)
  | selector value => exact congrArg Except.error (Option.some.inj hmisfit)

theorem receives_of_receiverClass (hcls : session.receiverClass receiver sel = .ok (some cls)) :
    session.heap.Receives receiver := by
  unfold receiverClass at hcls
  cases receiver with
  | classObject own => trivial
  | object id =>
    intro hnone
    dsimp only at hcls
    rw [hnone] at hcls
    cases hcls
  | _ => cases hcls

theorem route_of_misfit (hmisfit : session.misfit? receiver sel = some error) :
    session.route receiver sel = .refuse error := by
  rw [route, receiverClass_of_misfit hmisfit]

theorem screens_route (session : Session) (receiver : Value) (sel : Sel) :
    session.Screens receiver sel (session.route receiver sel) where
  receives := by
    intro hdelivers
    unfold route at hdelivers
    cases hcls : session.receiverClass receiver sel with
    | error error =>
      rw [hcls] at hdelivers
      exact hdelivers.elim
    | ok found =>
      rw [hcls] at hdelivers
      cases found with
      | none => exact hdelivers.elim
      | some cls => exact receives_of_receiverClass hcls
  misfit error hmisfit := route_of_misfit hmisfit

theorem superSide_of_instance (hinstance : receiver.class? = none) (current : ClassRef) :
    superSide receiver current = current := by
  cases receiver with
  | classObject cls => cases hinstance
  | _ => rfl

theorem kind_superSide_classObject (cls current : ClassRef) :
    (superSide (.classObject cls) current).kind = .metaclass := by
  obtain ⟨pair, kind⟩ := current
  cases kind <;> rfl

/-- A misfit is taken for an instance of the class that it is sent on from. -/
theorem instance_of_misfit (hmisfit : session.misfit? receiver sel = some error) :
    receiver ≠ .nil ∧ receiver.class? = none := by
  cases receiver with
  | nil => cases hmisfit
  | classObject cls => cases hmisfit
  | _ => exact ⟨nofun, rfl⟩

theorem receives_or_nil (hmisfit : session.misfit? receiver sel = none) :
    receiver = .nil ∨ session.heap.Receives receiver := by
  unfold misfit? at hmisfit
  cases receiver with
  | nil => exact .inl rfl
  | classObject cls => exact .inr trivial
  | object id =>
    refine .inr fun hnone => ?_
    dsimp only at hmisfit
    rw [hnone] at hmisfit
    cases hmisfit
  | _ => cases hmisfit

theorem not_blamesClass_of_misfit (hmisfit : session.misfit? receiver sel = some error) :
    ¬ error.BlamesClass := by
  unfold misfit? at hmisfit
  split at hmisfit
  · cases hmisfit
  · cases hmisfit
  · split at hmisfit
    · cases hmisfit
    · cases hmisfit
      exact id
  · cases hmisfit
    exact id

theorem blamesClass_of_dispatch (hrefuses : session.dispatch cls sel = .refuse error) :
    error.BlamesClass := by
  rcases session.dispatch_cases cls sel with ⟨-, heq⟩ | ⟨table, -, hfound⟩
  · cases heq.symm.trans hrefuses
    trivial
  · rcases hfound with ⟨imp, -, heq⟩ | ⟨-, ⟨handler, -, heq⟩ | ⟨-, heq⟩⟩
    · cases heq.symm.trans hrefuses
    · cases heq.symm.trans hrefuses
    · cases heq.symm.trans hrefuses
      trivial

theorem blamesClass_of_superRoute
    (hrefuses : session.superRoute receiver current sel = .refuse error) : error.BlamesClass := by
  rcases session.superRoute_cases receiver current sel with ⟨-, heq⟩ | ⟨-, habove⟩
  · cases heq.symm.trans hrefuses
  · rcases habove with ⟨above, -, heq⟩ | ⟨-, ⟨-, heq⟩ | ⟨-, heq⟩⟩
    · exact blamesClass_of_dispatch (heq.symm.trans hrefuses)
    · cases heq.symm.trans hrefuses
      trivial
    · cases heq.symm.trans hrefuses
      trivial

/-- Only the table above decides whether a misfit that is sent on is delivered to. -/
theorem delivers_superRoute_iff (hmisfit : session.misfit? receiver sel = some error) :
    (session.superRoute receiver current sel).Delivers ↔
      ∃ above, session.heap.superclass? current = some above ∧ session.Serves above sel := by
  obtain ⟨hnil, hinstance⟩ := instance_of_misfit hmisfit
  rcases session.superRoute_cases receiver current sel with ⟨hreceiver, -⟩ | ⟨-, habove⟩
  · exact absurd hreceiver hnil
  · rw [superSide_of_instance hinstance] at habove
    rcases habove with ⟨above, hsuper, heq⟩ | ⟨hnone, hrefused⟩
    · rw [heq, delivers_dispatch_iff]
      refine ⟨fun hserves => ⟨above, hsuper, hserves⟩, ?_⟩
      rintro ⟨other, hother, hserves⟩
      cases hsuper.symm.trans hother
      exact hserves
    · refine iff_of_false ?_ ?_
      · rcases hrefused with ⟨-, heq⟩ | ⟨-, heq⟩ <;>
        · rw [heq]
          exact id
      · rintro ⟨above, hsuper, -⟩
        cases hnone.symm.trans hsuper

/-- A message that is sent on reaches real receivers only, as long as nobody else is sent one. -/
theorem screens_superRoute_iff : session.Screens receiver sel
    (session.superRoute receiver current sel) ↔ session.misfit? receiver sel = none := by
  constructor
  · intro screens
    cases hmisfit : session.misfit? receiver sel with
    | none => rfl
    | some error =>
      have hrefuses := screens.misfit error hmisfit
      exact absurd (blamesClass_of_superRoute hrefuses) (not_blamesClass_of_misfit hmisfit)
  · intro hmisfit
    refine ⟨fun hdelivers => (receives_or_nil hmisfit).resolve_left ?_, ?_⟩
    · rintro rfl
      rw [superRoute, if_pos rfl] at hdelivers
      exact hdelivers
    · intro error herror
      cases hmisfit.symm.trans herror

/-- Whatever is sent reaches real receivers only, and misfits are told what is wrong with them. What
is sent on to the class above is screened in this way just if its receiver is no misfit: a misfit is
delivered to if the class above has tables that serve the selector, and is never told. -/
theorem receivers_screened {σ : Type} (host : Host σ) (depth : Nat) (world : World σ)
    (message : Message) (current : ClassRef) :
    let session := world.session
    let misfit? := session.misfit? message.receiver message.sel
    let route := session.route message.receiver message.sel
    let superRoute := session.superRoute message.receiver current message.sel
    (host.Realizes (host.answer depth) message world
        (host.answer (depth + 1) (.send message) world) route ∧
      session.Screens message.receiver message.sel route ∧
      ∀ error, misfit? = some error →
        host.answer (depth + 1) (.send message) world = .ok (.error error) world) ∧
    host.Realizes (host.answer depth) message world
      (host.answer (depth + 1) (.sendSuper current message) world) superRoute ∧
    (session.Screens message.receiver message.sel superRoute ↔ misfit? = none) ∧
    ∀ error, misfit? = some error → superRoute ≠ .refuse error ∧
      (superRoute.Delivers ↔
        ∃ above, session.heap.superclass? current = some above ∧ session.Serves above message.sel) := by
  intro session misfit? route superRoute
  have hsend := host.realizes_send depth message world
  refine ⟨⟨hsend, screens_route _ _ _, ?_⟩, host.realizes_sendSuper depth message world current,
    screens_superRoute_iff, ?_⟩
  · intro error hmisfit
    rw [route_of_misfit hmisfit] at hsend
    exact hsend
  · intro error hmisfit
    refine ⟨?_, delivers_superRoute_iff hmisfit⟩
    intro hrefuses
    exact not_blamesClass_of_misfit hmisfit (blamesClass_of_superRoute hrefuses)

/-- A truth value that is sent on from the leaf makes an implementation of the root run. -/
theorem sendSuper_delivers_truth :
    let session := ((start {}).afterRegister rootSample).afterRegister leafSample
    let leaf : ClassRef := ⟨⟨1⟩, .plain⟩
    let message : Message := ⟨.bool true, ⟨1⟩, []⟩
    let world : World Unit := ⟨session, (), [], []⟩
    session.Reachable {} ∧
      session.misfit? message.receiver message.sel = some (.notAnObject "bool" "ping") ∧
      ¬ session.Screens message.receiver message.sel
        (session.superRoute message.receiver leaf message.sel) ∧
      (Host.replying (.int 42)).answer 1 (.sendSuper leaf message) world =
        .ok (.ok (.int 42)) world := by
  intro session leaf message world
  have hfacts : session.misfit? (.bool true) ⟨1⟩ = some (.notAnObject "bool" "ping") ∧
      session.superRoute (.bool true) leaf ⟨1⟩ = .run ⟨2⟩ ⟨⟨0⟩, .plain⟩ := by decide +kernel
  obtain ⟨hmisfit, hroute⟩ := hfacts
  refine ⟨(Reachable.start.afterRegister rootSample).afterRegister leafSample, hmisfit, ?_, ?_⟩
  · rw [screens_superRoute_iff, hmisfit]
    nofun
  · have hrealizes := (Host.replying (.int 42)).realizes_sendSuper 0 message world leaf
    rw [hroute] at hrealizes
    obtain ⟨held, hanswer⟩ := hrealizes
    exact hanswer

end Session

end LateBinding
