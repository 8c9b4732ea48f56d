import LateBinding.Proofs.Execution.GroundedHosts
import LateBinding.Proofs.Scenario.Steps
import LateBinding.Scenario.Script

/-!
# Implementations of a scenario on top of a ground

An implementation evaluates on top of a ground to what stands for its value without one, whatever
message it is run for.
-/

namespace LateBinding.Scenario

/-- What stands for a value on top of a ground. -/
abbrev Stands (offset : Offset) (value value' : Value) : Prop := value' = value.moved offset

namespace Eval

variable {α β : Type} {offset : Offset} {policy : CategoryConflictPolicy} {Q : α → β → Prop}

theorem attempts_see {view : Stage → α} {other : Stage → β} (held : List Value)
    (h : ∀ stage image, World.Stacked offset policy (Desk.Stacked offset) [] stage image →
      Q (view stage) (other image)) :
    Attempts offset policy Q (see held view) (see (held.map (·.moved offset)) other) :=
  (attempts_holding held).bind fun _ _ _ => attempts_look h

theorem attempts_find {search : Stage → Except Failure α} {other : Stage → Except Failure β}
    (held : List Value)
    (h : ∀ stage image, World.Stacked offset policy (Desk.Stacked offset) [] stage image →
      Alike Q (search stage) (other image)) :
    Attempts offset policy Q (find held search) (find (held.map (·.moved offset)) other) := by
  refine (attempts_see held h).bind ?_
  rintro (failure | value) (failure' | value') halike
  · rw [show failure' = failure from halike]
    exact attempts_throw _
  · exact halike.elim
  · exact halike.elim
  · exact attempts_pure halike

theorem attempts_operate (held : List Value) (operation : Operation) :
    Attempts offset policy (fun reply reply' => reply' = operation.movedReply offset reply)
      (operate held operation) (operate (held.map (·.moved offset)) (operation.moved offset)) :=
  (attempts_holding held).bind fun _ _ _ => attempts_perform operation

theorem attempts_ask (held : List Value) (request : Request) :
    Attempts offset policy (fun reply reply' => reply' = request.movedReply offset reply)
      (ask held request) (ask (held.map (·.moved offset)) (request.moved offset)) :=
  (attempts_holding held).bind fun _ _ _ => attempts_request request

theorem attempts_note {view other : Stage → Note} (held : List Value)
    (h : ∀ stage image, World.Stacked offset policy (Desk.Stacked offset) [] stage image →
      other image = (view stage).moved offset) :
    Attempts offset policy Eq (note held view) (note (held.map (·.moved offset)) other) := by
  refine (attempts_holding held).bind fun _ _ _ => .look fun stage image stacked => ?_
  rw [h stage image stacked]
  exact .keep (stacked.host.addNote _) (.done (Eq.refl ()))

theorem attempts_setSlot (held : List Value) (receiver : Value) (index : Nat) (value : Value) :
    Attempts offset policy (Stands offset) (setSlot held receiver index value)
      (setSlot (held.map (·.moved offset)) (receiver.moved offset) index (value.moved offset)) := by
  cases receiver with
  | object id =>
    exact (attempts_operate (value :: held) (.setSlot id index value)).bind fun _ _ hdone =>
      attempts_pure (congrArg Value.bool hdone)
  | _ => exact attempts_pure rfl

theorem attempts_send (held : List Value) (name : String) (receiver : Value) (args : List Value) :
    Attempts offset policy (Stands offset) (send held name receiver args)
      (send (held.map (·.moved offset)) name (receiver.moved offset)
        (args.map (·.moved offset))) := by
  have hheld : receiver.moved offset :: args.map (·.moved offset) ++ held.map (·.moved offset) =
      (receiver :: args ++ held).map (·.moved offset) := by
    rw [List.map_append, List.map_cons]
  unfold send
  dsimp only
  rw [hheld]
  refine (attempts_find _ fun _ _ stacked => Stage.alike_selAt stacked (.named name)).bind ?_
  rintro sel _ rfl
  refine (attempts_ask _ (.send ⟨receiver, sel, args⟩)).bind ?_
  rintro (error | value) _ rfl
  · exact attempts_throw error
  · exact attempts_pure rfl

theorem attempts_sendSuper (held : List Value) (message : Message) (path : ClassPath)
    (args : List Value) :
    Attempts offset policy (Stands offset) (sendSuper held message path args)
      (sendSuper (held.map (·.moved offset)) (message.moved offset) path
        (args.map (·.moved offset))) := by
  unfold sendSuper
  dsimp only
  rw [← List.map_append]
  refine (attempts_find _ fun _ _ stacked => Stage.alike_classAt stacked path).bind ?_
  rintro cls _ rfl
  refine (attempts_ask _ (.sendSuper cls { message with args })).bind ?_
  rintro (error | value) _ rfl
  · exact attempts_throw error
  · exact attempts_pure rfl

theorem attempts_step (held : List Value) (script : Script) (step : Step) :
    Attempts offset policy (Stands offset) (Eval.step held script step)
      (Eval.step (held.map (·.moved offset)) script step) := by
  refine (attempts_holding held).bind fun _ _ _ => ?_
  refine (attempts_lift (step.alike_program script held)).bind fun answer answer' halike => ?_
  obtain rfl := alike_iff_eq_map.mp halike
  exact (attempts_note held fun _ _ _ => rfl).bind fun _ _ _ => attempts_pure rfl

theorem sumOf_moved (values : List Value) :
    sumOf (values.map (·.moved offset)) = sumOf values := by
  have hint : ∀ value : Value, (value.moved offset).int? = value.int? := fun value => by
    cases value <;> rfl
  unfold sumOf
  rw [List.foldl_map]
  simp only [hint]

end Eval

namespace Expr

variable {offset : Offset} {policy : CategoryConflictPolicy}

mutual

theorem attempts_eval (script : Script) (message : Message) (held : List Value) : (expr : Expr) →
    Attempts offset policy (Stands offset) (eval script message held expr)
      (eval script (message.moved offset) (held.map (·.moved offset)) expr)
  | .self => by
    rw [eval, eval]
    exact attempts_pure rfl
  | .sel => by
    rw [eval, eval]
    exact attempts_pure rfl
  | .argCount => by
    rw [eval, eval]
    exact attempts_pure (congrArg (fun count => Value.int (Int64.ofNat count)) (List.length_map _))
  | .constant path => by
    rw [eval, eval]
    exact Eval.attempts_find held fun _ _ stacked => Stage.alike_valueAt stacked path
  | .arg index => by
    rw [eval, eval]
    exact attempts_pure (message.arg_moved offset index)
  | .slot index => by
    rw [eval, eval]
    have hreceiver : (message.moved offset).receiver = message.receiver.moved offset := rfl
    rw [hreceiver]
    cases message.receiver with
    | object id =>
      refine Eval.attempts_see held fun stage image stacked => ?_
      obtain ⟨ground, hcarries⟩ := stacked.carries
      rw [hcarries.slot?_eq]
      cases stage.session.heap.slot? id index <;> rfl
    | _ => exact attempts_pure rfl
  | .setSlot index expr => by
    rw [eval, eval]
    refine (attempts_eval script message held expr).bind ?_
    rintro value _ rfl
    exact Eval.attempts_setSlot held message.receiver index value
  | .sum terms => by
    rw [eval, eval]
    refine (attempts_evalAll script message held terms).bind ?_
    rintro values _ rfl
    exact attempts_pure (Eval.sumOf_moved values)
  | .raise text => by
    rw [eval, eval]
    exact attempts_throw _
  | .send name receiver args => by
    rw [eval, eval]
    refine (attempts_eval script message held receiver).bind ?_
    rintro receiver _ rfl
    refine (attempts_evalAll script message (receiver :: held) args).bind ?_
    rintro args _ rfl
    exact Eval.attempts_send held name receiver args
  | .sendSuper path args => by
    rw [eval, eval]
    refine (attempts_evalAll script message held args).bind ?_
    rintro args _ rfl
    exact Eval.attempts_sendSuper held message path args
  | .note label => by
    rw [eval, eval]
    have hnote : Attempts offset policy Eq
        (Eval.note held fun stage => .label label (stage.viewValue message.receiver))
        (Eval.note (held.map (·.moved offset)) fun stage =>
          .label label (stage.viewValue (message.moved offset).receiver)) :=
      Eval.attempts_note held fun _ _ stacked =>
        congrArg (Note.label label) (Stage.viewValue_eq stacked message.receiver)
    exact hnote.bind fun _ _ _ => attempts_pure rfl
  | .step inner => by
    rw [eval, eval]
    exact Eval.attempts_step held script inner

theorem attempts_evalAll (script : Script) (message : Message) (held : List Value) :
    (exprs : List Expr) →
    Attempts offset policy (fun values values' => values' = values.map (·.moved offset))
      (evalAll script message held exprs)
      (evalAll script (message.moved offset) (held.map (·.moved offset)) exprs)
  | [] => by
    rw [evalAll, evalAll]
    exact attempts_pure rfl
  | expr :: rest => by
    rw [evalAll, evalAll]
    refine (attempts_eval script message held expr).bind ?_
    rintro value _ rfl
    refine (attempts_evalAll script message (value :: held) rest).bind ?_
    rintro values _ rfl
    exact attempts_pure rfl

end

theorem attempts_evalBody (script : Script) (message : Message) (before : Value)
    (exprs : List Expr) :
    Attempts offset policy (Stands offset) (evalBody script message before exprs)
      (evalBody script (message.moved offset) (before.moved offset) exprs) := by
  induction exprs generalizing before with
  | nil => exact attempts_pure rfl
  | cons expr rest ih =>
    refine (attempts_eval script message [before] expr).bind ?_
    rintro value _ rfl
    exact ih value

end Expr

theorem Script.grounded_host (script : Script) (offset : Offset) (policy : CategoryConflictPolicy) :
    script.host.Grounded offset policy (Desk.Stacked offset) where
  roots _ _ stacked := stacked.roots
  body imp message := by
    refine (Expr.attempts_evalBody script message .nil (script.bodyOf imp)).mono ?_
    exact fun _ _ => alike_iff_eq_map.mp

end LateBinding.Scenario
