import LateBinding.Proofs.Scenario.Views
import LateBinding.Scenario.Play

/-!
# Steps of a scenario on top of a ground

The program of a step does on top of a ground what it does without one, and answers the same. It is
taken apart into the parts that it is put together from.
-/

namespace LateBinding.Scenario

/-! ### Programs that may fail -/

/-- A program that may fail does on top of a ground what the other does without one. -/
def Attempts {ε α β : Type} (offset : Offset) (policy : CategoryConflictPolicy) (Q : α → β → Prop)
    (attempt : ExceptT ε (Program Desk) α) (image : ExceptT ε (Program Desk) β) : Prop :=
  Program.Alike offset policy (Desk.Stacked offset) (Alike Q) attempt.run image.run

section

variable {ε α β γ δ : Type} {offset : Offset} {policy : CategoryConflictPolicy} {Q : α → β → Prop}
  {P : γ → δ → Prop}

theorem attempts_pure {value : α} {value' : β} (h : Q value value') :
    Attempts offset policy Q (pure value : ExceptT ε (Program Desk) α) (pure value') := .done h

theorem attempts_throw (failure : ε) :
    Attempts offset policy Q (throw failure : ExceptT ε (Program Desk) α) (throw failure) :=
  .done (Eq.refl failure)

theorem Attempts.bind {attempt : ExceptT ε (Program Desk) α} {image : ExceptT ε (Program Desk) β}
    {next : α → ExceptT ε (Program Desk) γ} {other : β → ExceptT ε (Program Desk) δ}
    (attempts : Attempts offset policy Q attempt image)
    (hnext : ∀ value value', Q value value' →
      Attempts offset policy P (next value) (other value')) :
    Attempts offset policy P (attempt >>= next) (image >>= other) := by
  refine Program.Alike.andThen attempts ?_
  rintro (failure | value) (failure' | value') halike
  · exact .done halike
  · exact halike.elim
  · exact halike.elim
  · exact hnext value value' halike

theorem attempts_lift {program : Program Desk α} {image : Program Desk β}
    (alike : program.Alike offset policy (Desk.Stacked offset) Q image) :
    Attempts offset policy Q (ExceptT.lift program : ExceptT ε (Program Desk) α)
      (ExceptT.lift image) :=
  alike.andThen fun _ _ h => .done h

theorem attempts_look {search : Stage → Except ε α} {other : Stage → Except ε β}
    (h : ∀ stage image, World.Stacked offset policy (Desk.Stacked offset) [] stage image →
      Alike Q (search stage) (other image)) :
    Attempts offset policy Q (ExceptT.mk (.look fun stage => .done (search stage)))
      (ExceptT.mk (.look fun stage => .done (other stage))) :=
  .look fun stage image stacked => .done (h stage image stacked)

theorem attempts_holding (values : List Value) :
    Attempts offset policy Eq
      (ExceptT.lift (Program.holding values) : ExceptT ε (Program Desk) Unit)
      (ExceptT.lift (Program.holding (values.map (·.moved offset)))) :=
  attempts_lift (.hold (.done rfl))

theorem attempts_perform (operation : Operation) :
    Attempts offset policy (fun reply reply' => reply' = operation.movedReply offset reply)
      (ExceptT.lift (Program.perform operation) : ExceptT ε (Program Desk) operation.Reply)
      (ExceptT.lift (Program.perform (operation.moved offset))) :=
  attempts_lift (.act fun _ => .done rfl)

theorem attempts_request (request : Request) :
    Attempts offset policy (fun reply reply' => reply' = request.movedReply offset reply)
      (ExceptT.lift (Program.request request) : ExceptT ε (Program Desk) request.Reply)
      (ExceptT.lift (Program.request (request.moved offset))) :=
  attempts_lift (.ask fun _ => .done rfl)

end

/-! ### Parts of a step -/

/-- A part of a step does on top of a ground what the other does without one. -/
def Plays {α β : Type} (offset : Offset) (policy : CategoryConflictPolicy) (Q : α → β → Prop)
    (play : Play α) (image : Play β) : Prop :=
  ∀ others, Attempts offset policy Q (play others) (image (others.map (·.moved offset)))

theorem Plays.bind {α β γ δ : Type} {offset : Offset} {policy : CategoryConflictPolicy}
    {Q : α → β → Prop} {P : γ → δ → Prop} {play : Play α} {image : Play β} {next : α → Play γ}
    {other : β → Play δ} (plays : Plays offset policy Q play image)
    (hnext : ∀ value value', Q value value' → Plays offset policy P (next value) (other value')) :
    Plays offset policy P (play >>= next) (image >>= other) :=
  fun others => (plays others).bind fun value value' h => hnext value value' h others

/-- What stands for an answer on top of a ground. -/
abbrev Answers (offset : Offset) (answer answer' : Answer) : Prop := answer' = answer.moved offset

namespace Answer

theorem moved_ofText? (offset : Offset) (text? : Option String) :
    (ofText? text?).moved offset = ofText? text? := by
  cases text? <;> rfl

theorem moved_ofClass? (offset : Offset) (cls? : Option ClassView) :
    (ofClass? cls?).moved offset = ofClass? cls? := by
  cases cls? <;> rfl

end Answer

namespace Play

variable {α β γ δ : Type} {offset : Offset} {policy : CategoryConflictPolicy} {Q : α → β → Prop}
  {P : γ → δ → Prop}

theorem plays_pure {value : α} {value' : β} (h : Q value value') :
    Plays offset policy Q (pure value) (pure value') := fun _ => attempts_pure h

theorem plays_throw (failure : Failure) :
    Plays offset policy Q (throw failure : Play α) (throw failure) :=
  fun _ => attempts_throw failure

theorem plays_find {search : Stage → Except Failure α} {other : Stage → Except Failure β}
    (h : ∀ stage image, World.Stacked offset policy (Desk.Stacked offset) [] stage image →
      Alike Q (search stage) (other image)) :
    Plays offset policy Q (find search) (find other) := fun _ => attempts_look h

theorem plays_see {view : Stage → α} {other : Stage → β}
    (h : ∀ stage image, World.Stacked offset policy (Desk.Stacked offset) [] stage image →
      Q (view stage) (other image)) :
    Plays offset policy Q (see view) (see other) := plays_find h

theorem plays_hold (values : List Value) :
    Plays offset policy Eq (hold values) (hold (values.map (·.moved offset))) := by
  intro others
  unfold hold
  rw [← List.map_append]
  exact attempts_holding _

theorem plays_update {change other : Desk → Desk}
    (h : ∀ desk image : Desk, desk.Stacked offset image →
      (change desk).Stacked offset (other image)) :
    Plays offset policy Eq (update change) (update other) := fun _ =>
  attempts_lift (.look fun _ _ stacked => .keep (h _ _ stacked.host) (.done rfl))

theorem plays_operate (operation : Operation) :
    Plays offset policy (fun reply reply' => reply' = operation.movedReply offset reply)
      (operate operation) (operate (operation.moved offset)) := fun _ => attempts_perform operation

theorem plays_ask (request : Request) :
    Plays offset policy (fun reply reply' => reply' = request.movedReply offset reply)
      (ask request) (ask (request.moved offset)) := fun _ => attempts_request request

theorem plays_expect {ε : Type} (failure : ε → Failure) (reply : Except ε α) (f : α → β) :
    Plays offset policy (fun value value' => value' = f value) (expect failure reply)
      (expect failure (reply.map f)) := by
  refine plays_find fun _ _ _ => ?_
  cases reply <;> exact rfl

theorem plays_expect_self {ε : Type} (failure : ε → Failure) (reply : Except ε α) :
    Plays offset policy Eq (expect failure reply) (expect failure reply) := by
  refine plays_find fun _ _ _ => ?_
  cases reply <;> exact rfl

/-- Something that the script alone decides. -/
theorem plays_find_self (search : Except Failure α) :
    Plays offset policy Eq (find fun _ => search) (find fun _ => search) := by
  refine plays_find fun _ _ _ => ?_
  cases search <;> exact rfl

section

variable {seek : Stage → Except Failure α} {seek' : Stage → Except Failure γ}

/-- Something that is looked up, and an answer that is read off it. -/
theorem plays_at {answer : Stage → α → Answer} {answer' : Stage → γ → Answer} {R : α → γ → Prop}
    (hseek : ∀ stage image, World.Stacked offset policy (Desk.Stacked offset) [] stage image →
      Alike R (seek stage) (seek' image))
    (hanswer : ∀ stage image, World.Stacked offset policy (Desk.Stacked offset) [] stage image →
      ∀ found found', R found found' → Answers offset (answer stage found) (answer' image found')) :
    Plays offset policy (Answers offset)
      (find fun stage => do return answer stage (← seek stage))
      (find fun stage => do return answer' stage (← seek' stage)) :=
  plays_find fun stage image stacked => (hseek stage image stacked).bind fun found found' hfound =>
    hanswer stage image stacked found found' hfound

theorem plays_atBoth {second : Stage → Except Failure β} {second' : Stage → Except Failure δ}
    {answer : Stage → α → β → Answer} {answer' : Stage → γ → δ → Answer} {R : α → γ → Prop}
    {S : β → δ → Prop}
    (hseek : ∀ stage image, World.Stacked offset policy (Desk.Stacked offset) [] stage image →
      Alike R (seek stage) (seek' image))
    (hsecond : ∀ stage image, World.Stacked offset policy (Desk.Stacked offset) [] stage image →
      Alike S (second stage) (second' image))
    (hanswer : ∀ stage image, World.Stacked offset policy (Desk.Stacked offset) [] stage image →
      ∀ found found' other other', R found found' → S other other' →
        Answers offset (answer stage found other) (answer' image found' other')) :
    Plays offset policy (Answers offset)
      (find fun stage => do
        let found ← seek stage
        let other ← second stage
        return answer stage found other)
      (find fun stage => do
        let found ← seek' stage
        let other ← second' stage
        return answer' stage found other) := by
  refine plays_find fun stage image stacked => ?_
  refine (hseek stage image stacked).bind fun found found' hfound => ?_
  refine (hsecond stage image stacked).bind fun other other' hother => ?_
  exact hanswer stage image stacked found found' other other' hfound hother

end

/-! ### Classes -/

theorem plays_register (script : Script) (line : ClassLine) (handle : String) :
    Plays offset policy (Answers offset) (register script line handle)
      (register script line handle) := by
  refine (plays_find_self _).bind ?_
  rintro methods _ rfl
  refine (plays_ask
    (.register ⟨line.name, line.superclass, line.size, methods, line.protocols⟩)).bind ?_
  rintro (error | cls) _ rfl
  · exact plays_throw _
  refine (plays_hold [.classObject cls]).bind fun _ _ _ => ?_
  refine (plays_update fun _ _ stacked => stacked.putClass handle cls).bind fun _ _ _ => ?_
  refine plays_see fun stage image stacked => ?_
  obtain ⟨ground, hcarries⟩ := stacked.carries
  rw [Stage.viewClass_eq stacked, hcarries.isLinked_eq]
  rfl

theorem plays_viewClass (cls : ClassRef) :
    Plays offset policy (Answers offset) (see fun stage => .cls (stage.viewClass cls))
      (see fun stage => .cls (stage.viewClass (cls.rename offset.pair))) :=
  plays_see fun _ _ stacked => congrArg Answer.cls (Stage.viewClass_eq stacked cls)

theorem plays_classForName (name : String) (handle : Option String) :
    Plays offset policy (Answers offset) (classForName name handle) (classForName name handle) := by
  have hseen : Plays offset policy (fun cls? cls?' => cls?' = cls?.map (·.rename offset.pair))
      (see (·.session.classForName? name)) (see (·.session.classForName? name)) :=
    plays_see fun _ _ stacked => Stage.classForName?_eq stacked name
  refine hseen.bind ?_
  rintro (_ | cls) _ rfl
  · exact plays_pure rfl
  · cases handle with
    | none => exact plays_viewClass cls
    | some handle =>
      refine (plays_hold [.classObject cls]).bind fun _ _ _ => ?_
      refine (plays_update fun _ _ stacked => stacked.putClass handle cls).bind fun _ _ _ => ?_
      exact plays_viewClass cls

theorem plays_create (path : ClassPath) (handle : String) :
    Plays offset policy (Answers offset) (create path handle) (create path handle) := by
  refine (plays_find fun _ _ stacked => Stage.alike_classAt stacked path).bind ?_
  rintro cls _ rfl
  refine (plays_hold [.classObject cls]).bind fun _ _ _ => ?_
  refine (plays_operate (.createInstance cls)).bind ?_
  rintro (error | object) _ rfl
  · exact plays_throw _
  refine (plays_hold [.object object]).bind fun _ _ _ => ?_
  refine (plays_update fun _ _ stacked => stacked.putObject handle object).bind fun _ _ _ => ?_
  refine plays_see fun stage image stacked => ?_
  obtain ⟨ground, hcarries⟩ := stacked.carries
  rw [hcarries.object_eq, Object.moved, Array.size_map]
  rfl

theorem plays_methodChange (script : Script) (cls : ClassPath) (sel : SelPath) (symbol : String) :
    Plays offset policy
      (fun change change' => change' = Prod.map (·.rename offset.pair) id change)
      (methodChange script cls sel symbol) (methodChange script cls sel symbol) := by
  have hfind : Plays offset policy
      (fun change change' => change' = Prod.map (·.rename offset.pair) id change)
      (find fun stage => do
        let cls ← stage.classAt cls
        let sel ← stage.selAt sel
        let imp ← Stage.impAt script symbol
        return (cls, sel, imp))
      (find fun stage => do
        let cls ← stage.classAt cls
        let sel ← stage.selAt sel
        let imp ← Stage.impAt script symbol
        return (cls, sel, imp)) := by
    refine plays_find fun stage image stacked => ?_
    refine (Stage.alike_classAt stacked cls).bind ?_
    rintro cls _ rfl
    refine (Stage.alike_selAt stacked sel).bind ?_
    rintro sel _ rfl
    cases Stage.impAt script symbol <;> exact rfl
  refine hfind.bind ?_
  rintro change _ rfl
  exact (plays_hold [.classObject change.1]).bind fun _ _ _ => plays_pure rfl

/-! ### Messages -/

theorem alike_values {stage image : Stage}
    (stacked : stage.Stacked offset policy (Desk.Stacked offset) [] image) (receiver : ValuePath)
    (args : List ValuePath) :
    Alike (fun found found' => found' = Prod.map (·.moved offset) (List.map (·.moved offset)) found)
      (values receiver args stage) (values receiver args image) := by
  refine (Stage.alike_valueAt stacked receiver).bind ?_
  rintro receiver _ rfl
  refine (Alike.mapM fun arg => Stage.alike_valueAt stacked arg).bind ?_
  rintro args _ rfl
  exact rfl

theorem plays_result (reply : Except DispatchError Value) :
    Plays offset policy (Answers offset) (result reply) (result (reply.map (·.moved offset))) := by
  cases reply with
  | error error => exact plays_throw _
  | ok value =>
    refine (plays_hold [value]).bind fun _ _ _ => ?_
    exact plays_see fun _ _ stacked => congrArg Answer.value (Stage.viewValue_eq stacked value)

theorem plays_send (receiver : ValuePath) (args : List ValuePath) (sel : SelPath) :
    Plays offset policy (Answers offset) (send receiver args sel) (send receiver args sel) := by
  refine (plays_find fun _ _ stacked => alike_values stacked receiver args).bind ?_
  rintro ⟨receiver, args⟩ _ rfl
  refine (plays_hold (receiver :: args)).bind fun _ _ _ => ?_
  refine (plays_find fun _ _ stacked => Stage.alike_selAt stacked sel).bind ?_
  rintro sel _ rfl
  refine (plays_ask (.send ⟨receiver, sel, args⟩)).bind ?_
  rintro reply _ rfl
  exact plays_result reply

theorem plays_sendSuper (receiver : ValuePath) (args : List ValuePath) (cls : ClassPath)
    (sel : SelPath) :
    Plays offset policy (Answers offset) (sendSuper receiver args cls sel)
      (sendSuper receiver args cls sel) := by
  refine (plays_find fun _ _ stacked => alike_values stacked receiver args).bind ?_
  rintro ⟨receiver, args⟩ _ rfl
  refine (plays_hold (receiver :: args)).bind fun _ _ _ => ?_
  refine (plays_find fun _ _ stacked => Stage.alike_classAt stacked cls).bind ?_
  rintro cls _ rfl
  refine (plays_hold (.classObject cls :: receiver :: args)).bind fun _ _ _ => ?_
  refine (plays_find fun _ _ stacked => Stage.alike_selAt stacked sel).bind ?_
  rintro sel _ rfl
  refine (plays_ask (.sendSuper cls ⟨receiver, sel, args⟩)).bind ?_
  rintro reply _ rfl
  exact plays_result reply

theorem plays_call (script : Script) (receiver : ValuePath) (args : List ValuePath) (sel : SelPath)
    (symbol : String) :
    Plays offset policy (Answers offset) (call script receiver args sel symbol)
      (call script receiver args sel symbol) := by
  refine (plays_find fun _ _ stacked => alike_values stacked receiver args).bind ?_
  rintro ⟨receiver, args⟩ _ rfl
  refine (plays_hold (receiver :: args)).bind fun _ _ _ => ?_
  refine (plays_find fun _ _ stacked => Stage.alike_selAt stacked sel).bind ?_
  rintro sel _ rfl
  refine (plays_find_self (Stage.impAt script symbol)).bind ?_
  rintro imp _ rfl
  refine (plays_ask (.call imp ⟨receiver, sel, args⟩)).bind ?_
  rintro reply _ rfl
  exact plays_result reply

/-! ### Units -/

theorem plays_loaded (handle : Option String) (reply : Except LoadError LoadReport) :
    Plays offset policy (Answers offset) (loaded handle reply)
      (loaded handle (reply.map (·.moved offset))) := by
  cases reply with
  | error error => exact plays_throw _
  | ok report =>
    have hheld : (report.moved offset).statics.map Value.object =
        (report.statics.map Value.object).map (·.moved offset) := by
      rw [LoadReport.moved, List.map_map, List.map_map]
      rfl
    have hseen : Plays offset policy (Answers offset)
        (see fun stage => .loaded report
          (report.statics.map fun id => (stage.session.heap.classOf? id).map
            stage.session.heap.className))
        (see fun stage => .loaded (report.moved offset)
          ((report.moved offset).statics.map fun id => (stage.session.heap.classOf? id).map
            stage.session.heap.className)) := by
      refine plays_see fun stage image stacked => ?_
      obtain ⟨ground, hcarries⟩ := stacked.carries
      refine congrArg (Answer.loaded _) ?_
      rw [LoadReport.moved, List.map_map]
      refine List.map_congr_left fun id _ => ?_
      dsimp only [Function.comp_apply]
      rw [hcarries.classOf?_eq, Option.map_map]
      exact congrArg (Option.map · _) (funext hcarries.className_eq)
    have hhold : Plays offset policy Eq (hold (report.statics.map .object))
        (hold ((report.moved offset).statics.map .object)) := by
      rw [hheld]
      exact plays_hold _
    refine hhold.bind fun _ _ _ => ?_
    cases handle with
    | none => exact hseen
    | some stem =>
      exact (plays_update fun _ _ stacked => stacked.putObjects stem report.statics).bind
        fun _ _ _ => hseen

end Play

/-! ### Steps -/

namespace Step

open Play

variable {offset : Offset} {policy : CategoryConflictPolicy}

/-- The step does on top of a ground what it does without one, and answers the same. -/
abbrev Faithful (offset : Offset) (policy : CategoryConflictPolicy) (script : Script)
    (step : Step) : Prop :=
  Plays offset policy (Answers offset) (step.play script) (step.play script)

theorem faithful_literal (script : Script) (slots : List ValuePath) (handle : String) :
    (Step.literal slots handle).Faithful offset policy script := by
  refine (plays_find fun _ _ stacked => Alike.mapM fun slot =>
    Stage.alike_valueAt stacked slot).bind ?_
  rintro slots _ rfl
  refine (plays_hold slots).bind fun _ _ _ => ?_
  refine (plays_operate (.createLiteral slots)).bind ?_
  rintro object _ rfl
  refine (plays_hold [.object object]).bind fun _ _ _ => ?_
  exact (plays_update fun _ _ stacked => stacked.putObject handle object).bind fun _ _ _ =>
    plays_pure rfl

theorem faithful_drop (script : Script) (handle : String) :
    (Step.drop handle).Faithful offset policy script := by
  have hknown : Plays offset policy Eq
      (see fun stage => (stage.host.classes.lookup handle).isSome)
      (see fun stage => (stage.host.classes.lookup handle).isSome) :=
    plays_see fun _ _ stacked => by rw [Stage.lookup_classes stacked, Option.isSome_map]
  refine hknown.bind ?_
  rintro known _ rfl
  exact (plays_update fun _ _ stacked => stacked.dropClass handle).bind fun _ _ _ =>
    plays_pure rfl

theorem faithful_unregister (script : Script) (name : String) :
    (Step.unregister name).Faithful offset policy script := by
  refine (plays_operate (.unregister name)).bind ?_
  rintro reply _ rfl
  refine (plays_expect Failure.registry reply (List.map offset.pair)).bind ?_
  rintro removed _ rfl
  refine plays_see fun stage image stacked => ?_
  obtain ⟨ground, hcarries⟩ := stacked.carries
  rw [List.map_map]
  exact congrArg Answer.texts (List.map_congr_left fun pair _ =>
    (congrArg ClassPair.name (hcarries.pair_eq pair) :))

theorem faithful_snapshot (script : Script) (path : ClassPath) (handle : String) :
    (Step.snapshot path handle).Faithful offset policy script := by
  have htable : Plays offset policy Eq
      (find fun stage => return stage.session.heap.table? (← stage.classAt path))
      (find fun stage => return stage.session.heap.table? (← stage.classAt path)) := by
    refine plays_find fun stage image stacked => ?_
    refine (Stage.alike_classAt stacked path).bind ?_
    rintro cls _ rfl
    obtain ⟨ground, hcarries⟩ := stacked.carries
    exact (hcarries.table?_eq cls).symm
  refine htable.bind ?_
  rintro (_ | kept) _ rfl
  · exact plays_pure rfl
  · exact (plays_update fun _ _ stacked => stacked.putTable handle kept).bind fun _ _ _ =>
      plays_pure rfl

theorem faithful_setSlot (script : Script) (path : ValuePath) (handle : String) (index : Nat) :
    (Step.setSlot path handle index).Faithful offset policy script := by
  have hfound : Plays offset policy
      (fun found found' => found' = Prod.map (·.moved offset) offset.object found)
      (find fun stage => do
        let held ← stage.valueAt path
        let target ← stage.objectAt handle
        return (held, target))
      (find fun stage => do
        let held ← stage.valueAt path
        let target ← stage.objectAt handle
        return (held, target)) := by
    refine plays_find fun stage image stacked => ?_
    refine (Stage.alike_valueAt stacked path).bind ?_
    rintro held _ rfl
    refine (Stage.alike_objectAt stacked handle).bind ?_
    rintro target _ rfl
    exact rfl
  refine hfound.bind ?_
  rintro ⟨held, target⟩ _ rfl
  refine (plays_hold [held]).bind fun _ _ _ => ?_
  exact (plays_operate (.setSlot target index held)).bind fun _ _ hdone =>
    plays_pure (congrArg Answer.truth hdone)

theorem faithful_selectorName (script : Script) (path : SelPath) :
    (Step.selectorName path).Faithful offset policy script := by
  refine (plays_find fun _ _ stacked => Stage.alike_selAt stacked path).bind ?_
  rintro sel _ rfl
  refine plays_see fun stage image stacked => ?_
  obtain ⟨ground, hcarries⟩ := stacked.carries
  exact (congrArg (fun info? => Answer.ofText? (Option.map SelectorInfo.name info?))
    (hcarries.selectors.info?_eq sel)).trans (Answer.moved_ofText? offset _).symm

theorem faithful_selectorTypes (script : Script) (path : SelPath) :
    (Step.selectorTypes path).Faithful offset policy script := by
  refine (plays_find fun _ _ stacked => Stage.alike_selAt stacked path).bind ?_
  rintro sel _ rfl
  refine plays_see fun stage image stacked => ?_
  obtain ⟨ground, hcarries⟩ := stacked.carries
  exact (congrArg (fun info? => Answer.ofText? (Option.bind info? SelectorInfo.types))
    (hcarries.selectors.info?_eq sel)).trans (Answer.moved_ofText? offset _).symm

theorem faithful_category (script : Script) (line : CategoryLine) :
    (Step.category line).Faithful offset policy script := by
  refine (plays_find_self _).bind ?_
  rintro methods _ rfl
  refine (plays_operate
    (.applyCategory ⟨line.name, line.className, methods, line.protocols⟩)).bind ?_
  rintro status _ rfl
  exact plays_pure rfl

theorem faithful_statics (script : Script) (className : String) (objects : List String) :
    (Step.statics className objects).Faithful offset policy script := by
  refine (plays_find fun _ _ stacked => Alike.mapM fun handle =>
    Stage.alike_objectAt stacked handle).bind ?_
  rintro objects _ rfl
  exact (plays_operate (.registerStatics className objects)).bind fun _ _ hcount =>
    plays_pure (congrArg Answer.number hcount)

theorem faithful_classState (script : Script) (name : String) :
    (Step.classState name).Faithful offset policy script := by
  refine plays_see fun stage image stacked => ?_
  obtain ⟨ground, hcarries⟩ := stacked.carries
  rw [hcarries.registry_eq, Registry.stateOf?_rename]
  exact (Answer.moved_ofText? offset _).symm

theorem faithful_classNames (script : Script) :
    Step.classNames.Faithful offset policy script := by
  refine plays_see fun stage image stacked => ?_
  obtain ⟨ground, hcarries⟩ := stacked.carries
  rw [hcarries.registry_eq]
  rfl

theorem faithful_superclassOf (script : Script) (path : ClassPath) :
    (Step.superclassOf path).Faithful offset policy script := by
  refine plays_at (fun _ _ stacked => Stage.alike_classAt stacked path) ?_
  rintro stage image stacked cls _ rfl
  obtain ⟨ground, hcarries⟩ := stacked.carries
  rw [hcarries.superclass?_eq, Stage.map_viewClass stacked]
  exact (Answer.moved_ofClass? offset _).symm

theorem faithful_respondsTo (script : Script) (path : ClassPath) (sel : SelPath) :
    (Step.respondsTo path sel).Faithful offset policy script := by
  refine plays_atBoth (fun _ _ stacked => Stage.alike_classAt stacked path)
    (fun _ _ stacked => Stage.alike_selAt stacked sel) ?_
  rintro stage image stacked cls _ sel _ rfl rfl
  obtain ⟨ground, hcarries⟩ := stacked.carries
  rw [hcarries.respondsTo_eq]
  exact rfl

theorem faithful_conformsTo (script : Script) (path : ClassPath) (protocol : String) :
    (Step.conformsTo path protocol).Faithful offset policy script := by
  refine plays_at (fun _ _ stacked => Stage.alike_classAt stacked path) ?_
  rintro stage image stacked cls _ rfl
  obtain ⟨ground, hcarries⟩ := stacked.carries
  rw [hcarries.conformsTo_eq]
  exact rfl

theorem faithful_addMethod (script : Script) (cls : ClassPath) (sel : SelPath) (symbol : String)
    (types : Option String) :
    (Step.addMethod cls sel symbol types).Faithful offset policy script := by
  refine (plays_methodChange script cls sel symbol).bind ?_
  rintro ⟨cls, sel, imp⟩ _ rfl
  refine (plays_operate (.addMethod cls sel imp types)).bind ?_
  rintro _ reply rfl
  refine (plays_expect_self Failure.registry reply).bind ?_
  rintro added _ rfl
  exact plays_pure rfl

theorem faithful_replaceMethod (script : Script) (cls : ClassPath) (sel : SelPath) (symbol : String)
    (types : Option String) :
    (Step.replaceMethod cls sel symbol types).Faithful offset policy script := by
  refine (plays_methodChange script cls sel symbol).bind ?_
  rintro ⟨cls, sel, imp⟩ _ rfl
  refine (plays_operate (.replaceMethod cls sel imp types)).bind ?_
  rintro _ reply rfl
  refine (plays_expect_self Failure.registry reply).bind ?_
  rintro old _ rfl
  exact plays_pure (Answer.moved_ofText? offset _).symm

theorem faithful_lookupImp (script : Script) (receiver : ValuePath) (sel : SelPath) :
    (Step.lookupImp receiver sel).Faithful offset policy script := by
  refine plays_atBoth (fun _ _ stacked => Stage.alike_valueAt stacked receiver)
    (fun _ _ stacked => Stage.alike_selAt stacked sel) ?_
  rintro stage image stacked receiver _ sel _ rfl rfl
  obtain ⟨ground, hcarries⟩ := stacked.carries
  rw [hcarries.lookupImp_eq]
  exact (Answer.moved_ofText? offset _).symm

theorem faithful_sameImp (script : Script) (left right : String) :
    (Step.sameImp left right).Faithful offset policy script := by
  refine plays_find fun _ _ _ => ?_
  cases Stage.impAt script left with
  | error failure => exact rfl
  | ok left => cases Stage.impAt script right <;> exact rfl

theorem faithful_forward (script : Script) (symbol : Option String) :
    (Step.forward symbol).Faithful offset policy script := by
  refine (plays_find_self _).bind ?_
  rintro handler _ rfl
  exact (plays_operate (.setForward handler)).bind fun _ _ _ => plays_pure rfl

theorem faithful_load (script : Script) (unit : LoadUnit) (handle : Option String) :
    (Step.load unit handle).Faithful offset policy script := by
  refine (plays_ask (.load unit script.imp?)).bind ?_
  rintro reply _ rfl
  exact plays_loaded handle reply

theorem faithful_loadBytes (script : Script) (bytes : List UInt8) (handle : Option String) :
    (Step.loadBytes bytes handle).Faithful offset policy script := by
  refine (plays_ask (.loadBytes bytes script.imp?)).bind ?_
  rintro reply _ rfl
  exact plays_loaded handle reply

theorem faithful_inspect (script : Script) (path : ClassPath) :
    (Step.inspect path).Faithful offset policy script := by
  refine plays_at (fun _ _ stacked => Stage.alike_classAt stacked path) ?_
  rintro stage image stacked cls _ rfl
  exact congrArg Answer.classReport (Stage.reportClass_eq stacked script cls)

theorem faithful_table (script : Script) (handle : String) :
    (Step.table handle).Faithful offset policy script := by
  refine plays_at (fun _ _ stacked => Stage.alike_tableAt stacked handle) ?_
  rintro _ _ _ table _ rfl
  exact rfl

theorem faithful_tableHas (script : Script) (handle : String) (sel : SelPath) :
    (Step.tableHas handle sel).Faithful offset policy script := by
  refine plays_atBoth (fun _ _ stacked => Stage.alike_tableAt stacked handle)
    (fun _ _ stacked => Stage.alike_selAt stacked sel) ?_
  rintro _ _ _ table _ sel _ rfl rfl
  exact rfl

theorem faithful_tablesEqual (script : Script) (left right : String) :
    (Step.tablesEqual left right).Faithful offset policy script := by
  refine plays_atBoth (fun _ _ stacked => Stage.alike_tableAt stacked left)
    (fun _ _ stacked => Stage.alike_tableAt stacked right) ?_
  rintro _ _ _ left _ right _ rfl rfl
  exact rfl

theorem faithful_object (script : Script) (handle : String) :
    (Step.object handle).Faithful offset policy script := by
  refine plays_at (fun _ _ stacked => Stage.alike_objectAt stacked handle) ?_
  rintro stage image stacked object _ rfl
  exact congrArg Answer.objectReport (Stage.reportObject_eq stacked object)

theorem faithful_getSlot (script : Script) (handle : String) (index : Nat) :
    (Step.getSlot handle index).Faithful offset policy script := by
  refine plays_at (fun _ _ stacked => Stage.alike_objectAt stacked handle) ?_
  rintro stage image stacked object _ rfl
  obtain ⟨ground, hcarries⟩ := stacked.carries
  rw [hcarries.slot?_eq, Option.map_map]
  exact congrArg (fun view => Answer.slot (Option.map view _))
    (funext (Stage.viewValue_eq stacked))

theorem faithful_value (script : Script) (path : ValuePath) :
    (Step.value path).Faithful offset policy script := by
  refine plays_at (fun _ _ stacked => Stage.alike_valueAt stacked path) ?_
  rintro stage image stacked value _ rfl
  exact congrArg Answer.valueReport (Stage.reportValue_eq stacked value)

theorem faithful_valueEquals (script : Script) (left right : ValuePath) :
    (Step.valueEquals left right).Faithful offset policy script := by
  refine plays_atBoth (fun _ _ stacked => Stage.alike_valueAt stacked left)
    (fun _ _ stacked => Stage.alike_valueAt stacked right) ?_
  rintro _ _ _ left _ right _ rfl rfl
  exact congrArg Answer.truth (Stage.equals_moved left right)

theorem faithful_describe (script : Script) :
    Step.describe.Faithful offset policy script := by
  refine plays_see fun stage image stacked => ?_
  obtain ⟨ground, hcarries⟩ := stacked.carries
  unfold System.describe
  rw [hcarries.options, hcarries.stats_eq]
  rfl

theorem faithful (script : Script) (step : Step) :
    step.Faithful offset policy script := by
  cases step with
  | intern name types =>
    exact (plays_operate (.intern name types)).bind fun _ _ hsel =>
      plays_pure (congrArg (fun sel : Sel => Answer.number sel.uid) hsel)
  | internMany stem count =>
    exact (plays_operate (.internAll _)).bind fun _ _ hsel =>
      plays_pure (congrArg (fun sel : Sel => Answer.number sel.uid) hsel)
  | selector name =>
    refine (plays_find fun _ _ stacked => Stage.alike_selAt stacked _).bind ?_
    rintro sel _ rfl
    exact plays_pure rfl
  | selectorName path => exact faithful_selectorName script path
  | selectorTypes path => exact faithful_selectorTypes script path
  | register line handle => exact plays_register script line handle
  | category line => exact faithful_category script line
  | literal slots handle => exact faithful_literal script slots handle
  | statics className objects => exact faithful_statics script className objects
  | classForName name handle => exact plays_classForName name handle
  | drop handle => exact faithful_drop script handle
  | classState name => exact faithful_classState script name
  | classNames => exact faithful_classNames script
  | unregister name => exact faithful_unregister script name
  | superclassOf path => exact faithful_superclassOf script path
  | respondsTo path sel => exact faithful_respondsTo script path sel
  | conformsTo path protocol => exact faithful_conformsTo script path protocol
  | create path handle => exact plays_create path handle
  | addMethod cls sel symbol types => exact faithful_addMethod script cls sel symbol types
  | replaceMethod cls sel symbol types => exact faithful_replaceMethod script cls sel symbol types
  | send receiver args sel => exact plays_send receiver args sel
  | sendSuper receiver args cls sel => exact plays_sendSuper receiver args cls sel
  | call receiver args sel symbol => exact plays_call script receiver args sel symbol
  | lookupImp receiver sel => exact faithful_lookupImp script receiver sel
  | sameImp left right => exact faithful_sameImp script left right
  | forward symbol => exact faithful_forward script symbol
  | imps symbol => exact plays_pure rfl
  | load unit handle => exact faithful_load script unit handle
  | loadBytes bytes handle => exact faithful_loadBytes script bytes handle
  | inspect path => exact faithful_inspect script path
  | snapshot path handle => exact faithful_snapshot script path handle
  | table handle => exact faithful_table script handle
  | tableHas handle sel => exact faithful_tableHas script handle sel
  | tablesEqual left right => exact faithful_tablesEqual script left right
  | object handle => exact faithful_object script handle
  | getSlot handle index => exact faithful_getSlot script handle index
  | setSlot path handle index => exact faithful_setSlot script path handle index
  | value path => exact faithful_value script path
  | valueEquals left right => exact faithful_valueEquals script left right
  | options =>
    refine plays_see fun stage image stacked => ?_
    obtain ⟨ground, hcarries⟩ := stacked.carries
    exact congrArg Answer.options hcarries.options
  | describe => exact faithful_describe script
  | stats =>
    refine plays_see fun stage image stacked => ?_
    obtain ⟨ground, hcarries⟩ := stacked.carries
    exact congrArg Answer.stats hcarries.stats_eq
  | shutdown =>
    exact (plays_operate .shutdown).bind fun _ _ hreport =>
      plays_pure (congrArg Answer.shutdown hreport)

theorem alike_program (script : Script) (step : Step) (others : List Value) :
    (step.program script others).Alike offset policy (Desk.Stacked offset)
      (Alike (Answers offset)) (step.program script (others.map (·.moved offset))) :=
  faithful script step others

end Step

end LateBinding.Scenario
