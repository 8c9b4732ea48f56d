import LateBinding.Scenario.Desk

/-!
# Taking a step

Each step is a program. It first follows the paths that it is written with, in the order in which
they are written; the first one that leads nowhere is the answer. What the paths led to is held
until the step is over.
-/

namespace LateBinding.Scenario

/-- A part of a step. It may fail, and it knows what is held beside what it holds itself. -/
abbrev Play := ReaderT (List Value) (ExceptT Failure (Program Desk))

namespace Play

def stage : Play Stage := fun _ => ExceptT.lift Program.world

/-- Follow paths, or find out something else that may fail. -/
def find {α : Type} (search : Stage → Except Failure α) : Play α := fun _ =>
  ExceptT.mk (.look fun stage => .done (search stage))

def see {α : Type} (view : Stage → α) : Play α := find fun stage => .ok (view stage)

def hold (values : List Value) : Play Unit := fun others =>
  ExceptT.lift (Program.holding (values ++ others))

def update (change : Desk → Desk) : Play Unit := fun _ => ExceptT.lift (Program.modifyHost change)

def operate (operation : Operation) : Play operation.Reply := fun _ =>
  ExceptT.lift (Program.perform operation)

def ask (request : Request) : Play request.Reply := fun _ =>
  ExceptT.lift (Program.request request)

def expect {ε α : Type} (failure : ε → Failure) (reply : Except ε α) : Play α :=
  find fun _ => reply.mapError failure

/-! ### Classes -/

def register (script : Script) (line : ClassLine) (handle : String) : Play Answer := do
  let methods ← find fun _ => Stage.methodsAt script line.methods
  let reply ← ask (.register { name := line.name, superclass := line.superclass, size := line.size
                               methods, protocols := line.protocols })
  match reply with
  | .error error => throw (.registry error)
  | .ok cls =>
    hold [.classObject cls]
    update (·.putClass handle cls)
    see fun stage => .registered (stage.viewClass cls) (stage.session.heap.isLinked cls)

def classForName (name : String) (handle : Option String) : Play Answer := do
  match ← see (·.session.classForName? name), handle with
  | none, _ => return .nothing
  | some cls, none => see fun stage => .cls (stage.viewClass cls)
  | some cls, some handle =>
    hold [.classObject cls]
    update (·.putClass handle cls)
    see fun stage => .cls (stage.viewClass cls)

def create (path : ClassPath) (handle : String) : Play Answer := do
  let cls ← find (·.classAt path)
  hold [.classObject cls]
  match ← operate (.createInstance cls) with
  | .error error => throw (.registry error)
  | .ok object =>
    hold [.object object]
    update (·.putObject handle object)
    see fun stage => .number (stage.session.heap.object object).slots.size

def methodChange (script : Script) (cls : ClassPath) (sel : SelPath) (symbol : String) :
    Play (ClassRef × Sel × Imp) := do
  let change ← find fun stage => do
    let cls ← stage.classAt cls
    let sel ← stage.selAt sel
    let imp ← Stage.impAt script symbol
    return (cls, sel, imp)
  hold [.classObject change.1]
  return change

/-! ### Messages -/

def values (receiver : ValuePath) (args : List ValuePath) :
    Stage → Except Failure (Value × List Value) :=
  fun stage => do
    let receiver ← stage.valueAt receiver
    let args ← args.mapM stage.valueAt
    return (receiver, args)

def result (reply : Except DispatchError Value) : Play Answer := do
  match reply with
  | .error error => throw (.dispatch error)
  | .ok value =>
    hold [value]
    see fun stage => .value (stage.viewValue value)

def send (receiver : ValuePath) (args : List ValuePath) (sel : SelPath) : Play Answer := do
  let (receiver, args) ← find (values receiver args)
  hold (receiver :: args)
  let sel ← find (·.selAt sel)
  let reply ← ask (.send ⟨receiver, sel, args⟩)
  result reply

def sendSuper (receiver : ValuePath) (args : List ValuePath) (cls : ClassPath) (sel : SelPath) :
    Play Answer := do
  let (receiver, args) ← find (values receiver args)
  hold (receiver :: args)
  let cls ← find (·.classAt cls)
  hold (.classObject cls :: receiver :: args)
  let sel ← find (·.selAt sel)
  let reply ← ask (.sendSuper cls ⟨receiver, sel, args⟩)
  result reply

def call (script : Script) (receiver : ValuePath) (args : List ValuePath) (sel : SelPath)
    (symbol : String) : Play Answer := do
  let (receiver, args) ← find (values receiver args)
  hold (receiver :: args)
  let sel ← find (·.selAt sel)
  let imp ← find fun _ => Stage.impAt script symbol
  let reply ← ask (.call imp ⟨receiver, sel, args⟩)
  result reply

/-! ### Units -/

def loaded (handle : Option String) (reply : Except LoadError LoadReport) : Play Answer := do
  match reply with
  | .error error => throw (.load error)
  | .ok report =>
    hold (report.statics.map .object)
    if let some stem := handle then update (·.putObjects stem report.statics)
    see fun stage =>
      let heap := stage.session.heap
      .loaded report (report.statics.map fun id => (heap.classOf? id).map heap.className)

end Play

namespace Step

open Play

def play (script : Script) : Step → Play Answer
  | .intern name types => return .number (← operate (.intern name types)).uid
  | .internMany stem count =>
    return .number (← operate (.internAll ((List.range count).map fun i => stem ++ toString i))).uid
  | .selector name => return .number (← find (·.selAt (.named name))).uid
  | .selectorName path => do
    let sel ← find (·.selAt path)
    see fun stage => .ofText? (stage.session.system.selectors.name? sel)
  | .selectorTypes path => do
    let sel ← find (·.selAt path)
    see fun stage => .ofText? (stage.session.system.selectors.types? sel)
  | .register line handle => Play.register script line handle
  | .category line => do
    let methods ← find fun _ => Stage.methodsAt script line.methods
    let status ← operate (.applyCategory { name := line.name, className := line.className, methods
                                           protocols := line.protocols })
    return .text (CategoryStatus.name status)
  | .literal slots handle => do
    let slots ← find fun stage => slots.mapM stage.valueAt
    hold slots
    let object ← operate (.createLiteral slots)
    hold [.object object]
    update (·.putObject handle object)
    return .nothing
  | .statics className objects => do
    let objects ← find fun stage => objects.mapM stage.objectAt
    return .number (← operate (.registerStatics className objects))
  | .classForName name handle => Play.classForName name handle
  | .drop handle => do
    let known ← see fun stage => (stage.host.classes.lookup handle).isSome
    update fun desk => { desk with classes := desk.classes.drop handle }
    return .truth known
  | .classState name =>
    see fun stage => .ofText? ((stage.session.system.registry.stateOf? name).map (·.name))
  | .classNames => see fun stage => .texts stage.session.system.registry.classNames
  | .unregister name => do
    let removed ← expect .registry (← operate (.unregister name))
    see fun stage => .texts (removed.map fun pair => (stage.session.heap.pair pair).name)
  | .superclassOf path =>
    find fun stage => do
      let cls ← stage.classAt path
      return .ofClass? ((stage.session.heap.superclass? cls).map stage.viewClass)
  | .respondsTo path sel =>
    find fun stage => do
      let cls ← stage.classAt path
      let sel ← stage.selAt sel
      return .truth (stage.session.heap.respondsTo cls sel)
  | .conformsTo path protocol =>
    find fun stage => do
      let cls ← stage.classAt path
      return .truth (stage.session.conformsTo cls protocol)
  | .create path handle => Play.create path handle
  | .addMethod cls sel symbol types => do
    let (cls, sel, imp) ← methodChange script cls sel symbol
    return .truth (← expect .registry (← operate (.addMethod cls sel imp types)))
  | .replaceMethod cls sel symbol types => do
    let (cls, sel, imp) ← methodChange script cls sel symbol
    let old ← expect .registry (← operate (.replaceMethod cls sel imp types))
    return .ofText? (old.map script.symbolOf)
  | .send receiver args sel => Play.send receiver args sel
  | .sendSuper receiver args cls sel => Play.sendSuper receiver args cls sel
  | .call receiver args sel symbol => Play.call script receiver args sel symbol
  | .lookupImp receiver sel =>
    find fun stage => do
      let receiver ← stage.valueAt receiver
      let sel ← stage.selAt sel
      return .ofText? ((stage.session.lookupImp receiver sel).map script.symbolOf)
  | .sameImp left right =>
    find fun _ => do
      let left ← Stage.impAt script left
      let right ← Stage.impAt script right
      return .truth (left = right)
  | .forward symbol => do
    let handler ← find fun _ => symbol.mapM (Stage.impAt script)
    operate (.setForward handler)
    return .nothing
  | .imps symbol => return .symbolReport (Stage.reportSymbol script symbol)
  | .load unit handle => do
    let reply ← ask (.load unit script.imp?)
    loaded handle reply
  | .loadBytes bytes handle => do
    let reply ← ask (.loadBytes bytes script.imp?)
    loaded handle reply
  | .inspect path =>
    find fun stage => return .classReport (stage.reportClass script (← stage.classAt path))
  | .snapshot path handle => do
    match ← find fun stage => return stage.session.heap.table? (← stage.classAt path) with
    | none => return .truth false
    | some kept =>
      update fun desk => { desk with tables := desk.tables.put handle kept }
      return .truth true
  | .table handle =>
    find fun stage => return .table (Stage.viewTable script (← stage.tableAt handle))
  | .tableHas handle sel =>
    find fun stage => do
      let table ← stage.tableAt handle
      return .truth (table.contains (← stage.selAt sel))
  | .tablesEqual left right =>
    find fun stage => do
      let left ← stage.tableAt left
      return .truth (left.equals (← stage.tableAt right))
  | .object handle =>
    find fun stage => return .objectReport (stage.reportObject (← stage.objectAt handle))
  | .getSlot handle index =>
    find fun stage => do
      let object ← stage.objectAt handle
      return .slot ((stage.session.heap.slot? object index).map stage.viewValue)
  | .setSlot path handle index => do
    let (held, target) ← find fun stage => do
      let held ← stage.valueAt path
      let target ← stage.objectAt handle
      return (held, target)
    hold [held]
    return .truth (← operate (.setSlot target index held))
  | .value path =>
    find fun stage => return .valueReport (stage.reportValue (← stage.valueAt path))
  | .valueEquals left right =>
    find fun stage => do
      let left ← stage.valueAt left
      return .truth (left.equals (← stage.valueAt right))
  | .options => see fun stage => .options stage.session.system.options
  | .describe => see fun stage => .text stage.session.system.describe
  | .stats => see fun stage => .stats stage.session.system.stats
  | .shutdown => return .shutdown (← operate .shutdown)

def program (script : Script) (step : Step) (others : List Value) :
    Program Desk (Except Failure Answer) :=
  ((step.play script).run others).run

end Step

end LateBinding.Scenario
