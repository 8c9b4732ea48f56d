import LateBinding.LoadUnit.Decode
import LateBinding.System

/-!
# Loading units

A unit is loaded as a whole or not at all. First the symbols of all its methods are resolved and the
names of its classes are checked, against each other and against the registry; then its selectors
are interned, its classes registered, its categories applied and its constant objects made, in this
order.
-/

namespace LateBinding

inductive LoadError where
  | invalid (error : UnitError)
  | registry (error : RegistryError)
  /-- A method names an implementation that does not exist. -/
  | unresolvedImplementation (unit method symbol : String)
  deriving DecidableEq, Repr

def LoadError.message : LoadError → String
  | .invalid error => "Invalid load unit: " ++ error.message
  | .registry error => "Cannot load unit: " ++ error.message
  | .unresolvedImplementation unit method symbol =>
    "Unresolved implementation " ++ symbol ++ " for " ++ method ++ " in " ++ unit

structure LoadReport where
  unit : String
  selectors : Nat
  registered : List String
  /-- The classes that linked, earlier ones that had waited included. -/
  linked : List String
  categoriesApplied : Nat
  categoriesPending : Nat
  statics : List ObjectId
  deriving DecidableEq, Repr

namespace LoadUnit

def resolveMethods (unit : String) (imps : String → Option Imp) (methods : List MethodDef) :
    Except LoadError (List MethodSpec) :=
  methods.mapM fun method =>
    match imps method.symbol with
    | some imp => .ok { name := method.name, types := some method.types, imp }
    | none => .error (.unresolvedImplementation unit method.name method.symbol)

def resolveSides (unit : String) (imps : String → Option Imp)
    (methods : Sided (List MethodDef)) : Except LoadError (Sided (List MethodSpec)) := do
  let plain ← resolveMethods unit imps methods.plain
  let metaclass ← resolveMethods unit imps methods.metaclass
  return { plain, metaclass }

/-- The classes of a unit with their implementations. No name may occur among those of the classes
before. -/
def resolveClasses (unit : String) (imps : String → Option Imp) :
    (earlier : List String) → List ClassDef → Except LoadError (List ClassSpec)
  | _, [] => .ok []
  | earlier, cls :: rest => do
    if earlier.contains cls.name then throw (.registry (.duplicateClass cls.name))
    let methods ← resolveSides unit imps cls.methods
    let rest ← resolveClasses unit imps (cls.name :: earlier) rest
    return { name := cls.name, superclass := cls.superclass, size := cls.size, methods
             protocols := Protocol.copyAll cls.protocols } :: rest

def resolveCategories (unit : String) (imps : String → Option Imp)
    (categories : List CategoryDef) : Except LoadError (List CategorySpec) :=
  categories.mapM fun category => do
    let methods ← resolveSides unit imps category.methods
    return { name := category.name, className := category.className, methods
             protocols := Protocol.copyAll category.protocols }

/-- The classes and categories of a unit, ready to be declared, if the unit can be loaded into a
registry. -/
def resolve (unit : LoadUnit) (imps : String → Option Imp) (registry : Registry) :
    Except LoadError (List ClassSpec × List CategorySpec) := do
  let classes ← resolveClasses unit.name imps [] unit.classes
  let categories ← resolveCategories unit.name imps unit.categories
  classes.forM fun cls =>
    if (registry.idOf? cls.name).isSome then throw (.registry (.duplicateClass cls.name))
    else pure ()
  return (classes, categories)

end LoadUnit

namespace Act

def enterClasses (specs : List ClassSpec) : Act (List ClassId) := do
  return (← specs.mapM fun spec => Prod.snd <$> enterClass spec).flatten

def createStatics (group : StaticGroup) : Act (List ObjectId) := do
  let objects ← group.instances.mapM fun slots => createLiteral (slots.map .ofConstant)
  let _ ← registerStatics group.className objects
  return objects

/-- Carry out what a unit declares. Gives a report and the pairs of the classes that linked. -/
def execute (unit : LoadUnit) (classes : List ClassSpec) (categories : List CategorySpec) :
    Act (LoadReport × List PairId) := do
  unit.selectors.forM fun ref => discard (intern ref.name ref.types)
  let linked ← enterClasses classes
  let statuses ← categories.mapM applyCategory
  let pairs ← finishLinking linked
  let statics := (← unit.statics.mapM createStatics).flatten
  let heap := (← get).heap
  let loadReport : LoadReport :=
    { unit := unit.name
      selectors := unit.selectors.length
      registered := classes.map (·.name)
      linked := pairs.map fun pair => (heap.pair pair).name
      categoriesApplied := statuses.count .applied
      categoriesPending := statuses.count .pending
      statics }
  report (.unitExecuted unit.name loadReport.registered.length loadReport.linked.length)
  return (loadReport, pairs)

def load (unit : LoadUnit) (imps : String → Option Imp) :
    Act (Except LoadError (LoadReport × List PairId)) := do
  match unit.resolve imps (← get).system.registry with
  | .error error => return .error error
  | .ok (classes, categories) => return .ok (← execute unit classes categories)

end Act

end LateBinding
