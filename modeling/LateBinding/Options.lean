import LateBinding.SparseIndex

/-!
# Options of a system

A system is set up once, from options that each have a default. Options are checked before use: the
name of the initializer must not be empty, and the selector table must not start out with more
places than there are uids. A failing name is reported before a failing capacity.
-/

namespace LateBinding

/-- What happens when a selector is declared again with another type encoding. The first encoding
is kept in any case. -/
inductive TypeMismatchPolicy where
  | warn
  | ignore
  deriving DecidableEq, Repr, Inhabited

/-- Which of two categories of one class provides a selector that both define. -/
inductive CategoryConflictPolicy where
  /-- The category that was applied last. -/
  | lastApplied
  /-- The category that was applied first. -/
  | firstApplied
  deriving DecidableEq, Repr, Inhabited

structure Options where
  /-- Places of the selector table at the start. -/
  initialSelectorCapacity : Nat := 64
  typeMismatch : TypeMismatchPolicy := .warn
  categoryConflicts : CategoryConflictPolicy := .lastApplied
  /-- Whether classes are sent the initializer once they link. -/
  sendInitialize : Bool := true
  /-- The name of the selector that newly linked classes are sent. -/
  initializerSelector : String := "initialize"
  deriving DecidableEq, Repr

instance : Inhabited Options := ⟨{}⟩

inductive OptionsError where
  | unreadable
  | emptyInitializerSelector
  | capacityTooLarge (capacity : Nat)
  deriving DecidableEq, Repr

def OptionsError.message : OptionsError → String
  | .unreadable => ""
  | .emptyInitializerSelector =>
    "Invalid runtime options: initializer_selector cannot be empty"
  | .capacityTooLarge capacity =>
    "Invalid runtime options: initial_selector_capacity " ++ toString capacity ++
      " exceeds the selector space (" ++ toString (maxUid + 1) ++ ")"

namespace Options

def validate (options : Options) : Except OptionsError Options :=
  if options.initializerSelector = "" then .error .emptyInitializerSelector
  else if maxUid + 1 < options.initialSelectorCapacity then
    .error (.capacityTooLarge options.initialSelectorCapacity)
  else .ok options

theorem validate_default : validate {} = .ok {} := by
  simp [validate, maxUid]

end Options

end LateBinding
