import LateBinding.Handle
import LateBinding.LoadUnit
import LateBinding.Number.Shortest

/-!
# Values

What a message carries and what it answers. Objects and classes are referred to by identity.
-/

namespace LateBinding

inductive Value where
  | nil
  | bool (value : Bool)
  | int (value : Int64)
  | float (value : Binary64)
  | text (value : String)
  | object (id : ObjectId)
  | classObject (cls : ClassRef)
  | selector (sel : Sel)
  deriving DecidableEq, Repr

namespace Value

instance : Inhabited Value := ⟨.nil⟩

def kind : Value → String
  | .nil => "nil"
  | .bool _ => "bool"
  | .int _ => "int"
  | .float _ => "float"
  | .text _ => "string"
  | .object _ => "object"
  | .classObject _ => "class"
  | .selector _ => "selector"

/-- Whether two values are equal: objects and classes if they are the same one, floating-point
numbers as numbers, so that a NaN differs from itself, and all else by what it holds. -/
def equals : Value → Value → Bool
  | .float x, .float y => x.equals y
  | left, right => left = right

def ofConstant : Constant → Value
  | .nil => .nil
  | .bool value => .bool value
  | .int value => .int value
  | .float value => .float value
  | .text value => .text value

/-! ### The parts of a value, if it is of the kind in question -/

def bool? : Value → Option Bool
  | .bool value => some value
  | _ => none

def int? : Value → Option Int64
  | .int value => some value
  | _ => none

def float? : Value → Option Binary64
  | .float value => some value
  | .int value => some (.ofInt value)
  | _ => none

def text? : Value → Option String
  | .text value => some value
  | _ => none

def object? : Value → Option ObjectId
  | .object id => some id
  | _ => none

def class? : Value → Option ClassRef
  | .classObject cls => some cls
  | _ => none

def selector? : Value → Option Sel
  | .selector sel => some sel
  | _ => none

end Value

end LateBinding
