import LateBinding.Selector
import LateBinding.Sided

/-!
# Handles

Classes come in pairs: the class itself and its metaclass, which carries the methods of the class
object. A class handle names a pair and one of its two sides. Pairs, objects and implementations are
identified by number; two handles are the same exactly when their numbers and sides are.
-/

namespace LateBinding

/-- The identity of a class pair. A number is never given to a second pair, so a handle from before
an unregistration cannot be taken for a class of the same name registered later. -/
structure PairId where
  index : Nat
  deriving DecidableEq, Repr, Inhabited

structure ObjectId where
  index : Nat
  deriving DecidableEq, Repr, Inhabited

structure Imp where
  id : Nat
  deriving DecidableEq, Repr, Inhabited

/-- Where a class stands in its registry. Numbers are given out again after a shutdown. -/
structure ClassId where
  index : Nat
  deriving DecidableEq, Repr, Inhabited

structure ClassRef where
  pair : PairId
  kind : ClassKind
  deriving DecidableEq, Repr, Inhabited

end LateBinding
