import LateBinding.Number.Hexadecimal

/-!
# Aborts

A few situations leave no answer to give: they end the whole program after one logged line. They
are kept apart from ordinary errors, which are values that a caller receives.

A class that was made without a metaclass would be one more of them. It has no place here: a class
is made as a pair, and a pair has both sides.
-/

namespace LateBinding

inductive Abort where
  /-- A new selector name met a full selector space. -/
  | selectorsExhausted (name : String)
  /-- A uid beyond the dispatch index was to be stored. -/
  | uidOutsideIndex (uid : Nat)
  /-- A waiting class was released although its superclass is not linked. -/
  | superclassNotLinked (name superclass : String)
  deriving DecidableEq, Repr

def Abort.message : Abort → String
  | .selectorsExhausted name => "Out of selector slots while interning " ++ name
  | .uidOutsideIndex uid => "uid " ++ hexText uid ++ " is outside the dispatch index"
  | .superclassNotLinked name superclass =>
    "class " ++ name ++ " released before superclass " ++ superclass ++ " linked"

end LateBinding
