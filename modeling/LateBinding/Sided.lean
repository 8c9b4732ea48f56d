/-!
# The two sides of a class

A class has two sides: the class itself, which its instances belong to, and its metaclass, which the
class object belongs to. What is defined for a class is defined for one side or for both.
-/

namespace LateBinding

inductive ClassKind where
  /-- The class itself, which instances belong to. -/
  | plain
  /-- The metaclass, which the class object belongs to. -/
  | metaclass
  deriving DecidableEq, Repr, Inhabited

def ClassKind.name : ClassKind → String
  | .plain => "class"
  | .metaclass => "metaclass"

structure Sided (α : Type) where
  plain : α
  metaclass : α
  deriving DecidableEq, Repr, Inhabited

namespace Sided

variable {α β : Type}

def get (both : Sided α) : ClassKind → α
  | .plain => both.plain
  | .metaclass => both.metaclass

def set (both : Sided α) : ClassKind → α → Sided α
  | .plain, value => { both with plain := value }
  | .metaclass, value => { both with metaclass := value }

def both (value : α) : Sided α := ⟨value, value⟩

def map (f : α → β) (sides : Sided α) : Sided β := ⟨f sides.plain, f sides.metaclass⟩

theorem get_set (sides : Sided α) (kind other : ClassKind) (value : α) :
    (sides.set kind value).get other = if kind = other then value else sides.get other := by
  cases kind <;> cases other <;> rfl

@[simp] theorem get_map (f : α → β) (sides : Sided α) (kind : ClassKind) :
    (sides.map f).get kind = f (sides.get kind) := by
  cases kind <;> rfl

@[simp] theorem get_both (value : α) (kind : ClassKind) : (both value).get kind = value := by
  cases kind <;> rfl

end Sided

end LateBinding
