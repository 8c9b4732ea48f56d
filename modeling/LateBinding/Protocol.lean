/-!
# Protocols

A protocol is a name and the protocols it inherits, each of them a tree of its own. Whoever adopts
a protocol conforms to every name in its tree.
-/

namespace LateBinding

inductive Protocol where
  | node (name : String) (parents : List Protocol)
  deriving Repr

namespace Protocol

instance : Inhabited Protocol := ⟨.node "" []⟩

def name : Protocol → String
  | .node name _ => name

def parents : Protocol → List Protocol
  | .node _ parents => parents

mutual

def decideEq : (left right : Protocol) → Decidable (left = right)
  | .node name parents, .node name' parents' =>
    if h : name = name' then
      match decideEqAll parents parents' with
      | .isTrue h' => .isTrue (by rw [h, h'])
      | .isFalse h' => .isFalse (by simp [h'])
    else .isFalse (by simp [h])

def decideEqAll : (left right : List Protocol) → Decidable (left = right)
  | [], [] => .isTrue rfl
  | [], _ :: _ => .isFalse (by simp)
  | _ :: _, [] => .isFalse (by simp)
  | left :: lefts, right :: rights =>
    match decideEq left right, decideEqAll lefts rights with
    | .isTrue h, .isTrue h' => .isTrue (by rw [h, h'])
    | .isFalse h, _ => .isFalse (by simp [h])
    | _, .isFalse h' => .isFalse (by simp [h'])

end

instance : DecidableEq Protocol := decideEq

mutual

/-- Number of protocols in the tree, the inherited ones included. -/
def size : Protocol → Nat
  | .node _ parents => sizeAll parents + 1

def sizeAll : List Protocol → Nat
  | [] => 0
  | protocol :: rest => size protocol + sizeAll rest

end

theorem sizeAll_append (front back : List Protocol) :
    sizeAll (front ++ back) = sizeAll front + sizeAll back := by
  induction front with
  | nil => simp [sizeAll]
  | cons protocol rest ih =>
    simp only [List.cons_append, sizeAll, ih]
    omega

theorem sizeAll_reverse (protocols : List Protocol) :
    sizeAll protocols.reverse = sizeAll protocols := by
  induction protocols with
  | nil => rfl
  | cons protocol rest ih =>
    simp only [List.reverse_cons, sizeAll_append, sizeAll, ih]
    omega

/-- Whether a name is that of a protocol in one of the trees on a stack. What is put on the stack last
is looked at first. -/
def finds (wanted : String) : List Protocol → Bool
  | [] => false
  | .node name parents :: stack => name == wanted || finds wanted (parents.reverse ++ stack)
termination_by stack => sizeAll stack
decreasing_by
  simp only [List.unattach_reverse, List.unattach_attach, sizeAll_append, sizeAll_reverse, sizeAll,
    size]
  omega

/-- Whether a name is that of the protocol or of one it inherits, directly or not. -/
def conformsTo (wanted : String) (protocol : Protocol) : Bool := finds wanted [protocol]

mutual

/-- A tree of its own with the same names in the same places. -/
def copy : Protocol → Protocol
  | .node name parents => .node name (copyAll parents)

def copyAll : List Protocol → List Protocol
  | [] => []
  | protocol :: rest => copy protocol :: copyAll rest

end

mutual

/-- Number of levels of the tree; a protocol without parents has one. -/
def depth : Protocol → Nat
  | .node _ parents => maxDepth parents + 1

def maxDepth : List Protocol → Nat
  | [] => 0
  | protocol :: rest => max (depth protocol) (maxDepth rest)

end

mutual

theorem copy_eq : (protocol : Protocol) → copy protocol = protocol
  | .node _ parents => by rw [copy, copyAll_eq parents]

theorem copyAll_eq : (protocols : List Protocol) → copyAll protocols = protocols
  | [] => rfl
  | protocol :: rest => by rw [copyAll, copy_eq protocol, copyAll_eq rest]

end

end Protocol

end LateBinding
