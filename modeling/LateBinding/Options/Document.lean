import LateBinding.Options
import LateBinding.Options.Document.Line

/-!
# Options from a document

A document sets options by name, each at most once, and options that it does not name keep their
defaults. An option that is one of several words may also be set by a table whose only key is the
word, with something empty under it; such a table can be written in braces, with dots in the key, or
as a section. A document that is not well formed, that names an option twice or an unknown one, or
that gives an option a value of another kind is unreadable.
-/

namespace LateBinding.Document

inductive Entry where
  | value (setting : Setting)
  /-- The name is that of a table. Its key, if it has one, and whether its own header, which may
  come only once, is still to come. -/
  | table (key : Option String) (headerMayFollow : Bool)
  deriving DecidableEq, Repr

/-- The names that a document has spoken of, and the section that its lines are in. -/
structure Draft where
  entries : List (String × Entry)
  sectionPath : List String
  deriving DecidableEq, Repr

namespace Draft

def start : Draft := ⟨[], []⟩

/-- Say something about a name that nothing was said about yet. -/
def add (draft : Draft) (name : String) (entry : Entry) : Option Draft :=
  match draft.entries.lookup name with
  | none => some { draft with entries := (name, entry) :: draft.entries }
  | some _ => none

def replace (draft : Draft) (name : String) (entry : Entry) : Draft :=
  { draft with entries :=
      (name, entry) :: draft.entries.filter fun (other, _) => other ≠ name }

/-- Give the table of a name its key. A table with two keys is of no use for an option. -/
def addKey (draft : Draft) (name key : String) (headerMayFollow : Bool) : Option Draft :=
  match draft.entries.lookup name with
  | none => draft.add name (.table (some key) headerMayFollow)
  | some (.table none headerMayFollow) =>
    some (draft.replace name (.table (some key) headerMayFollow))
  | some _ => none

def step (draft : Draft) : Line → Option Draft
  | .setting path value =>
    match draft.sectionPath, path, value with
    | [], [name], value => draft.add name (.value value)
    | [], [name, key], .empty => draft.addKey name key false
    | [name], [key], .empty => draft.addKey name key false
    | _, _, _ => none
  | .header path =>
    match path with
    | [name] =>
      let draft := { draft with sectionPath := [name] }
      match draft.entries.lookup name with
      | none => draft.add name (.table none false)
      | some (.table key true) => some (draft.replace name (.table key false))
      | some _ => none
    | [name, key] => { draft with sectionPath := [name, key] }.addKey name key true
    | _ => none

end Draft

/-- The settings of a document by name, if no table is left without a key. -/
def settings? (lines : List Line) : Option (List (String × Setting)) := do
  let draft ← lines.foldlM Draft.step Draft.start
  draft.entries.mapM fun (name, entry) =>
    match entry with
    | .value setting => some (name, setting)
    | .table (some key) _ => some (name, .choice key)
    | .table none _ => none

end LateBinding.Document

namespace LateBinding.Options

open Document

/-- The word that a setting gives for an option that is one of several words. -/
def chosenWord : Setting → Option String
  | .text word | .choice word => some word
  | _ => none

def typeMismatchOf : String → Option TypeMismatchPolicy
  | "warn" => some .warn
  | "ignore" => some .ignore
  | _ => none

def categoryConflictsOf : String → Option CategoryConflictPolicy
  | "last-applied" => some .lastApplied
  | "first-applied" => some .firstApplied
  | _ => none

def assign (options : Options) (name : String) (setting : Setting) : Option Options :=
  match name, setting with
  | "initial_selector_capacity", .whole value =>
    if 0 ≤ value then some { options with initialSelectorCapacity := value.toNat } else none
  | "type_mismatch", setting => do
    return { options with typeMismatch := ← typeMismatchOf (← chosenWord setting) }
  | "category_conflicts", setting => do
    return { options with categoryConflicts := ← categoryConflictsOf (← chosenWord setting) }
  | "send_initialize", .truth value => some { options with sendInitialize := value }
  | "initializer_selector", .text value => some { options with initializerSelector := value }
  | _, _ => none

/-- The options that a document sets, unchecked. -/
def read? (document : String) : Option Options := do
  let settings ← settings? (← ofText? document)
  settings.foldlM (fun options (name, setting) => options.assign name setting) {}

/-- The options that a document sets. They are checked once the whole document has been read. -/
def ofDocument (document : String) : Except OptionsError Options :=
  match read? document with
  | some options => options.validate
  | none => .error .unreadable

end LateBinding.Options
