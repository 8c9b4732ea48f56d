import LateBinding.System
import LateBinding.Text.Quoted

/-!
# Descriptions

Texts that show values, classes, objects and systems to a developer. The address of an object is
left open: the word `ADDR` stands in its place.
-/

namespace LateBinding

def recordText (name : String) (fields : List (String × String)) : String :=
  name ++ " \x7b " ++ ", ".intercalate (fields.map fun (field, text) => field ++ ": " ++ text) ++
    " \x7d"

def truthText (value : Bool) : String := if value then "true" else "false"

namespace Heap

def describeValue (heap : Heap) : Value → String
  | .nil => "nil"
  | .bool value => truthText value
  | .int value => toString value.toInt
  | .float value => value.text
  | .text value => quoted value
  | .object id =>
    match heap.classOf? id with
    | some cls => "<" ++ heap.className cls ++ " ADDR>"
    | none => "<uninitialized ADDR>"
  | .classObject cls => heap.className cls
  | .selector sel => sel.debugText

def describeClass (heap : Heap) (cls : ClassRef) : String :=
  recordText "Class" [
    ("id", "ClassId(" ++ toString (heap.pair cls.pair).id.index ++ ")"),
    ("name", quoted (heap.className cls)),
    ("kind", match cls.kind with | .plain => "Class" | .metaclass => "Metaclass"),
    ("linked", truthText (heap.isLinked cls))]

def describeObject (heap : Heap) (id : ObjectId) : String :=
  recordText "Object" [
    ("class", match heap.classOf? id with
      | some cls => "Some(" ++ quoted (heap.className cls) ++ ")"
      | none => "None"),
    ("slots", toString (heap.object id).slots.size)]

end Heap

def Options.describe (options : Options) : String :=
  recordText "RuntimeOptions" [
    ("initial_selector_capacity", toString options.initialSelectorCapacity),
    ("type_mismatch", match options.typeMismatch with | .warn => "Warn" | .ignore => "Ignore"),
    ("category_conflicts", match options.categoryConflicts with
      | .lastApplied => "LastApplied"
      | .firstApplied => "FirstApplied"),
    ("send_initialize", truthText options.sendInitialize),
    ("initializer_selector", quoted options.initializerSelector)]

def Stats.describe (stats : Stats) : String :=
  recordText "RuntimeStats" [
    ("selectors", toString stats.selectors),
    ("classes", toString stats.classes),
    ("linked_classes", toString stats.linkedClasses),
    ("pending_classes", toString stats.pendingClasses),
    ("pending_categories", toString stats.pendingCategories),
    ("pending_static_instances", toString stats.pendingStaticInstances),
    ("dtable_builds", toString stats.tableBuilds)]

def System.describe (system : System) : String :=
  recordText "Runtime" [
    ("options", system.options.describe), ("stats", system.stats.describe)]

end LateBinding
