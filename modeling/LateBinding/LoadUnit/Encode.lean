import LateBinding.Binary.Checksum
import LateBinding.Binary.Writer
import LateBinding.LoadUnit

/-!
# Writing units

A unit is written as a header of twenty bytes and a payload. The header holds the mark `OBJR`, the
version, the flags, the length of the payload and its checksum; the payload holds the name, the
selectors, the classes and the categories, and then the constant objects if the flags announce them.
-/

namespace LateBinding

def SelectorRef.encode (ref : SelectorRef) : List UInt8 :=
  Encode.string ref.name ++ Encode.optString ref.types

def MethodDef.encode (method : MethodDef) : List UInt8 :=
  Encode.string method.name ++ Encode.string method.types ++ Encode.string method.symbol

namespace Protocol

mutual

def encode : Protocol → List UInt8
  | .node name parents => Encode.string name ++ (Encode.count parents.length ++ encodeAll parents)

def encodeAll : List Protocol → List UInt8
  | [] => []
  | protocol :: rest => encode protocol ++ encodeAll rest

end

theorem encodeAll_eq_flatMap (protocols : List Protocol) :
    encodeAll protocols = protocols.flatMap encode := by
  induction protocols with
  | nil => rfl
  | cons protocol rest ih => simp [encodeAll, ih]

end Protocol

def encodeMethods (methods : Sided (List MethodDef)) : List UInt8 :=
  Encode.list MethodDef.encode methods.plain ++ Encode.list MethodDef.encode methods.metaclass

def ClassDef.encode (cls : ClassDef) : List UInt8 :=
  Encode.string cls.name ++ Encode.optString cls.superclass ++ Encode.u32 cls.size ++
    encodeMethods cls.methods ++ Encode.list Protocol.encode cls.protocols

def CategoryDef.encode (category : CategoryDef) : List UInt8 :=
  Encode.string category.name ++ Encode.string category.className ++
    encodeMethods category.methods ++ Encode.list Protocol.encode category.protocols

def Constant.encode : Constant → List UInt8
  | .nil => Encode.u8 0
  | .bool value => Encode.u8 1 ++ Encode.u8 (if value then 1 else 0)
  | .int value => Encode.u8 2 ++ Encode.i64 value
  | .float value => Encode.u8 3 ++ Encode.f64 value
  | .text value => Encode.u8 4 ++ Encode.string value

def StaticGroup.encode (group : StaticGroup) : List UInt8 :=
  Encode.string group.className ++ Encode.list (Encode.list Constant.encode) group.instances

namespace LoadUnit

/-- The mark at the start of a unit. -/
def magic : List UInt8 := [0x4F, 0x42, 0x4A, 0x52]

def headerLength : Nat := 20

def payload (unit : LoadUnit) : List UInt8 :=
  Encode.string unit.name ++
    Encode.list SelectorRef.encode unit.selectors ++
    Encode.list ClassDef.encode unit.classes ++
    Encode.list CategoryDef.encode unit.categories ++
    if unit.hasStatics then Encode.list StaticGroup.encode unit.statics else []

def header (version flags : UInt32) (payload : List UInt8) : List UInt8 :=
  magic ++ Encode.u32 version ++ Encode.u32 flags ++ Encode.count payload.length ++
    Encode.u32 (crc32 payload)

def encode (unit : LoadUnit) : List UInt8 :=
  let payload := unit.payload
  header unit.version unit.flags payload ++ payload

theorem length_header (version flags : UInt32) (payload : List UInt8) :
    (header version flags payload).length = headerLength := by
  simp [header, magic, headerLength, Encode.u32, Encode.count]

end LoadUnit

end LateBinding
