import LateBinding.LoadUnit.Encode
import LateBinding.LoadUnit.Error

/-!
# Reading units

The header is checked before the payload is read: the mark, the version, then the length and the
checksum of what follows it. A unit has to be read to its last byte.
-/

namespace LateBinding

def SelectorRef.decode : Decode SelectorRef := do
  let name ← Decode.string
  let types ← Decode.optString
  return { name, types }

def MethodDef.decode : Decode MethodDef := do
  let name ← Decode.string
  let types ← Decode.string
  let symbol ← Decode.string
  return { name, types, symbol }

namespace Protocol

/-- The greatest depth of a protocol in a unit. -/
def depthLimit : Nat := 65

def decodeWithin : Nat → Decode Protocol
  | 0 => do throw (.nestedTooDeeply (← Decode.position))
  | levels + 1 => do
    let name ← Decode.string
    let parents ← Decode.list (decodeWithin levels)
    return .node name parents

def decode : Decode Protocol := decodeWithin depthLimit

end Protocol

def decodeMethods : Decode (Sided (List MethodDef)) := do
  let plain ← Decode.list MethodDef.decode
  let metaclass ← Decode.list MethodDef.decode
  return { plain, metaclass }

def ClassDef.decode : Decode ClassDef := do
  let name ← Decode.string
  let superclass ← Decode.optString
  let size ← Decode.u32
  let methods ← decodeMethods
  let protocols ← Decode.list Protocol.decode
  return { name, superclass, size, methods, protocols }

def CategoryDef.decode : Decode CategoryDef := do
  let name ← Decode.string
  let className ← Decode.string
  let methods ← decodeMethods
  let protocols ← Decode.list Protocol.decode
  return { name, className, methods, protocols }

/-- Read a constant. Every byte but zero stands for true. -/
def Constant.decode : Decode Constant := do
  let start ← Decode.position
  let tag ← Decode.u8
  if tag = 0 then return .nil
  else if tag = 1 then return .bool ((← Decode.u8) != 0)
  else if tag = 2 then return .int (← Decode.i64)
  else if tag = 3 then return .float (← Decode.f64)
  else if tag = 4 then return .text (← Decode.string)
  else throw (.invalidTag tag start)

def StaticGroup.decode : Decode StaticGroup := do
  let className ← Decode.string
  let instances ← Decode.list (Decode.list Constant.decode)
  return { className, instances }

namespace LoadUnit

/-- Read a payload, under the version and the flags of its header. -/
def decodePayload (version flags : UInt32) : Decode LoadUnit := do
  let name ← Decode.string
  let selectors ← Decode.list SelectorRef.decode
  let classes ← Decode.list ClassDef.decode
  let categories ← Decode.list CategoryDef.decode
  let statics ← if flags &&& staticsFlag != 0 then Decode.list StaticGroup.decode else pure []
  return { version, flags, name, selectors, classes, categories, statics }

/-- Go on with reading, or say that the unit cannot be read. -/
def reading {α : Type} (read : Decode α) : StateT Reader (Except UnitError) α := fun reader =>
  match read reader with
  | .ok value reader => .ok (value, reader)
  | .error error _ => .error (.decode error)

/-- Read the header: the version, the flags, the announced length and the checksum. -/
def decodeHeader : StateT Reader (Except UnitError) (UInt32 × UInt32 × Nat × UInt32) := do
  let mark ← reading (Decode.bytes 4)
  if mark ≠ magic then throw (.invalidMagic mark)
  let version ← reading Decode.u32
  if version ≠ currentVersion then throw (.unsupportedVersion version)
  let flags ← reading Decode.u32
  let declared ← reading (Decode.number 4)
  let checksum ← reading Decode.u32
  return (version, flags, declared, checksum)

def decode (bytes : List UInt8) : Except UnitError LoadUnit := do
  let ((version, flags, declared, checksum), reader) ← decodeHeader.run (Reader.of bytes)
  let payload := reader.rest
  if declared ≠ payload.length then throw (.lengthMismatch declared payload.length)
  if crc32 payload ≠ checksum then throw (.checksumMismatch checksum (crc32 payload))
  let (unit, reader) ← (reading (decodePayload version flags)).run reader
  if reader.rest ≠ [] then throw (.trailingData reader.position)
  return unit

end LoadUnit

end LateBinding
