import LateBinding.Binary.Reader

/-!
# Writing fields

The bytes of a field are those that reading the field takes. A place for a 32-bit number can be
reserved and filled in later.
-/

namespace LateBinding

namespace Encode

def u8 (value : UInt8) : List UInt8 := [value]

def u32 (value : UInt32) : List UInt8 := littleEndian 4 value.toNat

def i64 (value : Int64) : List UInt8 := littleEndian 8 value.toUInt64.toNat

def f64 (value : Binary64) : List UInt8 := littleEndian 8 value.bits.toNat

/-- The bytes of a number of elements. Only its low 32 bits are written. -/
def count (value : Nat) : List UInt8 := littleEndian 4 value

def string (value : String) : List UInt8 :=
  count value.utf8ByteSize ++ value.toUTF8.data.toList

def optString : Option String → List UInt8
  | some value => string value
  | none => count absentLength

def list {α : Type} (element : α → List UInt8) (values : List α) : List UInt8 :=
  count values.length ++ values.flatMap element

@[simp] theorem length_u32 (value : UInt32) : (u32 value).length = 4 := length_littleEndian 4 _

@[simp] theorem length_count (value : Nat) : (count value).length = 4 := length_littleEndian 4 _

end Encode

def Field.encode : Field → List UInt8
  | .u8 value => Encode.u8 value
  | .u32 value => Encode.u32 value
  | .i64 value => Encode.i64 value
  | .f64 value => Encode.f64 value
  | .bytes value => value
  | .string value => Encode.string value
  | .optString value => Encode.optString value
  | .count value => Encode.count value

inductive Emission where
  | field (field : Field)
  /-- A place of 32 bits at the end, filled with zeros. -/
  | reserve
  /-- A number over the four bytes at an offset. -/
  | patch (offset : Nat) (value : UInt32)
  deriving DecidableEq, Repr

/-- Put a number over the four bytes at an offset, if they exist. -/
def patchAt (bytes : List UInt8) (offset : Nat) (value : UInt32) : Option (List UInt8) :=
  if offset + 4 ≤ bytes.length then
    some (bytes.take offset ++ Encode.u32 value ++ bytes.drop (offset + 4))
  else none

/-- The bytes after one act of writing. A patch beyond the end is no act of writing. -/
def emit (bytes : List UInt8) : Emission → Option (List UInt8)
  | .field field => some (bytes ++ field.encode)
  | .reserve => some (bytes ++ Encode.u32 0)
  | .patch offset value => patchAt bytes offset value

theorem length_patchAt {bytes patched : List UInt8} {offset : Nat} {value : UInt32}
    (h : patchAt bytes offset value = some patched) : patched.length = bytes.length := by
  unfold patchAt at h
  split at h
  · simp only [Option.some.injEq] at h
    subst h
    simp
    omega
  · simp at h

end LateBinding
