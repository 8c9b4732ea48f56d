import LateBinding.Binary.LittleEndian
import LateBinding.Number.Binary64

/-!
# Reading fields

A reader holds the bytes that are left and the number of those already taken. Numbers are
little-endian; a string is preceded by its length in bytes, and a reserved length marks an absent
one; a list is preceded by the number of its elements.

What a failing read leaves behind is part of its meaning. A read of fixed width takes nothing. A
string that is cut short, or whose bytes are no text, has taken its length already, and a text that
is not UTF-8 its bytes too. A count that the rest cannot hold has been taken.
-/

namespace LateBinding

/-- Why bytes cannot be read, with the offset it was noticed at. -/
inductive DecodeError where
  | unexpectedEnd (offset : Nat)
  | invalidText (offset : Nat)
  /-- A constant began with a byte that stands for no kind of constant. -/
  | invalidTag (tag : UInt8) (offset : Nat)
  | nestedTooDeeply (offset : Nat)
  deriving DecidableEq, Repr

def DecodeError.message : DecodeError → String
  | .unexpectedEnd offset => "Unexpected end of load unit at offset " ++ toString offset
  | .invalidText offset => "Invalid UTF-8 string at offset " ++ toString offset
  | .invalidTag tag offset =>
    "Invalid constant tag " ++ toString tag.toNat ++ " at offset " ++ toString offset
  | .nestedTooDeeply offset => "Records nested too deeply at offset " ++ toString offset

/-- The bytes that are left to read, and how many were taken before them. -/
structure Reader where
  rest : List UInt8
  position : Nat
  deriving DecidableEq, Repr

def Reader.of (bytes : List UInt8) : Reader := ⟨bytes, 0⟩

/-- Something that is read: it takes bytes, and says why if it fails. -/
abbrev Decode := EStateM DecodeError Reader

/-- Whether a list has a given number of elements or more. Looks no further than it has to. -/
def hasAtLeast {α : Type} : Nat → List α → Bool
  | 0, _ => true
  | _ + 1, [] => false
  | count + 1, _ :: rest => hasAtLeast count rest

theorem hasAtLeast_iff {α : Type} (count : Nat) (list : List α) :
    hasAtLeast count list = true ↔ count ≤ list.length := by
  induction count generalizing list with
  | zero => simp [hasAtLeast]
  | succ count ih => cases list <;> simp [hasAtLeast, ih]

def absentLength : Nat := 0xFFFFFFFF

namespace Decode

def position : Decode Nat := fun reader => .ok reader.position reader

def bytes (count : Nat) : Decode (List UInt8) := fun reader =>
  if hasAtLeast count reader.rest then
    .ok (reader.rest.take count) ⟨reader.rest.drop count, reader.position + count⟩
  else .error (.unexpectedEnd reader.position) reader

def number (width : Nat) : Decode Nat := ofLittleEndian <$> bytes width

def u8 : Decode UInt8 := UInt8.ofNat <$> number 1

def u32 : Decode UInt32 := UInt32.ofNat <$> number 4

def i64 : Decode Int64 := (fun n => (UInt64.ofNat n).toInt64) <$> number 8

def f64 : Decode Binary64 := (fun n => ⟨UInt64.ofNat n⟩) <$> number 8

def textOf (length : Nat) : Decode String := do
  let start ← position
  let body ← bytes length
  match String.fromUTF8? body.toByteArray with
  | some text => return text
  | none => throw (.invalidText start)

def string : Decode String := do textOf (← number 4)

def optString : Decode (Option String) := do
  let length ← number 4
  if length = absentLength then return none
  else return some (← textOf length)

/-- Take the number of elements of a list. Each element will take at least one byte, so a number
beyond the bytes that are left is an end of the bytes, noticed where the number stands. -/
def count : Decode Nat := do
  let start ← position
  let announced ← number 4
  let reader ← get
  if hasAtLeast announced reader.rest then return announced
  else throw (.unexpectedEnd start)

def many {α : Type} (element : Decode α) : Nat → Decode (List α)
  | 0 => return []
  | left + 1 => return (← element) :: (← many element left)

def list {α : Type} (element : Decode α) : Decode (List α) := do many element (← count)

end Decode

/-! ### Fields by kind -/

inductive FieldKind where
  | u8
  | u32
  | i64
  | f64
  | bytes (width : Nat)
  | string
  | optString
  | count
  deriving DecidableEq, Repr

inductive Field where
  | u8 (value : UInt8)
  | u32 (value : UInt32)
  | i64 (value : Int64)
  | f64 (value : Binary64)
  | bytes (value : List UInt8)
  | string (value : String)
  | optString (value : Option String)
  | count (value : Nat)
  deriving DecidableEq, Repr

def Field.kind : Field → FieldKind
  | .u8 _ => .u8
  | .u32 _ => .u32
  | .i64 _ => .i64
  | .f64 _ => .f64
  | .bytes value => .bytes value.length
  | .string _ => .string
  | .optString _ => .optString
  | .count _ => .count

def FieldKind.read : FieldKind → Decode Field
  | .u8 => .u8 <$> Decode.u8
  | .u32 => .u32 <$> Decode.u32
  | .i64 => .i64 <$> Decode.i64
  | .f64 => .f64 <$> Decode.f64
  | .bytes width => .bytes <$> Decode.bytes width
  | .string => .string <$> Decode.string
  | .optString => .optString <$> Decode.optString
  | .count => .count <$> Decode.count

end LateBinding
