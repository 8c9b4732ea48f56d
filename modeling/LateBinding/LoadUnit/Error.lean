import LateBinding.Binary.Reader
import LateBinding.LoadUnit
import LateBinding.Number.Hexadecimal

/-!
# Refused units
-/

namespace LateBinding

inductive UnitError where
  | decode (error : DecodeError)
  | invalidMagic (found : List UInt8)
  | unsupportedVersion (version : UInt32)
  /-- The header announces another length than the rest has. -/
  | lengthMismatch (declared actual : Nat)
  | checksumMismatch (expected actual : UInt32)
  | trailingData (offset : Nat)
  deriving DecidableEq, Repr

def UnitError.message : UnitError → String
  | .decode error => "Decode error: " ++ error.message
  | .invalidMagic found =>
    "Invalid magic number: expected OBJR, got [" ++
      ", ".intercalate (found.map fun byte => toString byte.toNat) ++ "]"
  | .unsupportedVersion version =>
    "Unsupported load unit version: " ++ toString version.toNat ++ " (current: " ++
      toString LoadUnit.currentVersion.toNat ++ ")"
  | .lengthMismatch declared actual =>
    "Payload length mismatch: header declares " ++ toString declared ++ " bytes, found " ++
      toString actual
  | .checksumMismatch expected actual =>
    "Checksum mismatch: expected " ++ hexText expected.toNat ++ ", got " ++ hexText actual.toNat
  | .trailingData offset =>
    "Trailing data after load unit payload at offset " ++ toString offset

end LateBinding
