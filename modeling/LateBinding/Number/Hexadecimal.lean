/-!
# Hexadecimal text of a number
-/

namespace LateBinding

/-- The hexadecimal digits of a number, in lower case and without a leading zero. -/
def hexDigits (n : Nat) : String := String.ofList (Nat.toDigits 16 n)

/-- A number in hexadecimal, marked as such. -/
def hexText (n : Nat) : String := "0x" ++ hexDigits n

end LateBinding
