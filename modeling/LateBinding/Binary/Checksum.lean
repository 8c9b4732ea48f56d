/-!
# Checksum

CRC-32 with the polynomial `0xEDB88320` in its reflected form: the register starts with all bits
set, takes the bytes one after the other with their low bits first, and is inverted at the end.
-/

namespace LateBinding

/-- One bit leaves the register at the low end; a set bit takes the polynomial with it. -/
def crcBit (register : UInt32) : UInt32 :=
  if register &&& 1 = 1 then (register >>> 1) ^^^ 0xEDB88320 else register >>> 1

def crcByte (register : UInt32) (byte : UInt8) : UInt32 :=
  crcBit (crcBit (crcBit (crcBit (crcBit (crcBit (crcBit (crcBit (register ^^^ byte.toUInt32))))))))

def crcRegister (register : UInt32) (bytes : List UInt8) : UInt32 := bytes.foldl crcByte register

def crc32 (bytes : List UInt8) : UInt32 := crcRegister 0xFFFFFFFF bytes ^^^ 0xFFFFFFFF

theorem crcRegister_append (register : UInt32) (front back : List UInt8) :
    crcRegister register (front ++ back) = crcRegister (crcRegister register front) back := by
  simp [crcRegister]

end LateBinding
