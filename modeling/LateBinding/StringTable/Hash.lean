/-!
# Hash of a table key

The hash mixes the UTF-8 bytes of a key one at a time into a 32-bit word. All arithmetic is modulo
2^32, so the hash of a key depends on its bytes alone and never on the size of the table that
stores it.
-/

namespace LateBinding

/-- One byte is added to the word, and every bit of the sum then reaches its neighbours: ten places
to the left, six to the right. -/
def mixByte (hash : UInt32) (byte : UInt8) : UInt32 :=
  let hash := hash + byte.toUInt32
  let hash := hash + (hash <<< 10)
  hash ^^^ (hash >>> 6)

/-- The last bytes have been mixed less often than the first, so the word is stirred once more. -/
def finishHash (hash : UInt32) : UInt32 :=
  let hash := hash + (hash <<< 3)
  let hash := hash ^^^ (hash >>> 11)
  hash + (hash <<< 15)

def hashKey (key : String) : UInt32 :=
  finishHash (key.toUTF8.foldl mixByte 0)

end LateBinding
