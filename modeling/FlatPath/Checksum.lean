/-!
The 32-bit cyclic redundancy check of IEEE 802.3: bits taken low end first, the register started
from and ended with all ones.
-/

namespace FlatPath.Checksum

/-- The generator polynomial without its top term, low end first. -/
def polynomial : UInt32 := 0xEDB88320

/-- Takes one bit out of the register. -/
def shift (register : UInt32) : UInt32 :=
  if register &&& 1 == 1 then (register >>> 1) ^^^ polynomial else register >>> 1

def shifts : Nat → UInt32 → UInt32
  | 0, register => register
  | n + 1, register => shifts n (shift register)

def update (register : UInt32) (byte : UInt8) : UInt32 :=
  shifts 8 (register ^^^ byte.toUInt32)

def crc32 (bytes : ByteArray) : UInt32 :=
  bytes.data.foldl update 0xFFFFFFFF ^^^ 0xFFFFFFFF

end FlatPath.Checksum
