import FlatPath.Checksum
import FlatPath.Buffer.Header

/-!
An encoded path: a header and the payload that holds the items. Positions and offsets are counted
from the start of the payload.
-/

namespace FlatPath

/-- The most that an offset can span: offsets are read as signed words. -/
def maxSize : Nat := 2147483647

structure Buffer where
  header : Header
  payload : ByteArray

namespace Buffer

def bytes (b : Buffer) : ByteArray :=
  b.header.bytes ++ b.payload

def size (b : Buffer) : Nat :=
  Header.size + b.payload.size

def isEmpty (b : Buffer) : Bool :=
  b.size == 0

/-- Equal buffers have equal fingerprints. -/
def fingerprint (b : Buffer) : UInt32 :=
  Checksum.crc32 b.bytes

end Buffer

end FlatPath
