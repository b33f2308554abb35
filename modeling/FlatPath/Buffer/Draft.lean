import FlatPath.Buffer.Writer

/-!
The writer's buffer as it lies in memory: one array, in which the four bytes of the header come
first and are filled in last. Positions are counted from the start of the payload all the same.
-/

namespace FlatPath

/-- The header's place and what has been written behind it. -/
structure Draft where
  bytes : ByteArray := Bytes.zeros Header.size

namespace Draft

def size (t : Draft) : Nat :=
  t.bytes.size

/-- Where the next byte goes, from the end of the header. -/
def position (t : Draft) : Nat :=
  t.size - Header.size

def isEmpty (t : Draft) : Bool :=
  t.position == 0

def append (t : Draft) (b : ByteArray) : Draft :=
  ⟨t.bytes ++ b⟩

def byte (t : Draft) (v : UInt8) : Draft :=
  ⟨t.bytes.push v⟩

def word (t : Draft) (v : UInt32) : Draft :=
  t.append (Bytes.ofWord v)

/-- Zeros up to the next boundary of four, counted from the start of the header. -/
def align (t : Draft) : Draft :=
  t.append (Bytes.zeros (Bytes.alignUp t.size - t.size))

/-- Length, bytes and a closing zero. -/
def text (t : Draft) (s : String) : Draft :=
  ((t.word (.ofNat s.utf8ByteSize)).append s.toUTF8).byte 0

def reserve (t : Draft) : OffsetSlot × Draft :=
  (⟨t.position⟩, t.word 0)

/-- The slot lies behind the header. -/
def patch (t : Draft) (slot : OffsetSlot) (child owner : Nat) : Except PatchError Draft :=
  if child ≤ owner then .error (.childBeforeOwner child owner)
  else if maxSize < child - owner then .error (.offsetTooLarge (child - owner))
  else .ok ⟨Bytes.setWord t.bytes (Header.size + slot.position) (.ofNat (child - owner))⟩

/-- The whole buffer, once the header is written over its place. -/
def finish (t : Draft) (header : Header) : ByteArray :=
  header.bytes.copySlice 0 t.bytes 0 Header.size

end Draft

end FlatPath
