import FlatPath.Bytes
import FlatPath.Buffer.Basic

/-!
A payload under construction. Bytes are only appended; an offset is reserved as four zero bytes and
patched once the position it leads to is known.
-/

namespace FlatPath

/-- A reserved offset. -/
structure OffsetSlot where
  position : Nat
deriving DecidableEq, Inhabited

inductive PatchError
  | childBeforeOwner (child owner : Nat)
  | offsetTooLarge (offset : Nat)
deriving DecidableEq, Inhabited

def PatchError.message : PatchError → String
  | .childBeforeOwner child owner =>
    "child " ++ toString child ++ " does not follow owner " ++ toString owner
  | .offsetTooLarge offset => "offset " ++ toString offset ++ " exceeds slot range"

structure Writer where
  payload : ByteArray := .empty

namespace Writer

/-- Where the next byte goes. -/
def position (w : Writer) : Nat :=
  w.payload.size

/-- The size of the buffer so far, header included. -/
def size (w : Writer) : Nat :=
  Header.size + w.payload.size

def isEmpty (w : Writer) : Bool :=
  w.position == 0

def bytes (w : Writer) (b : ByteArray) : Writer :=
  ⟨w.payload ++ b⟩

def byte (w : Writer) (v : UInt8) : Writer :=
  ⟨w.payload.push v⟩

def word (w : Writer) (v : UInt32) : Writer :=
  w.bytes (Bytes.ofWord v)

/-- Zeros up to the next boundary of four. -/
def align (w : Writer) : Writer :=
  w.bytes (Bytes.zeros (Bytes.alignUp w.position - w.position))

/-- Length, bytes and a closing zero. -/
def text (w : Writer) (s : String) : Writer :=
  ((w.word (.ofNat s.utf8ByteSize)).bytes s.toUTF8).byte 0

def reserve (w : Writer) : OffsetSlot × Writer :=
  (⟨w.position⟩, w.word 0)

/-- Stores the way from `owner` to `child`, which always leads forward. -/
def patch (w : Writer) (slot : OffsetSlot) (child owner : Nat) : Except PatchError Writer :=
  if child ≤ owner then .error (.childBeforeOwner child owner)
  else if maxSize < child - owner then .error (.offsetTooLarge (child - owner))
  else .ok ⟨Bytes.setWord w.payload slot.position (.ofNat (child - owner))⟩

/-- The whole buffer. -/
def finish (w : Writer) (header : Header) : ByteArray :=
  header.bytes ++ w.payload

end Writer

end FlatPath
