import FlatPath.Buffer.Error

/-!
The four bytes in front of every payload: format version, mode flags and a reserved word. Unknown
flag bits and the reserved word are carried along unchanged.
-/

namespace FlatPath

structure Header where
  version : UInt8 := 1
  flags : UInt8 := 0
  reserved : UInt16 := 0
deriving DecidableEq, Inhabited

namespace Header

def size : Nat := 4

/-- The only version there is. -/
def currentVersion : UInt8 := 1

/-- Set in strict mode. -/
def strictFlag : UInt8 := 1

/-- Set where the extended constructors were allowed. -/
def extensionsFlag : UInt8 := 2

def isLax (h : Header) : Bool :=
  h.flags &&& strictFlag == 0

def hasExtensions (h : Header) : Bool :=
  h.flags &&& extensionsFlag != 0

def isCurrent (h : Header) : Bool :=
  h.version == currentVersion

def setLax (h : Header) (lax : Bool) : Header :=
  { h with flags := if lax then h.flags &&& ~~~strictFlag else h.flags ||| strictFlag }

def setExtensions (h : Header) (enabled : Bool) : Header :=
  { h with
    flags := if enabled then h.flags ||| extensionsFlag else h.flags &&& ~~~extensionsFlag }

def ofModes (lax extensions : Bool) : Header :=
  (({} : Header).setLax lax).setExtensions extensions

def bytes (h : Header) : ByteArray :=
  [h.version, h.flags, .ofNat h.reserved.toNat, .ofNat (h.reserved.toNat / 0x100)].toByteArray

/-- The header at the front of `b`, if there is room for one. -/
def ofBytes? (b : ByteArray) : Option Header :=
  if h : size ≤ b.size then
    have hsize : 4 ≤ b.size := h
    some { version := b[0], flags := b[1], reserved := .ofNat (b[2].toNat + b[3].toNat * 0x100) }
  else
    none

/-- The complaint about a byte string without room for a header. -/
def tooShort : String := "header too short"

/-- Requires a whole header of the current version. -/
def read (b : ByteArray) : Except FormatError Header :=
  match ofBytes? b with
  | none => .error (.tooShort b.size)
  | some h => if h.isCurrent then .ok h else .error (.unsupportedVersion h.version)

end Header

end FlatPath
