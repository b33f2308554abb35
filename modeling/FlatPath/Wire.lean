import FlatPath.Buffer.Verify

/-!
Messages that carry a path across a process boundary: a version byte, the checksum of the buffer,
low byte first, and the buffer.
-/

namespace FlatPath

inductive WireError
  | version (v : UInt8)
  | tooShort (size : Nat)
  | checksum (expected actual : UInt32)
  | format (error : FormatError)
deriving DecidableEq, Inhabited

namespace Wire

/-- The only version there is. -/
def version : UInt8 := 1

/-- The size of the version and the checksum. -/
def frameSize : Nat := 5

def hexWord (v : UInt32) : String :=
  let digits := Nat.toDigits 16 v.toNat
  "0x" ++ String.ofList (List.replicate (8 - digits.length) '0' ++ digits)

def send (b : Buffer) : ByteArray :=
  [version].toByteArray ++ Bytes.ofWord b.fingerprint ++ b.bytes

/-- The version is looked at first, then the size, the checksum and the buffer. -/
def receive (message : ByteArray) (limits : Limits) : Except WireError Buffer := do
  match Bytes.byteAt? message 0 with
  | none => throw (.tooShort 0)
  | some v => if v ≠ version then throw (.version v)
  if message.size < frameSize then throw (.tooShort message.size)
  let expected := Bytes.wordAt message 1
  let bytes := message.extract frameSize message.size
  let actual := Checksum.crc32 bytes
  if expected ≠ actual then throw (.checksum expected actual)
  match Buffer.load bytes limits with
  | .ok b => return b
  | .error e => throw (.format e)

end Wire

def WireError.message : WireError → String
  | .version v => "unsupported wire version " ++ toString v.toNat
  | .tooShort size => "wire message too short: " ++ toString size ++ " bytes"
  | .checksum expected actual =>
    "checksum mismatch: expected " ++ Wire.hexWord expected ++ ", got " ++ Wire.hexWord actual
  | .format error => error.message

end FlatPath
