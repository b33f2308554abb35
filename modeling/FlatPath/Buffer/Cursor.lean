import FlatPath.Buffer.Basic
import FlatPath.Bytes

/-!
Reading items out of a payload. A cursor is one decoded item; its operands and its successor are
decoded only when asked for. Every link leads forward, so a walk along links ends.
-/

namespace FlatPath

/-- An item as a buffer stores it: texts as bytes, operands as offsets, zero where absent. -/
abbrev Record := Item ByteArray UInt32 UInt32

/-- Text that has to be UTF-8. -/
def decodeText (script : Script) (bytes : ByteArray) : Except Fault String :=
  match String.fromUTF8? bytes with
  | some s => .ok s
  | none => .error (.illegible script)

namespace Record

def word (b : ByteArray) (i : Nat) (defect : Defect) : Except FormatError UInt32 :=
  match Bytes.wordAt? b i with
  | some v => .ok v
  | none => .error (.corrupt i defect)

def byte (b : ByteArray) (i : Nat) (defect : Defect) : Except FormatError UInt8 :=
  match Bytes.byteAt? b i with
  | some v => .ok v
  | none => .error (.corrupt i defect)

def slice (b : ByteArray) (i n : Nat) (defect : Defect) : Except FormatError ByteArray :=
  match Bytes.sliceAt? b i n with
  | some s => .ok s
  | none => .error (.corrupt i defect)

/-- Length, bytes and a closing zero. -/
def text (b : ByteArray) (i : Nat) (defect : Defect) : Except FormatError ByteArray := do
  let n := (← word b i defect).toNat
  let s ← slice b (i + 4) n defect
  if (← byte b (i + 4 + n) defect) = 0 then return s
  else throw (.corrupt (i + 4 + n) .missingTerminator)

/-- The number of entries, once all their slots are known to be there. -/
def entryCount (b : ByteArray) (i perEntry : Nat) : Except FormatError Nat := do
  let n := (← word b i .truncatedCount).toNat
  if i + 4 + n * (perEntry * 4) ≤ b.size then return n
  else throw (.corrupt (i + 4) .truncatedSlots)

/-- Decodes what follows the next offset of an item of this kind. -/
def decode (b : ByteArray) (i : Nat) : Kind → Except FormatError Record
  | .null => return .null
  | .root => return .root
  | .current => return .current
  | .last => return .last
  | .anyArray => return .anyArray
  | .anyKey => return .anyKey
  | .method m => return .method m
  | .string => return .string (← text b i .truncatedString)
  | .key => return .key (← text b i .truncatedString)
  | .var => return .var (← text b i .truncatedString)
  | .numeric => do
    let n := (← word b i .truncatedNumeric).toNat
    return .numeric (← slice b (i + 4) n .truncatedNumeric)
  | .bool => do
    let v ← byte b i .truncatedBool
    if v = 0 then return .bool false
    else if v = 1 then return .bool true
    else throw (.corrupt i .invalidBool)
  | .binary op =>
    return .binary op (← word b i .truncatedOperand) (← word b (i + 4) .truncatedOperand)
  | .unary op => return .unary op (← word b i .truncatedOperand)
  | .datetime => return .datetime (← word b i .truncatedOperand)
  | .array => return .array (← word b i .truncatedOperand)
  | .likeRegex => do
    let flags ← word b i .truncatedFlags
    let operand ← word b (i + 4) .truncatedOperand
    return .likeRegex operand (← text b (i + 8) .truncatedPattern) ⟨flags⟩
  | .any => return .any ⟨← word b i .truncatedLevels, ← word b (i + 4) .truncatedLevels⟩
  | .indexArray => do
    let n ← entryCount b i 2
    return .indexArray (Bytes.wordPairsAt b (i + 4) n)
  | .sequence => do
    let n ← entryCount b i 1
    return .sequence (Bytes.wordsAt b (i + 4) n)
  | .object => do
    let n ← entryCount b i 2
    return .object (Bytes.wordPairsAt b (i + 4) n)

end Record

structure Cursor where
  payload : ByteArray
  position : Nat
  inside : position < payload.size
  record : Record
  nextOffset : UInt32

namespace Cursor

/-- Decodes the item at a position. -/
def decode (payload : ByteArray) (position : Nat) : Except FormatError Cursor :=
  if inside : position < payload.size then do
    let tag := payload[position]
    match Kind.ofTag? tag with
    | none => throw (.unknownKind position tag)
    | some kind =>
      let i := Bytes.alignUp (position + 1)
      let nextOffset ← Record.word payload i .truncatedNext
      let record ← Record.decode payload (i + 4) kind
      return { payload, position, inside, record, nextOffset }
  else
    .error (.corrupt position .itemOutOfBounds)

theorem decode_eq_ok {b : ByteArray} {i : Nat} {c : Cursor} (h : decode b i = .ok c) :
    c.payload = b ∧ c.position = i := by
  unfold decode at h
  split at h
  · simp only at h
    split at h
    · cases h
    · simp only [bind, Except.bind] at h
      split at h
      · cases h
      · split at h <;> cases h
        exact ⟨rfl, rfl⟩
  · cases h

theorem lt_size_of_decode {b : ByteArray} {i : Nat} {c : Cursor} (h : decode b i = .ok c) :
    i < b.size := by
  obtain ⟨rfl, rfl⟩ := decode_eq_ok h
  exact c.inside

/-- Checks the version of a whole buffer and decodes its first item. -/
def openRoot (bytes : ByteArray) : Except FormatError Cursor := do
  let _ ← Header.read bytes
  decode (bytes.extract Header.size bytes.size) 0

def kind (c : Cursor) : Kind :=
  c.record.kind

/-- The operand slots, in buffer order. -/
def slots (c : Cursor) : List (Slot UInt32) :=
  c.record.slots

def hasNext (c : Cursor) : Bool :=
  c.nextOffset != 0

/-- The item at an offset from this one, which zero does not lead to. -/
def follow (c : Cursor) (offset : UInt32) : Except Fault (Option Cursor) :=
  if offset = 0 then .ok none
  else
    match decode c.payload (c.position + offset.toNat) with
    | .ok child => .ok (some child)
    | .error e => .error (.corrupt e)

/-- The operand at an offset that has to be there. -/
def child (c : Cursor) (offset : UInt32) (role : Role) : Except Fault Cursor := do
  match ← c.follow offset with
  | some child => return child
  | none => throw (.missingOperand c.kind role)

def next (c : Cursor) : Except Fault (Option Cursor) :=
  c.follow c.nextOffset

/-- The argument, which only datetime templates and array elements may lack. -/
def argument (c : Cursor) : Except Fault (Option Cursor) :=
  match c.record with
  | .unary _ o | .datetime o | .array o => c.follow o
  | _ => .error (.lacks c.kind .argument)

def left (c : Cursor) : Except Fault Cursor :=
  match c.record with
  | .binary _ l _ => c.child l .left
  | _ => .error (.lacks c.kind .operator)

def right (c : Cursor) : Except Fault Cursor :=
  match c.record with
  | .binary _ _ r => c.child r .right
  | _ => .error (.lacks c.kind .operator)

def boolValue (c : Cursor) : Except Fault Bool :=
  match c.record with
  | .bool b => .ok b
  | _ => .error (.lacks c.kind .bool)

def numericText (c : Cursor) : Except Fault String :=
  match c.record with
  | .numeric s => decodeText .numeric s
  | _ => .error (.lacks c.kind .numeric)

/-- The bytes of a string literal, a key or a variable name. -/
def textBytes (c : Cursor) : Except Fault ByteArray :=
  match c.record with
  | .string s | .key s | .var s => .ok s
  | _ => .error (.lacks c.kind .text)

def text (c : Cursor) : Except Fault String := do
  decodeText .text (← c.textBytes)

def regexOperand (c : Cursor) : Except Fault Cursor :=
  match c.record with
  | .likeRegex e _ _ => c.child e .operand
  | _ => .error (.lacks c.kind .likeRegex)

def regexPattern (c : Cursor) : Except Fault String :=
  match c.record with
  | .likeRegex _ p _ => decodeText .pattern p
  | _ => .error (.lacks c.kind .likeRegex)

def regexFlags (c : Cursor) : Except Fault RegexFlags :=
  match c.record with
  | .likeRegex _ _ f => .ok f
  | _ => .error (.lacks c.kind .likeRegex)

def levels (c : Cursor) : Except Fault Levels :=
  match c.record with
  | .any l => .ok l
  | _ => .error (.lacks c.kind .levels)

/-- The number of subscripts, elements or fields. -/
def entryCount (c : Cursor) : Except Fault Nat :=
  match c.record with
  | .indexArray ss => .ok ss.length
  | .sequence es => .ok es.length
  | .object fs => .ok fs.length
  | _ => .error (.lacks c.kind .elements)

def subscript (c : Cursor) (i : Nat) : Except Fault (Cursor × Option Cursor) :=
  match c.record with
  | .indexArray ss =>
    match ss[i]? with
    | some (a, b) => return (← c.child a (.start i), ← c.follow b)
    | none => .error (.outOfRange .subscripts i)
  | _ => .error (.unlisted .subscripts)

def sequenceElement (c : Cursor) (i : Nat) : Except Fault Cursor :=
  match c.record with
  | .sequence es =>
    match es[i]? with
    | some e => c.child e (.element i)
    | none => .error (.outOfRange .elements i)
  | _ => .error (.unlisted .elements)

def objectField (c : Cursor) (i : Nat) : Except Fault (Cursor × Cursor) :=
  match c.record with
  | .object fs =>
    match fs[i]? with
    | some (k, v) => return (← c.child k (.key i), ← c.child v (.value i))
    | none => .error (.outOfRange .fields i)
  | _ => .error (.unlisted .fields)

end Cursor

end FlatPath
