import FlatPath.Expr
import FlatPath.Buffer.Scope
import FlatPath.Buffer.Writer
import FlatPath.Pattern.Check
import FlatPath.Text.Visible

/-!
From an expression to its buffer, in pre-order: the fixed part of an item, its operands in slot
order, then the rest of its chain. An item is checked before anything of it is written, so the
first violation in pre-order is the one reported.
-/

namespace FlatPath

inductive EncodeError
  | constructorDisabled (kind : Kind)
  | currentOutsideFilter
  | lastOutsideSubscript
  | emptyNumeric
  | invalidPattern (pattern : String) (flaw : Pattern.Flaw)
  | tooLarge (size : Nat)
  | limit (error : LimitError)
  | patch (error : PatchError)
deriving DecidableEq, Inhabited

namespace EncodeError

def message : EncodeError → String
  | constructorDisabled kind =>
    kind.name ++ " constructor requires extended operators (the \"pg\" modifier)"
  | currentOutsideFilter => "@ is not allowed in root expressions"
  | lastOutsideSubscript => "LAST is allowed only in array subscripts"
  | emptyNumeric => "numeric literal is empty"
  | invalidPattern pattern flaw =>
    "invalid regular expression " ++ visible pattern ++ ": " ++ flaw.reason
  | tooLarge size => "encoded jsonpath too large: " ++ toString size ++ " bytes"
  | limit error => error.message
  | patch error => error.message

/-- A different path text would mend these. -/
def isSyntax : EncodeError → Bool
  | constructorDisabled _ | currentOutsideFilter | lastOutsideSubscript | invalidPattern _ _ => true
  | emptyNumeric | tooLarge _ | limit _ | patch _ => false

end EncodeError

abbrev Encoder := StateT Writer (Except EncodeError)

namespace Encoder

/-- Writes an item and the rest of its chain; answers where the item starts. -/
abbrev Chain := Scope → Descent → Encoder Nat

/-- Refuses to outgrow what an offset can span. -/
def ensureRoom (extra : Nat) : Encoder Unit := do
  let size := (← get).size + extra
  if maxSize < size then throw (.tooLarge size)

def reserve : Encoder OffsetSlot :=
  modifyGet Writer.reserve

def reserveMany : Nat → Encoder (List OffsetSlot)
  | 0 => return []
  | n + 1 => do
    let slot ← reserve
    return slot :: (← reserveMany n)

def patch (slot : OffsetSlot) (child owner : Nat) : Encoder Unit := fun w =>
  match w.patch slot child owner with
  | .ok w => .ok ((), w)
  | .error e => .error (.patch e)

def enter (d : Descent) : Encoder Descent :=
  match d.enter with
  | .ok d => return d
  | .error e => throw (.limit e)

def checkContext (extensions : Bool) (kind : Kind) (scope : Scope) : Encoder Unit :=
  if kind = .current ∧ scope.filters = 0 then throw .currentOutsideFilter
  else if kind = .last ∧ scope.subscript = false then throw .lastOutsideSubscript
  else if kind.isExtension ∧ extensions = false then throw (.constructorDisabled kind)
  else return ()

def text (s : String) : Encoder Unit := do
  ensureRoom s.utf8ByteSize
  modify (·.text s)

/-- The number of entries, then their slots. -/
def entries (count perEntry : Nat) : Encoder (List OffsetSlot) := do
  ensureRoom (count * (perEntry * 4))
  modify (·.word (.ofNat count))
  reserveMany (count * perEntry)

/-- Writes what stands between the next slot and the first operand; answers the operand slots. -/
def content {ρ ο : Type} : Item String ρ ο → Encoder (List OffsetSlot)
  | .null | .root | .current | .last | .anyArray | .anyKey | .method _ => return []
  | .string s | .key s | .var s => do
    text s
    return []
  | .numeric s => do
    if s.isEmpty then throw .emptyNumeric
    ensureRoom s.utf8ByteSize
    modify fun w => (w.word (.ofNat s.utf8ByteSize)).bytes s.toUTF8
    return []
  | .bool b => do
    modify (·.byte (if b then 1 else 0))
    return []
  | .any levels => do
    modify fun w => (w.word levels.first).word levels.last
    return []
  | .binary _ _ _ => reserveMany 2
  | .unary _ _ | .datetime _ | .array _ => reserveMany 1
  | .likeRegex _ pattern flags => do
    if let some flaw := Pattern.check pattern flags then throw (.invalidPattern pattern flaw)
    ensureRoom pattern.utf8ByteSize
    modify (·.word flags.bits)
    let slot ← reserve
    modify (·.text pattern)
    return [slot]
  | .indexArray subscripts => entries subscripts.length 2
  | .sequence elements => entries elements.length 1
  | .object fields => entries fields.length 2

/-- Writes the operands that are there, each a chain of its own, into their slots. -/
def operands (owner : Kind) (start : Nat) (scope : Scope) (d : Descent) :
    List (Slot (Option Chain) × OffsetSlot) → Encoder Unit
  | [] => return ()
  | (⟨_, _, none⟩, _) :: rest => operands owner start scope d rest
  | (⟨role, _, some chain⟩, slot) :: rest => do
    let child ← chain (scope.operand owner role) (← enter d)
    patch slot child start
    operands owner start scope d rest

def item (extensions : Bool) (x : Item String Chain (Option Chain)) (next : Option Chain) :
    Chain := fun scope d => do
  checkContext extensions x.kind scope
  ensureRoom 0
  let start := (← get).position
  modify fun w => (w.byte x.kind.tag).align
  let nextSlot ← reserve
  let slots ← content x
  operands x.kind start scope d ((x.map id some id).slots.zip slots)
  if let some rest := next then
    patch nextSlot (← rest scope d) start
  return start

end Encoder

/-- Writes the chain of an expression into the payload. -/
def Expr.encode (extensions : Bool) (e : Expr) : Encoder.Chain :=
  e.fold (Encoder.item extensions)

def Path.encode (path : Path) (limits : Limits) : Except EncodeError Buffer := do
  let write := do path.expr.encode path.extensions .top (← Encoder.enter limits.descent)
  let (_, w) ← write.run {}
  return { header := .ofModes path.lax path.extensions, payload := w.payload }

end FlatPath
