import FlatPath.Bindings
import FlatPath.Print
import FlatPath.Template

/-!
Whether a path may give different answers for the same document. The one cause is the time zone of
the session: it decides a comparison between a value with a zone and one without, or with a value
whose zone is only known when it is computed. The walk follows the status of the value that each
chain produces and that of `@`, and stops at the first such comparison.
-/

namespace FlatPath

/-- What is known beforehand about a value being a date or a time. -/
inductive DatetimeStatus
  | nonDatetime
  | unknown
  | zoned
  | nonZoned
deriving DecidableEq, Inhabited

namespace DatetimeStatus

def isDatetime (s : DatetimeStatus) : Bool :=
  s != .nonDatetime

/-- Comparing values of these two kinds depends on the time zone of the session. -/
def comparisonIsMutable (s t : DatetimeStatus) : Bool :=
  s.isDatetime && t.isDatetime && (s == .unknown || t == .unknown || s != t)

def ofVarType : VarType → DatetimeStatus
  | .date | .time | .timestamp => .nonZoned
  | .timeTz | .timestampTz => .zoned
  | .other => .nonDatetime

end DatetimeStatus

namespace Mutability

/-- What a walk knows from outside the path. -/
structure Context where
  bindings : Bindings
  lax : Bool

/-- Lax mode unwraps arrays, so an element keeps the status of the value. -/
def Context.arrayStep (ctx : Context) (status : DatetimeStatus) : DatetimeStatus :=
  if ctx.lax then status else .nonDatetime

/-- The status of the value a chain has come to, and whether a mutable comparison was met. -/
abbrev Walked := Except ReadError (DatetimeStatus × Bool)

/-- The status that a datetime method gives its value. -/
def templateStatus : Link → Except ReadError DatetimeStatus
  | .absent => return .unknown
  | .broken e => throw (.fault (.corrupt e))
  | .found n =>
    match (n ()).item with
    | .string s => do
      let template ← Print.legible .text s
      return if Template.isZoned template then .zoned else .nonZoned
    | _ => return .nonDatetime

mutual

/-- From an item to the end of its chain. `current` is the status of `@`. -/
def items (ctx : Context) (d : Descent) (current status : DatetimeStatus) (found : Bool) :
    Node → Walked
  | .mk x next =>
    if found then return (status, true)
    else do
      let (status, found) ← item ctx d current status x
      rest ctx d current status found next

def rest (ctx : Context) (d : Descent) (current status : DatetimeStatus) (found : Bool) :
    Link → Walked
  | .absent => return (status, found)
  | .broken e => throw (.fault (.corrupt e))
  | .found n => items ctx d current status found (n ())

def operand (ctx : Context) (d : Descent) (current : DatetimeStatus) (found : Bool)
    (missing : Walked) : Link → Walked
  | .absent => missing
  | .broken e => throw (.fault (.corrupt e))
  | .found n => do items ctx (← Print.enter d) current .nonDatetime found (n ())

/-- The status after an item, applied to a value of the given status. -/
def item (ctx : Context) (d : Descent) (current status : DatetimeStatus) :
    Item ByteArray Link Link → Walked
  | .root => return (status, false)
  | .current => return (current, false)
  | .unary .filter a => do
    let (_, found) ← operand ctx d status false (return (.nonDatetime, false)) a
    return (status, found)
  | .unary _ a => do
    let (_, found) ← operand ctx d current false (return (.nonDatetime, false)) a
    return (status, found)
  | .var s => do
    let name ← Print.legible .text s
    return (((ctx.bindings.get? name).map .ofVarType).getD status, false)
  | .binary op l r => do
    let (left, found) ← operand ctx d current false
      (throw (.fault (.missingOperand (.binary op) .left))) l
    let (right, found) ← operand ctx d current found
      (throw (.fault (.missingOperand (.binary op) .right))) r
    return (status, found || (op.isComparison && left.comparisonIsMutable right))
  | .likeRegex e _ _ => do
    let (_, found) ← operand ctx d current false
      (throw (.fault (.missingOperand .likeRegex .operand))) e
    return (status, found)
  | .indexArray ss => do
    let found ← subscripts ctx d current false 0 ss
    return (ctx.arrayStep status, found)
  | .anyArray => return (ctx.arrayStep status, false)
  | .any l => return (if l.first = 0 then status else .nonDatetime, false)
  | .datetime t => return (← templateStatus t, false)
  | .sequence es => return (.nonDatetime, ← elements ctx d current false es)
  | .array e => do
    let (_, found) ← operand ctx d current false (return (.nonDatetime, false)) e
    return (.nonDatetime, found)
  | .object fs => return (.nonDatetime, ← fields ctx d current false fs)
  | .null | .string _ | .numeric _ | .bool _ | .key _ | .anyKey | .last | .method _ =>
    return (.nonDatetime, false)

/-- The end of a range is walked before its start. -/
def subscripts (ctx : Context) (d : Descent) (current : DatetimeStatus) (found : Bool) (i : Nat) :
    List (Link × Link) → Except ReadError Bool
  | [] => return found
  | (a, b) :: more => do
    a.require (.missingOperand .indexArray (.start i))
    let (_, found) ← operand ctx d current found (return (.nonDatetime, found)) b
    let (_, found) ← operand ctx d current found (return (.nonDatetime, found)) a
    subscripts ctx d current found (i + 1) more

def elements (ctx : Context) (d : Descent) (current : DatetimeStatus) (found : Bool) :
    List Link → Except ReadError Bool
  | [] => return found
  | e :: more => do
    let (_, found) ← operand ctx d current found (return (.nonDatetime, found)) e
    elements ctx d current found more

def fields (ctx : Context) (d : Descent) (current : DatetimeStatus) (found : Bool) :
    List (Link × Link) → Except ReadError Bool
  | [] => return found
  | (k, v) :: more => do
    let (_, found) ← operand ctx d current found (return (.nonDatetime, found)) k
    let (_, found) ← operand ctx d current found (return (.nonDatetime, found)) v
    fields ctx d current found more

end

end Mutability

/-- Whether the chain from this item on is mutable. -/
def Node.isMutable (n : Node) (ctx : Mutability.Context) (limits : Limits) :
    Except ReadError Bool := do
  let (_, found) ← Mutability.items ctx (← Print.enter limits.descent) .nonDatetime .nonDatetime
    false n
  return found

def Buffer.isMutable (b : Buffer) (bindings : Bindings) (limits : Limits) :
    Except ReadError Bool :=
  match b.root with
  | .error f => .error (.fault f)
  | .ok root => root.node.isMutable { bindings, lax := b.header.isLax } limits

end FlatPath
