import FlatPath.Buffer.Cursor
import FlatPath.Buffer.Scope

/-!
The check of an untrusted buffer. The walk decodes the items that can be reached from the first
one and marks them; a second way to a marked item refuses the buffer, so the items form a tree and
the walk takes no more steps than there are bytes. What was marked is known after a refusal too.
-/

namespace FlatPath

namespace Verify

structure Marks where
  seen : Array Bool
  decoded : Nat := 0

abbrev Verifier := ExceptT FormatError (StateM Marks)

def enter (d : Descent) : Verifier Descent :=
  match d.enter with
  | .ok d => return d
  | .error e => throw (.limit e)

/-- Marks a position that was not marked before. -/
def mark (position : Nat) : Verifier Unit := do
  match (← get).seen[position]? with
  | none => throw (.corrupt position .itemOutOfBounds)
  | some true => throw (.corrupt position .repeatedItem)
  | some false =>
    modify fun m => { seen := m.seen.set! position true, decoded := m.decoded + 1 }

/-- What is wrong with the texts of an item. -/
def textDefect : Record → Option Defect
  | .string s | .key s | .var s => if s.validateUTF8 then none else some .illegibleString
  | .numeric s =>
    if s.isEmpty then some .emptyNumeric
    else if s.validateUTF8 then none
    else some .illegibleNumeric
  | .likeRegex _ p _ => if p.validateUTF8 then none else some .illegiblePattern
  | _ => none

/-- What is wrong with an item of this kind standing in this scope. -/
def scopeDefect (extensions : Bool) (scope : Scope) (kind : Kind) : Option Defect :=
  if kind = .current ∧ scope.filters = 0 then some .currentOutsideFilter
  else if kind = .last ∧ scope.subscript = false then some .lastOutsideSubscript
  else if kind.isExtension ∧ extensions = false then some .constructorWithoutExtensions
  else none

/-- What is wrong with an offset, read as a signed word, from the item at `position`. -/
def offsetDefect (payload : ByteArray) (position : Nat) (offset : UInt32) : Option Defect :=
  if maxSize < offset.toNat then some .negativeOffset
  else if position + offset.toNat < payload.size then none
  else some .offsetOutOfBounds

def refuse (position : Nat) : Option Defect → Verifier Unit
  | none => return ()
  | some defect => throw (.corrupt position defect)

/-- Decodes an item that is met for the first time. -/
def visit (payload : ByteArray) (position : Nat) : Verifier Cursor := do
  mark position
  let item ← Cursor.decode payload position
  refuse position (textDefect item.record)
  return item

/-- From the item at a position to the end of its chain, operands first. -/
def items (payload : ByteArray) (extensions : Bool) (d : Descent) (scope : Scope)
    (position : Nat) : Verifier Unit :=
  if _inside : position < payload.size then do
    let item ← visit payload position
    refuse position (scopeDefect extensions scope item.kind)
    item.slots.forM fun slot =>
      if _present : slot.content = 0 then
        refuse position (if slot.required then some .missingOperand else none)
      else do
        refuse position (offsetDefect payload position slot.content)
        items payload extensions (← enter d) (scope.operand item.kind slot.role)
          (position + slot.content.toNat)
    if _present : item.nextOffset = 0 then
      return ()
    else do
      refuse position (offsetDefect payload position item.nextOffset)
      items payload extensions d scope (position + item.nextOffset.toNat)
  else
    throw (.corrupt position .itemOutOfBounds)
termination_by payload.size - position
decreasing_by
  all_goals
    have := Bytes.toNat_pos _present
    omega

/-- The outcome of the check together with the marks it left. -/
def run (payload : ByteArray) (extensions : Bool) (limits : Limits) :
    Except FormatError Unit × Marks :=
  (do items payload extensions (← enter limits.descent) .top 0 : Verifier Unit).run.run
    { seen := .replicate payload.size false }

end Verify

/-- Checks the items of a payload. -/
def verify (payload : ByteArray) (extensions : Bool) (limits : Limits) : Except FormatError Unit :=
  (Verify.run payload extensions limits).1

/-- Opens an untrusted buffer. -/
def Buffer.load (bytes : ByteArray) (limits : Limits) : Except FormatError Buffer := do
  let header ← Header.read bytes
  let payload := bytes.extract Header.size bytes.size
  verify payload header.hasExtensions limits
  return { header, payload }

end FlatPath
