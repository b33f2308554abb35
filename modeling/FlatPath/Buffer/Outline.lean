import FlatPath.Print

/-!
The layout of a buffer for people: one line for each item in buffer order, with its position, name
and inline content, the positions its slots lead to and, after an arrow, that of the next item.
-/

namespace FlatPath

/-- The escape codes that color an outline. -/
structure Palette where
  name : String
  content : String
  position : String
  reset : String

namespace Palette

def plain : Palette := ⟨"", "", "", ""⟩

/-- Standard codes: names blue, contents green, positions dim. -/
def standard : Palette := ⟨"\x1b[34m", "\x1b[32m", "\x1b[2m", "\x1b[0m"⟩

def ofBool (colored : Bool) : Palette :=
  if colored then standard else plain

def paintName (p : Palette) (s : String) : String := p.name ++ s ++ p.reset

def paintContent (p : Palette) (s : String) : String := p.content ++ s ++ p.reset

def paintPosition (p : Palette) (s : String) : String := p.position ++ s ++ p.reset

end Palette

/-- The item with all it leads to: operands in slot order, each with what it leads to, then the rest
of the chain. -/
def Cursor.preorder (c : Cursor) : Except Fault (List Cursor) := do
  let below (offset : UInt32) : Except Fault (List Cursor) :=
    if _h0 : offset = 0 then .ok []
    else
      match _h : Cursor.decode c.payload (c.position + offset.toNat) with
      | .ok child => child.preorder
      | .error e => .error (.corrupt e)
  let operands ← c.slots.mapM fun slot => below slot.content
  let rest ← below c.nextOffset
  return c :: (operands.flatten ++ rest)
termination_by c.payload.size - c.position
decreasing_by
  obtain ⟨hp, hi⟩ := Cursor.decode_eq_ok _h
  have := c.inside
  have := Bytes.toNat_pos _h0
  rw [hp, hi]; omega

namespace Outline

/-- A number with zeros in front up to the width. -/
def padded (width n : Nat) : String :=
  let digits := toString n
  String.ofList (List.replicate (width - digits.length) '0') ++ digits

def levelText (v : UInt32) : String :=
  if v = Levels.deepest then "last" else toString v.toNat

/-- What an item holds besides its links. -/
def content : Record → Except Fault String
  | .string s | .key s | .var s => return quoted (← decodeText .text s)
  | .numeric s => decodeText .numeric s
  | .bool b => return if b then "true" else "false"
  | .likeRegex _ p f => return quoted (← decodeText .pattern p) ++ f.suffix
  | .any l =>
    return "\x7b" ++ levelText l.first
      ++ (if l.first = l.last then "" else " to " ++ levelText l.last) ++ "\x7d"
  | .indexArray ss => return "[" ++ toString ss.length ++ "]"
  | .sequence es => return "[" ++ toString es.length ++ "]"
  | .object fs => return "[" ++ toString fs.length ++ "]"
  | .null | .root | .current | .last | .anyArray | .anyKey | .method _ | .binary _ _ _ | .unary _ _
  | .datetime _ | .array _ => return ""

def slotText (palette : Palette) (width : Nat) (position : Nat) (slot : Slot UInt32) : String :=
  if slot.content = 0 then ""
  else
    " " ++ slot.role.name ++ "@"
      ++ palette.paintPosition (padded width (position + slot.content.toNat))

def line (palette : Palette) (width : Nat) (c : Cursor) : Except Fault String := do
  let content ← content c.record
  let head := palette.paintPosition (padded width c.position) ++ "  "
    ++ palette.paintName c.kind.name
  let content := if content.isEmpty then "" else " " ++ palette.paintContent content
  let slots := String.join (c.slots.map (slotText palette width c.position))
  let next :=
    if c.hasNext then
      " -> " ++ palette.paintPosition (padded width (c.position + c.nextOffset.toNat))
    else ""
  return head ++ content ++ slots ++ next ++ "\n"

end Outline

/-- The items that can be reached from the first one, in the order of their positions. -/
def Buffer.items (b : Buffer) : Except Fault (List Cursor) := do
  let items ← (← b.root).preorder
  return items.mergeSort fun x y => x.position ≤ y.position

def Buffer.outline (b : Buffer) (palette : Palette) : Except Fault String := do
  let width := max 4 (toString b.payload.size).length
  let lines ← (← b.items).mapM (Outline.line palette width)
  return palette.paintPosition "[header]" ++ "\n"
    ++ "version = " ++ toString b.header.version.toNat ++ "\n"
    ++ "mode = " ++ (if b.header.isLax then "lax" else "strict") ++ "\n"
    ++ "extensions = " ++ (if b.header.hasExtensions then "true" else "false") ++ "\n\n"
    ++ palette.paintPosition "[items]" ++ "\n"
    ++ String.join lines

end FlatPath
