import FlatPath.Buffer.Cursor

/-!
The tree that a reader finds below a cursor. A link that leads nowhere readable is kept as such, and
one that leads to an item holds it back until the reader asks: several links may lead to one item in
a buffer nobody verified, so the whole tree can be far larger than the buffer.
-/

namespace FlatPath

mutual

inductive Node
  | mk (item : Item ByteArray Link Link) (next : Link)

inductive Link
  | absent
  | broken (error : FormatError)
  | found (node : Unit → Node)

end

namespace Node

def item : Node → Item ByteArray Link Link
  | mk item _ => item

def next : Node → Link
  | mk _ next => next

def kind (n : Node) : Kind :=
  n.item.kind

end Node

namespace Link

def isAbsent : Link → Bool
  | absent => true
  | broken _ | found _ => false

/-- An operand that has to be there is there and can be read. -/
def require (missing : Fault) : Link → Except ReadError Unit
  | absent => .error (.fault missing)
  | broken e => .error (.fault (.corrupt e))
  | found _ => .ok ()

/-- An operand that may be absent can be read if it is there. -/
def probe : Link → Except ReadError Unit
  | absent | found _ => .ok ()
  | broken e => .error (.fault (.corrupt e))

end Link

/-- The item under the cursor with all it leads to. -/
def Cursor.node (c : Cursor) : Node :=
  let link (offset : UInt32) : Link :=
    if _h0 : offset = 0 then .absent
    else
      match _h : Cursor.decode c.payload (c.position + offset.toNat) with
      | .ok child => .found fun _ => child.node
      | .error e => .broken e
  .mk (c.record.map id link link) (link c.nextOffset)
termination_by c.payload.size - c.position
decreasing_by
  obtain ⟨hp, hi⟩ := Cursor.decode_eq_ok _h
  have := c.inside
  have := Bytes.toNat_pos _h0
  rw [hp, hi]; omega

/-- The first item of the path. -/
def Buffer.root (b : Buffer) : Except Fault Cursor :=
  match Cursor.decode b.payload 0 with
  | .ok c => .ok c
  | .error e => .error (.corrupt e)

end FlatPath
