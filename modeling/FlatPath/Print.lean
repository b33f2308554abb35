import FlatPath.Buffer.Tree
import FlatPath.Text.Quoted

/-!
The canonical text of a path. Texts are always quoted; an operand stands in parentheses when it
binds no tighter than the operator it belongs to, so equal priorities are parenthesised on both
sides and `1 + 2 + 3` comes out as `((1 + 2) + 3)`.
-/

namespace FlatPath

/-- Binding strength, loosest first. -/
def Kind.priority : Kind → Nat
  | .sequence => 0
  | .binary .or => 1
  | .binary .and => 2
  | .binary .equal | .binary .notEqual | .binary .less | .binary .greater | .binary .lessOrEqual
  | .binary .greaterOrEqual | .binary .startsWith => 3
  | .binary .add | .binary .sub => 4
  | .binary .mul | .binary .div | .binary .mod => 5
  | .unary .plus | .unary .minus => 6
  | _ => 7

def Levels.text (l : Levels) : String :=
  if l = .unbounded then "**"
  else if l.first = Levels.deepest ∧ l.last = Levels.deepest then "**\x7blast\x7d"
  else if l.first = l.last then "**\x7b" ++ toString l.first.toNat ++ "\x7d"
  else if l.first = Levels.deepest then "**\x7blast to " ++ toString l.last.toNat ++ "\x7d"
  else if l.last = Levels.deepest then "**\x7b" ++ toString l.first.toNat ++ " to last\x7d"
  else "**\x7b" ++ toString l.first.toNat ++ " to " ++ toString l.last.toNat ++ "\x7d"

/-- The flags as a suffix of the pattern. -/
def RegexFlags.suffix (f : RegexFlags) : String :=
  if f.isEmpty then "" else " flag \"" ++ f.letters ++ "\""

namespace Print

abbrev Printed := Except ReadError String

def enter (d : Descent) : Except ReadError Descent :=
  match d.enter with
  | .ok d => .ok d
  | .error e => .error (.limit e)

def legible (script : Script) (bytes : ByteArray) : Printed :=
  match decodeText script bytes with
  | .ok s => .ok s
  | .error f => .error (.fault f)

def parens (wanted : Bool) (s : String) : String :=
  if wanted then "(" ++ s ++ ")" else s

/-- Keys and wildcards take a dot inside a chain. -/
def dotted (inKey : Bool) (s : String) : String :=
  if inKey then "." ++ s else s

mutual

/-- An item and the rest of its chain. -/
def items (d : Descent) (inKey brackets : Bool) : Node → Printed
  | .mk x next => do
    let head ← item d inKey brackets (!next.isAbsent) x
    return head ++ (← rest d next)

/-- What follows an item stands in key context. -/
def rest (d : Descent) : Link → Printed
  | .absent => return ""
  | .broken e => throw (.fault (.corrupt e))
  | .found n => items d true true (n ())

/-- An operand, which is a chain of its own. -/
def operand (d : Descent) (brackets : Kind → Bool) (missing : Printed) : Link → Printed
  | .absent => missing
  | .broken e => throw (.fault (.corrupt e))
  | .found n => do
    let n := n ()
    items (← enter d) false (brackets n.kind) n

def item (d : Descent) (inKey brackets hasNext : Bool) : Item ByteArray Link Link → Printed
  | .null => return "null"
  | .key s => return dotted inKey (quoted (← legible .text s))
  | .string s => return quoted (← legible .text s)
  | .var s => return "$" ++ quoted (← legible .text s)
  | .numeric s => return parens hasNext (← legible .numeric s)
  | .bool b => return if b then "true" else "false"
  | .binary op l r => do
    let l ← operand d (·.priority ≤ (Kind.binary op).priority)
      (throw (.fault (.missingOperand (.binary op) .left))) l
    let r ← operand d (·.priority ≤ (Kind.binary op).priority)
      (throw (.fault (.missingOperand (.binary op) .right))) r
    return parens brackets (l ++ " " ++ op.symbol ++ " " ++ r)
  | .likeRegex e p f => do
    let e ← operand d (·.priority ≤ Kind.likeRegex.priority)
      (throw (.fault (.missingOperand .likeRegex .operand))) e
    let p ← legible .pattern p
    return parens brackets (e ++ " like_regex " ++ quoted p ++ f.suffix)
  | .unary .plus a => do
    let a ← operand d (·.priority ≤ (Kind.unary .plus).priority)
      (throw (.fault (.missingArgument (.unary .plus)))) a
    return parens brackets ("+" ++ a)
  | .unary .minus a => do
    let a ← operand d (·.priority ≤ (Kind.unary .minus).priority)
      (throw (.fault (.missingArgument (.unary .minus)))) a
    return parens brackets ("-" ++ a)
  | .unary .filter a => do
    let a ← operand d (fun _ => false) (throw (.fault (.missingArgument (.unary .filter)))) a
    return "?(" ++ a ++ ")"
  | .unary .not a => do
    let a ← operand d (fun _ => false) (throw (.fault (.missingArgument (.unary .not)))) a
    return "!(" ++ a ++ ")"
  | .unary .isUnknown a => do
    let a ← operand d (fun _ => false) (throw (.fault (.missingArgument (.unary .isUnknown)))) a
    return "(" ++ a ++ ") is unknown"
  | .unary .exists a => do
    let a ← operand d (fun _ => false) (throw (.fault (.missingArgument (.unary .exists)))) a
    return "exists (" ++ a ++ ")"
  | .current => return "@"
  | .root => return "$"
  | .last => return "last"
  | .anyArray => return "[*]"
  | .anyKey => return dotted inKey "*"
  | .any l => return dotted inKey l.text
  | .indexArray ss => return "[" ++ (← subscripts d 0 ss) ++ "]"
  | .method m => return "." ++ m.symbol ++ "()"
  | .datetime t => return ".datetime(" ++ (← operand d (fun _ => false) (return "") t) ++ ")"
  | .sequence es => return parens (brackets || hasNext) (← elements d 0 es)
  | .array e => return "[" ++ (← operand d (fun _ => false) (return "") e) ++ "]"
  | .object fs => return "\x7b" ++ (← fields d 0 fs) ++ "\x7d"

/-- Subscripts from number `i` on. Both ends of a range are looked up before either is printed. -/
def subscripts (d : Descent) (i : Nat) : List (Link × Link) → Printed
  | [] => return ""
  | (a, b) :: more => do
    a.require (.missingOperand .indexArray (.start i))
    b.probe
    let a ← operand d (· == .sequence) (return "") a
    let hasStop := !b.isAbsent
    let b ← operand d (· == .sequence) (return "") b
    let more ← subscripts d (i + 1) more
    return (if i = 0 then "" else ",") ++ a ++ (if hasStop then " to " ++ b else "") ++ more

def elements (d : Descent) (i : Nat) : List Link → Printed
  | [] => return ""
  | e :: more => do
    let e ← operand d (· == .sequence) (throw (.fault (.missingOperand .sequence (.element i)))) e
    let more ← elements d (i + 1) more
    return (if i = 0 then "" else ", ") ++ e ++ more

/-- Fields from number `i` on. Key and value are looked up before either is printed. -/
def fields (d : Descent) (i : Nat) : List (Link × Link) → Printed
  | [] => return ""
  | (k, v) :: more => do
    k.require (.missingOperand .object (.key i))
    v.require (.missingOperand .object (.value i))
    let k ← operand d (fun _ => false) (return "") k
    let v ← operand d (· == .sequence) (return "") v
    let more ← fields d (i + 1) more
    return (if i = 0 then "" else ", ") ++ k ++ ": " ++ v ++ more

end

end Print

/-- The text of the chain from this item on, as the body of a path. -/
def Node.print (n : Node) (limits : Limits) : Print.Printed := do
  Print.items (← Print.enter limits.descent) false (n.kind != .sequence) n

/-- The text of a whole path, with the modifiers for its modes in front. -/
def Buffer.print (b : Buffer) (limits : Limits) : Print.Printed :=
  match b.root with
  | .error f => .error (.fault f)
  | .ok root => do
    let body ← root.node.print limits
    return (if b.header.hasExtensions then "pg " else "")
      ++ (if b.header.isLax then "" else "strict ") ++ body

end FlatPath
