import FlatPath.Text.Quoted

/-!
JSON values, with members in document order and numbers as they are spelled, and their compact
text.
-/

namespace FlatPath

inductive Json
  | null
  | bool (value : Bool)
  | number (literal : String)
  | string (text : String)
  /-- A string, or an object with a key, whose bytes or escapes spell no text. It can only be
  passed over. -/
  | garbled
  | array (elements : List Json)
  | object (members : List (String × Json))
deriving Inhabited

namespace Json

def nat (n : Nat) : Json :=
  number (toString n)

mutual

/-- The text without white space. -/
def compact : Json → String
  | null => "null"
  | bool b => if b then "true" else "false"
  | number literal => literal
  | string s => quoted s
  | garbled => "\"\""
  | array es => "[" ++ compactElements es ++ "]"
  | object ms => "\x7b" ++ compactMembers ms ++ "\x7d"

def compactElements : List Json → String
  | [] => ""
  | [e] => compact e
  | e :: rest => compact e ++ "," ++ compactElements rest

def compactMembers : List (String × Json) → String
  | [] => ""
  | [(k, v)] => quoted k ++ ":" ++ compact v
  | (k, v) :: rest => quoted k ++ ":" ++ compact v ++ "," ++ compactMembers rest

end

/-- The value of a number spelled with digits alone. -/
def natural? : Json → Option Nat
  | number literal =>
    let cs := literal.toList
    if cs.all Char.isDigit && !cs.isEmpty then
      some (cs.foldl (fun n c => n * 10 + (c.toNat - 48)) 0)
    else none
  | _ => none

def word? (j : Json) : Option UInt32 := do
  let n ← j.natural?
  if n < UInt32.size then some (.ofNat n) else none

def bool? : Json → Option Bool
  | bool b => some b
  | _ => none

def string? : Json → Option String
  | string s => some s
  | _ => none

/-- The values of the named members, of an object or of an array that lists them in this order.
Other members of an object are passed over; a named one may not occur twice, and an array may not
be longer than the names. -/
def members? (names : List String) : Json → Option (List (Option Json))
  | object ms =>
    if names.all fun n => (ms.filter fun (k, _) => k == n).length ≤ 1 then
      some (names.map fun n => ms.lookup n)
    else none
  | array es =>
    if es.length ≤ names.length then
      some (es.map some ++ List.replicate (names.length - es.length) none)
    else none
  | _ => none

end Json

end FlatPath
