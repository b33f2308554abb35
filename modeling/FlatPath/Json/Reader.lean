import FlatPath.Json.Token

/-!
From the tokens of a document to its value. The containers part way through are held on a stack,
so nesting may be as deep as the document is long.
-/

namespace FlatPath.Json

/-- A container part way through, what it holds so far in reverse. -/
inductive Frame
  | array (done : List Json)
  | object (done : List (Option String × Json)) (key : Option String)

/-- The object with these members, whose keys all have to be texts. -/
def ofMembers (members : List (Option String × Json)) : Json :=
  match members.mapM fun (k, v) => k.map fun k => (k, v) with
  | some ms => .object ms
  | none => .garbled

/-- Reads on, with a value just completed or a value due. -/
def build (completed : Option Json) (stack : List Frame) : List Token → Option Json
  | [] =>
    match completed, stack with
    | some v, [] => some v
    | _, _ => none
  | t :: rest =>
    match completed, stack, t, rest with
    | none, stack, .openBracket, .closeBracket :: rest => build (some (.array [])) stack rest
    | none, stack, .openBracket, rest => build none (.array [] :: stack) rest
    | none, stack, .openBrace, .closeBrace :: rest => build (some (.object [])) stack rest
    | none, stack, .openBrace, .string k :: .colon :: rest =>
      build none (.object [] k :: stack) rest
    | none, stack, .null, rest => build (some .null) stack rest
    | none, stack, .bool b, rest => build (some (.bool b)) stack rest
    | none, stack, .number n, rest => build (some (.number n)) stack rest
    | none, stack, .string (some s), rest => build (some (.string s)) stack rest
    | none, stack, .string none, rest => build (some .garbled) stack rest
    | some v, .array done :: stack, .comma, rest => build none (.array (v :: done) :: stack) rest
    | some v, .array done :: stack, .closeBracket, rest =>
      build (some (.array (v :: done).reverse)) stack rest
    | some v, .object done k :: stack, .comma, .string k' :: .colon :: rest =>
      build none (.object ((k, v) :: done) k' :: stack) rest
    | some v, .object done k :: stack, .closeBrace, rest =>
      build (some (ofMembers ((k, v) :: done).reverse)) stack rest
    | _, _, _, _ => none

/-- The value of a document, which is nothing but white space around it. -/
def read? (bytes : ByteArray) : Option Json := do
  build none [] (← Token.scan [] bytes.data.toList)

end FlatPath.Json
