import FlatPath.Expr
import FlatPath.Json.Reader

/-!
The JSON document of a path: every item is an object with its `kind` and, unless it ends the chain,
the `next` item. Reading is limited in how deep arrays and objects may nest; what is passed over may
nest without limit.
-/

namespace FlatPath

namespace Document

/-- The nesting that a document may have where it is read. -/
def depthLimit : Nat := 127

def named (name : String) (value : Json) : Json :=
  .object [(name, value)]

def optional (value : Option Json) : Json :=
  value.getD .null

def ofItem : Item String Json (Option Json) → Json
  | .null => .string "null"
  | .root => .string "root"
  | .current => .string "current"
  | .last => .string "last"
  | .anyArray => .string "any_array"
  | .anyKey => .string "any_key"
  | .string s => named "string" (.string s)
  | .numeric s => named "numeric" (.string s)
  | .bool b => named "bool" (.bool b)
  | .var s => named "variable" (.string s)
  | .key s => named "key" (.string s)
  | .any l => named "any" (.object [("first", .nat l.first.toNat), ("last", .nat l.last.toNat)])
  | .indexArray ss =>
    named "index_array" (.array (ss.map fun (a, b) =>
      .object (("from", a) :: (b.map fun b => ("to", b)).toList)))
  | .binary op l r =>
    named "binary" (.object [("op", .string op.name), ("left", l), ("right", r)])
  | .unary op a => named "unary" (.object [("op", .string op.name), ("arg", a)])
  | .likeRegex e p f =>
    named "like_regex"
      (.object [("expr", e), ("pattern", .string p), ("flags", .nat f.bits.toNat)])
  | .method m => named "method" (.string m.name)
  | .datetime t => named "datetime" (optional t)
  | .sequence es => named "sequence" (.array es)
  | .array e => named "array" (optional e)
  | .object fs =>
    named "object" (.array (fs.map fun (k, v) => .object [("key", k), ("value", v)]))

/-- A value where null stands for an absent one. -/
def readOptional {α : Type} (read : Json → Option α) : Option Json → Option (Option α)
  | none | some .null => some none
  | some j => (read j).map some

/-- One of several names, as a string or as an object with null for its value. -/
def readName? (depth : Nat) : Json → Option String
  | .string s => some s
  | .object [(s, .null)] => if depth = 0 then none else some s
  | _ => none

def readBinaryOp? (depth : Nat) (j : Json) : Option BinaryOp := do
  let name ← readName? depth j
  BinaryOp.all.find? (·.name == name)

def readUnaryOp? (depth : Nat) (j : Json) : Option UnaryOp := do
  let name ← readName? depth j
  UnaryOp.all.find? (·.name == name)

def readMethod? (depth : Nat) (j : Json) : Option Method := do
  let name ← readName? depth j
  Method.all.find? (·.name == name)

def readLevels? : Nat → Json → Option Levels
  | 0, _ => none
  | _ + 1, j => do
    match ← j.members? ["first", "last"] with
    | [some first, some last] => return ⟨← first.word?, ← last.word?⟩
    | _ => none

def readUnit? : String → Option (Item String Expr (Option Expr))
  | "null" => some .null
  | "root" => some .root
  | "current" => some .current
  | "last" => some .last
  | "any_array" => some .anyArray
  | "any_key" => some .anyKey
  | _ => none

mutual

/-- Reads an expression with `depth` levels of nesting left. -/
def readExpr? : Nat → Json → Option Expr
  | 0, _ => none
  | depth + 1, j => do
    match ← j.members? ["kind", "next"] with
    | [some kind, next] =>
      return .mk (← readItem? depth kind) (← readOptional (readExpr? depth) next)
    | _ => none

def readItem? : Nat → Json → Option (Item String Expr (Option Expr))
  | _, .string name => readUnit? name
  | depth + 1, .object [(name, j)] =>
    match name with
    | "string" => return .string (← j.string?)
    | "numeric" => return .numeric (← j.string?)
    | "bool" => return .bool (← j.bool?)
    | "variable" => return .var (← j.string?)
    | "key" => return .key (← j.string?)
    | "any" => return .any (← readLevels? depth j)
    | "method" => return .method (← readMethod? depth j)
    | "datetime" => return .datetime (← readOptional (readExpr? depth) (some j))
    | "array" => return .array (← readOptional (readExpr? depth) (some j))
    | "index_array" =>
      match depth, j with
      | depth + 1, .array ss => return .indexArray (← ss.mapM (readSubscript? depth))
      | _, _ => none
    | "sequence" =>
      match depth, j with
      | depth + 1, .array es => return .sequence (← es.mapM (readExpr? depth))
      | _, _ => none
    | "object" =>
      match depth, j with
      | depth + 1, .array fs => return .object (← fs.mapM (readField? depth))
      | _, _ => none
    | "binary" =>
      match depth with
      | 0 => none
      | depth + 1 => do
        match ← j.members? ["op", "left", "right"] with
        | [some op, some l, some r] =>
          return .binary (← readBinaryOp? depth op) (← readExpr? depth l) (← readExpr? depth r)
        | _ => none
    | "unary" =>
      match depth with
      | 0 => none
      | depth + 1 => do
        match ← j.members? ["op", "arg"] with
        | [some op, some a] => return .unary (← readUnaryOp? depth op) (← readExpr? depth a)
        | _ => none
    | "like_regex" =>
      match depth with
      | 0 => none
      | depth + 1 => do
        match ← j.members? ["expr", "pattern", "flags"] with
        | [some e, some p, flags] =>
          let bits ← match flags with
            | none => some 0
            | some f => f.word?
          return .likeRegex (← readExpr? depth e) (← p.string?) ⟨bits⟩
        | _ => none
    | name =>
      match j with
      | .null => readUnit? name
      | _ => none
  | _, _ => none

def readSubscript? : Nat → Json → Option (Expr × Option Expr)
  | 0, _ => none
  | depth + 1, j => do
    match ← j.members? ["from", "to"] with
    | [some a, b] => return (← readExpr? depth a, ← readOptional (readExpr? depth) b)
    | _ => none

def readField? : Nat → Json → Option (Expr × Expr)
  | 0, _ => none
  | depth + 1, j => do
    match ← j.members? ["key", "value"] with
    | [some k, some v] => return (← readExpr? depth k, ← readExpr? depth v)
    | _ => none

end

/-- A flag that takes its default where it is left out. -/
def readFlag? (default : Bool) : Option Json → Option Bool
  | none => some default
  | some j => j.bool?

end Document

def Expr.toJson (e : Expr) : Json :=
  e.fold fun item next =>
    .object (("kind", Document.ofItem item) :: (next.map fun n => ("next", n)).toList)

namespace Path

def toJson (p : Path) : Json :=
  .object [("expr", p.expr.toJson), ("lax", .bool p.lax), ("ext", .bool p.extensions)]

/-- Reads the value of a document with `depth` levels of nesting allowed. -/
def ofJson? (depth : Nat) (j : Json) : Option Path :=
  match depth with
  | 0 => none
  | depth + 1 => do
    match ← j.members? ["expr", "lax", "ext"] with
    | [some e, lax, ext] =>
      return {
        expr := ← Document.readExpr? depth e
        lax := ← Document.readFlag? true lax
        extensions := ← Document.readFlag? false ext }
    | _ => none

def ofDocument? (bytes : ByteArray) : Option Path := do
  ofJson? Document.depthLimit (← Json.read? bytes)

end Path

end FlatPath
