/-!
The kinds of item a path is made of: operators, methods, accessors, literals and constructors,
with the tag each kind has in a buffer and the names it goes by. Tags are part of the format;
`Kind.ofTag?` and `Kind.tag` are inverse to each other.
-/

namespace FlatPath

inductive BinaryOp
  | and | or
  | equal | notEqual | less | greater | lessOrEqual | greaterOrEqual
  | add | sub | mul | div | mod
  | startsWith
deriving DecidableEq, Inhabited

inductive UnaryOp
  | not | isUnknown | exists | plus | minus | filter
deriving DecidableEq, Inhabited

/-- Item methods without an argument. -/
inductive Method
  | type | size | abs | floor | ceiling | double | keyValue
deriving DecidableEq, Inhabited

inductive Kind
  | null | string | numeric | bool
  | binary (op : BinaryOp)
  | unary (op : UnaryOp)
  | anyArray | anyKey | indexArray | any | key
  | current | root | var
  | method (m : Method)
  | datetime | last | likeRegex
  | sequence | array | object
deriving DecidableEq, Inhabited

/-- What follows the next slot of an item. -/
inductive Shape
  | leaf | text | numeric | bool | binary | unary | likeRegex | indexArray | any | sequence | object
deriving DecidableEq

namespace BinaryOp

def all : List BinaryOp :=
  [.and, .or, .equal, .notEqual, .less, .greater, .lessOrEqual, .greaterOrEqual, .add, .sub,
    .mul, .div, .mod, .startsWith]

def name : BinaryOp → String
  | .and => "and"
  | .or => "or"
  | .equal => "equal"
  | .notEqual => "not_equal"
  | .less => "less"
  | .greater => "greater"
  | .lessOrEqual => "less_or_equal"
  | .greaterOrEqual => "greater_or_equal"
  | .add => "add"
  | .sub => "sub"
  | .mul => "mul"
  | .div => "div"
  | .mod => "mod"
  | .startsWith => "starts_with"

/-- The spelling in path text. -/
def symbol : BinaryOp → String
  | .and => "&&"
  | .or => "||"
  | .equal => "=="
  | .notEqual => "!="
  | .less => "<"
  | .greater => ">"
  | .lessOrEqual => "<="
  | .greaterOrEqual => ">="
  | .add => "+"
  | .sub => "-"
  | .mul => "*"
  | .div => "/"
  | .mod => "%"
  | .startsWith => "starts with"

/-- The operators that compare two values, date and time values among them. -/
def isComparison : BinaryOp → Bool
  | .equal | .notEqual | .less | .greater | .lessOrEqual | .greaterOrEqual => true
  | .and | .or | .add | .sub | .mul | .div | .mod | .startsWith => false

end BinaryOp

namespace UnaryOp

def all : List UnaryOp :=
  [.not, .isUnknown, .exists, .plus, .minus, .filter]

def name : UnaryOp → String
  | .not => "not"
  | .isUnknown => "is_unknown"
  | .exists => "exists"
  | .plus => "plus"
  | .minus => "minus"
  | .filter => "filter"

end UnaryOp

namespace Method

def all : List Method :=
  [.type, .size, .abs, .floor, .ceiling, .double, .keyValue]

/-- The name in an expression document. -/
def name : Method → String
  | .type => "type"
  | .size => "size"
  | .abs => "abs"
  | .floor => "floor"
  | .ceiling => "ceiling"
  | .double => "double"
  | .keyValue => "key_value"

/-- The spelling in path text. -/
def symbol : Method → String
  | .type => "type"
  | .size => "size"
  | .abs => "abs"
  | .floor => "floor"
  | .ceiling => "ceiling"
  | .double => "double"
  | .keyValue => "keyvalue"

end Method

namespace Kind

/-- Every kind, in the order of the tags. -/
def all : List Kind :=
  [.null, .string, .numeric, .bool, .binary .and, .binary .or, .unary .not, .unary .isUnknown,
    .binary .equal, .binary .notEqual, .binary .less, .binary .greater, .binary .lessOrEqual,
    .binary .greaterOrEqual, .binary .add, .binary .sub, .binary .mul, .binary .div, .binary .mod,
    .unary .plus, .unary .minus, .anyArray, .anyKey, .indexArray, .any, .key, .current, .root,
    .var, .unary .filter, .unary .exists, .method .type, .method .size, .method .abs,
    .method .floor, .method .ceiling, .method .double, .datetime, .method .keyValue, .last,
    .binary .startsWith, .likeRegex, .sequence, .array, .object]

def ofTag? (tag : UInt8) : Option Kind :=
  all[tag.toNat]?

def tag : Kind → UInt8
  | .null => 0
  | .string => 1
  | .numeric => 2
  | .bool => 3
  | .binary .and => 4
  | .binary .or => 5
  | .unary .not => 6
  | .unary .isUnknown => 7
  | .binary .equal => 8
  | .binary .notEqual => 9
  | .binary .less => 10
  | .binary .greater => 11
  | .binary .lessOrEqual => 12
  | .binary .greaterOrEqual => 13
  | .binary .add => 14
  | .binary .sub => 15
  | .binary .mul => 16
  | .binary .div => 17
  | .binary .mod => 18
  | .unary .plus => 19
  | .unary .minus => 20
  | .anyArray => 21
  | .anyKey => 22
  | .indexArray => 23
  | .any => 24
  | .key => 25
  | .current => 26
  | .root => 27
  | .var => 28
  | .unary .filter => 29
  | .unary .exists => 30
  | .method .type => 31
  | .method .size => 32
  | .method .abs => 33
  | .method .floor => 34
  | .method .ceiling => 35
  | .method .double => 36
  | .datetime => 37
  | .method .keyValue => 38
  | .last => 39
  | .binary .startsWith => 40
  | .likeRegex => 41
  | .sequence => 42
  | .array => 43
  | .object => 44

theorem ofTag?_tag (k : Kind) : ofTag? k.tag = some k := by
  cases k with
  | binary op => cases op <;> rfl
  | unary op => cases op <;> rfl
  | method m => cases m <;> rfl
  | _ => rfl

private theorem tag_getElem_all : ∀ n : Fin all.length, all[n].tag.toNat = n.val := by decide

theorem tag_of_ofTag? {t : UInt8} {k : Kind} (h : ofTag? t = some k) : k.tag = t := by
  obtain ⟨hlt, hk⟩ := List.getElem?_eq_some_iff.1 h
  have := tag_getElem_all ⟨t.toNat, hlt⟩
  exact UInt8.toNat_inj.1 (by simpa [hk] using this)

def shape : Kind → Shape
  | .null | .current | .root | .last | .anyArray | .anyKey | .method _ => .leaf
  | .string | .key | .var => .text
  | .numeric => .numeric
  | .bool => .bool
  | .binary _ => .binary
  | .unary _ | .datetime | .array => .unary
  | .likeRegex => .likeRegex
  | .indexArray => .indexArray
  | .any => .any
  | .sequence => .sequence
  | .object => .object

/-- The argument slot of these kinds is never empty. -/
def requiresArgument : Kind → Bool
  | .unary _ => true
  | _ => false

/-- The constructors that only the extended syntax has. -/
def isExtension : Kind → Bool
  | .sequence | .array | .object => true
  | _ => false

/-- The name in a dump. -/
def name : Kind → String
  | .null => "null"
  | .string => "string"
  | .numeric => "numeric"
  | .bool => "bool"
  | .binary op => op.name
  | .unary op => op.name
  | .anyArray => "any_array"
  | .anyKey => "any_key"
  | .indexArray => "index_array"
  | .any => "any"
  | .key => "key"
  | .current => "current"
  | .root => "root"
  | .var => "variable"
  | .method m => m.symbol
  | .datetime => "datetime"
  | .last => "last"
  | .likeRegex => "like_regex"
  | .sequence => "sequence"
  | .array => "array"
  | .object => "object"

/-- The name in a report on a misread item: capitalised words, run together. -/
def title : Kind → String
  | .null => "Null"
  | .string => "String"
  | .numeric => "Numeric"
  | .bool => "Bool"
  | .binary .and => "And"
  | .binary .or => "Or"
  | .binary .equal => "Equal"
  | .binary .notEqual => "NotEqual"
  | .binary .less => "Less"
  | .binary .greater => "Greater"
  | .binary .lessOrEqual => "LessOrEqual"
  | .binary .greaterOrEqual => "GreaterOrEqual"
  | .binary .add => "Add"
  | .binary .sub => "Sub"
  | .binary .mul => "Mul"
  | .binary .div => "Div"
  | .binary .mod => "Mod"
  | .binary .startsWith => "StartsWith"
  | .unary .not => "Not"
  | .unary .isUnknown => "IsUnknown"
  | .unary .exists => "Exists"
  | .unary .plus => "Plus"
  | .unary .minus => "Minus"
  | .unary .filter => "Filter"
  | .anyArray => "AnyArray"
  | .anyKey => "AnyKey"
  | .indexArray => "IndexArray"
  | .any => "Any"
  | .key => "Key"
  | .current => "Current"
  | .root => "Root"
  | .var => "Variable"
  | .method .type => "Type"
  | .method .size => "Size"
  | .method .abs => "Abs"
  | .method .floor => "Floor"
  | .method .ceiling => "Ceiling"
  | .method .double => "Double"
  | .method .keyValue => "KeyValue"
  | .datetime => "Datetime"
  | .last => "Last"
  | .likeRegex => "LikeRegex"
  | .sequence => "Sequence"
  | .array => "Array"
  | .object => "Object"

/-- The spelling in path text of the kinds that are written as a word or a sign. -/
def symbol? : Kind → Option String
  | .binary op => some op.symbol
  | .unary .plus => some "+"
  | .unary .minus => some "-"
  | .likeRegex => some "like_regex"
  | .method m => some m.symbol
  | .datetime => some "datetime"
  | _ => none

end Kind

/-- The name of a shape, capitalised like the title of a kind. -/
def Shape.title : Shape → String
  | .leaf => "Leaf"
  | .text => "Text"
  | .numeric => "Numeric"
  | .bool => "Bool"
  | .binary => "Binary"
  | .unary => "Unary"
  | .likeRegex => "LikeRegex"
  | .indexArray => "IndexArray"
  | .any => "Any"
  | .sequence => "Sequence"
  | .object => "Object"

end FlatPath
