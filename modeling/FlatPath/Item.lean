import FlatPath.Kind
import FlatPath.Pattern.Flags

/-!
One item of a path, over the type of its texts, of its required operands and of its optional
operands. An expression, a decoded record and a tree of records are all built from it; `slots`
lists the operands of any of them in the order a buffer keeps them.
-/

namespace FlatPath

/-- The levels that `**` descends to. -/
structure Levels where
  first : UInt32
  last : UInt32
deriving DecidableEq, Inhabited

namespace Levels

/-- In either bound, the deepest level there is. -/
def deepest : UInt32 := 4294967295

/-- Every level. -/
def unbounded : Levels := ⟨0, deepest⟩

end Levels

/-- Which operand of its item a slot is for. -/
inductive Role
  | left | right
  | argument
  | operand
  | start (i : Nat) | stop (i : Nat)
  | element (i : Nat)
  | key (i : Nat) | value (i : Nat)
deriving DecidableEq, Inhabited

def Role.name : Role → String
  | .left => "left"
  | .right => "right"
  | .argument => "arg"
  | .operand => "expr"
  | .start i => "from" ++ toString i
  | .stop i => "to" ++ toString i
  | .element i => "elem" ++ toString i
  | .key i => "key" ++ toString i
  | .value i => "value" ++ toString i

structure Slot (σ : Type) where
  role : Role
  required : Bool
  content : σ
deriving DecidableEq

inductive Item (τ ρ ο : Type)
  | null
  | string (text : τ)
  | numeric (digits : τ)
  | bool (value : Bool)
  | var (name : τ)
  | key (name : τ)
  | root | current | last | anyArray | anyKey
  | any (levels : Levels)
  | indexArray (subscripts : List (ρ × ο))
  | binary (op : BinaryOp) (left right : ρ)
  | unary (op : UnaryOp) (argument : ρ)
  | likeRegex (operand : ρ) (pattern : τ) (flags : RegexFlags)
  | method (m : Method)
  | datetime (template : ο)
  | sequence (elements : List ρ)
  | array (element : ο)
  | object (fields : List (ρ × ρ))
deriving DecidableEq, Inhabited

namespace Item

variable {τ τ' ρ ρ' ο ο' σ : Type}

def kind : Item τ ρ ο → Kind
  | null => .null
  | string _ => .string
  | numeric _ => .numeric
  | bool _ => .bool
  | var _ => .var
  | key _ => .key
  | root => .root
  | current => .current
  | last => .last
  | anyArray => .anyArray
  | anyKey => .anyKey
  | any _ => .any
  | indexArray _ => .indexArray
  | binary op _ _ => .binary op
  | unary op _ => .unary op
  | likeRegex _ _ _ => .likeRegex
  | method m => .method m
  | datetime _ => .datetime
  | sequence _ => .sequence
  | array _ => .array
  | object _ => .object

def map (text : τ → τ') (req : ρ → ρ') (opt : ο → ο') : Item τ ρ ο → Item τ' ρ' ο'
  | null => null
  | string s => string (text s)
  | numeric s => numeric (text s)
  | bool b => bool b
  | var s => var (text s)
  | key s => key (text s)
  | root => root
  | current => current
  | last => last
  | anyArray => anyArray
  | anyKey => anyKey
  | any l => any l
  | indexArray ss => indexArray (ss.map fun (a, b) => (req a, opt b))
  | binary op l r => binary op (req l) (req r)
  | unary op a => unary op (req a)
  | likeRegex e p f => likeRegex (req e) (text p) f
  | method m => method m
  | datetime o => datetime (opt o)
  | sequence es => sequence (es.map req)
  | array o => array (opt o)
  | object fs => object (fs.map fun (k, v) => (req k, req v))

@[simp] theorem kind_map (text : τ → τ') (req : ρ → ρ') (opt : ο → ο') (x : Item τ ρ ο) :
    (x.map text req opt).kind = x.kind := by
  cases x <;> rfl

def pairSlots (first second : Nat → Role) (required : Bool) (i : Nat) :
    List (σ × σ) → List (Slot σ)
  | [] => []
  | (a, b) :: rest =>
    ⟨first i, true, a⟩ :: ⟨second i, required, b⟩ :: pairSlots first second required (i + 1) rest

def elementSlots (i : Nat) : List σ → List (Slot σ)
  | [] => []
  | a :: rest => ⟨.element i, true, a⟩ :: elementSlots (i + 1) rest

/-- The operands, in the order their slots have in a buffer. -/
def slots : Item τ σ σ → List (Slot σ)
  | binary _ l r => [⟨.left, true, l⟩, ⟨.right, true, r⟩]
  | unary _ a => [⟨.argument, true, a⟩]
  | datetime o | array o => [⟨.argument, false, o⟩]
  | likeRegex e _ _ => [⟨.operand, true, e⟩]
  | indexArray ss => pairSlots .start .stop false 0 ss
  | sequence es => elementSlots 0 es
  | object fs => pairSlots .key .value true 0 fs
  | null | string _ | numeric _ | bool _ | var _ | key _ | root | current | last | anyArray
  | anyKey | any _ | method _ => []

end Item

end FlatPath
