import FlatPath.Item

/-!
Path expressions: an item and the rest of its accessor chain, `$.a[*]` being `$`, then `.a`, then
`[*]`. `fold` works an expression out from what its operands and its continuation come to, and
`fold_mk` is its one equation.
-/

namespace FlatPath

inductive Expr
  | mk (item : Item String Expr (Option Expr)) (next : Option Expr)

instance : Inhabited Expr := ⟨.mk .null none⟩

namespace Expr

def item : Expr → Item String Expr (Option Expr)
  | mk item _ => item

def next : Expr → Option Expr
  | mk _ next => next

/-- The chain of one item. -/
def single (item : Item String Expr (Option Expr)) : Expr :=
  mk item none

/-- A numeric literal in decimal digits. -/
def int (i : Int) : Expr :=
  single (.numeric (toString i))

/-- The chain of `e` with `tail` put at its end. -/
def append : Expr → Expr → Expr
  | mk item none, tail => mk item (some tail)
  | mk item (some next), tail => mk item (some (next.append tail))

/-- The number of items in the chain. -/
def chainLength : Expr → Nat
  | mk _ none => 1
  | mk _ (some next) => next.chainLength + 1

section Fold

variable {α : Type} (step : Item String α (Option α) → Option α → α)

mutual

/-- `step` sees each item with its operands and its continuation worked out already. -/
def fold : Expr → α
  | mk item next => step (foldItem item) (foldOption next)

def foldItem : Item String Expr (Option Expr) → Item String α (Option α)
  | .null => .null
  | .string s => .string s
  | .numeric s => .numeric s
  | .bool b => .bool b
  | .var s => .var s
  | .key s => .key s
  | .root => .root
  | .current => .current
  | .last => .last
  | .anyArray => .anyArray
  | .anyKey => .anyKey
  | .any l => .any l
  | .indexArray ss => .indexArray (foldSubscripts ss)
  | .binary op l r => .binary op (fold l) (fold r)
  | .unary op a => .unary op (fold a)
  | .likeRegex e p f => .likeRegex (fold e) p f
  | .method m => .method m
  | .datetime o => .datetime (foldOption o)
  | .sequence es => .sequence (foldList es)
  | .array o => .array (foldOption o)
  | .object fs => .object (foldFields fs)

def foldOption : Option Expr → Option α
  | none => none
  | some e => some (fold e)

def foldList : List Expr → List α
  | [] => []
  | e :: rest => fold e :: foldList rest

def foldSubscripts : List (Expr × Option Expr) → List (α × Option α)
  | [] => []
  | (a, b) :: rest => (fold a, foldOption b) :: foldSubscripts rest

def foldFields : List (Expr × Expr) → List (α × α)
  | [] => []
  | (k, v) :: rest => (fold k, fold v) :: foldFields rest

end

theorem foldOption_eq_map (o : Option Expr) : foldOption step o = o.map (fold step) := by
  cases o <;> rfl

theorem foldList_eq_map (es : List Expr) : foldList step es = es.map (fold step) := by
  induction es with
  | nil => rfl
  | cons e rest ih => simp [foldList, ih]

theorem foldSubscripts_eq_map (ss : List (Expr × Option Expr)) :
    foldSubscripts step ss = ss.map fun (a, b) => (fold step a, b.map (fold step)) := by
  induction ss with
  | nil => rfl
  | cons s rest ih => simp [foldSubscripts, foldOption_eq_map, ih]

theorem foldFields_eq_map (fs : List (Expr × Expr)) :
    foldFields step fs = fs.map fun (k, v) => (fold step k, fold step v) := by
  induction fs with
  | nil => rfl
  | cons f rest ih => simp [foldFields, ih]

theorem foldItem_eq_map (x : Item String Expr (Option Expr)) :
    foldItem step x = x.map id (fold step) (Option.map (fold step)) := by
  cases x <;>
    simp [foldItem, Item.map, foldOption_eq_map, foldList_eq_map, foldSubscripts_eq_map,
      foldFields_eq_map]

theorem fold_mk (x : Item String Expr (Option Expr)) (next : Option Expr) :
    fold step (mk x next) =
      step (x.map id (fold step) (Option.map (fold step))) (next.map (fold step)) := by
  rw [fold, foldItem_eq_map, foldOption_eq_map]

end Fold

end Expr

/-- An expression with the modes it was written in. -/
structure Path where
  expr : Expr
  lax : Bool := true
  extensions : Bool := false

end FlatPath
