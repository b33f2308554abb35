import FlatPath.Item

/-!
What is allowed where: `@` below a filter, `last` below an array subscript.
-/

namespace FlatPath

structure Scope where
  filters : Nat := 0
  subscript : Bool := false
deriving DecidableEq, Inhabited

namespace Scope

/-- The scope of a whole path. -/
def top : Scope := {}

def inFilter (s : Scope) : Scope :=
  { s with filters := s.filters + 1 }

def inSubscript (s : Scope) : Scope :=
  { s with subscript := true }

/-- The scope of the operand in this role of an item of kind `owner`. -/
def operand (s : Scope) (owner : Kind) (role : Role) : Scope :=
  match owner, role with
  | .unary .filter, .argument => s.inFilter
  | .indexArray, .start _ | .indexArray, .stop _ => s.inSubscript
  | _, _ => s

end Scope

end FlatPath
