import FlatPath.Proofs.Operands

/-!
Expressions of the shape the syntax gives them: a chain starts with an item that can stand alone,
goes on with accessors only, and an operator has none behind it.
-/

namespace FlatPath

/-- An unsigned decimal number: digits, and a fraction if there is one. -/
def IsDecimal (s : String) : Prop :=
  ∃ whole fraction : List Char, whole ≠ [] ∧ (∀ c ∈ whole ++ fraction, c.isDigit) ∧
    (s.toList = whole ∨ s.toList = whole ++ '.' :: fraction)

/-- A string literal with nothing behind it. -/
def Expr.IsBareString (e : Expr) : Prop :=
  ∃ s, e = .single (.string s)

namespace Item

/-- The items a chain may start with. -/
def IsHead : Item String Expr (Option Expr) → Prop
  | .null | .string _ | .bool _ | .var _ | .root | .current | .last | .binary _ _ _ | .array _ =>
    True
  | .numeric s => IsDecimal s
  | .unary op _ => op ≠ .filter
  | .likeRegex _ _ f => f.bits < 32
  | .sequence es => 2 ≤ es.length
  | .object fs => ∀ f ∈ fs, f.1.IsBareString
  | .key _ | .anyArray | .anyKey | .any _ | .indexArray _ | .method _ | .datetime _ => False

/-- The items a chain may go on with. -/
def IsAccessor : Item String Expr (Option Expr) → Prop
  | .key _ | .anyArray | .anyKey | .any _ | .method _ => True
  | .indexArray ss => ss ≠ []
  | .unary op _ => op = .filter
  | .datetime t => ∀ e ∈ t, e.IsBareString
  | .null | .string _ | .numeric _ | .bool _ | .var _ | .root | .current | .last | .binary _ _ _
  | .likeRegex _ _ _ | .sequence _ | .array _ | .object _ => False

/-- The operators and predicates. -/
def IsOperator : Item String Expr (Option Expr) → Prop
  | .binary _ _ _ | .likeRegex _ _ _ => True
  | .unary op _ => op ≠ .filter
  | .null | .string _ | .numeric _ | .bool _ | .var _ | .key _ | .root | .current | .last
  | .anyArray | .anyKey | .any _ | .indexArray _ | .method _ | .datetime _ | .sequence _ | .array _
  | .object _ => False

end Item

namespace Expr

mutual

inductive WellShaped : Expr → Prop
  | mk {x : Item String Expr (Option Expr)} {next : Option Expr} (head : x.IsHead)
      (last : x.IsOperator → next = none) (operands : ∀ e ∈ x.operands, WellShaped e)
      (rest : ∀ e ∈ next, Accessors e) : WellShaped (.mk x next)

/-- The rest of a chain. -/
inductive Accessors : Expr → Prop
  | mk {x : Item String Expr (Option Expr)} {next : Option Expr} (accessor : x.IsAccessor)
      (operands : ∀ e ∈ x.operands, WellShaped e) (rest : ∀ e ∈ next, Accessors e) :
      Accessors (.mk x next)

end

/-- The number of items. -/
def size (e : Expr) : Nat :=
  e.fold fun x next => x.operands.sum + next.getD 0 + 1

theorem size_mk (x : Item String Expr (Option Expr)) (next : Option Expr) :
    (mk x next).size = (x.operands.map size).sum + (next.map size).getD 0 + 1 := by
  rw [size, fold_mk, Item.operands_map]
  rfl

theorem size_pos (e : Expr) : 0 < e.size := by
  obtain ⟨x, next⟩ := e
  rw [size_mk]
  exact Nat.succ_pos _

theorem size_next_lt (x : Item String Expr (Option Expr)) (e : Expr) :
    e.size < (mk x (some e)).size := by
  rw [size_mk, Option.map_some, Option.getD_some]
  omega

/-- An operand is smaller at least by the number of its siblings, itself included. -/
theorem size_operand_le {x : Item String Expr (Option Expr)} {e : Expr} (next : Option Expr)
    (h : e ∈ x.operands) :
    e.size + x.operands.length + (next.map size).getD 0 ≤ (mk x next).size := by
  have sum {es : List Expr} (mem : e ∈ es) : e.size + es.length ≤ (es.map size).sum + 1 := by
    induction es with
    | nil => cases mem
    | cons e' es ih =>
        have others : es.length ≤ (es.map size).sum := by
          have positive : ∀ n ∈ es.map size, 1 ≤ n := by simp [size_pos, Nat.succ_le_iff]
          simpa using List.length_le_sum_of_one_le _ positive
        have positive := e'.size_pos
        simp only [List.map_cons, List.sum_cons, List.length_cons]
        obtain rfl | mem := List.mem_cons.1 mem
        · omega
        · have := ih mem
          omega
  have := sum h
  rw [size_mk]
  omega

end Expr

end FlatPath
