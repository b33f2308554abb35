import FlatPath.Buffer.Scope
import FlatPath.Pattern.Check
import FlatPath.Proofs.Operands

/-!
The rules for the items of an expression, each item taken in the scope it stands in: where `@`,
`last` and the constructors may stand, and which literals there may be.
-/

namespace FlatPath

/-- Only operands of filters and subscripts have a scope of their own. -/
theorem Scope.operand_eq {τ σ : Type} (scope : Scope) {x : Item τ σ σ} {s : Slot σ}
    (mem : s ∈ x.slots) :
    scope.operand x.kind s.role =
      if x.kind = .unary .filter then scope.inFilter
      else if x.kind = .indexArray then scope.inSubscript
      else scope := by
  cases x with
  | unary op a =>
      obtain rfl := List.mem_singleton.1 mem
      cases op <;> rfl
  | indexArray ss =>
      obtain ⟨k, a, b, _, rfl | rfl⟩ := Item.mem_pairSlots.1 mem
      · rfl
      · rfl
  | _ => rfl

/-- Items of this kind may stand in this scope. -/
structure Kind.Placed (extensions : Bool) (scope : Scope) (kind : Kind) : Prop where
  current : kind = .current → scope.filters ≠ 0
  last : kind = .last → scope.subscript = true
  constructors : kind = .sequence ∨ kind = .array ∨ kind = .object → extensions = true

theorem Kind.isExtension_iff {kind : Kind} :
    kind.isExtension = true ↔ kind = .sequence ∨ kind = .array ∨ kind = .object := by
  cases kind <;> simp [isExtension]

namespace Item

variable {ρ ρ' ο ο' : Type}

/-- A numeric literal is not empty. -/
def HasDigits : Item String ρ ο → Prop
  | .numeric s => s ≠ ""
  | _ => True

/-- A pattern passes the check with its flags. -/
def PatternPasses : Item String ρ ο → Prop
  | .likeRegex _ pattern flags => Pattern.check pattern flags = none
  | _ => True

theorem hasDigits_map (req : ρ → ρ') (opt : ο → ο') (x : Item String ρ ο) :
    (x.map id req opt).HasDigits ↔ x.HasDigits := by
  cases x <;> rfl

theorem patternPasses_map (req : ρ → ρ') (opt : ο → ο') (x : Item String ρ ο) :
    (x.map id req opt).PatternPasses ↔ x.PatternPasses := by
  cases x <;> rfl

/-- What a buffer may hold. -/
structure Admissible (extensions : Bool) (scope : Scope) (x : Item String ρ ο) : Prop where
  placed : x.kind.Placed extensions scope
  digits : x.HasDigits

/-- What is written into a buffer. -/
structure Encodable (extensions : Bool) (scope : Scope) (x : Item String ρ ο) : Prop extends
    Admissible extensions scope x where
  pattern : x.PatternPasses

theorem encodable_map {extensions : Bool} {scope : Scope} (req : ρ → ρ') (opt : ο → ο')
    (x : Item String ρ ο) :
    (x.map id req opt).Encodable extensions scope ↔ x.Encodable extensions scope := by
  constructor
  · rintro ⟨⟨placed, digits⟩, pattern⟩
    rw [kind_map] at placed
    exact ⟨⟨placed, (hasDigits_map ..).1 digits⟩, (patternPasses_map ..).1 pattern⟩
  · rintro ⟨⟨placed, digits⟩, pattern⟩
    refine ⟨⟨?_, (hasDigits_map ..).2 digits⟩, (patternPasses_map ..).2 pattern⟩
    rwa [kind_map]

end Item

namespace Expr

/-- Every item of the expression has the property in the scope it stands in; the chain stands in
the given one. -/
inductive Everywhere (P : Scope → Item String Expr (Option Expr) → Prop) : Scope → Expr → Prop
  | mk {scope : Scope} {x : Item String Expr (Option Expr)} {next : Option Expr}
      (here : P scope x)
      (operands : ∀ s ∈ x.operandSlots, ∀ e, s.content = some e →
        Everywhere P (scope.operand x.kind s.role) e)
      (rest : ∀ e, next = some e → Everywhere P scope e) : Everywhere P scope (.mk x next)

variable {P Q : Scope → Item String Expr (Option Expr) → Prop} {scope : Scope} {e : Expr}

theorem Everywhere.mono (h : e.Everywhere P scope) (imp : ∀ scope x, P scope x → Q scope x) :
    e.Everywhere Q scope := by
  induction h with
  | mk here _ _ operands rest => exact .mk (imp _ _ here) operands rest

theorem Everywhere.and (h : e.Everywhere P scope) (h' : e.Everywhere Q scope) :
    e.Everywhere (fun scope x => P scope x ∧ Q scope x) scope := by
  induction h with
  | mk here _ _ operands rest =>
      cases h' with
      | mk here' operands' rest' =>
          exact .mk ⟨here, here'⟩ (fun s mem e he => operands s mem e he (operands' s mem e he))
            fun e he => rest e he (rest' e he)

/-- An item without operands. -/
theorem Everywhere.leaf {x : Item String Expr (Option Expr)} {next : Option Expr} (here : P scope x)
    (none : x.operandSlots = []) (rest : ∀ e, next = some e → e.Everywhere P scope) :
    (Expr.mk x next).Everywhere P scope :=
  .mk here (by simp [none]) rest

theorem Everywhere.single {x : Item String Expr (Option Expr)} (here : P scope x)
    (none : x.operandSlots = []) : (Expr.single x).Everywhere P scope :=
  .leaf here none (by simp)

/-- A chain keeps rules and nests within a limit exactly if its first item, its operands and the
rest of it do. -/
theorem everywhere_and_depth_mk {x : Item String Expr (Option Expr)} {next : Option Expr}
    {n m : Nat} :
    (mk x next).Everywhere P scope ∧ n + (mk x next).depth ≤ m ↔
      P scope x ∧ n + 1 ≤ m ∧
        (∀ s ∈ x.operandSlots, ∀ e, s.content = some e →
          e.Everywhere P (scope.operand x.kind s.role) ∧ n + 1 + e.depth ≤ m) ∧
        ∀ e, next = some e → e.Everywhere P scope ∧ n + e.depth ≤ m := by
  rw [add_depth_mk_le]
  constructor
  · rintro ⟨⟨here, operands, rest⟩, own, deeper, further⟩
    exact ⟨here, own, fun s mem e he =>
      ⟨operands s mem e he, deeper e (Item.mem_operands_iff_slot.2 ⟨s, mem, he⟩)⟩,
      fun e he => ⟨rest e he, further e he⟩⟩
  · rintro ⟨here, own, operands, rest⟩
    refine ⟨.mk here (fun s mem e he => (operands s mem e he).1) fun e he => (rest e he).1, own,
      fun e he => ?_, fun e he => (rest e he).2⟩
    obtain ⟨s, mem, content⟩ := Item.mem_operands_iff_slot.1 he
    exact (operands s mem e content).2

end Expr

end FlatPath
