import FlatPath.Buffer.Encode
import FlatPath.Proofs.Rules

/-!
The violations of a path, in the order of its items: a chain is checked against the nesting limit
before its items are, an item where it stands and then its literal, and its operands before the rest
of its chain. A path without violations is one that keeps the rules and nests within the limit.
-/

namespace FlatPath

/-- The scope of the operands of items of these kinds, the innermost first. -/
structure Scope.Within (owners : List Kind) (scope : Scope) : Prop where
  filters : scope.filters ≠ 0 ↔ .unary .filter ∈ owners
  subscript : scope.subscript = true ↔ .indexArray ∈ owners

theorem Scope.within_top : Within [] top :=
  ⟨by simp [top], by simp [top]⟩

theorem Scope.Within.operand {owners : List Kind} {scope : Scope} (h : scope.Within owners)
    {σ : Type} {x : Item String σ (Option σ)} {s : Slot (Option σ)} (mem : s ∈ x.operandSlots) :
    (scope.operand x.kind s.role).Within (x.kind :: owners) := by
  have operand := scope.operand_eq mem
  rw [Item.kind_map] at operand
  rw [operand]
  by_cases filter : x.kind = .unary .filter
  · rw [if_pos filter, filter]
    exact ⟨by simp [inFilter], by simpa [inFilter] using h.subscript⟩
  · by_cases index : x.kind = .indexArray
    · rw [if_neg filter, if_pos index, index]
      exact ⟨by simpa [inSubscript] using h.filters, by simp [inSubscript]⟩
    · rw [if_neg filter, if_neg index]
      exact ⟨by simpa [Ne.symm filter] using h.filters, by simpa [Ne.symm index] using h.subscript⟩

inductive Violation
  | tooDeep
  | currentOutsideFilter
  | lastOutsideSubscript
  | constructorDisabled (kind : Kind)
  | emptyNumeric
  | invalidPattern (pattern : String) (flaw : Pattern.Flaw)
deriving DecidableEq

/-- What the encoder says of a violation under this nesting limit. -/
def Violation.error (limit : UInt32) : Violation → EncodeError
  | .tooDeep => .limit (.tooDeep limit)
  | .currentOutsideFilter => .currentOutsideFilter
  | .lastOutsideSubscript => .lastOutsideSubscript
  | .constructorDisabled kind => .constructorDisabled kind
  | .emptyNumeric => .emptyNumeric
  | .invalidPattern pattern flaw => .invalidPattern pattern flaw

/-- What is wrong with a chain among operands of these items before any item of it is looked at. -/
def nestingViolations (limit : UInt32) (owners : List Kind) : List Violation :=
  if owners.length < limit.toNat then [] else [.tooDeep]

theorem nestingViolations_eq_nil {limit : UInt32} {owners : List Kind} :
    nestingViolations limit owners = [] ↔ owners.length < limit.toNat := by
  simp [nestingViolations]

namespace Kind

variable {extensions : Bool} {owners : List Kind} {scope : Scope} {kind : Kind}

/-- What is wrong with an item of this kind among operands of these items. -/
def violations (extensions : Bool) (owners : List Kind) : Kind → List Violation
  | .current => if .unary .filter ∈ owners then [] else [.currentOutsideFilter]
  | .last => if .indexArray ∈ owners then [] else [.lastOutsideSubscript]
  | .sequence => if extensions then [] else [.constructorDisabled .sequence]
  | .array => if extensions then [] else [.constructorDisabled .array]
  | .object => if extensions then [] else [.constructorDisabled .object]
  | _ => []

theorem violations_eq_nil (h : scope.Within owners) :
    kind.violations extensions owners = [] ↔ kind.Placed extensions scope := by
  constructor
  · intro none
    refine ⟨?_, ?_, ?_⟩
    · rintro rfl
      simpa [violations, ← h.filters] using none
    · rintro rfl
      simpa [violations, ← h.subscript] using none
    · rintro (rfl | rfl | rfl)
      all_goals simpa [violations] using none
  · rintro ⟨current, last, constructors⟩
    cases kind with
    | current => simpa [violations, ← h.filters] using current rfl
    | last => simpa [violations, ← h.subscript] using last rfl
    | sequence | array | object => simpa [violations] using constructors (by simp)
    | _ => rfl

end Kind

namespace Item

/-- What is wrong with the literal of an item. -/
def violations {ρ ο : Type} : Item String ρ ο → List Violation
  | .numeric s => if s = "" then [.emptyNumeric] else []
  | .likeRegex _ pattern flags =>
    match Pattern.check pattern flags with
    | some flaw => [.invalidPattern pattern flaw]
    | none => []
  | _ => []

theorem violations_map {ρ ρ' ο ο' : Type} (req : ρ → ρ') (opt : ο → ο') (x : Item String ρ ο) :
    (x.map id req opt).violations = x.violations := by
  cases x <;> rfl

theorem violations_eq_nil {ρ ο : Type} {x : Item String ρ ο} :
    x.violations = [] ↔ x.HasDigits ∧ x.PatternPasses := by
  cases x with
  | numeric s => simp [violations, HasDigits, PatternPasses]
  | likeRegex e pattern flags =>
      simp only [violations, HasDigits, PatternPasses, true_and]
      cases Pattern.check pattern flags <;> simp
  | _ => simp [violations, HasDigits, PatternPasses]

end Item

namespace Expr

variable {extensions : Bool} {limit : UInt32} {owners : List Kind}

/-- All that is wrong with a chain among operands of these items. -/
def violations (extensions : Bool) (limit : UInt32) (e : Expr) : List Kind → List Violation :=
  e.fold fun x next owners =>
    x.kind.violations extensions owners ++ (x.violations ++
      ((x.operands.flatMap fun operand =>
        nestingViolations limit (x.kind :: owners) ++ operand (x.kind :: owners)) ++
      next.elim [] (· owners)))

theorem violations_mk (extensions : Bool) (limit : UInt32)
    (x : Item String Expr (Option Expr)) (next : Option Expr) (owners : List Kind) :
    (mk x next).violations extensions limit owners =
      x.kind.violations extensions owners ++ (x.violations ++
        ((x.operands.flatMap fun e => nestingViolations limit (x.kind :: owners) ++
          e.violations extensions limit (x.kind :: owners)) ++
        next.elim [] (·.violations extensions limit owners))) := by
  rw [violations, fold_mk]
  simp only [Item.kind_map, Item.violations_map, Item.operands_map, List.flatMap_map]
  cases next <;> rfl

/-- A chain that was entered has no violation where it keeps the rules and nests within what is
left of the limit. -/
theorem violations_eq_nil {e : Expr} {scope : Scope} (h : scope.Within owners)
    (near : owners.length < limit.toNat) :
    e.violations extensions limit owners = [] ↔
      e.Everywhere (Item.Encodable extensions) scope ∧ owners.length + e.depth ≤ limit.toNat := by
  induction e using Expr.operandInduction generalizing scope owners with
  | mk x next operands rest =>
      have below (e : Expr) (he : e ∈ x.operands) (scope' : Scope)
          (h' : scope'.Within (x.kind :: owners)) :
          nestingViolations limit (x.kind :: owners) ++
              e.violations extensions limit (x.kind :: owners) = [] ↔
            e.Everywhere (Item.Encodable extensions) scope' ∧
              owners.length + 1 + e.depth ≤ limit.toNat := by
        have positive := e.depth_pos
        rw [List.append_eq_nil_iff, nestingViolations_eq_nil]
        constructor
        · rintro ⟨near, none⟩
          exact (operands e he h' near).1 none
        · rintro ⟨rules, room⟩
          have near : owners.length + 1 < limit.toNat := by omega
          exact ⟨near, (operands e he h' near).2 ⟨rules, room⟩⟩
      rw [violations_mk]
      simp only [List.append_eq_nil_iff, Kind.violations_eq_nil h, Item.violations_eq_nil,
        List.flatMap_eq_nil_iff]
      constructor
      · rintro ⟨placed, ⟨digits, pattern⟩, inner, outer⟩
        refine everywhere_and_depth_mk.2
          ⟨⟨⟨placed, digits⟩, pattern⟩, near, fun s mem e he => ?_, fun e he => ?_⟩
        · have he := Item.mem_operands_iff_slot.2 ⟨s, mem, he⟩
          exact (below e he _ (h.operand mem)).1 (List.append_eq_nil_iff.2 (inner e he))
        · exact (rest e he h near).1 (by simpa [he] using outer)
      · intro kept
        obtain ⟨⟨⟨placed, digits⟩, pattern⟩, _, inner, outer⟩ := everywhere_and_depth_mk.1 kept
        refine ⟨placed, ⟨digits, pattern⟩, fun e he => ?_, ?_⟩
        · obtain ⟨s, mem, content⟩ := Item.mem_operands_iff_slot.1 he
          exact List.append_eq_nil_iff.1
            ((below e he _ (h.operand mem)).2 (inner s mem e content))
        · cases next with
          | none => rfl
          | some e => exact (rest e rfl h near).2 (outer e rfl)

end Expr

/-- All that is wrong with a path, in the order in which the encoder comes to it. -/
def Path.violations (path : Path) (limits : Limits) : List Violation :=
  nestingViolations limits.recursionLimit [] ++
    path.expr.violations path.extensions limits.recursionLimit []

theorem Path.violations_eq_nil {path : Path} {limits : Limits} :
    path.violations limits = [] ↔
      path.expr.Everywhere (Item.Encodable path.extensions) .top ∧
        path.expr.depth ≤ limits.recursionLimit.toNat := by
  have positive := path.expr.depth_pos
  rw [violations, List.append_eq_nil_iff, nestingViolations_eq_nil, List.length_nil]
  constructor
  · rintro ⟨near, none⟩
    simpa using (Expr.violations_eq_nil Scope.within_top near).1 none
  · rintro ⟨rules, room⟩
    have near : 0 < limits.recursionLimit.toNat := by omega
    exact ⟨near, (Expr.violations_eq_nil Scope.within_top near).2 ⟨rules, by simpa using room⟩⟩

end FlatPath
