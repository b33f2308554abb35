import FlatPath.Mutability
import FlatPath.Proofs.Operands

/-!
What makes a path mutable, said of its expression alone. Each item gives its value a status from the
status of the value that it is applied to and that of `@`. An expression is mutable if a comparison
in it is met whose operands come to statuses that depend on the time zone when they are compared.
-/

namespace FlatPath

/-- The variable that an item stands for. -/
def Item.vars {ρ ο : Type} : Item String ρ ο → List String
  | .var name => [name]
  | _ => []

theorem Item.vars_map {ρ ρ' ο ο' : Type} (req : ρ → ρ') (opt : ο → ο') (x : Item String ρ ο) :
    (x.map id req opt).vars = x.vars := by
  cases x <;> rfl

namespace Expr

/-- The variables that occur in an expression. -/
def vars (e : Expr) : List String :=
  e.fold fun x next => x.vars ++ (x.operands.flatten ++ next.getD [])

theorem vars_mk (x : Item String Expr (Option Expr)) (next : Option Expr) :
    (mk x next).vars = x.vars ++ (x.operands.flatMap vars ++ (next.map vars).getD []) := by
  rw [vars, fold_mk]
  simp only [Item.vars_map, Item.operands_map, List.flatMap_def]
  rfl

theorem vars_of_item {x : Item String Expr (Option Expr)} {next : Option Expr} {name : String}
    (mem : name ∈ x.vars) : name ∈ (mk x next).vars := by
  rw [vars_mk]
  exact List.mem_append_left _ mem

theorem vars_of_operand {x : Item String Expr (Option Expr)} {next : Option Expr} {e : Expr}
    (he : e ∈ x.operands) {name : String} (mem : name ∈ e.vars) : name ∈ (mk x next).vars := by
  rw [vars_mk]
  exact List.mem_append_right _ (List.mem_append_left _ (List.mem_flatMap.2 ⟨e, he, mem⟩))

theorem vars_of_next {x : Item String Expr (Option Expr)} {e : Expr} {name : String}
    (mem : name ∈ e.vars) : name ∈ (mk x (some e)).vars := by
  rw [vars_mk]
  exact List.mem_append_right _ (List.mem_append_right _ mem)

end Expr

end FlatPath

namespace FlatPath.Mutability

open Relation

/-- The status that a datetime method gives its value. -/
def zoneOf : Option Expr → DatetimeStatus
  | none => .unknown
  | some (.mk (.string template) _) => if Template.isZoned template then .zoned else .nonZoned
  | some _ => .nonDatetime

namespace Context

/-- The status of the value of an item; `current` is the status of `@`, and `status` that of the
value which the item is applied to. -/
def after (ctx : Context) (current status : DatetimeStatus) :
    Item String Expr (Option Expr) → DatetimeStatus
  | .current => current
  | .var name => ((ctx.bindings.get? name).map .ofVarType).getD status
  | .indexArray _ | .anyArray => ctx.arrayStep status
  | .any levels => if levels.first = 0 then status else .nonDatetime
  | .datetime template => zoneOf template
  | .root | .unary _ _ | .binary _ _ _ | .likeRegex _ _ _ => status
  | .null | .string _ | .numeric _ | .bool _ | .key _ | .anyKey | .last | .method _ | .sequence _
  | .array _ | .object _ => .nonDatetime

/-- The contexts have the same mode, and say the same of these variables. -/
structure Alike (names : List String) (ctx ctx' : Context) : Prop where
  lax : ctx.lax = ctx'.lax
  statuses : ∀ name ∈ names, (ctx.bindings.get? name).map DatetimeStatus.ofVarType =
    (ctx'.bindings.get? name).map DatetimeStatus.ofVarType

namespace Alike

variable {names names' : List String} {ctx ctx' : Context}

theorem refl (names : List String) (ctx : Context) : Alike names ctx ctx :=
  ⟨rfl, fun _ _ => rfl⟩

theorem symm (h : Alike names ctx ctx') : Alike names ctx' ctx :=
  ⟨h.lax.symm, fun name mem => (h.statuses name mem).symm⟩

theorem mono (h : Alike names ctx ctx') (fewer : ∀ name ∈ names', name ∈ names) :
    Alike names' ctx ctx' :=
  ⟨h.lax, fun name mem => h.statuses name (fewer name mem)⟩

theorem arrayStep (h : Alike names ctx ctx') (status : DatetimeStatus) :
    ctx.arrayStep status = ctx'.arrayStep status := by
  rw [Context.arrayStep, Context.arrayStep, h.lax]

end Alike

/-- The status of the value of a chain. -/
def statusOf (ctx : Context) (current : DatetimeStatus) : DatetimeStatus → Expr → DatetimeStatus
  | status, .mk x none => ctx.after current status x
  | status, .mk x (some next) => ctx.statusOf current (ctx.after current status x) next

end Context

/-- The item is a comparison of two operands that depends on the time zone. -/
def Compares (ctx : Context) (current : DatetimeStatus) : Item String Expr (Option Expr) → Prop
  | .binary op l r =>
    op.isComparison = true ∧ (ctx.statusOf current .nonDatetime l).comparisonIsMutable
      (ctx.statusOf current .nonDatetime r) = true
  | _ => False

/-- What `@` stands for below an item: in a filter, for the value that the filter is applied to. -/
def currentBelow (current status : DatetimeStatus) :
    Item String Expr (Option Expr) → DatetimeStatus
  | .unary .filter _ => status
  | _ => current

/-- The rest of a chain where it stands: with the status of `@`, and that of the value which it is
applied to. -/
structure Occurrence where
  current : DatetimeStatus
  status : DatetimeStatus
  expr : Expr

namespace Occurrence

/-- An operand, which is applied to nothing yet. -/
def operand (current : DatetimeStatus) (e : Expr) : Occurrence :=
  ⟨current, .nonDatetime, e⟩

/-- From an item to the next one, or to one of its operands if the operands of such items count. -/
inductive Step (ctx : Context) (counts : Item String Expr (Option Expr) → Prop) :
    Occurrence → Occurrence → Prop
  | next {current status : DatetimeStatus} {x : Item String Expr (Option Expr)} {e : Expr} :
      Step ctx counts ⟨current, status, .mk x (some e)⟩ ⟨current, ctx.after current status x, e⟩
  | operand {current status : DatetimeStatus} {x : Item String Expr (Option Expr)}
      {next : Option Expr} {e : Expr} (counted : counts x) (mem : e ∈ x.operands) :
      Step ctx counts ⟨current, status, .mk x next⟩ (.operand (currentBelow current status x) e)

/-- A comparison that depends on the time zone is met from here on. -/
def Mutable (ctx : Context) (counts : Item String Expr (Option Expr) → Prop) (o : Occurrence) :
    Prop :=
  ∃ o', ReflTransGen (Step ctx counts) o o' ∧ Compares ctx o'.current o'.expr.item

variable {ctx : Context} {counts counts' : Item String Expr (Option Expr) → Prop}

/-- The comparison is the first item, or it is met in one of its operands or further on in the
chain. -/
theorem mutable_mk {current status : DatetimeStatus} {x : Item String Expr (Option Expr)}
    {next : Option Expr} :
    Mutable ctx counts ⟨current, status, .mk x next⟩ ↔
      Compares ctx current x ∨
        (∃ e ∈ x.operands, counts x ∧
          Mutable ctx counts (operand (currentBelow current status x) e)) ∨
        ∃ e, next = some e ∧ Mutable ctx counts ⟨current, ctx.after current status x, e⟩ := by
  constructor
  · rintro ⟨o', reach, compares⟩
    obtain rfl | ⟨o, step, reach⟩ := reach.cases_head
    · exact .inl compares
    · cases step with
      | next => exact .inr (.inr ⟨_, rfl, o', reach, compares⟩)
      | operand counted mem => exact .inr (.inl ⟨_, mem, counted, o', reach, compares⟩)
  · rintro (compares | ⟨e, mem, counted, o', reach, compares⟩ | ⟨e, rfl, o', reach, compares⟩)
    · exact ⟨_, .refl, compares⟩
    · exact ⟨o', .head (.operand counted mem) reach, compares⟩
    · exact ⟨o', .head .next reach, compares⟩

/-- The more operands count, the more comparisons are met. -/
theorem Mutable.mono {o : Occurrence} (h : o.Mutable ctx counts)
    (more : ∀ x, counts x → counts' x) : o.Mutable ctx counts' := by
  obtain ⟨o', reach, compares⟩ := h
  refine ⟨o', ReflTransGen.mono (fun a b step => ?_) _ _ reach, compares⟩
  cases step with
  | next => exact .next
  | operand counted mem => exact .operand (more _ counted) mem

/-- Nesting does not grow on the way. -/
theorem depth_le {o o' : Occurrence} (h : ReflTransGen (Step ctx counts) o o') :
    o'.expr.depth ≤ o.expr.depth := by
  induction h with
  | refl => exact Nat.le_refl _
  | tail _ step ih =>
      refine Nat.le_trans ?_ ih
      cases step with
      | next => exact Expr.depth_next_le ..
      | operand _ mem => exact Nat.le_of_lt (Expr.depth_operand_lt _ mem)

end Occurrence

/-- The one context unwraps arrays only if the other does, and has the same bindings. -/
structure Context.Within (ctx ctx' : Context) : Prop where
  bindings : ctx.bindings = ctx'.bindings
  unwraps : ctx.lax = true → ctx'.lax = true

theorem Context.Within.refl (ctx : Context) : ctx.Within ctx :=
  ⟨rfl, id⟩

theorem Context.strict_within_lax (bindings : Bindings) :
    Context.Within ⟨bindings, false⟩ ⟨bindings, true⟩ :=
  ⟨rfl, fun _ => rfl⟩

/-- What is known of the one value is known of the other. -/
def Refines (s t : DatetimeStatus) : Prop :=
  s = .nonDatetime ∨ s = t

namespace Refines

variable {ctx ctx' : Context} {current current' status status' : DatetimeStatus}

theorem bot (s : DatetimeStatus) : Refines .nonDatetime s :=
  .inl rfl

theorem refl (s : DatetimeStatus) : Refines s s :=
  .inr rfl

theorem comparisonIsMutable {s s' t t' : DatetimeStatus} (left : Refines s s')
    (right : Refines t t') (h : s.comparisonIsMutable t = true) :
    s'.comparisonIsMutable t' = true := by
  obtain rfl | rfl := left
  · cases h
  · obtain rfl | rfl := right
    · simp [DatetimeStatus.comparisonIsMutable, DatetimeStatus.isDatetime] at h
    · exact h

/-- An array step that unwraps in the one context unwraps in the other too. -/
theorem arrayStep (within : ctx.Within ctx') (ofStatus : Refines status status') :
    Refines (ctx.arrayStep status) (ctx'.arrayStep status') := by
  rw [Context.arrayStep, Context.arrayStep]
  split
  · next lax => rwa [if_pos (within.unwraps lax)]
  · exact bot _

theorem after (within : ctx.Within ctx') (ofCurrent : Refines current current')
    (ofStatus : Refines status status') (x : Item String Expr (Option Expr)) :
    Refines (ctx.after current status x) (ctx'.after current' status' x) := by
  cases x with
  | current => exact ofCurrent
  | root | unary | binary | likeRegex => exact ofStatus
  | var name =>
      simp only [Context.after, within.bindings]
      cases ctx'.bindings.get? name with
      | none => exact ofStatus
      | some type => exact refl (.ofVarType type)
  | indexArray | anyArray => exact ofStatus.arrayStep within
  | any levels =>
      simp only [Context.after]
      split
      · exact ofStatus
      · exact bot _
  | datetime template => exact refl _
  | _ => exact bot _

theorem statusOf (within : ctx.Within ctx') (ofCurrent : Refines current current')
    (ofStatus : Refines status status') (e : Expr) :
    Refines (ctx.statusOf current status e) (ctx'.statusOf current' status' e) := by
  induction e using Expr.operandInduction generalizing status status' with
  | mk x next _ rest =>
      have here : Refines (ctx.after current status x) (ctx'.after current' status' x) :=
        ofCurrent.after within ofStatus x
      cases next with
      | none => exact here
      | some e => exact rest e rfl here

theorem compares {x : Item String Expr (Option Expr)} (within : ctx.Within ctx')
    (ofCurrent : Refines current current') (h : Compares ctx current x) :
    Compares ctx' current' x := by
  cases x with
  | binary op l r =>
      have operand (e : Expr) : Refines (ctx.statusOf current .nonDatetime e)
          (ctx'.statusOf current' .nonDatetime e) := ofCurrent.statusOf within (bot _) e
      exact ⟨h.1, (operand l).comparisonIsMutable (operand r) h.2⟩
  | _ => cases h

theorem currentBelow (ofCurrent : Refines current current') (ofStatus : Refines status status')
    (x : Item String Expr (Option Expr)) :
    Refines (currentBelow current status x) (currentBelow current' status' x) := by
  rw [Mutability.currentBelow.eq_def, Mutability.currentBelow.eq_def]
  split
  · exact ofStatus
  · exact ofCurrent

/-- A mutable comparison is still met where more arrays are unwrapped and more is known from
outside. -/
theorem mutable_within {counts : Item String Expr (Option Expr) → Prop}
    (within : ctx.Within ctx') (ofCurrent : Refines current current')
    (ofStatus : Refines status status') {e : Expr}
    (h : Occurrence.Mutable ctx counts ⟨current, status, e⟩) :
    Occurrence.Mutable ctx' counts ⟨current', status', e⟩ := by
  induction e using Expr.operandInduction generalizing current current' status status' with
  | mk x next operands rest =>
      rw [Occurrence.mutable_mk] at h ⊢
      obtain compares | ⟨e, mem, counted, inside⟩ | ⟨e, he, further⟩ := h
      · exact .inl (ofCurrent.compares within compares)
      -- An operand starts anew, so of the two only the status of `@` passes into it.
      · exact .inr (.inl ⟨e, mem, counted,
          operands e mem (ofCurrent.currentBelow ofStatus x) (bot _) inside⟩)
      · exact .inr (.inr ⟨e, he, rest e he ofCurrent (ofCurrent.after within ofStatus x) further⟩)

theorem mutable {counts : Item String Expr (Option Expr) → Prop}
    (ofCurrent : Refines current current') (ofStatus : Refines status status') {e : Expr}
    (h : Occurrence.Mutable ctx counts ⟨current, status, e⟩) :
    Occurrence.Mutable ctx counts ⟨current', status', e⟩ :=
  ofCurrent.mutable_within (.refl ctx) ofStatus h

end Refines

end FlatPath.Mutability
