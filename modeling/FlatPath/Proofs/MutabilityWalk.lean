import FlatPath.Mutability
import FlatPath.Proofs.CanonicalText
import FlatPath.Proofs.Statuses

/-!
The walk that decides mutability. On the tree of an expression that nests within its limit it comes
to an answer, whatever is known from outside the path: it finds a comparison that depends on the
time zone exactly if one is met outside of datetime templates, and until it has found one it knows
the statuses.
-/

namespace FlatPath.Mutability

variable {ctx : Context} {d : Descent} {current status : DatetimeStatus}

/-- The operands of every item count but the template of a datetime method. -/
def OutsideTemplate (x : Item String Expr (Option Expr)) : Prop :=
  x.kind ≠ .datetime

/-- A mutable comparison is met in an operand. -/
def MutableIn (ctx : Context) (current : DatetimeStatus) (e : Expr) : Prop :=
  (Occurrence.operand current e).Mutable ctx OutsideTemplate

/-- What a walk comes to: whether a mutable comparison is met, and the status if none is. -/
structure Finds (r : DatetimeStatus × Bool) (mutable : Prop) (status : DatetimeStatus) : Prop where
  found : r.2 = true ↔ mutable
  status : r.2 = false → r.1 = status

/-- The walk goes through this operand. -/
def Walks (ctx : Context) (d : Descent) (current : DatetimeStatus) (e : Expr) : Prop :=
  ∀ found missing, ∃ r, operand ctx d current found missing (.found fun _ => e.node) = .ok r ∧
    Finds r (found = true ∨ MutableIn ctx current e) (ctx.statusOf current .nonDatetime e)

theorem walks_optional {o : Option Expr} (walks : ∀ e ∈ o, Walks ctx d current e) (found : Bool) :
    ∃ s found', operand ctx d current found (.ok (.nonDatetime, found))
        (Link.ofOption (o.map Expr.node)) = .ok (s, found') ∧
      (found' = true ↔ found = true ∨ ∃ e ∈ o, MutableIn ctx current e) := by
  cases o with
  | none => exact ⟨.nonDatetime, found, rfl, by simp⟩
  | some e =>
      obtain ⟨⟨s, found'⟩, walked, finds⟩ := walks e rfl found (.ok (.nonDatetime, found))
      exact ⟨s, found', walked, by simpa using finds.found⟩

theorem templateStatus_eq (o : Option Expr) :
    templateStatus (Link.ofOption (o.map Expr.node)) = .ok (zoneOf o) := by
  cases o with
  | none => rfl
  | some e =>
      obtain ⟨x, next⟩ := e
      simp only [Option.map_some, Link.ofOption_some, templateStatus, Expr.node_mk, Node.item]
      cases x with
      | string s => simp only [Item.map, Print.legible_toUTF8, ok_bind, except_pure, zoneOf]
      | _ => rfl

theorem subscripts_ok {ss : List (Expr × Option Expr)}
    (walks : ∀ s ∈ ss, Walks ctx d current s.1 ∧ ∀ e ∈ s.2, Walks ctx d current e) (found : Bool)
    (i : Nat) :
    ∃ found', subscripts ctx d current found i (ss.map fun s =>
        (.found fun _ => s.1.node, Link.ofOption (s.2.map Expr.node))) = .ok found' ∧
      (found' = true ↔
        found = true ∨ ∃ e ∈ ss.flatMap fun (a, b) => a :: b.toList, MutableIn ctx current e) := by
  induction ss generalizing found i with
  | nil => exact ⟨found, rfl, by simp⟩
  | cons s ss ih =>
      obtain ⟨start, stop⟩ := walks s List.mem_cons_self
      obtain ⟨_, found₁, first, finds₁⟩ := walks_optional stop found
      obtain ⟨⟨_, found₂⟩, second, finds₂⟩ := start found₁ (.ok (.nonDatetime, found₁))
      obtain ⟨found', rest, finds⟩ := ih (fun s hs => walks s (by simp [hs])) found₂ (i + 1)
      refine ⟨found', ?_, ?_⟩
      · simp only [List.map_cons, subscripts, Link.require, ok_bind, except_pure, first, second,
          rest]
      · have finds₂ := finds₂.found
        simp only at finds₂
        simp only [finds, finds₂, finds₁, List.flatMap_cons, List.mem_append, List.mem_cons,
          Option.mem_toList, Option.mem_def, or_and_right, exists_or, exists_eq_left]
        grind

theorem elements_ok {es : List Expr} (walks : ∀ e ∈ es, Walks ctx d current e) (found : Bool) :
    ∃ found', elements ctx d current found (es.map fun e => .found fun _ => e.node) =
        .ok found' ∧
      (found' = true ↔ found = true ∨ ∃ e ∈ es, MutableIn ctx current e) := by
  induction es generalizing found with
  | nil => exact ⟨found, rfl, by simp⟩
  | cons e es ih =>
      obtain ⟨⟨_, found₁⟩, first, finds₁⟩ := walks e List.mem_cons_self found
        (.ok (.nonDatetime, found))
      obtain ⟨found', rest, finds⟩ := ih (fun e he => walks e (by simp [he])) found₁
      refine ⟨found', ?_, ?_⟩
      · simp only [List.map_cons, elements, ok_bind, except_pure, first, rest]
      · have finds₁ := finds₁.found
        simp only at finds₁
        simp only [finds, finds₁, List.exists_mem_cons_iff, or_assoc]

theorem fields_ok {fs : List (Expr × Expr)}
    (walks : ∀ f ∈ fs, Walks ctx d current f.1 ∧ Walks ctx d current f.2) (found : Bool) :
    ∃ found', fields ctx d current found (fs.map fun f =>
        (.found fun _ => f.1.node, .found fun _ => f.2.node)) = .ok found' ∧
      (found' = true ↔
        found = true ∨ ∃ e ∈ fs.flatMap fun (k, v) => [k, v], MutableIn ctx current e) := by
  induction fs generalizing found with
  | nil => exact ⟨found, rfl, by simp⟩
  | cons f fs ih =>
      obtain ⟨key, value⟩ := walks f List.mem_cons_self
      obtain ⟨⟨_, found₁⟩, first, finds₁⟩ := key found (.ok (.nonDatetime, found))
      obtain ⟨⟨_, found₂⟩, second, finds₂⟩ := value found₁ (.ok (.nonDatetime, found₁))
      obtain ⟨found', rest, finds⟩ := ih (fun f hf => walks f (by simp [hf])) found₂
      refine ⟨found', ?_, ?_⟩
      · simp only [List.map_cons, fields, ok_bind, except_pure, first, second, rest]
      · have finds₁ := finds₁.found
        have finds₂ := finds₂.found
        simp only at finds₁ finds₂
        simp only [finds, finds₂, finds₁, List.flatMap_cons, List.cons_append, List.nil_append,
          List.exists_mem_cons_iff, or_assoc]

/-- An item is a mutable comparison, or one is met in an operand that counts. -/
def MutableAt (ctx : Context) (current status : DatetimeStatus)
    (x : Item String Expr (Option Expr)) : Prop :=
  Compares ctx current x ∨
    ∃ e ∈ x.operands, OutsideTemplate x ∧ MutableIn ctx (currentBelow current status x) e

theorem binary_finds {op : BinaryOp} {l r : Expr} {left right : DatetimeStatus}
    {found₁ found₂ : Bool}
    (finds₁ : Finds (left, found₁) (false = true ∨ MutableIn ctx current l)
      (ctx.statusOf current .nonDatetime l))
    (finds₂ : Finds (right, found₂) (found₁ = true ∨ MutableIn ctx current r)
      (ctx.statusOf current .nonDatetime r)) :
    (found₂ || (op.isComparison && left.comparisonIsMutable right)) = true ↔
      MutableAt ctx current status (.binary op l r) := by
  have inside : found₂ = true ↔ MutableIn ctx current l ∨ MutableIn ctx current r := by
    simpa [finds₁.found] using finds₂.found
  have outside : OutsideTemplate (.binary op l r) := by simp [OutsideTemplate, Item.kind]
  simp only [MutableAt, Compares, Item.operands_binary, outside, true_and, currentBelow,
    List.exists_mem_cons_iff, List.not_mem_nil, false_and, exists_false, or_false, ← inside]
  cases found₂ with
  | true => simp
  | false =>
      -- The statuses of both operands are known, since nothing was found in them.
      have nothing : found₁ = false := Bool.eq_false_iff.2 fun found =>
        Bool.false_ne_true (inside.2 (.inl (by simpa using finds₁.found.1 found)))
      have first : left = ctx.statusOf current .nonDatetime l := finds₁.status nothing
      have second : right = ctx.statusOf current .nonDatetime r := finds₂.status rfl
      simp [first, second]

theorem item_ok {x : Item String Expr (Option Expr)}
    (walks : ∀ e ∈ x.operands, Walks ctx d (currentBelow current status x) e) :
    ∃ found, item ctx d current status (x.map String.toUTF8 (fun e => .found fun _ => e.node)
        fun o => Link.ofOption (o.map Expr.node)) = .ok (ctx.after current status x, found) ∧
      (found = true ↔ MutableAt ctx current status x) := by
  have only {found : Bool} {x : Item String Expr (Option Expr)} (single : ¬ Compares ctx current x)
      (outside : OutsideTemplate x)
      (finds : found = true ↔
        ∃ e ∈ x.operands, MutableIn ctx (currentBelow current status x) e) :
      found = true ↔ MutableAt ctx current status x := by
    simp only [finds, MutableAt, single, outside, false_or, true_and]
  have nothing {x : Item String Expr (Option Expr)} (single : ¬ Compares ctx current x)
      (empty : x.operands = []) : false = true ↔ MutableAt ctx current status x := by
    simp [MutableAt, single, empty]
  cases x with
  | null | string | numeric | bool | key | root | current | last | anyArray | anyKey | any
  | method => exact ⟨false, rfl, nothing id rfl⟩
  | var s =>
      refine ⟨false, ?_, nothing id rfl⟩
      simp only [Item.map, item, Print.legible_toUTF8, ok_bind]
      rfl
  | binary op l r =>
      obtain ⟨⟨left, found₁⟩, first, finds₁⟩ := walks l (by simp) false
        (.error (.fault (.missingOperand (.binary op) .left)))
      obtain ⟨⟨right, found₂⟩, second, finds₂⟩ := walks r (by simp) found₁
        (.error (.fault (.missingOperand (.binary op) .right)))
      refine ⟨_, ?_, binary_finds finds₁ finds₂⟩
      simp only [currentBelow] at first second
      simp only [Item.map, item, except_throw, first, second, ok_bind]
      rfl
  | unary op a =>
      obtain ⟨⟨_, found⟩, argument, finds⟩ := walks a (by simp) false (.ok (.nonDatetime, false))
      refine ⟨found, ?_, only id (by simp [OutsideTemplate, Item.kind])
        (by simpa using finds.found)⟩
      cases op <;>
        simp only [Item.map, item, except_pure, currentBelow] at argument ⊢ <;>
        simp only [argument, ok_bind] <;> rfl
  | likeRegex e p f =>
      obtain ⟨⟨_, found⟩, operand, finds⟩ := walks e (by simp) false
        (.error (.fault (.missingOperand .likeRegex .operand)))
      refine ⟨found, ?_, only id (by simp [OutsideTemplate, Item.kind])
        (by simpa using finds.found)⟩
      simp only [currentBelow] at operand
      simp only [Item.map, item, except_throw, operand, ok_bind]
      rfl
  | datetime o =>
      refine ⟨false, ?_, ?_⟩
      · simp only [Item.map, item, templateStatus_eq, ok_bind]
        rfl
      · simp [MutableAt, Compares, OutsideTemplate, Item.kind]
  | array o =>
      obtain ⟨_, found, argument, finds⟩ := walks_optional
        (fun e he => walks e (by simpa using he)) false
      refine ⟨found, ?_, only id (by simp [OutsideTemplate, Item.kind]) (by simpa using finds)⟩
      simp only [currentBelow] at argument
      simp only [Item.map, item, except_pure, argument, ok_bind]
      rfl
  | indexArray ss =>
      obtain ⟨found, inside, finds⟩ := subscripts_ok (Item.forall_operands_indexArray walks) false 0
      refine ⟨found, ?_, only id (by simp [OutsideTemplate, Item.kind]) (by simpa using finds)⟩
      simp only [currentBelow] at inside
      simp only [Item.map, item, inside, ok_bind]
      rfl
  | sequence es =>
      obtain ⟨found, inside, finds⟩ := elements_ok (fun e he => walks e (by simpa using he)) false
      refine ⟨found, ?_, only id (by simp [OutsideTemplate, Item.kind]) (by simpa using finds)⟩
      simp only [currentBelow] at inside
      simp only [Item.map, item, inside, ok_bind]
      rfl
  | object fs =>
      obtain ⟨found, inside, finds⟩ := fields_ok (Item.forall_operands_object walks) false
      refine ⟨found, ?_, only id (by simp [OutsideTemplate, Item.kind]) (by simpa using finds)⟩
      simp only [currentBelow] at inside
      simp only [Item.map, item, inside, ok_bind]
      rfl

theorem items_ok (ctx : Context) (e : Expr) {d : Descent} (h : d.Holds e)
    (current status : DatetimeStatus) (found : Bool) :
    ∃ r, items ctx d current status found e.node = .ok r ∧
      Finds r (found = true ∨ Occurrence.Mutable ctx OutsideTemplate ⟨current, status, e⟩)
        (ctx.statusOf current status e) := by
  induction e using Expr.operandInduction generalizing d current status found with
  | mk x next operands rest =>
      have walks (e : Expr) (he : e ∈ x.operands) (current : DatetimeStatus) :
          Walks ctx d current e := by
        intro found missing
        obtain ⟨d', entered, held⟩ := h.operand he
        rw [operand]
        simp only [Print.enter_eq_ok entered, ok_bind]
        exact operands e he held current .nonDatetime found
      rw [Expr.node_mk, items]
      cases found with
      | true => exact ⟨_, rfl, by simp, nofun⟩
      | false =>
          have here (e : Expr) (he : e ∈ x.operands) :
              Walks ctx d (currentBelow current status x) e := walks e he _
          obtain ⟨found, first, finds⟩ := item_ok here
          have met : Occurrence.Mutable ctx OutsideTemplate ⟨current, status, .mk x next⟩ ↔
              found = true ∨ ∃ e, next = some e ∧ Occurrence.Mutable ctx OutsideTemplate
                ⟨current, ctx.after current status x, e⟩ := by
            rw [Occurrence.mutable_mk, finds, MutableAt, or_assoc]
            rfl
          simp only [first, ok_bind, Bool.false_eq_true, if_false, false_or]
          cases next with
          | none => exact ⟨_, rfl, by simp [met], fun _ => rfl⟩
          | some e =>
              obtain ⟨r, walked, finds⟩ := rest e rfl h.next current
                (ctx.after current status x) found
              exact ⟨r, walked, by simpa [met] using finds.found, finds.status⟩

/-- Mutability is decided for an expression that nests within the limit: it is mutable if a mutable
comparison is met outside of datetime templates. -/
theorem isMutable_node_of_room {limits : Limits} (running : limits.isCancelled = false) {e : Expr}
    (room : e.depth ≤ limits.recursionLimit.toNat) (ctx : Context) :
    ∃ r, e.node.isMutable ctx limits = .ok r ∧ (r = true ↔ MutableIn ctx .nonDatetime e) := by
  obtain ⟨d, entered, held⟩ := Limits.exists_holds running room
  obtain ⟨r, walked, finds⟩ := items_ok ctx e held .nonDatetime .nonDatetime false
  rw [Node.isMutable, Print.enter_eq_ok entered, ok_bind, walked]
  exact ⟨_, rfl, by simpa [MutableIn, Occurrence.operand] using finds.found⟩

theorem isMutable_node_ok {e : Expr} (h : e.depth ≤ Limits.unbounded.recursionLimit.toNat)
    (ctx : Context) :
    ∃ r, e.node.isMutable ctx .unbounded = .ok r ∧ (r = true ↔ MutableIn ctx .nonDatetime e) :=
  isMutable_node_of_room rfl h ctx

end FlatPath.Mutability
