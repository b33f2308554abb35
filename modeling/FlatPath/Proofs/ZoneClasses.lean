import FlatPath.Proofs.Classification
import FlatPath.Proofs.ReadingLimits

/-!
What the classification of a path asks of the bindings. It depends on no more than the variables
that occur in the path: whether each is bound, and whether its values are dates or times and carry
a zone. Other names, the order of the declarations and those of a name that was declared before
change nothing.
-/

namespace FlatPath

namespace VarType

/-- Dates and times without a zone are one class, those with a zone are another, and all other
values are the third. -/
def SameZone (t t' : VarType) : Prop :=
  t.isDatetime = t'.isDatetime ∧ t.isZoned = t'.isZoned

instance (t t' : VarType) : Decidable (t.SameZone t') :=
  inferInstanceAs (Decidable (_ ∧ _))

theorem sameZone_iff {t t' : VarType} :
    t.SameZone t' ↔ DatetimeStatus.ofVarType t = DatetimeStatus.ofVarType t' := by
  cases t <;> cases t' <;> decide

/-- Types of one class have one status. -/
theorem map_status_of_rel {o o' : Option VarType} (h : Option.Rel SameZone o o') :
    o.map DatetimeStatus.ofVarType = o'.map DatetimeStatus.ofVarType := by
  cases h with
  | none => rfl
  | some same => exact congrArg some (sameZone_iff.1 same)

end VarType

namespace Bindings

theorem isSome_get? (b : Bindings) (name : String) : (b.get? name).isSome = b.declares name := by
  rw [get?, declares]
  induction b.entries with
  | nil => rfl
  | cons entry entries ih =>
      rw [List.lookup_cons, List.map_cons, List.contains_cons, ← ih]
      cases name == entry.1 <;> rfl

/-- A declaration counts where the name was not declared before. -/
theorem get?_bind (b : Bindings) (name : String) (type : VarType) (name' : String) :
    (b.bind name type).get? name' = (b.get? name').or ([(name, type)].lookup name') := by
  rw [bind, insert]
  split
  · next declared =>
      rw [← isSome_get?] at declared
      rw [List.lookup_cons]
      cases same : name' == name with
      | true =>
          obtain ⟨bound, found⟩ := Option.isSome_iff_exists.1 declared
          rw [eq_of_beq same, found]
          rfl
      | false => rw [List.lookup_nil, Option.or_none]
  · rw [get?, List.lookup_append, get?]

theorem get?_foldl_bind (b : Bindings) (declared : List (String × VarType)) (name : String) :
    (declared.foldl (fun b (name, type) => b.bind name type) b).get? name =
      (b.get? name).or (declared.lookup name) := by
  induction declared generalizing b with
  | nil => simp
  | cons d declared ih =>
      rw [List.foldl_cons, ih, get?_bind, Option.or_assoc, ← List.lookup_append]
      rfl

/-- The first declaration of a name counts. -/
theorem get?_ofList (declared : List (String × VarType)) (name : String) :
    (ofList declared).get? name = declared.lookup name := by
  rw [ofList, get?_foldl_bind]
  rfl

end Bindings

/-- Each of these names is unbound on both sides, or bound on both to types of one class. -/
def AgreeOn (names : List String) (types types' : String → Option VarType) : Prop :=
  ∀ name ∈ names, Option.Rel VarType.SameZone (types name) (types' name)

theorem AgreeOn.alike {names : List String} {bindings bindings' : Bindings}
    (h : AgreeOn names bindings.get? bindings'.get?) (lax : Bool) :
    Mutability.Context.Alike names ⟨bindings, lax⟩ ⟨bindings', lax⟩ :=
  ⟨rfl, fun name mem => VarType.map_status_of_rel (h name mem)⟩

/-- The mutability walk comes to the same in contexts that say the same of the variables. -/
theorem Expr.isMutable_of_alike {e : Expr} {ctx ctx' : Mutability.Context}
    (alike : ctx.Alike e.vars ctx') (limits : Limits) :
    e.node.isMutable ctx limits = e.node.isMutable ctx' limits := by
  cases running : limits.isCancelled with
  | true => rw [e.node.refused_of_cancelled ctx running, e.node.refused_of_cancelled ctx' running]
  | false =>
      have under := Limits.under_of_le running running (Nat.le_refl _)
      exact (cut_isMutable_of_alike under alike.symm).antisymm
        (cut_isMutable_of_alike under alike)

namespace Buffer

variable {bytes : ByteArray} {limits : Limits} {b : Buffer}

open Specimen

/-- A buffer that was opened is classified alike, in either mode and under every limit, where the
variables that occur in it are bound to types of the same classes. Where bindings come from
declarations it is the first declaration of each variable that counts. -/
theorem isMutable_of_agreeOn (h : load bytes limits = .ok b) :
    ∃ root e, b.root = .ok root ∧ root.expr? = some e ∧
      (∀ bindings bindings' : Bindings, AgreeOn e.vars bindings.get? bindings'.get? →
        ∀ lax limits, root.node.isMutable ⟨bindings, lax⟩ limits =
          root.node.isMutable ⟨bindings', lax⟩ limits) ∧
      (∀ declared declared' : List (String × VarType),
        AgreeOn e.vars (declared.lookup ·) (declared'.lookup ·) →
          ∀ lax limits, root.node.isMutable ⟨.ofList declared, lax⟩ limits =
            root.node.isMutable ⟨.ofList declared', lax⟩ limits) ∧
      ∀ bindings lax, ∃ r, root.node.isMutable ⟨bindings, lax⟩ .unbounded = .ok r := by
  obtain ⟨root, e, first, read, _, depth⟩ := expr?_of_load h
  have same (bindings bindings' : Bindings) (agree : AgreeOn e.vars bindings.get? bindings'.get?)
      (lax : Bool) (limits : Limits) : root.node.isMutable ⟨bindings, lax⟩ limits =
        root.node.isMutable ⟨bindings', lax⟩ limits := by
    rw [Cursor.node_of_expr? read]
    exact Expr.isMutable_of_alike (agree.alike lax) limits
  refine ⟨root, e, first, read, same, fun declared declared' agree => ?_, fun bindings lax => ?_⟩
  · refine same _ _ fun name mem => ?_
    rw [Bindings.get?_ofList, Bindings.get?_ofList]
    exact agree name mem
  · rw [Cursor.node_of_expr? read]
    obtain ⟨r, decided, _⟩ := Mutability.isMutable_node_ok (Limits.le_unbounded depth)
      ⟨bindings, lax⟩
    exact ⟨r, decided⟩

/-- For `$?($x < $y)` it makes no difference whether `$x` is a date or a time as long as it has no
zone, in which order the two are declared, and what they are declared to be later on. -/
theorem isMutable_of_agreeOn_filter :
    let declared : List (String × VarType) := [("x", .date), ("y", .timeTz)]
    let declared' : List (String × VarType) :=
      [("xx", .other), ("y", .timestampTz), ("x", .time), ("y", .date), ("x", .timeTz)]
    ∃ b root, Path.encode { expr := filter } {} = .ok b ∧ load b.bytes {} = .ok b ∧
      b.root = .ok root ∧
      root.node.isMutable ⟨.ofList declared, true⟩ .unbounded = .ok true ∧
      root.node.isMutable ⟨.ofList declared', true⟩ .unbounded = .ok true := by
  intro declared declared'
  obtain ⟨b, encoded⟩ := exists_ok (x := Path.encode { expr := filter } {}) (by decide +kernel)
  have loaded := Path.load_of_encode_layout encoded (by decide +kernel)
  obtain ⟨root, e, first, read, _, same, _⟩ := isMutable_of_agreeOn loaded
  obtain ⟨root', first', read'⟩ := Path.root_of_encode encoded
  cases first.symm.trans first'
  cases read.symm.trans read'
  have agree : AgreeOn filter.vars (declared.lookup ·) (declared'.lookup ·) := by
    have vars : filter.vars = ["x", "y"] := rfl
    rw [vars]
    intro name mem
    obtain rfl | rfl : name = "x" ∨ name = "y" := by simpa using mem
    · exact .some (by decide)
    · exact .some (by decide)
  have mutable : root.node.isMutable ⟨.ofList declared, true⟩ .unbounded = .ok true := by
    rw [Cursor.node_of_expr? read]
    rfl
  exact ⟨b, root, encoded, loaded, first, mutable, (same _ _ agree _ _).symm.trans mutable⟩

end Buffer

end FlatPath
