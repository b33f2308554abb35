import FlatPath.Proofs.Loading
import FlatPath.Proofs.Readers

/-!
The classification of a buffer that was opened. It says of the expression in the buffer whether a
comparison that depends on the time zone is met in it, but it never looks into the template of a
datetime method. In strict mode nothing is mutable that is not mutable in lax mode.
-/

namespace FlatPath

open Relation

namespace Mutability

/-- A datetime method whose template is not a string fails when it is run. -/
def FailingTemplate : Item String Expr (Option Expr) → Prop
  | .datetime (some template) => template.item.kind ≠ .string
  | _ => False

/-- A template that starts with a string goes no further. -/
def LiteralTemplate : Item String Expr (Option Expr) → Prop
  | .datetime (some template) => template.item.kind = .string → template.next = none
  | _ => True

/-- The operands of every item count but the templates that fail. -/
def Runs (x : Item String Expr (Option Expr)) : Prop :=
  ¬ FailingTemplate x

theorem OutsideTemplate.runs {x : Item String Expr (Option Expr)} (h : OutsideTemplate x) :
    Runs x := by
  cases x with
  | datetime => exact absurd rfl h
  | _ => exact id

/-- No comparison is met in a string. -/
theorem not_mutable_of_string {ctx : Context} {counts : Item String Expr (Option Expr) → Prop}
    {current status : DatetimeStatus} {e : Expr} (text : e.item.kind = .string)
    (ends : e.next = none) : ¬ Occurrence.Mutable ctx counts ⟨current, status, e⟩ := by
  obtain ⟨x, next⟩ := e
  obtain rfl : next = none := ends
  rw [Occurrence.mutable_mk]
  cases x with
  | string s =>
      rintro (compares | ⟨_, mem, _⟩ | ⟨_, further, _⟩)
      · cases compares
      · cases mem
      · cases further
  | _ => cases text

/-- Where templates that start with a string are no more than it, they hide no comparison. -/
theorem Occurrence.Mutable.outside {ctx : Context} {scope : Scope}
    {current status : DatetimeStatus} {e : Expr}
    (literal : e.Everywhere (fun _ => LiteralTemplate) scope)
    (h : Occurrence.Mutable ctx Runs ⟨current, status, e⟩) :
    Occurrence.Mutable ctx OutsideTemplate ⟨current, status, e⟩ := by
  induction e using Expr.operandInduction generalizing scope current status with
  | mk x next operands rest =>
      obtain ⟨here, below, behind⟩ := literal
      rw [Occurrence.mutable_mk] at h ⊢
      obtain compares | ⟨e, mem, counted, inside⟩ | ⟨e, he, further⟩ := h
      · exact .inl compares
      · have outside : OutsideTemplate x := by
          intro method
          cases x with
          | datetime template =>
              -- The template does not fail, so it is a string and ends there.
              obtain rfl : template = some e := by simpa using mem
              have text : e.item.kind = .string := not_not.1 counted
              exact not_mutable_of_string text (here text) inside
          | _ => cases method
        obtain ⟨s, slot, content⟩ := Item.mem_operands_iff_slot.1 mem
        exact .inr (.inl ⟨e, mem, outside, operands e mem (below s slot e content) inside⟩)
      · exact .inr (.inr ⟨e, he, rest e he (behind e he) further⟩)

end Mutability

open Mutability

namespace Specimen

/-- `$x < $y`. -/
def less : Expr :=
  .single (.binary .less (.single (.var "x")) (.single (.var "y")))

/-- `$?($x < $y)`. -/
def filter : Expr :=
  .mk .root (some (.single (.unary .filter less)))

/-- `$.datetime($x < $y)`. -/
def failing : Expr :=
  .mk .root (some (.single (.datetime (some less))))

/-- `$?($x < $y)`, as it is encoded. -/
def filterBuffer : Buffer where
  header := {}
  payload := ⟨#[27, 0, 0, 0, 8, 0, 0, 0, 29, 0, 0, 0, 0, 0, 0, 0, 12, 0, 0, 0,
    10, 0, 0, 0, 0, 0, 0, 0, 16, 0, 0, 0, 30, 0, 0, 0, 28, 0, 0, 0, 0, 0, 0, 0, 1, 0, 0, 0, 120, 0,
    28, 0, 0, 0, 0, 0, 1, 0, 0, 0, 121, 0]⟩

/-- `$.datetime("HH24"?($x < $y))`, as it is encoded. -/
def templateBuffer : Buffer where
  header := {}
  payload := ⟨#[27, 0, 0, 0, 8, 0, 0, 0, 37, 0, 0, 0, 0, 0, 0, 0, 12, 0, 0, 0,
    1, 0, 0, 0, 17, 0, 0, 0, 4, 0, 0, 0, 72, 72, 50, 52, 0, 29, 0, 0, 0, 0, 0, 0, 11, 0, 0, 0,
    10, 0, 0, 0, 0, 0, 0, 0, 16, 0, 0, 0, 30, 0, 0, 0, 28, 0, 0, 0, 0, 0, 0, 0, 1, 0, 0, 0, 120, 0,
    28, 0, 0, 0, 0, 0, 1, 0, 0, 0, 121, 0]⟩

/-- A date `$x` and a time with a zone `$y`. -/
def zones : Bindings :=
  .ofList [("x", .date), ("y", .timeTz)]

end Specimen

open Specimen

namespace Buffer

variable {bytes : ByteArray} {limits : Limits} {b : Buffer}

/-- A buffer that was opened is classified in both modes and under all bindings. It is mutable if a
comparison that depends on the time zone is met outside of datetime templates, and only if one is
met outside of the templates that fail; that is the same where a template that starts with a string
goes no further. -/
theorem isMutable_of_load (h : load bytes limits = .ok b) :
    ∃ root e, b.root = .ok root ∧ root.expr? = some e ∧
      ∀ bindings lax, ∃ r, root.node.isMutable ⟨bindings, lax⟩ .unbounded = .ok r ∧
        ((Occurrence.operand .nonDatetime e).Mutable ⟨bindings, lax⟩ OutsideTemplate → r = true) ∧
        (r = true → (Occurrence.operand .nonDatetime e).Mutable ⟨bindings, lax⟩ Runs) ∧
        (e.Everywhere (fun _ => LiteralTemplate) .top →
          (r = true ↔ (Occurrence.operand .nonDatetime e).Mutable ⟨bindings, lax⟩ Runs)) := by
  obtain ⟨root, e, first, read, _, depth⟩ := expr?_of_load h
  refine ⟨root, e, first, read, fun bindings lax => ?_⟩
  obtain ⟨r, decided, exact⟩ := isMutable_node_ok (Limits.le_unbounded depth) ⟨bindings, lax⟩
  have sound (found : r = true) :
      (Occurrence.operand .nonDatetime e).Mutable ⟨bindings, lax⟩ Runs :=
    (exact.1 found).mono fun _ => OutsideTemplate.runs
  rw [Cursor.node_of_expr? read]
  exact ⟨r, decided, exact.2, sound, fun literal =>
    ⟨sound, fun met => exact.2 (met.outside literal)⟩⟩

/-- `$?($x < $y)` is mutable if `$x` is a date and `$y` a time with a zone. -/
theorem isMutable_of_load_filter :
    ∃ b root, Path.encode { expr := filter } {} = .ok b ∧ load b.bytes {} = .ok b ∧
      b.root = .ok root ∧ root.expr? = some filter ∧
      (Occurrence.operand .nonDatetime filter).Mutable ⟨zones, true⟩ OutsideTemplate ∧
      root.node.isMutable ⟨zones, true⟩ .unbounded = .ok true := by
  obtain ⟨b, encoded⟩ := exists_ok (x := Path.encode { expr := filter } {}) (by decide +kernel)
  have loaded := Path.load_of_encode_layout encoded (by decide +kernel)
  obtain ⟨root, e, first, read, classified⟩ := isMutable_of_load loaded
  obtain ⟨root', first', read'⟩ := Path.root_of_encode encoded
  cases first.symm.trans first'
  cases read.symm.trans read'
  have met : (Occurrence.operand .nonDatetime filter).Mutable ⟨zones, true⟩ OutsideTemplate :=
    ⟨_, .head .next (.single (.operand nofun List.mem_cons_self)), rfl, rfl⟩
  obtain ⟨r, decided, found, _⟩ := classified zones true
  rw [found met] at decided
  exact ⟨b, root, encoded, loaded, first, read, met, decided⟩

/-- In `$.datetime($x < $y)` a mutable comparison stands in the template, but the path is not
mutable. -/
theorem not_isMutable_of_mutable :
    ∃ b root, Path.encode { expr := failing } {} = .ok b ∧ load b.bytes {} = .ok b ∧
      b.root = .ok root ∧ root.expr? = some failing ∧
      (Occurrence.operand .nonDatetime failing).Mutable ⟨zones, true⟩ (fun _ => True) ∧
      root.node.isMutable ⟨zones, true⟩ .unbounded = .ok false := by
  obtain ⟨b, encoded⟩ := exists_ok (x := Path.encode { expr := failing } {}) (by decide +kernel)
  have loaded := Path.load_of_encode_layout encoded (by decide +kernel)
  obtain ⟨root, first, read⟩ := Path.root_of_encode encoded
  refine ⟨b, root, encoded, loaded, first, read, ?_, ?_⟩
  · exact ⟨_, .head .next (.single (.operand trivial List.mem_cons_self)), rfl, rfl⟩
  · rw [Cursor.node_of_expr? read]
    rfl

/-- A buffer that was opened is classified in both modes, and what makes it mutable in strict mode
makes it mutable in lax mode too. -/
theorem isMutable_lax_of_strict (h : load bytes limits = .ok b) :
    ∃ root, b.root = .ok root ∧ ∀ bindings, ∃ strict lax,
      root.node.isMutable ⟨bindings, false⟩ .unbounded = .ok strict ∧
        root.node.isMutable ⟨bindings, true⟩ .unbounded = .ok lax ∧
        (strict = true → lax = true) := by
  obtain ⟨root, e, first, read, _, depth⟩ := expr?_of_load h
  have depth := Limits.le_unbounded depth
  refine ⟨root, first, fun bindings => ?_⟩
  obtain ⟨strict, decided, inside⟩ := isMutable_node_ok depth ⟨bindings, false⟩
  obtain ⟨lax, decided', inside'⟩ := isMutable_node_ok depth ⟨bindings, true⟩
  rw [Cursor.node_of_expr? read]
  refine ⟨strict, lax, decided, decided', fun found => inside'.2 ?_⟩
  exact (Refines.refl _).mutable_within (Context.strict_within_lax bindings) (.refl _)
    (inside.1 found)

/-- `$?($x < $y)` is mutable in both modes if `$x` is a date and `$y` a time with a zone. -/
theorem isMutable_lax_of_strict_filter :
    ∃ root, load filterBuffer.bytes {} = .ok filterBuffer ∧ filterBuffer.root = .ok root ∧
      root.node.isMutable ⟨zones, false⟩ .unbounded = .ok true ∧
      root.node.isMutable ⟨zones, true⟩ .unbounded = .ok true := by
  have loaded : load filterBuffer.bytes {} = .ok filterBuffer :=
    load_bytes_of_isOk rfl (by decide +kernel)
  have found : (⟨filterBuffer.payload, 0, by decide, .root, 8⟩ : Cursor).node.isMutable
      ⟨zones, false⟩ .unbounded = .ok true := by cbv
  obtain ⟨root, first, classified⟩ := isMutable_lax_of_strict loaded
  cases first.symm.trans rfl
  obtain ⟨strict, lax, decided, decided', implies⟩ := classified zones
  cases found.symm.trans decided
  obtain rfl := implies rfl
  exact ⟨_, loaded, first, found, decided'⟩

end Buffer

section Links

variable {payload : ByteArray} {i j : Nat} {c c' : Cursor} {x : Item String Expr (Option Expr)}
  {next : Option Expr}

/-- Links lead from the first item to this one that pass by the templates of datetime methods. -/
inductive ReachableOutside (payload : ByteArray) : Nat → Prop
  | first : ReachableOutside payload 0
  | next {i j : Nat} (reach : ReachableOutside payload i) (link : Leads payload i .next j) :
      ReachableOutside payload j
  | operand {i j : Nat} {c : Cursor} {role : Role} (reach : ReachableOutside payload i)
      (decoded : Cursor.decode payload i = .ok c) (outside : c.kind ≠ .datetime)
      (link : Leads payload i (.operand role) j) : ReachableOutside payload j

namespace Cursor

/-- What is read back behind an offset is read back at its target. -/
theorem expr?_of_operand? (decoded : decode payload i = .ok c) {offset : UInt32} {o : Option Expr}
    (back : c.operand? offset = some o) (present : offset ≠ 0)
    (target : decode payload (i + offset.toNat) = .ok c') :
    ∃ e, o = some e ∧ c'.expr? = some e := by
  obtain ⟨rfl, rfl⟩ := decode_eq_ok decoded
  cases o with
  | none => exact absurd (operand?_eq_none.1 back) present
  | some e =>
      obtain ⟨_, child, found, read⟩ := operand?_eq_some.1 back
      cases found.symm.trans target
      exact ⟨e, rfl, read⟩

namespace StandsFor

theorem of_next (h : c.StandsFor x next) (decoded : decode payload i = .ok c)
    (link : Leads payload i .next j) (target : decode payload j = .ok c') :
    ∃ e, next = some e ∧ c'.expr? = some e := by
  obtain ⟨_, offset, decoded', mem, rfl⟩ := link
  cases decoded.symm.trans decoded'
  obtain ⟨present, ⟨s, _, same⟩ | same⟩ := mem_links.1 mem
  · cases same
  · cases same
    exact expr?_of_operand? decoded h.next present target

theorem of_operand (h : c.StandsFor x next) (decoded : decode payload i = .ok c) {role : Role}
    (link : Leads payload i (.operand role) j) (target : decode payload j = .ok c') :
    ∃ e ∈ x.operands, c'.expr? = some e := by
  obtain ⟨_, offset, decoded', mem, rfl⟩ := link
  cases decoded.symm.trans decoded'
  obtain ⟨present, ⟨s, slot, same⟩ | same⟩ := mem_links.1 mem
  · cases same
    obtain ⟨o, mem, back⟩ := h.slot slot
    obtain ⟨e, rfl, read⟩ := expr?_of_operand? decoded back present target
    exact ⟨e, Item.mem_operands_iff_slot.2 ⟨_, mem, rfl⟩, read⟩
  · cases same

end StandsFor

end Cursor

/-- An item that is reached outside of templates stands for an occurrence in the expression. -/
theorem ReachableOutside.exists_occurrence {root : Cursor} {e : Expr}
    (reach : ReachableOutside payload i) (ctx : Context)
    (first : Cursor.decode payload 0 = .ok root) (read : root.expr? = some e)
    (decoded : Cursor.decode payload i = .ok c) :
    ∃ o, ReflTransGen (Occurrence.Step ctx OutsideTemplate) (.operand .nonDatetime e) o ∧
      c.expr? = some o.expr := by
  induction reach generalizing c with
  | first =>
      cases first.symm.trans decoded
      exact ⟨_, .refl, read⟩
  | next _ link ih =>
      have ⟨_, _, found, _⟩ := link
      obtain ⟨⟨current, status, x, next⟩, steps, owned⟩ := ih found
      have stands := Cursor.expr?_eq_some.1 owned
      obtain ⟨e, rfl, read⟩ := stands.of_next found link decoded
      exact ⟨_, steps.tail .next, read⟩
  | operand _ found outside link ih =>
      obtain ⟨⟨current, status, x, next⟩, steps, owned⟩ := ih found
      have stands := Cursor.expr?_eq_some.1 owned
      obtain ⟨e, mem, read⟩ := stands.of_operand found link decoded
      have counted : OutsideTemplate x := by
        rw [OutsideTemplate, stands.kind]
        exact outside
      exact ⟨_, steps.tail (.operand counted mem), read⟩

end Links

namespace Buffer

variable {bytes : ByteArray} {limits : Limits} {b : Buffer}

/-- A buffer that was opened is mutable if the chain from some item on is, wherever the item stands
outside of datetime templates. -/
theorem isMutable_of_reachable (h : load bytes limits = .ok b) {root c : Cursor} {i : Nat}
    (first : b.root = .ok root) (reach : ReachableOutside b.payload i)
    (decoded : Cursor.decode b.payload i = .ok c) {bindings : Bindings} {lax : Bool}
    (part : c.node.isMutable ⟨bindings, lax⟩ .unbounded = .ok true) :
    root.node.isMutable ⟨bindings, lax⟩ .unbounded = .ok true := by
  obtain ⟨root', e, first', read, _, depth⟩ := expr?_of_load h
  cases first.symm.trans first'
  obtain ⟨o, steps, read'⟩ := reach.exists_occurrence ⟨bindings, lax⟩ (root_eq_ok.1 first) read
    decoded
  have within : o.expr.depth ≤ e.depth := Occurrence.depth_le steps
  have depth := Limits.le_unbounded depth
  obtain ⟨r', decided', inside⟩ := isMutable_node_ok (Nat.le_trans within depth) ⟨bindings, lax⟩
  rw [Cursor.node_of_expr? read', decided'] at part
  cases part
  -- On its own the part knows nothing of `@` and of its subject; in its place it may know more.
  obtain ⟨o', further, compares⟩ := (Refines.bot o.current).mutable (.bot o.status) (inside.1 rfl)
  obtain ⟨r, decided, whole⟩ := isMutable_node_ok depth ⟨bindings, lax⟩
  rw [Cursor.node_of_expr? read, decided, whole.2 ⟨o', steps.trans further, compares⟩]

theorem isMutable_of_reachable_filter :
    ∃ root c, load filterBuffer.bytes {} = .ok filterBuffer ∧ filterBuffer.root = .ok root ∧
      ReachableOutside filterBuffer.payload 20 ∧ Cursor.decode filterBuffer.payload 20 = .ok c ∧
      c.node.isMutable ⟨zones, true⟩ .unbounded = .ok true ∧
      root.node.isMutable ⟨zones, true⟩ .unbounded = .ok true := by
  have loaded : load filterBuffer.bytes {} = .ok filterBuffer :=
    load_bytes_of_isOk rfl (by decide +kernel)
  let root : Cursor := ⟨filterBuffer.payload, 0, by decide, .root, 8⟩
  let owner : Cursor := ⟨filterBuffer.payload, 8, by decide, .unary .filter 12, 0⟩
  have atOwner : Cursor.decode filterBuffer.payload 8 = .ok owner := rfl
  have next : Leads filterBuffer.payload 0 .next 8 :=
    ⟨root, 8, rfl, Cursor.mem_links.2 ⟨by decide, .inr rfl⟩, rfl⟩
  have argument : Leads filterBuffer.payload 8 (.operand .argument) 20 :=
    ⟨owner, 12, rfl, Cursor.mem_links.2 ⟨by decide, .inl ⟨_, List.mem_cons_self, rfl⟩⟩, rfl⟩
  have reach : ReachableOutside filterBuffer.payload 20 :=
    .operand (.next .first next) atOwner nofun argument
  have part : (⟨filterBuffer.payload, 20, by decide, .binary .less 16 30, 0⟩ :
      Cursor).node.isMutable ⟨zones, true⟩ .unbounded = .ok true := by cbv
  exact ⟨root, _, loaded, rfl, reach, rfl, part,
    isMutable_of_reachable loaded rfl reach rfl part⟩

/-- In `$.datetime("HH24"?($x < $y))` the comparison is mutable, but the path is not. -/
theorem not_isMutable_of_reachable_template :
    ∃ root c, load templateBuffer.bytes {} = .ok templateBuffer ∧ templateBuffer.root = .ok root ∧
      Reachable templateBuffer.payload 48 ∧ Cursor.decode templateBuffer.payload 48 = .ok c ∧
      c.node.isMutable ⟨zones, true⟩ .unbounded = .ok true ∧
      root.node.isMutable ⟨zones, true⟩ .unbounded = .ok false := by
  obtain ⟨_, accepted⟩ := exists_ok
    (x := verify templateBuffer.payload templateBuffer.header.hasExtensions {}) (by decide +kernel)
  have decodes : Decodes templateBuffer.payload 0 := ((Verify.ok_iff rfl).1 accepted).1.decodes
  have reach : Reachable templateBuffer.payload 48 := (mem_tour decodes).1 (by decide +kernel)
  have part : (⟨templateBuffer.payload, 48, by decide, .binary .less 16 30, 0⟩ :
      Cursor).node.isMutable ⟨zones, true⟩ .unbounded = .ok true := by cbv
  have whole : (⟨templateBuffer.payload, 0, by decide, .root, 8⟩ : Cursor).node.isMutable
      ⟨zones, true⟩ .unbounded = .ok false := by cbv
  exact ⟨_, _, load_bytes rfl accepted, rfl, reach, rfl, part, whole⟩

end Buffer

end FlatPath
