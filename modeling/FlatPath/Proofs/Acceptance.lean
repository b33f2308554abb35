import FlatPath.Proofs.ReadBack
import FlatPath.Proofs.Verification

/-!
The check of a payload, said of the expression that the payload holds. Where the walk passes an
expression is read back, it keeps the rules in the scope of the walk and has room in its limit.
Conversely the walk passes where an expression of that sort is read back.
-/

namespace FlatPath

theorem Cursor.StandsFor.hasDigits_iff {c : Cursor} {x : Item String Expr (Option Expr)}
    {next : Option Expr} (h : c.StandsFor x next) :
    x.HasDigits ↔ ∀ t, c.record = .numeric t → t.size ≠ 0 := by
  have item := h.item
  have kind : x.kind = c.record.kind := h.kind
  cases x with
  | numeric s =>
      cases record : c.record with
      | numeric t =>
          rw [record, Item.mapM, Option.map_eq_some_iff] at item
          obtain ⟨s', legible, same⟩ := item
          cases same
          obtain rfl := toUTF8_of_fromUTF8? legible
          simp [Item.HasDigits]
      | _ =>
          rw [record] at kind
          cases kind
  | _ =>
      refine ⟨fun _ t record => ?_, fun _ => trivial⟩
      rw [record] at kind
      cases kind

namespace Visit

variable {payload : ByteArray} {extensions : Bool} {limit : Nat} {v : Visit} {c : Cursor}

theorem Passes.decoded (h : v.Passes payload extensions limit) :
    ∃ c, Cursor.decode payload v.position = .ok c := by
  obtain ⟨c, sound⟩ := h v .refl
  exact ⟨c, sound.decoded⟩

theorem Passes.operand (h : v.Passes payload extensions limit)
    (decoded : Cursor.decode payload v.position = .ok c) {s : Slot UInt32} (mem : s ∈ c.slots)
    (present : s.content ≠ 0) :
    Passes payload extensions limit
      ⟨v.position + s.content.toNat, v.scope.operand c.kind s.role, v.nesting + 1⟩ := by
  have passes := ((passes_iff decoded).1 h).2.2.2.1 s mem
  rw [OperandPasses, if_neg present] at passes
  exact passes.2

theorem Passes.next (h : v.Passes payload extensions limit)
    (decoded : Cursor.decode payload v.position = .ok c) (present : c.nextOffset ≠ 0) :
    Passes payload extensions limit
      ⟨v.position + c.nextOffset.toNat, v.scope, v.nesting⟩ := by
  have passes := ((passes_iff decoded).1 h).2.2.2.2
  rw [NextPasses, if_neg present] at passes
  exact passes.2

theorem Passes.texts (h : v.Passes payload extensions limit)
    (decoded : Cursor.decode payload v.position = .ok c) :
    ∀ t ∈ c.record.texts, ∃ s, String.fromUTF8? t = some s := by
  intro t mem
  have valid := (textDefect_eq_none.1 ((passes_iff decoded).1 h).2.1).1 t mem
  exact ⟨⟨t, valid⟩, by rw [String.fromUTF8?, dif_pos valid]; rfl⟩

theorem Passes.required (h : v.Passes payload extensions limit)
    (decoded : Cursor.decode payload v.position = .ok c) {s : Slot UInt32} (mem : s ∈ c.slots)
    (required : s.required) : s.content ≠ 0 := by
  intro absent
  have passes := ((passes_iff decoded).1 h).2.2.2.1 s mem
  rw [OperandPasses, if_pos absent, required] at passes
  cases passes

/-- Behind a link that passes an item is found. -/
theorem Passes.follow {offset : UInt32} {scope : Scope} {n : Nat}
    (decoded : Cursor.decode payload v.position = .ok c)
    (h : Passes payload extensions limit ⟨v.position + offset.toNat, scope, n⟩)
    (present : offset ≠ 0) :
    ∃ child, Cursor.decode payload (v.position + offset.toNat) = .ok child ∧
      c.follow offset = .ok (some child) := by
  obtain ⟨child, found⟩ := h.decoded
  obtain ⟨same, position⟩ := Cursor.decode_eq_ok decoded
  refine ⟨child, found, ?_⟩
  simp only at found
  rw [Cursor.follow, if_neg present, same, position, found]

/-- What passes stands for an expression. -/
theorem Passes.exists_expr? (h : v.Passes payload extensions limit)
    (decoded : Cursor.decode payload v.position = .ok c) : ∃ e, c.expr? = some e := by
  induction position : v.position using @linkInduction payload generalizing v c with
  | owner i ih =>
      subst position
      obtain ⟨same, position⟩ := Cursor.decode_eq_ok decoded
      refine Cursor.exists_expr? (h.texts decoded)
        (fun s mem required => h.required decoded mem required) fun offset of present => ?_
      rw [same, position]
      obtain rfl | mem := of
      · obtain ⟨child, found, _⟩ := (h.next decoded present).follow decoded present
        have link := linked_of_mem_links decoded (Cursor.mem_links.2 ⟨present, .inr rfl⟩)
        obtain ⟨e, read⟩ := ih _ link (h.next decoded present) found rfl
        exact ⟨child, e, found, read⟩
      · obtain ⟨s, slot, rfl⟩ := List.mem_map.1 mem
        obtain ⟨child, found, _⟩ := (h.operand decoded slot present).follow decoded present
        have link := linked_of_mem_links decoded
          (Cursor.mem_links.2 ⟨present, .inl ⟨s, slot, rfl⟩⟩)
        obtain ⟨e, read⟩ := ih _ link (h.operand decoded slot present) found rfl
        exact ⟨child, e, found, read⟩

/-- The expression read back where the walk passes keeps the rules, and the limit has room for
it. -/
theorem Passes.keeps (h : v.Passes payload extensions limit)
    (decoded : Cursor.decode payload v.position = .ok c) {e : Expr} (read : c.expr? = some e) :
    e.Everywhere (Item.Admissible extensions) v.scope ∧ v.nesting + e.depth ≤ limit + 1 := by
  induction e using Expr.operandInduction generalizing v c with
  | mk x next operands rest =>
      obtain ⟨same, position⟩ := Cursor.decode_eq_ok decoded
      have stands := Cursor.expr?_eq_some.1 read
      obtain ⟨nesting, text, scope, _, _⟩ := (passes_iff decoded).1 h
      have admissible : x.Admissible extensions v.scope := by
        constructor
        · rw [stands.kind]
          exact scopeDefect_eq_none.1 scope
        · exact stands.hasDigits_iff.2 (textDefect_eq_none.1 text).2
      refine Expr.everywhere_and_depth_mk.2
        ⟨admissible, by omega, fun s mem e he => ?_, fun e he => ?_⟩
      · obtain ⟨offset, slot, back⟩ := stands.operand mem
        obtain ⟨present, child, found, read⟩ := Cursor.operand?_eq_some.1 (back.trans (by rw [he]))
        rw [same, position] at found
        rw [stands.kind]
        have mem := Item.mem_operands_iff_slot.2 ⟨s, mem, he⟩
        exact operands e mem (h.operand decoded slot present) found read
      · obtain ⟨present, child, found, read⟩ :=
          Cursor.operand?_eq_some.1 (stands.next.trans (by rw [he]))
        rw [same, position] at found
        have kept := rest e he (h.next decoded present) found read
        exact kept

/-- Behind an offset that something is read back from stands an item of the payload. -/
theorem exists_target (near : ∀ i ∈ tour payload v.position, i ≤ maxSize)
    (decoded : Cursor.decode payload v.position = .ok c) {place : Place} {offset : UInt32}
    (link : offset ≠ 0 → (place, offset) ∈ c.links) {e : Expr}
    (back : c.operand? offset = some (some e)) :
    (∀ i ∈ tour payload (v.position + offset.toNat), i ≤ maxSize) ∧
      (offset.toNat ≤ maxSize ∧ v.position + offset.toNat < payload.size) ∧
      ∃ child, Cursor.decode payload (v.position + offset.toNat) = .ok child ∧
        child.expr? = some e := by
  obtain ⟨same, position⟩ := Cursor.decode_eq_ok decoded
  obtain ⟨present, child, found, read⟩ := Cursor.operand?_eq_some.1 back
  rw [same, position] at found
  have near (i : Nat) (mem : i ∈ tour payload (v.position + offset.toNat)) : i ≤ maxSize := by
    refine near i ?_
    rw [tour_eq decoded]
    exact List.mem_cons_of_mem _ (List.mem_flatMap.2 ⟨_, link present, mem⟩)
  have here := near _ (by rw [tour_eq found]; exact List.mem_cons_self)
  exact ⟨near, ⟨by omega, Cursor.lt_size_of_decode found⟩, child, found, read⟩

/-- The walk passes where an expression that keeps the rules is read back, as long as the limit has
room for it and no item starts farther away than an offset can span. -/
theorem passes_of_expr? (near : ∀ i ∈ tour payload v.position, i ≤ maxSize)
    (decoded : Cursor.decode payload v.position = .ok c) {e : Expr} (read : c.expr? = some e)
    (rules : e.Everywhere (Item.Admissible extensions) v.scope)
    (room : v.nesting + e.depth ≤ limit + 1) : v.Passes payload extensions limit := by
  induction e using Expr.operandInduction generalizing v c with
  | mk x next operands rest =>
      have stands := Cursor.expr?_eq_some.1 read
      obtain ⟨admissible, _, operandsKept, nextKept⟩ :=
        Expr.everywhere_and_depth_mk.1 ⟨rules, room⟩
      refine (passes_iff decoded).2 ⟨by omega, ?_, ?_, fun s mem => ?_, ?_⟩
      · refine textDefect_eq_none.2 ⟨fun t mem => ?_, stands.hasDigits_iff.1 admissible.digits⟩
        obtain ⟨s, legible⟩ := stands.texts mem
        rw [← toUTF8_of_fromUTF8? legible]
        exact s.isValidUTF8
      · rw [← stands.kind]
        exact scopeDefect_eq_none.2 admissible.placed
      · rw [OperandPasses]
        obtain ⟨o, slot, back⟩ := stands.slot mem
        split
        · next absent =>
            rw [absent, Cursor.operand?_zero, Option.some.injEq] at back
            refine Bool.eq_false_iff.2 fun required => ?_
            have present := Item.isSome_of_required slot required
            rw [← back] at present
            cases present
        · next present =>
            cases o with
            | none => exact absurd (Cursor.operand?_eq_none.1 back) present
            | some e =>
                obtain ⟨near, bounds, child, found, read⟩ := exists_target near decoded
                  (fun present => Cursor.mem_links.2 ⟨present, .inl ⟨s, mem, rfl⟩⟩) back
                have mem : e ∈ x.operands := Item.mem_operands_iff_slot.2 ⟨_, slot, rfl⟩
                obtain ⟨rules, room⟩ := operandsKept _ slot e rfl
                rw [stands.kind] at rules
                exact ⟨bounds, operands e mem near found read rules room⟩
      · rw [NextPasses]
        split
        · trivial
        · next present =>
            cases next with
            | none => exact absurd (Cursor.operand?_eq_none.1 stands.next) present
            | some e =>
                obtain ⟨near, bounds, child, found, read⟩ := exists_target near decoded
                  (fun present => Cursor.mem_links.2 ⟨present, .inr rfl⟩) stands.next
                obtain ⟨rules, room⟩ := nextKept e rfl
                exact ⟨bounds, rest e rfl near found read rules room⟩

end Visit

end FlatPath
