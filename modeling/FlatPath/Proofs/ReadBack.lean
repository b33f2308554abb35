import FlatPath.Buffer.Tree
import FlatPath.Proofs.Operands

/-!
The expression behind a cursor. `Cursor.expr?` reads it back item by item, and a reader of the tree
below the cursor finds the tree of that expression: whatever is said of a reader on the trees of
expressions holds of it on every cursor that can be read back.
-/

namespace FlatPath

theorem fromUTF8?_toUTF8 (s : String) : String.fromUTF8? s.toUTF8 = some s := by
  simp only [String.fromUTF8?, String.toUTF8_eq_toByteArray, dif_pos s.isValidUTF8]
  rfl

theorem toUTF8_of_fromUTF8? {bytes : ByteArray} {s : String}
    (h : String.fromUTF8? bytes = some s) : s.toUTF8 = bytes := by
  rw [String.fromUTF8?] at h
  split at h
  · obtain rfl := Option.some.inj h
    rfl
  · cases h

theorem Cursor.follow_eq_some {c child : Cursor} {offset : UInt32}
    (h : c.follow offset = .ok (some child)) :
    offset ≠ 0 ∧ Cursor.decode c.payload (c.position + offset.toNat) = .ok child ∧
      child.payload = c.payload ∧ child.position = c.position + offset.toNat ∧
      c.position < child.position := by
  rw [Cursor.follow] at h
  split at h
  · cases h
  · next present =>
      split at h
      · next decoded =>
          cases h
          obtain ⟨payload, position⟩ := Cursor.decode_eq_ok decoded
          have := Bytes.toNat_pos present
          exact ⟨present, decoded, payload, position, by omega⟩
      · cases h

theorem Cursor.follow_eq_none {c : Cursor} {offset : UInt32} (h : c.follow offset = .ok none) :
    offset = 0 := by
  rw [Cursor.follow] at h
  split at h
  · assumption
  · split at h <;> cases h

/-- Reads an item, each operand through its slot and the rest of the chain. There is nothing to read
back if a link leads nowhere, an operand that has to be there is absent or a text is not UTF-8. -/
def Cursor.expr? (c : Cursor) : Option Expr := do
  let below (offset : UInt32) : Option (Option Expr) :=
    match _h : c.follow offset with
    | .ok (some child) => child.expr?.map some
    | .ok none => some none
    | .error _ => none
  let item ← c.record.mapM String.fromUTF8? (fun offset => (below offset).join) below
  return .mk item (← below c.nextOffset)
termination_by c.payload.size - c.position
decreasing_by
  obtain ⟨_, _, payload, _, forward⟩ := follow_eq_some _h
  have := child.inside
  rw [payload] at this ⊢
  omega

namespace Cursor

/-- What is read back behind an offset: an expression, or that none is there. -/
def operand? (c : Cursor) (offset : UInt32) : Option (Option Expr) :=
  match c.follow offset with
  | .ok (some child) => child.expr?.map some
  | .ok none => some none
  | .error _ => none

theorem expr?_eq (c : Cursor) :
    c.expr? = (do
      let item ← c.record.mapM String.fromUTF8? (fun offset => (c.operand? offset).join) c.operand?
      return .mk item (← c.operand? c.nextOffset)) := by
  rw [expr?]
  have below (offset : UInt32) :
      (match _h : c.follow offset with
        | .ok (some child) => child.expr?.map some
        | .ok none => some none
        | .error _ => none : Option (Option Expr)) = c.operand? offset := by
    rw [operand?]
    split <;> simp_all
  simp only [below]

theorem operand?_zero (c : Cursor) : c.operand? 0 = some none := rfl

theorem operand?_of_decode {c child : Cursor} {offset : UInt32} {e : Expr} (present : offset ≠ 0)
    (decoded : decode c.payload (c.position + offset.toNat) = .ok child)
    (read : child.expr? = some e) : c.operand? offset = some (some e) := by
  simp only [operand?, follow, if_neg present, decoded, read, Option.map_some]

/-- A cursor is read back once its texts and all that its links lead to are. -/
theorem exists_expr? {c : Cursor} (texts : ∀ t ∈ c.record.texts, ∃ s, String.fromUTF8? t = some s)
    (required : ∀ s ∈ c.slots, s.required → s.content ≠ 0)
    (links : ∀ offset, offset = c.nextOffset ∨ offset ∈ c.slots.map Slot.content → offset ≠ 0 →
      ∃ child e, decode c.payload (c.position + offset.toNat) = .ok child ∧
        child.expr? = some e) : ∃ e, c.expr? = some e := by
  have found (offset : UInt32) (of : offset = c.nextOffset ∨ offset ∈ c.slots.map Slot.content)
      (present : offset ≠ 0) : ∃ e, c.operand? offset = some (some e) := by
    obtain ⟨child, e, decoded, read⟩ := links offset of present
    exact ⟨e, operand?_of_decode present decoded read⟩
  have optional (offset : UInt32) (of : offset = c.nextOffset ∨ offset ∈ c.slots.map Slot.content) :
      ∃ o, c.operand? offset = some o := by
    by_cases present : offset = 0
    · exact ⟨none, by rw [present, operand?_zero]⟩
    · obtain ⟨e, he⟩ := found offset of present
      exact ⟨some e, he⟩
  obtain ⟨rest, hrest⟩ := optional c.nextOffset (.inl rfl)
  obtain ⟨x, hx⟩ : ∃ x, c.record.mapM String.fromUTF8? (fun offset => (c.operand? offset).join)
      c.operand? = some x := by
    refine Item.exists_mapM texts ?_ fun s hs => optional s.content (.inr (List.mem_map_of_mem hs))
    intro s hs needed
    obtain ⟨e, he⟩ := found s.content (.inr (List.mem_map_of_mem hs)) (required s hs needed)
    exact ⟨e, by rw [he, Option.join_some]⟩
  exact ⟨.mk x rest, by simp [expr?_eq, hx, hrest]⟩

theorem operand?_eq_none {c : Cursor} {offset : UInt32} :
    c.operand? offset = some none ↔ offset = 0 := by
  constructor
  · intro h
    rw [operand?] at h
    split at h
    · simp at h
    · next followed => exact follow_eq_none followed
    · cases h
  · rintro rfl
    exact c.operand?_zero

theorem operand?_eq_some {c : Cursor} {offset : UInt32} {e : Expr} :
    c.operand? offset = some (some e) ↔
      offset ≠ 0 ∧ ∃ child, decode c.payload (c.position + offset.toNat) = .ok child ∧
        child.expr? = some e := by
  constructor
  · intro h
    rw [operand?] at h
    split at h
    · next child followed =>
        obtain ⟨present, decoded, _⟩ := follow_eq_some followed
        exact ⟨present, child, decoded, by simpa using h⟩
    · cases h
    · cases h
  · rintro ⟨present, child, decoded, read⟩
    exact operand?_of_decode present decoded read

/-- The item under the cursor and what follows it in its chain are read back to these. -/
structure StandsFor (c : Cursor) (x : Item String Expr (Option Expr)) (next : Option Expr) :
    Prop where
  item : c.record.mapM String.fromUTF8? (fun offset => (c.operand? offset).join) c.operand? =
    some x
  next : c.operand? c.nextOffset = some next

theorem expr?_eq_some {c : Cursor} {x : Item String Expr (Option Expr)} {next : Option Expr} :
    c.expr? = some (.mk x next) ↔ c.StandsFor x next := by
  rw [expr?_eq]
  constructor
  · intro h
    obtain ⟨_, item, h⟩ := Option.bind_eq_some_iff.1 h
    obtain ⟨_, rest, h⟩ := Option.bind_eq_some_iff.1 h
    cases h
    exact ⟨item, rest⟩
  · rintro ⟨item, rest⟩
    simp [item, rest]

namespace StandsFor

variable {c : Cursor} {x : Item String Expr (Option Expr)} {next : Option Expr}

theorem kind (h : c.StandsFor x next) : x.kind = c.kind :=
  Item.kind_of_mapM h.item

theorem slots (h : c.StandsFor x next) :
    c.slots.map (Slot.map c.operand?) = x.operandSlots.map (Slot.map some) :=
  Item.slots_of_mapM h.item

/-- What is read back behind a slot is the operand in the same role. -/
theorem slot (h : c.StandsFor x next) {s : Slot UInt32} (mem : s ∈ c.slots) :
    ∃ o, ⟨s.role, s.required, o⟩ ∈ x.operandSlots ∧ c.operand? s.content = some o :=
  Item.exists_slot_of_mapM h.item mem

/-- Every operand is read back behind the slot in the same role. -/
theorem operand (h : c.StandsFor x next) {s : Slot (Option Expr)} (mem : s ∈ x.operandSlots) :
    ∃ offset, ⟨s.role, s.required, offset⟩ ∈ c.slots ∧ c.operand? offset = some s.content := by
  have mem : s.map some ∈ c.slots.map (Slot.map c.operand?) := by
    rw [h.slots]
    exact List.mem_map_of_mem mem
  obtain ⟨⟨role, required, offset⟩, mem, same⟩ := List.mem_map.1 mem
  simp only [Slot.map, Slot.mk.injEq] at same
  obtain ⟨rfl, rfl, content⟩ := same
  exact ⟨offset, mem, content⟩

theorem texts (h : c.StandsFor x next) {t : ByteArray} (mem : t ∈ c.record.texts) :
    ∃ s, String.fromUTF8? t = some s :=
  Item.exists_text_of_mapM h.item mem

end StandsFor

end Cursor

/-- An operand as a reader of a tree meets it. -/
def Link.ofOption : Option Node → Link
  | none => .absent
  | some n => .found fun _ => n

@[simp] theorem Link.ofOption_none : ofOption none = .absent := rfl

@[simp] theorem Link.ofOption_some (n : Node) : ofOption (some n) = .found fun _ => n := rfl

/-- The tree of an expression. -/
def Expr.node (e : Expr) : Node :=
  e.fold fun x next =>
    .mk (x.map String.toUTF8 (fun n => .found fun _ => n) Link.ofOption) (Link.ofOption next)

theorem Expr.node_mk (x : Item String Expr (Option Expr)) (next : Option Expr) :
    (mk x next).node =
      .mk (x.map String.toUTF8 (fun e => .found fun _ => e.node)
        fun o => Link.ofOption (o.map node)) (Link.ofOption (next.map node)) := by
  rw [node, fold_mk, Item.map_map]
  rfl

namespace Cursor

/-- What a reader of the tree meets behind an offset. -/
def link (c : Cursor) (offset : UInt32) : Link :=
  if offset = 0 then .absent
  else
    match decode c.payload (c.position + offset.toNat) with
    | .ok child => .found fun _ => child.node
    | .error e => .broken e

theorem node_eq (c : Cursor) :
    c.node = .mk (c.record.map id c.link c.link) (c.link c.nextOffset) := by
  rw [node]
  refine congrArg₂ (fun links next => Node.mk (c.record.map id links links) next)
    (funext fun offset => ?_) ?_
  all_goals
    beta_reduce
    rw [link]
    split
    · rfl
    · split <;> simp_all

/-- A cursor that can be read back stands for the tree of its expression. -/
theorem node_of_expr? {c : Cursor} {e : Expr} (h : c.expr? = some e) : c.node = e.node := by
  induction size : c.payload.size - c.position using Nat.strongRecOn generalizing c e with
  | _ n ih =>
      have link_eq (offset : UInt32) (o : Option Expr) (ho : c.operand? offset = some o) :
          c.link offset = Link.ofOption (o.map Expr.node) := by
        rw [operand?] at ho
        split at ho
        · next child followed =>
            obtain ⟨present, decoded, payload, _, forward⟩ := follow_eq_some followed
            have inside := child.inside
            obtain ⟨e', he', rfl⟩ := Option.map_eq_some_iff.1 ho
            have := ih (child.payload.size - child.position) (by rw [payload] at inside ⊢; omega)
              he' rfl
            simp [link, present, decoded, this, Link.ofOption]
        · next followed =>
            obtain rfl : none = o := by simpa using ho
            simp [link, follow_eq_none followed, Link.ofOption]
        · cases ho
      obtain ⟨x, next⟩ := e
      have stands := expr?_eq_some.1 h
      rw [node_eq, Expr.node_mk, link_eq _ _ stands.next]
      congr 1
      refine Item.map_eq_map_of_mapM ?_ ?_ link_eq stands.item
      · intro bytes s hs
        exact (toUTF8_of_fromUTF8? hs).symm
      · intro offset e he
        simp only [Option.join_eq_some_iff] at he
        rw [link_eq _ _ he]
        rfl

end Cursor

theorem Buffer.root_eq_ok {b : Buffer} {root : Cursor} :
    b.root = .ok root ↔ Cursor.decode b.payload 0 = .ok root := by
  rw [Buffer.root]
  split
  · next decoded => simp [decoded]
  · next refused => simp [refused]

end FlatPath
