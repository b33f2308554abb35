import FlatPath.Buffer.Outline
import FlatPath.Proofs.Acceptance
import FlatPath.Proofs.MutabilityWalk

/-!
What readers may rely on in a buffer that was checked. Every item that can be reached stands for an
expression, every accessor gives what the kind of the item offers, and the printer, the mutability
walk and the outline come to an end without a fault.
-/

namespace FlatPath

open Relation

/-- Every accessor gives what the item offers. -/
def Cursor.Readable (c : Cursor) : Prop :=
  (∃ o, c.next = .ok o) ∧
    match c.record with
    | .string _ | .key _ | .var _ => ∃ s, c.text = .ok s
    | .numeric _ => ∃ s, c.numericText = .ok s
    | .bool _ => ∃ b, c.boolValue = .ok b
    | .binary _ _ _ => (∃ l, c.left = .ok l) ∧ ∃ r, c.right = .ok r
    | .unary _ _ => ∃ a, c.argument = .ok (some a)
    | .datetime _ | .array _ => ∃ o, c.argument = .ok o
    | .likeRegex _ _ _ =>
      (∃ e, c.regexOperand = .ok e) ∧ (∃ p, c.regexPattern = .ok p) ∧ ∃ f, c.regexFlags = .ok f
    | .any _ => ∃ l, c.levels = .ok l
    | .indexArray _ => ∃ n, c.entryCount = .ok n ∧ ∀ i < n, ∃ s, c.subscript i = .ok s
    | .sequence _ => ∃ n, c.entryCount = .ok n ∧ ∀ i < n, ∃ e, c.sequenceElement i = .ok e
    | .object _ => ∃ n, c.entryCount = .ok n ∧ ∀ i < n, ∃ f, c.objectField i = .ok f
    | .null | .root | .current | .last | .anyArray | .anyKey | .method _ => True

/-- Texts are legible, and each slot leads to an item or is empty and may be. -/
structure Cursor.Whole (c : Cursor) : Prop where
  texts : ∀ t ∈ c.record.texts, ∃ s, String.fromUTF8? t = some s
  slots : ∀ s ∈ c.slots, ∃ o, c.follow s.content = .ok o ∧ (s.required → o.isSome)
  next : ∃ o, c.follow c.nextOffset = .ok o

namespace Cursor.Whole

variable {c : Cursor}

theorem decodeText (h : c.Whole) {t : ByteArray} (mem : t ∈ c.record.texts) (script : Script) :
    ∃ s, FlatPath.decodeText script t = .ok s := by
  obtain ⟨s, legible⟩ := h.texts t mem
  exact ⟨s, by rw [FlatPath.decodeText, legible]⟩

theorem child (h : c.Whole) {s : Slot UInt32} (mem : s ∈ c.slots) (required : s.required)
    (role : Role) : ∃ child, c.child s.content role = .ok child := by
  obtain ⟨o, followed, present⟩ := h.slots s mem
  obtain ⟨child, rfl⟩ := Option.isSome_iff_exists.1 (present required)
  exact ⟨child, by rw [Cursor.child, followed]; rfl⟩

theorem subscript (h : c.Whole) {ss : List (UInt32 × UInt32)} (record : c.record = .indexArray ss)
    {i : Nat} (hi : i < ss.length) : ∃ s, c.subscript i = .ok s := by
  have found := List.getElem?_eq_getElem hi
  have slots : c.slots = Item.pairSlots .start .stop false 0 ss := by
    rw [Cursor.slots, record, Item.slots]
  obtain ⟨start, followed⟩ := h.child (s := ⟨.start (0 + i), true, ss[i].1⟩)
    (slots ▸ Item.mem_pairSlots.2 ⟨i, _, _, found, .inl rfl⟩) rfl (.start i)
  obtain ⟨stop, followed', _⟩ := h.slots ⟨.stop (0 + i), false, ss[i].2⟩
    (slots ▸ Item.mem_pairSlots.2 ⟨i, _, _, found, .inr rfl⟩)
  refine ⟨(start, stop), ?_⟩
  simp only [Cursor.subscript, record, found, followed, followed', ok_bind, except_pure]

theorem sequenceElement (h : c.Whole) {es : List UInt32} (record : c.record = .sequence es)
    {i : Nat} (hi : i < es.length) : ∃ e, c.sequenceElement i = .ok e := by
  have found := List.getElem?_eq_getElem hi
  have slots : c.slots = Item.elementSlots 0 es := by rw [Cursor.slots, record, Item.slots]
  obtain ⟨element, followed⟩ := h.child (s := ⟨.element (0 + i), true, es[i]⟩)
    (slots ▸ Item.mem_elementSlots.2 ⟨i, _, found, rfl⟩) rfl (.element i)
  refine ⟨element, ?_⟩
  simp only [Cursor.sequenceElement, record, found, followed]

theorem objectField (h : c.Whole) {fs : List (UInt32 × UInt32)} (record : c.record = .object fs)
    {i : Nat} (hi : i < fs.length) : ∃ f, c.objectField i = .ok f := by
  have found := List.getElem?_eq_getElem hi
  have slots : c.slots = Item.pairSlots .key .value true 0 fs := by
    rw [Cursor.slots, record, Item.slots]
  obtain ⟨key, followed⟩ := h.child (s := ⟨.key (0 + i), true, fs[i].1⟩)
    (slots ▸ Item.mem_pairSlots.2 ⟨i, _, _, found, .inl rfl⟩) rfl (.key i)
  obtain ⟨value, followed'⟩ := h.child (s := ⟨.value (0 + i), true, fs[i].2⟩)
    (slots ▸ Item.mem_pairSlots.2 ⟨i, _, _, found, .inr rfl⟩) rfl (.value i)
  refine ⟨(key, value), ?_⟩
  simp only [Cursor.objectField, record, found, followed, followed', ok_bind, except_pure]

theorem readable (h : c.Whole) : c.Readable := by
  refine ⟨h.next, ?_⟩
  cases record : c.record with
  | null | root | current | last | anyArray | anyKey | method => trivial
  | string t | key t | var t =>
      obtain ⟨s, legible⟩ := h.decodeText (t := t) (by simp [record, Item.texts]) .text
      exact ⟨s, by rw [text, textBytes, record, ok_bind, legible]⟩
  | numeric t =>
      obtain ⟨s, legible⟩ := h.decodeText (t := t) (by simp [record, Item.texts]) .numeric
      refine ⟨s, ?_⟩
      rw [numericText, record]
      exact legible
  | bool b => exact ⟨b, by rw [boolValue, record]⟩
  | any l => exact ⟨l, by rw [levels, record]⟩
  | binary op l r =>
      obtain ⟨left, followed⟩ := h.child (s := ⟨.left, true, l⟩)
        (by simp [Cursor.slots, record, Item.slots]) rfl .left
      obtain ⟨right, followed'⟩ := h.child (s := ⟨.right, true, r⟩)
        (by simp [Cursor.slots, record, Item.slots]) rfl .right
      refine ⟨⟨left, ?_⟩, right, ?_⟩
      · rw [Cursor.left, record]
        exact followed
      · rw [Cursor.right, record]
        exact followed'
  | unary op a =>
      obtain ⟨o, followed, present⟩ := h.slots ⟨.argument, true, a⟩
        (by simp [Cursor.slots, record, Item.slots])
      obtain ⟨child, rfl⟩ := Option.isSome_iff_exists.1 (present rfl)
      refine ⟨child, ?_⟩
      rw [argument, record]
      exact followed
  | datetime a | array a =>
      obtain ⟨o, followed, _⟩ := h.slots ⟨.argument, false, a⟩
        (by simp [Cursor.slots, record, Item.slots])
      refine ⟨o, ?_⟩
      rw [argument, record]
      exact followed
  | likeRegex e p f =>
      obtain ⟨operand, followed⟩ := h.child (s := ⟨.operand, true, e⟩)
        (by simp [Cursor.slots, record, Item.slots]) rfl .operand
      obtain ⟨s, legible⟩ := h.decodeText (t := p) (by simp [record, Item.texts]) .pattern
      refine ⟨⟨operand, ?_⟩, ⟨s, ?_⟩, f, ?_⟩
      · rw [regexOperand, record]
        exact followed
      · rw [regexPattern, record]
        exact legible
      · rw [regexFlags, record]
  | indexArray ss =>
      exact ⟨ss.length, by rw [entryCount, record], fun i => h.subscript record⟩
  | sequence es =>
      exact ⟨es.length, by rw [entryCount, record], fun i => h.sequenceElement record⟩
  | object fs =>
      exact ⟨fs.length, by rw [entryCount, record], fun i => h.objectField record⟩

end Cursor.Whole

/-- What is listed behind an offset. -/
def Cursor.below (c : Cursor) (offset : UInt32) : Except Fault (List Cursor) :=
  if offset = 0 then .ok []
  else
    match decode c.payload (c.position + offset.toNat) with
    | .ok child => child.preorder
    | .error e => .error (.corrupt e)

theorem Cursor.preorder_eq (c : Cursor) :
    c.preorder = (do
      let operands ← c.slots.mapM fun s => c.below s.content
      let rest ← c.below c.nextOffset
      return c :: (operands.flatten ++ rest)) := by
  rw [preorder]
  refine congrArg₂ (fun (f : Slot UInt32 → Except Fault (List Cursor)) rest => do
      let operands ← c.slots.mapM f
      let rest ← rest
      return c :: (operands.flatten ++ rest)) (funext fun s => ?_) ?_
  all_goals
    beta_reduce
    rw [below]
    split
    · rfl
    · split <;> simp_all

namespace Visit

variable {payload : ByteArray} {extensions : Bool} {limit : Nat} {v : Visit} {c : Cursor}

theorem Passes.whole (h : v.Passes payload extensions limit)
    (decoded : Cursor.decode payload v.position = .ok c) : c.Whole := by
  refine ⟨h.texts decoded, fun s mem => ?_, ?_⟩
  · by_cases absent : s.content = 0
    · exact ⟨none, by rw [Cursor.follow, if_pos absent],
        fun required => absurd absent (h.required decoded mem required)⟩
    · obtain ⟨child, _, followed⟩ := (h.operand decoded mem absent).follow decoded absent
      exact ⟨some child, followed, fun _ => rfl⟩
  · by_cases absent : c.nextOffset = 0
    · exact ⟨none, by rw [Cursor.follow, if_pos absent]⟩
    · obtain ⟨child, _, followed⟩ := (h.next decoded absent).follow decoded absent
      exact ⟨some child, followed⟩

/-- Everything below an item that passes can be listed, and passes. -/
theorem Passes.preorder (h : v.Passes payload extensions limit)
    (decoded : Cursor.decode payload v.position = .ok c) :
    ∃ cs, c.preorder = .ok cs ∧ ∀ c' ∈ cs, c'.Whole := by
  induction position : v.position using @linkInduction payload generalizing v c with
  | owner i ih =>
      subst position
      obtain ⟨same, position⟩ := Cursor.decode_eq_ok decoded
      have operand (s : Slot UInt32) (mem : s ∈ c.slots) :
          ∃ cs, c.below s.content = .ok cs ∧ ∀ c' ∈ cs, c'.Whole := by
        by_cases absent : s.content = 0
        · exact ⟨[], by rw [Cursor.below, if_pos absent], by simp⟩
        · obtain ⟨child, found, _⟩ := (h.operand decoded mem absent).follow decoded absent
          have link := linked_of_mem_links decoded
            (Cursor.mem_links.2 ⟨absent, .inl ⟨s, mem, rfl⟩⟩)
          obtain ⟨cs, listed, whole⟩ := ih _ link (h.operand decoded mem absent) found rfl
          refine ⟨cs, ?_, whole⟩
          simp only [Cursor.below, if_neg absent, same, position, found, listed]
      have next : ∃ cs, c.below c.nextOffset = .ok cs ∧ ∀ c' ∈ cs, c'.Whole := by
        by_cases absent : c.nextOffset = 0
        · exact ⟨[], by rw [Cursor.below, if_pos absent], by simp⟩
        · obtain ⟨child, found, _⟩ := (h.next decoded absent).follow decoded absent
          have link := linked_of_mem_links decoded (Cursor.mem_links.2 ⟨absent, .inr rfl⟩)
          obtain ⟨cs, listed, whole⟩ := ih _ link (h.next decoded absent) found rfl
          refine ⟨cs, ?_, whole⟩
          simp only [Cursor.below, if_neg absent, same, position, found, listed]
      obtain ⟨operands, listed, whole⟩ := exists_mapM_eq_ok operand
      obtain ⟨rest, listed', whole'⟩ := next
      refine ⟨_, by rw [Cursor.preorder_eq, listed, listed']; rfl, fun c' mem => ?_⟩
      obtain rfl | mem := List.mem_cons.1 mem
      · exact h.whole decoded
      · obtain mem | mem := List.mem_append.1 mem
        · obtain ⟨cs, listed, mem⟩ := List.mem_flatten.1 mem
          exact whole cs listed c' mem
        · exact whole' c' mem

end Visit

/-- What an item that is whole holds can be shown. -/
theorem Outline.line_ok {c : Cursor} (h : c.Whole) (palette : Palette) (width : Nat) :
    ∃ s, Outline.line palette width c = .ok s := by
  have shown : ∃ s, Outline.content c.record = .ok s := by
    cases record : c.record with
    | string t | key t | var t =>
        obtain ⟨s, legible⟩ := h.decodeText (t := t) (by simp [record, Item.texts]) .text
        exact ⟨quoted s, by rw [content, legible]; rfl⟩
    | numeric t =>
        obtain ⟨s, legible⟩ := h.decodeText (t := t) (by simp [record, Item.texts]) .numeric
        exact ⟨s, by rw [content, legible]⟩
    | likeRegex e t f =>
        obtain ⟨s, legible⟩ := h.decodeText (t := t) (by simp [record, Item.texts]) .pattern
        exact ⟨quoted s ++ f.suffix, by rw [content, legible]; rfl⟩
    | _ => exact ⟨_, rfl⟩
  obtain ⟨s, shown⟩ := shown
  rw [line, shown, ok_bind]
  exact ⟨_, rfl⟩

/-- A reader that asks for the item at a position finds one it can read in every way. -/
structure Cursor.Safe (c : Cursor) : Prop where
  readable : c.Readable
  print : ∃ s, c.node.print .unbounded = .ok s
  isMutable : ∀ ctx, ∃ r, c.node.isMutable ctx .unbounded = .ok r

theorem Visit.Passes.safe {payload : ByteArray} {extensions : Bool} {limit : UInt32} {v : Visit}
    {c : Cursor} (h : v.Passes payload extensions limit.toNat) (nested : 0 < v.nesting)
    (decoded : Cursor.decode payload v.position = .ok c) : c.Safe := by
  obtain ⟨e, read⟩ := h.exists_expr? decoded
  obtain ⟨_, room⟩ := h.keeps decoded read
  have depth := Limits.le_unbounded (show e.depth ≤ limit.toNat by omega)
  refine ⟨(h.whole decoded).readable, ?_, ?_⟩
  · rw [Cursor.node_of_expr? read]
    exact ⟨_, Expr.print_node depth⟩
  · intro ctx
    obtain ⟨r, decided, _⟩ := Mutability.isMutable_node_ok depth ctx
    rw [Cursor.node_of_expr? read]
    exact ⟨r, decided⟩

/-- What passes at the first item passes at every item that can be reached. -/
theorem Visit.Passes.exists_of_reachable {payload : ByteArray} {extensions : Bool} {limit i : Nat}
    (h : Visit.first.Passes payload extensions limit) (reachable : Reachable payload i) :
    ∃ v : Visit, v.position = i ∧ 0 < v.nesting ∧ v.Passes payload extensions limit := by
  obtain ⟨v, reach, rfl⟩ := Visit.reachable_iff.1 reachable
  exact ⟨v, rfl, (Visit.reaches reach).pos, fun v' further => h v' (reach.trans further)⟩

theorem Visit.Passes.whole_of_reachable {payload : ByteArray} {extensions : Bool} {limit i : Nat}
    (h : Visit.first.Passes payload extensions limit) (reachable : Reachable payload i) :
    ∃ c, Cursor.decode payload i = .ok c ∧ c.Whole := by
  obtain ⟨v, rfl, _, passes⟩ := h.exists_of_reachable reachable
  obtain ⟨c, decoded⟩ := passes.decoded
  exact ⟨c, decoded, passes.whole decoded⟩

/-- What can be reached in a payload that was checked can be read in every way. -/
theorem Visit.Passes.safe_of_reachable {payload : ByteArray} {extensions : Bool} {limit : UInt32}
    {i : Nat} (h : Visit.first.Passes payload extensions limit.toNat)
    (reachable : Reachable payload i) : ∃ c, Cursor.decode payload i = .ok c ∧ c.Safe := by
  obtain ⟨v, rfl, nested, passes⟩ := h.exists_of_reachable reachable
  obtain ⟨c, decoded⟩ := passes.decoded
  exact ⟨c, decoded, passes.safe nested decoded⟩

namespace Buffer

variable {b : Buffer} {root : Cursor}

theorem items_ok (h : ∃ cs, root.preorder = .ok cs ∧ ∀ c ∈ cs, c.Whole)
    (first : b.root = .ok root) : ∃ cs, b.items = .ok cs ∧ ∀ c ∈ cs, c.Whole := by
  obtain ⟨cs, listed, whole⟩ := h
  refine ⟨_, by rw [items, first, ok_bind, listed, ok_bind]; rfl, ?_⟩
  intro c mem
  exact whole c (List.mem_mergeSort.1 mem)

theorem outline_ok (h : ∃ cs, b.items = .ok cs ∧ ∀ c ∈ cs, c.Whole) (palette : Palette) :
    ∃ s, b.outline palette = .ok s := by
  obtain ⟨cs, listed, whole⟩ := h
  have line (c : Cursor) (mem : c ∈ cs) :
      ∃ s, Outline.line palette (max 4 (toString b.payload.size).length) c = .ok s ∧ True := by
    obtain ⟨s, shown⟩ := Outline.line_ok (whole c mem) palette _
    exact ⟨s, shown, trivial⟩
  obtain ⟨lines, shown, _⟩ := exists_mapM_eq_ok line
  exact ⟨_, by rw [outline, listed, ok_bind, shown, ok_bind]; rfl⟩

theorem load_eq_ok {bytes : ByteArray} {limits : Limits} (h : load bytes limits = .ok b) :
    verify b.payload b.header.hasExtensions limits = .ok () := by
  obtain ⟨header, _, h⟩ := bind_eq_ok.1 h
  obtain ⟨_, verified, h⟩ := bind_eq_ok.1 h
  cases h
  exact verified

/-- An expression that keeps the rules is read back from a buffer that was opened. -/
theorem expr?_of_load {bytes : ByteArray} {limits : Limits} (h : load bytes limits = .ok b) :
    ∃ root e, b.root = .ok root ∧ root.expr? = some e ∧
      e.Everywhere (Item.Admissible b.header.hasExtensions) .top ∧
      e.depth ≤ limits.recursionLimit.toNat := by
  have passes := (Verify.passes_of_ok (load_eq_ok h)).1
  obtain ⟨root, decoded⟩ := passes.decoded
  obtain ⟨e, read⟩ := passes.exists_expr? decoded
  obtain ⟨rules, depth⟩ := passes.keeps decoded read
  refine ⟨root, e, root_eq_ok.2 decoded, read, rules, ?_⟩
  simp only [Visit.first] at depth
  omega

/-- A buffer that was opened from any bytes has a first item, each item that can be reached from it
can be read in every way, and the whole can be printed, classified and laid out. -/
theorem load_safe {bytes : ByteArray} {limits : Limits} (h : load bytes limits = .ok b) :
    (∃ root, b.root = .ok root) ∧
      (∀ i, Reachable b.payload i → ∃ c, Cursor.decode b.payload i = .ok c ∧ c.Safe) ∧
      (∃ s, b.print .unbounded = .ok s) ∧
      (∀ bindings, ∃ r, b.isMutable bindings .unbounded = .ok r) ∧
      ∀ palette, ∃ s, b.outline palette = .ok s := by
  have verified := load_eq_ok h
  have passes := ((Verify.ok_iff (Verify.running_of_ok verified)).1 verified).1
  have safe := fun i => passes.safe_of_reachable (i := i)
  obtain ⟨root, decoded, ⟨_, ⟨s, printed⟩, mutability⟩⟩ := safe 0 .refl
  have first := root_eq_ok.2 decoded
  refine ⟨⟨root, first⟩, safe, ?_, ?_, ?_⟩
  · refine ⟨_, by rw [print, first]; simp only [printed, ok_bind]; rfl⟩
  · intro bindings
    rw [isMutable, first]
    exact mutability _
  · exact outline_ok (items_ok (passes.preorder decoded) first)

/-- `$.a`, as it is encoded. -/
theorem load_safe_key :
    let bytes : ByteArray := ⟨#[1, 0, 0, 0,
      27, 0, 0, 0, 8, 0, 0, 0, 25, 0, 0, 0, 0, 0, 0, 0, 1, 0, 0, 0, 97, 0]⟩
    ∃ b, load bytes {} = .ok b ∧
      (∃ root, b.root = .ok root) ∧
      (∃ c, Cursor.decode b.payload 0 = .ok c ∧ c.Safe) ∧
      (∃ s, b.print .unbounded = .ok s) ∧
      (∃ r, b.isMutable .empty .unbounded = .ok r) ∧
      ∃ s, b.outline .plain = .ok s := by
  intro bytes
  obtain ⟨b, loaded⟩ := exists_ok (x := load bytes {}) (by decide +kernel)
  obtain ⟨root, safe, printed, classified, laid⟩ := load_safe loaded
  exact ⟨b, loaded, root, safe 0 .refl, printed, classified _, laid _⟩

end Buffer

end FlatPath
