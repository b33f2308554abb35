import FlatPath.Proofs.Readers
import FlatPath.Proofs.Relocation

/-!
The two ways to the operands of an item: accessor by accessor, as its kind offers them, and slot by
slot. In a payload that was checked both lead to the same items in the same order.
-/

namespace FlatPath

namespace Bytes

theorem wordsAt_succ (b : ByteArray) (i n : Nat) :
    wordsAt b i (n + 1) = wordsAt b i n ++ [wordAt b (i + 4 * n)] := by
  rw [wordsAt, List.range_succ, List.map_append]
  rfl

/-- Pairs of words are twice as many words. -/
theorem flatMap_wordPairsAt (b : ByteArray) (i n : Nat) :
    (wordPairsAt b i n).flatMap (fun (v, w) => [v, w]) = wordsAt b i (2 * n) := by
  induction n with
  | zero => rfl
  | succ n ih =>
      rw [wordPairsAt] at ih ⊢
      rw [List.range_succ, List.map_append, List.flatMap_append, ih, Nat.mul_succ,
        wordsAt_succ, wordsAt_succ, List.append_assoc]
      simp only [List.map_cons, List.map_nil, List.flatMap_cons, List.flatMap_nil, List.append_nil,
        List.cons_append, List.nil_append]
      rw [show 8 * n = 4 * (2 * n) by omega, show 4 * (2 * n + 1) = 4 * (2 * n) + 4 by omega,
        Nat.add_assoc]

end Bytes

namespace Record

variable {b : ByteArray} {i : Nat} {r : Record} {kind : Kind}

theorem kind_decode (h : decode b i kind = .ok r) : r.kind = kind := by
  cases kind with
  | null | root | current | last | anyArray | anyKey | method =>
      cases h
      rfl
  | string | key | var | unary | datetime | array | indexArray | sequence | object =>
      obtain ⟨_, _, h⟩ := bind_eq_ok.1 h
      cases h
      rfl
  | numeric | binary | any =>
      obtain ⟨_, _, h⟩ := bind_eq_ok.1 h
      obtain ⟨_, _, h⟩ := bind_eq_ok.1 h
      cases h
      rfl
  | likeRegex =>
      obtain ⟨_, _, h⟩ := bind_eq_ok.1 h
      obtain ⟨_, _, h⟩ := bind_eq_ok.1 h
      obtain ⟨_, _, h⟩ := bind_eq_ok.1 h
      cases h
      rfl
  | bool =>
      obtain ⟨v, _, h⟩ := bind_eq_ok.1 h
      split at h
      · cases h
        rfl
      · split at h <;> cases h
        rfl

theorem entryCount_eq_wordAt {n per : Nat} (h : entryCount b i per = .ok n) :
    n = (Bytes.wordAt b i).toNat := by
  obtain ⟨v, counted, rfl, _⟩ := entryCount_eq_ok.1 h
  rw [word, Bytes.wordAt?] at counted
  split at counted
  · next found =>
      split at found <;> cases found
      cases counted
      rfl
  · cases counted

end Record

namespace Cursor

/-- The operands of an item through the accessors of its kind, without those that are absent. -/
def accessed (c : Cursor) : Except Fault (List Cursor) :=
  match c.kind with
  | .binary _ => return [← c.left, ← c.right]
  | .unary _ | .datetime | .array => return (← c.argument).toList
  | .likeRegex => return [← c.regexOperand]
  | .indexArray => do
    let subscripts ← (List.range (← c.entryCount)).mapM c.subscript
    return subscripts.flatMap fun (start, stop) => start :: stop.toList
  | .sequence => do (List.range (← c.entryCount)).mapM c.sequenceElement
  | .object => do
    let fields ← (List.range (← c.entryCount)).mapM c.objectField
    return fields.flatMap fun (key, value) => [key, value]
  | .null | .string | .numeric | .bool | .var | .key | .root | .current | .last | .anyArray
  | .anyKey | .any | .method _ => return []

/-- The operands of an item through its slots, without those that are absent. -/
def followed (c : Cursor) : Except Fault (List Cursor) :=
  return (← c.slots.mapM fun s => c.follow s.content).reduceOption

/-- The item at an offset, nothing if it leads nowhere. -/
def target? (c : Cursor) (offset : UInt32) : Option (Option Cursor) :=
  (c.follow offset).toOption

theorem target?_eq_some {c : Cursor} {offset : UInt32} {o : Option Cursor} :
    c.target? offset = some o ↔ c.follow offset = .ok o := by
  rw [target?]
  cases c.follow offset <;> simp [Except.toOption]

theorem child_of_target? {c child : Cursor} {offset : UInt32}
    (h : (c.target? offset).join = some child) (role : Role) :
    c.child offset role = .ok child := by
  rw [Cursor.child, target?_eq_some.1 (Option.join_eq_some_iff.1 h)]
  rfl

/-- The slots of an item lead to the operands of `y`, which is of the same kind. -/
def Opens (c : Cursor) (y : Item Unit Cursor (Option Cursor)) : Prop :=
  c.record.mapM (fun _ => some ()) (fun offset => (c.target? offset).join) c.target? = some y

theorem Whole.opens {c : Cursor} (h : c.Whole) : ∃ y, c.Opens y := by
  refine Item.exists_mapM (fun _ _ => ⟨(), rfl⟩) (fun s mem required => ?_) fun s mem => ?_
  · obtain ⟨_, found, present⟩ := h.slots s mem
    obtain ⟨child, rfl⟩ := Option.isSome_iff_exists.1 (present required)
    exact ⟨child, Option.join_eq_some_iff.2 (target?_eq_some.2 found)⟩
  · obtain ⟨o, found, _⟩ := h.slots s mem
    exact ⟨o, target?_eq_some.2 found⟩

namespace Opens

variable {c : Cursor} {y : Item Unit Cursor (Option Cursor)}

theorem followed (h : c.Opens y) : c.followed = .ok y.operands := by
  have contents := congrArg (List.map Slot.content) (Item.slots_of_mapM h)
  have targets : c.slots.mapM (fun s => c.follow s.content) =
      .ok (y.operandSlots.map Slot.content) := by
    refine mapM_eq_ok_of_map ?_
    rw [List.map_map, List.map_map] at contents
    rw [List.map_map]
    exact contents
  rw [Cursor.followed, targets, ok_bind, List.reduceOption, List.filterMap_map]
  rfl

/-- Behind a slot that has to hold an operand there is one of the operands. -/
theorem required (h : c.Opens y) {s : Slot UInt32} (mem : s ∈ c.slots) (needed : s.required) :
    ∃ operand ∈ y.operands, c.follow s.content = .ok (some operand) := by
  obtain ⟨o, listed, found⟩ := Item.exists_slot_of_mapM h mem
  obtain ⟨operand, rfl⟩ := Option.isSome_iff_exists.1 (Item.isSome_of_required listed needed)
  exact ⟨operand, Item.mem_operands_iff_slot.2 ⟨_, listed, rfl⟩, target?_eq_some.1 found⟩

theorem accessed (h : c.Opens y) : c.accessed = .ok y.operands := by
  rw [Opens] at h
  rw [Cursor.accessed, kind]
  cases record : c.record with
  | null | string | numeric | bool | var | key | root | current | last | anyArray | anyKey | any
  | method =>
      rw [record] at h
      cases h
      rfl
  | binary op l r =>
      simp only [record, Item.mapM, Option.bind_eq_bind, Option.bind_eq_some_iff, Option.pure_def,
        Option.some.injEq] at h
      obtain ⟨first, foundFirst, second, foundSecond, rfl⟩ := h
      simp only [Item.kind, left, right, record, child_of_target? foundFirst,
        child_of_target? foundSecond, ok_bind, except_pure, Item.operands_binary]
  | unary op a =>
      obtain ⟨child, found, rfl⟩ := Option.map_eq_some_iff.1 (record ▸ h)
      have found := target?_eq_some.1 (Option.join_eq_some_iff.1 found)
      simp only [Item.kind, argument, record, found, ok_bind, except_pure, Item.operands_unary,
        Option.toList_some]
  | datetime a | array a =>
      obtain ⟨o, found, rfl⟩ := Option.map_eq_some_iff.1 (record ▸ h)
      simp only [Item.kind, argument, record, target?_eq_some.1 found, ok_bind, except_pure,
        Item.operands_datetime, Item.operands_array]
  | likeRegex e p f =>
      simp only [record, Item.mapM, Option.bind_eq_bind, Option.bind_eq_some_iff, Option.pure_def,
        Option.some.injEq] at h
      obtain ⟨operand, found, _, _, rfl⟩ := h
      simp only [Item.kind, regexOperand, record, child_of_target? found, ok_bind, except_pure,
        Item.operands_likeRegex]
  | indexArray ss =>
      obtain ⟨subscripts, found, rfl⟩ := Option.map_eq_some_iff.1 (record ▸ h)
      have each := range_mapM_eq_ok (g := c.subscript) found fun i s _ entry two => by
        simp only [Option.bind_eq_bind, Option.bind_eq_some_iff, Option.pure_def,
          Option.some.injEq] at two
        obtain ⟨_, foundStart, _, foundStop, rfl⟩ := two
        simp only [subscript, record, entry, child_of_target? foundStart,
          target?_eq_some.1 foundStop, ok_bind, except_pure]
      simp only [Item.kind, entryCount, record, ok_bind, each, except_pure,
        Item.operands_indexArray]
  | sequence es =>
      obtain ⟨elements, found, rfl⟩ := Option.map_eq_some_iff.1 (record ▸ h)
      have each := range_mapM_eq_ok (g := c.sequenceElement) found fun i e element entry one => by
        simp only [sequenceElement, record, entry, child_of_target? one]
      simp only [Item.kind, entryCount, record, ok_bind, each, Item.operands_sequence]
  | object fs =>
      obtain ⟨fields, found, rfl⟩ := Option.map_eq_some_iff.1 (record ▸ h)
      have each := range_mapM_eq_ok (g := c.objectField) found fun i f _ entry two => by
        simp only [Option.bind_eq_bind, Option.bind_eq_some_iff, Option.pure_def,
          Option.some.injEq] at two
        obtain ⟨_, foundKey, _, foundValue, rfl⟩ := two
        simp only [objectField, record, entry, child_of_target? foundKey,
          child_of_target? foundValue, ok_bind, except_pure]
      simp only [Item.kind, entryCount, record, ok_bind, each, except_pure, Item.operands_object]

end Opens

/-- The count that an item with a list of operands holds behind its next offset. -/
def storedCount (c : Cursor) : Nat :=
  (Bytes.wordAt c.payload (Bytes.alignUp (c.position + 1) + 4)).toNat

/-- The slots of an item are the words behind its count, so many to an entry. -/
structure Lists (c : Cursor) (perEntry : Nat) : Prop where
  count : c.entryCount = .ok c.storedCount
  length : c.slots.length = perEntry * c.storedCount
  contents : c.slots.map Slot.content =
    Bytes.wordsAt c.payload (Bytes.alignUp (c.position + 1) + 8) (perEntry * c.storedCount)

theorem lists_of_decode {payload : ByteArray} {i : Nat} {c : Cursor}
    (decoded : decode payload i = .ok c) :
    (c.kind = .indexArray ∨ c.kind = .object → c.Lists 2) ∧ (c.kind = .sequence → c.Lists 1) := by
  obtain ⟨rfl, rfl⟩ := decode_eq_ok decoded
  obtain ⟨_, kind, _, _, record⟩ := exists_decode.1 ⟨c, decoded, rfl, rfl⟩
  obtain rfl : c.kind = kind := Record.kind_decode record
  have pairs (i n : Nat) : (Bytes.wordPairsAt c.payload i n).length = n := by
    simp [Bytes.wordPairsAt]
  refine ⟨?_, fun of => ?_⟩
  · rintro (of | of)
    all_goals
      rw [of] at record
      obtain ⟨n, counted, record⟩ := bind_eq_ok.1 record
      obtain rfl : n = c.storedCount := Record.entryCount_eq_wordAt counted
      have record := (Except.ok.inj record).symm
      refine ⟨?_, ?_, ?_⟩
      · rw [entryCount, record]
        simp only [pairs]
      · rw [slots, record, Item.slots, Item.length_pairSlots, pairs]
      · rw [slots, record, Item.slots, Item.contents_pairSlots, Bytes.flatMap_wordPairsAt]
  · rw [of] at record
    obtain ⟨n, counted, record⟩ := bind_eq_ok.1 record
    obtain rfl : n = c.storedCount := Record.entryCount_eq_wordAt counted
    have record := (Except.ok.inj record).symm
    have words (i n : Nat) : (Bytes.wordsAt c.payload i n).length = n := by
      simp [Bytes.wordsAt]
    refine ⟨?_, ?_, ?_⟩
    · rw [entryCount, record]
      simp only [words]
    · rw [slots, record, Item.slots, Item.length_elementSlots, words, Nat.one_mul]
    · rw [slots, record, Item.slots, Item.contents_elementSlots, Nat.one_mul]

end Cursor

/-- Every item of a payload that passes the check has the same operands, in the same order, through
the accessors of its kind and through its slots. What has to be there is there, and an item with a
list of operands has as many slots as its count asks for, which are the words behind the count. -/
theorem Cursor.accessed_eq_followed {payload : ByteArray} {extensions : Bool} {limits : Limits}
    {i : Nat} (verified : verify payload extensions limits = .ok ())
    (reachable : Reachable payload i) :
    ∃ c operands, decode payload i = .ok c ∧ c.accessed = .ok operands ∧
      c.followed = .ok operands ∧
      (∀ s ∈ c.slots, s.required →
        ∃ operand ∈ operands, c.follow s.content = .ok (some operand)) ∧
      (c.kind = .indexArray ∨ c.kind = .object → c.Lists 2) ∧ (c.kind = .sequence → c.Lists 1) := by
  obtain ⟨c, decoded, whole⟩ := (Verify.passes_of_ok verified).1.whole_of_reachable reachable
  obtain ⟨y, opens⟩ := whole.opens
  exact ⟨c, y.operands, decoded, opens.accessed, opens.followed, fun _ => opens.required,
    lists_of_decode decoded⟩

/-- `[last, last to last]`, where one of four slots is empty. -/
theorem Cursor.accessed_eq_followed_subscripts :
    let payload : ByteArray := ⟨#[23, 0, 0, 0, 0, 0, 0, 0, 2, 0, 0, 0,
      28, 0, 0, 0, 0, 0, 0, 0, 36, 0, 0, 0, 44, 0, 0, 0,
      39, 0, 0, 0, 0, 0, 0, 0, 39, 0, 0, 0, 0, 0, 0, 0, 39, 0, 0, 0, 0, 0, 0, 0]⟩
    verify payload false {} = .ok () ∧ Reachable payload 0 ∧
      ∃ c operands, decode payload 0 = .ok c ∧ c.accessed = .ok operands ∧
        c.followed = .ok operands ∧ operands.map Cursor.position = [28, 36, 44] ∧
        c.slots.length = 4 := by
  intro payload
  obtain ⟨_, verified⟩ := exists_ok (x := verify payload false {}) (by decide +kernel)
  obtain ⟨c, operands, decoded, accessed, followed, _, lists, _⟩ :=
    accessed_eq_followed verified .refl
  have shape : (decode payload 0).toOption.all (fun c =>
      c.kind = .indexArray ∧ c.storedCount = 2 ∧
        c.followed.toOption.map (List.map position) = some [28, 36, 44]) = true := by
    decide +kernel
  obtain ⟨kind, count, positions⟩ : c.kind = .indexArray ∧ c.storedCount = 2 ∧
      operands.map position = [28, 36, 44] := by
    simpa [decoded, followed, Except.toOption] using shape
  have length := (lists (.inl kind)).length
  rw [count] at length
  exact ⟨verified, .refl, c, operands, decoded, accessed, followed, positions, length⟩

end FlatPath
