import FlatPath.Buffer.Cursor
import FlatPath.Proofs.Operands
import FlatPath.Proofs.Stretches
import FlatPath.Proofs.Success

/-!
The layout of an expression: the bytes its chain takes from a given position on. What a cursor
decodes at that position is the first item, with offsets that lead to the layouts of its operands
and of the rest of the chain.
-/

namespace FlatPath

open Bytes

/-- Kinds of one shape are decoded alike, from the same bytes to the same texts and offsets. -/
theorem Record.decode_of_shape {k k' : Kind} (same : k.shape = k'.shape) {b : ByteArray} {i : Nat}
    {r : Record} (h : decode b i k = .ok r) :
    ∃ r', decode b i k' = .ok r' ∧ r'.texts = r.texts ∧
      r'.slots.map Slot.content = r.slots.map Slot.content := by
  cases k with
  | null | current | root | last | anyArray | anyKey | method =>
      cases h
      cases k' with
      | null | current | root | last | anyArray | anyKey | method => exact ⟨_, rfl, rfl, rfl⟩
      | _ => cases same
  | string | key | var =>
      obtain ⟨t, read, h⟩ := bind_eq_ok.1 h
      cases h
      cases k' with
      | string | key | var =>
          rw [decode, read]
          exact ⟨_, rfl, rfl, rfl⟩
      | _ => cases same
  | binary =>
      obtain ⟨left, read, h⟩ := bind_eq_ok.1 h
      obtain ⟨right, read', h⟩ := bind_eq_ok.1 h
      cases h
      cases k' with
      | binary =>
          rw [decode, read, ok_bind, read']
          exact ⟨_, rfl, rfl, rfl⟩
      | _ => cases same
  | unary | datetime | array =>
      obtain ⟨argument, read, h⟩ := bind_eq_ok.1 h
      cases h
      cases k' with
      | unary | datetime | array =>
          rw [decode, read]
          exact ⟨_, rfl, rfl, rfl⟩
      | _ => cases same
  | numeric | bool | any | likeRegex | indexArray | sequence | object =>
      cases k' <;> cases same
      exact ⟨r, h, rfl, rfl⟩

namespace Layout

/-- Every length, count and offset of a buffer below this size is a word. -/
def wordRange : Nat := 0x100000000

def text (s : String) : ByteArray :=
  ofWord (.ofNat s.utf8ByteSize) ++ (s.toUTF8 ++ [0].toByteArray)

section Fixed

variable {ρ ρ' ο ο' : Type}

/-- What stands between the next offset and the slots. -/
def lead : Item String ρ ο → ByteArray
  | .indexArray ss => ofWord (.ofNat ss.length)
  | .sequence es => ofWord (.ofNat es.length)
  | .object fs => ofWord (.ofNat fs.length)
  | .likeRegex _ _ f => ofWord f.bits
  | _ => .empty

/-- What stands behind the slots. -/
def trail : Item String ρ ο → ByteArray
  | .string s | .key s | .var s => text s
  | .numeric s => ofWord (.ofNat s.utf8ByteSize) ++ s.toUTF8
  | .bool v => [if v then 1 else 0].toByteArray
  | .any l => ofWord l.first ++ ofWord l.last
  | .likeRegex _ p _ => text p
  | _ => .empty

/-- An item at position `p` without what its offsets lead to. -/
def fixed (x : Item String ρ ο) (p : Nat) (next : UInt32) (offsets : List UInt32) : ByteArray :=
  [x.kind.tag].toByteArray ++ (zeros (alignUp (p + 1) - (p + 1)) ++ (ofWord next ++
    (lead x ++ (words offsets ++ trail x))))

theorem lead_map (req : ρ → ρ') (opt : ο → ο') (x : Item String ρ ο) :
    lead (x.map id req opt) = lead x := by
  cases x <;> simp [Item.map, lead]

theorem trail_map (req : ρ → ρ') (opt : ο → ο') (x : Item String ρ ο) :
    trail (x.map id req opt) = trail x := by
  cases x <;> rfl

theorem fixed_map (req : ρ → ρ') (opt : ο → ο') (x : Item String ρ ο) (p : Nat) (next : UInt32)
    (offsets : List UInt32) : fixed (x.map id req opt) p next offsets = fixed x p next offsets := by
  simp only [fixed, Item.kind_map, lead_map, trail_map]

end Fixed

variable {σ σ' : Type} {b : ByteArray} {i : Nat}

theorem word_of_holdsAt {v : UInt32} (h : HoldsAt b i (ofWord v)) (d : Defect) :
    Record.word b i d = .ok v := by
  rw [Record.word, h.wordAt?]

theorem byte_of_holdsAt {v : UInt8} (h : HoldsAt b i [v].toByteArray) (d : Defect) :
    Record.byte b i d = .ok v := by
  rw [Record.byte, h.byteAt?]

theorem slice_of_holdsAt {s : ByteArray} (h : HoldsAt b i s) (d : Defect) :
    Record.slice b i s.size d = .ok s := by
  rw [Record.slice, h.sliceAt?]

theorem toNat_length {n : Nat} (small : b.size < wordRange) (h : n ≤ b.size) :
    (UInt32.ofNat n).toNat = n := by
  rw [UInt32.toNat_ofNat']
  exact Nat.mod_eq_of_lt (Nat.lt_of_le_of_lt h small)

theorem text_of_holdsAt {s : String} (h : HoldsAt b i (text s)) (small : b.size < wordRange)
    (d : Defect) : Record.text b i d = .ok s.toUTF8 := by
  have bound := h.right.left.le_size
  have bytes := slice_of_holdsAt h.right.left d
  have terminator := byte_of_holdsAt h.right.right d
  simp only [size_ofWord, String.toUTF8_eq_toByteArray, String.size_toByteArray]
    at bound bytes terminator
  have size := toNat_length small (n := s.utf8ByteSize) (by omega)
  simp only [Record.text, word_of_holdsAt h.left, ok_bind, size, bytes, terminator, if_true,
    except_pure, String.toUTF8_eq_toByteArray]

theorem entryCount_of_holdsAt {n : Nat} {rest : ByteArray} (per : Nat)
    (h : HoldsAt b i (ofWord (.ofNat n) ++ rest)) (size : n * (per * 4) ≤ rest.size)
    (positive : 0 < per) (small : b.size < wordRange) : Record.entryCount b i per = .ok n := by
  have bound := h.le_size
  have scaled : n ≤ n * (per * 4) := Nat.le_mul_of_pos_right n (by omega)
  simp only [ByteArray.size_append, size_ofWord] at bound
  have count := toNat_length small (n := n) (by omega)
  simp only [Record.entryCount, word_of_holdsAt h.left, ok_bind, count]
  rw [if_pos (by omega)]
  rfl

private theorem exists_pairs {vs : List UInt32} {n : Nat} (h : vs.length = 2 * n) :
    ∃ ps : List (UInt32 × UInt32), (ps.flatMap fun (v, u) => [v, u]) = vs ∧ ps.length = n := by
  induction n generalizing vs with
  | zero => exact ⟨[], by simpa [eq_comm] using h⟩
  | succ n ih =>
      obtain _ | ⟨v, _ | ⟨u, vs⟩⟩ := vs
      · simp at h
      · simp at h; omega
      · have half : vs.length = 2 * n := by
          simp at h
          omega
        obtain ⟨ps, rfl, length⟩ := ih half
        exact ⟨(v, u) :: ps, by simp, by simp [length]⟩

/-- Entries of two offsets each are read in pairs behind their count. -/
private theorem pairs_of_holdsAt {vs : List UInt32} {n : Nat}
    (h : HoldsAt b i (ofWord (.ofNat n) ++ words vs)) (double : vs.length = 2 * n)
    (small : b.size < wordRange) :
    ∃ ps : List (UInt32 × UInt32), (ps.flatMap fun (v, u) => [v, u]) = vs ∧ ps.length = n ∧
      Record.entryCount b i 2 = .ok n ∧ wordPairsAt b (i + 4) n = ps := by
  obtain ⟨ps, rfl, rfl⟩ := exists_pairs double
  have count := entryCount_of_holdsAt 2 h (by rw [size_words]; omega) (by omega) small
  exact ⟨ps, rfl, rfl, count, h.afterWord.wordPairsAt⟩

/-- What follows the next offset is decoded to the item with the offsets in its slots. -/
theorem decode_content {x : Item String σ (Option σ)} {offsets : List UInt32}
    (h : HoldsAt b i (lead x ++ (words offsets ++ trail x)))
    (count : offsets.length = x.operandSlots.length) (small : b.size < wordRange) :
    ∃ r, Record.decode b i x.kind = .ok r ∧
      r.skeleton = (x.map String.toUTF8 id id).skeleton ∧ r.slots.map Slot.content = offsets := by
  cases x with
  | null | root | current | last | anyArray | anyKey | method m =>
      obtain rfl : offsets = [] := List.length_eq_zero_iff.1 count
      exact ⟨_, rfl, rfl, rfl⟩
  | string s | key s | var s =>
      obtain rfl : offsets = [] := List.length_eq_zero_iff.1 count
      have text : HoldsAt b i (text s) := by simpa [lead, trail] using h
      apply Exists.intro
      refine ⟨?_, ?_, ?_⟩
      · simp only [Item.kind, Record.decode, text_of_holdsAt text small]
        rfl
      · rfl
      · rfl
  | numeric s =>
      obtain rfl : offsets = [] := List.length_eq_zero_iff.1 count
      have digits : HoldsAt b i (ofWord (.ofNat s.utf8ByteSize) ++ s.toByteArray) := by
        simpa [lead, trail] using h
      have bytes := slice_of_holdsAt digits.afterWord .truncatedNumeric
      have bound := digits.afterWord.le_size
      simp only [String.size_toByteArray] at bytes bound
      have size := toNat_length small (n := s.utf8ByteSize) (by omega)
      refine ⟨.numeric s.toUTF8, ?_, rfl, rfl⟩
      simp only [Item.kind, Record.decode, word_of_holdsAt digits.left, ok_bind, size, bytes,
        except_pure, String.toUTF8_eq_toByteArray]
  | bool v =>
      obtain rfl : offsets = [] := List.length_eq_zero_iff.1 count
      have value : HoldsAt b i [if v then 1 else 0].toByteArray := by
        simpa only [lead, trail, words_nil, ByteArray.empty_append] using h
      refine ⟨.bool v, ?_, rfl, rfl⟩
      simp only [Item.kind, Record.decode, byte_of_holdsAt value, ok_bind]
      cases v <;> rfl
  | any l =>
      obtain rfl : offsets = [] := List.length_eq_zero_iff.1 count
      have bounds : HoldsAt b i (ofWord l.first ++ ofWord l.last) := by
        simpa [lead, trail] using h
      have last := word_of_holdsAt bounds.afterWord .truncatedLevels
      refine ⟨.any l, ?_, rfl, rfl⟩
      simp only [Item.kind, Record.decode, word_of_holdsAt bounds.left, last, ok_bind]
      rfl
  | binary op l r =>
      obtain ⟨v, u, rfl⟩ := List.length_eq_two.1 count
      have slots : HoldsAt b i (ofWord v ++ ofWord u) := by simpa [lead, trail] using h
      have right := word_of_holdsAt slots.afterWord .truncatedOperand
      refine ⟨.binary op v u, ?_, rfl, rfl⟩
      simp only [Item.kind, Record.decode, word_of_holdsAt slots.left, right, ok_bind]
      rfl
  | unary _ a | datetime o | array o =>
      obtain ⟨v, rfl⟩ := List.length_eq_one_iff.1 count
      have slot : HoldsAt b i (ofWord v) := by simpa [lead, trail] using h
      apply Exists.intro
      refine ⟨?_, ?_, ?_⟩
      · simp only [Item.kind, Record.decode, word_of_holdsAt slot, ok_bind]
        rfl
      · rfl
      · rfl
  | likeRegex e p f =>
      obtain ⟨v, rfl⟩ := List.length_eq_one_iff.1 count
      have parts : HoldsAt b i (ofWord f.bits ++ (ofWord v ++ text p)) := by
        simpa [lead, trail] using h
      have operand := word_of_holdsAt parts.afterWord.left .truncatedOperand
      have pattern := text_of_holdsAt parts.afterWord.afterWord small .truncatedPattern
      simp only [Nat.add_assoc] at pattern
      refine ⟨.likeRegex v p.toUTF8 f, ?_, rfl, rfl⟩
      simp only [Item.kind, Record.decode, word_of_holdsAt parts.left, operand, pattern, ok_bind]
      rfl
  | indexArray ss =>
      have entries : HoldsAt b i (ofWord (.ofNat ss.length) ++ words offsets) := by
        simpa [lead, trail] using h
      obtain ⟨ps, rfl, length, entryCount, pairs⟩ :=
        pairs_of_holdsAt entries (by simpa using count) small
      refine ⟨.indexArray ps, ?_, ?_, Item.contents_pairSlots ..⟩
      · simp only [Item.kind, Record.decode, entryCount, pairs, ok_bind, except_pure]
      · simp [Item.skeleton, Item.map, length]
  | sequence es =>
      have length : offsets.length = es.length := by simpa using count
      have entries : HoldsAt b i (ofWord (.ofNat offsets.length) ++ words offsets) := by
        simpa [lead, trail, length] using h
      have offsetsAt := entries.afterWord.wordsAt
      have entryCount := entryCount_of_holdsAt 1 entries (by rw [size_words]; omega) (by omega)
        small
      refine ⟨.sequence offsets, ?_, ?_, Item.contents_elementSlots ..⟩
      · simp only [Item.kind, Record.decode, entryCount, offsetsAt, ok_bind, except_pure]
      · simp [Item.skeleton, Item.map, length]
  | object fs =>
      have entries : HoldsAt b i (ofWord (.ofNat fs.length) ++ words offsets) := by
        simpa [lead, trail] using h
      obtain ⟨ps, rfl, length, entryCount, pairs⟩ :=
        pairs_of_holdsAt entries (by simpa using count) small
      refine ⟨.object ps, ?_, ?_, Item.contents_pairSlots ..⟩
      · simp only [Item.kind, Record.decode, entryCount, pairs, ok_bind, except_pure]
      · simp [Item.skeleton, Item.map, length]

/-- The item is decoded with the offsets that were written for it. -/
theorem decode_fixed {x : Item String σ (Option σ)} {p : Nat} {next : UInt32}
    {offsets : List UInt32} (h : HoldsAt b p (fixed x p next offsets))
    (count : offsets.length = x.operandSlots.length) (small : b.size < wordRange) :
    ∃ c, Cursor.decode b p = .ok c ∧ c.nextOffset = next ∧
      c.record.skeleton = (x.map String.toUTF8 id id).skeleton ∧
      c.record.slots.map Slot.content = offsets := by
  have aligned : p + 1 + (alignUp (p + 1) - (p + 1)) = alignUp (p + 1) := by
    have := le_alignUp (p + 1)
    omega
  have tag := h.left
  have rest := h.right.right
  simp only [List.size_toByteArray, List.length_singleton, size_zeros, aligned] at rest
  have nextWord := word_of_holdsAt rest.left .truncatedNext
  obtain ⟨r, content, skeleton, slots⟩ := decode_content rest.right count small
  have inside : p < b.size := by
    have bound := tag.le_size
    simp only [List.size_toByteArray, List.length_singleton] at bound
    omega
  have kind : Kind.ofTag? b[p] = some x.kind := by
    have value := tag.byteAt?
    rw [byteAt?, dif_pos inside, Option.some.injEq] at value
    rw [value, Kind.ofTag?_tag]
  refine ⟨⟨b, p, inside, r, next⟩, ?_, rfl, skeleton, slots⟩
  rw [size_ofWord] at content
  rw [Cursor.decode, dif_pos inside]
  simp only [kind, nextWord, content, ok_bind, except_pure]

/-- Where the first operand of an item at position `p` goes. -/
def stop (x : Item String σ (Option σ)) (p : Nat) : Nat :=
  alignUp (p + 1) + 4 + (lead x).size + 4 * x.operandSlots.length + (trail x).size

theorem size_fixed {x : Item String σ (Option σ)} {p : Nat} {next : UInt32} {offsets : List UInt32}
    (count : offsets.length = x.operandSlots.length) :
    p + (fixed x p next offsets).size = stop x p := by
  have := le_alignUp (p + 1)
  simp only [fixed, stop, ByteArray.size_append, List.size_toByteArray, List.length_singleton,
    size_zeros, size_ofWord, size_words, count]
  omega

theorem lt_stop (x : Item String σ (Option σ)) (p : Nat) : p < stop x p := by
  have := le_alignUp (p + 1)
  rw [stop]
  omega

theorem stop_map (f : σ → σ') (x : Item String σ (Option σ)) (p : Nat) :
    stop (x.map id f (Option.map f)) p = stop x p := by
  simp only [stop, lead_map, trail_map, Item.operandSlots_map, List.length_map]

/-- Operands one after the other from `q` on. -/
def operandBytes : Nat → List (Option (Nat → ByteArray)) → ByteArray
  | _, [] => .empty
  | q, none :: rest => operandBytes q rest
  | q, some layout :: rest => layout q ++ operandBytes (q + (layout q).size) rest

/-- The offsets to them from an owner at `p`. -/
def operandOffsets (p : Nat) : Nat → List (Option (Nat → ByteArray)) → List UInt32
  | _, [] => []
  | q, none :: rest => 0 :: operandOffsets p q rest
  | q, some layout :: rest => .ofNat (q - p) :: operandOffsets p (q + (layout q).size) rest

@[simp] theorem length_operandOffsets (p q : Nat) (layouts : List (Option (Nat → ByteArray))) :
    (operandOffsets p q layouts).length = layouts.length := by
  induction layouts generalizing q with
  | nil => rfl
  | cons layout rest ih => cases layout <;> simp [operandOffsets, ih]

/-- An item at position `p`, its operands and the rest of its chain. -/
def item (x : Item String (Nat → ByteArray) (Option (Nat → ByteArray)))
    (next : Option (Nat → ByteArray)) (p : Nat) : ByteArray :=
  let operands := x.operandSlots.map Slot.content
  let offsets := operandOffsets p (stop x p) operands
  let body := operandBytes (stop x p) operands
  let after := stop x p + body.size
  match next with
  | none => fixed x p 0 offsets ++ body
  | some layout => fixed x p (.ofNat (after - p)) offsets ++ (body ++ layout after)

end Layout

/-- The bytes that the chain of an expression takes from a position on. -/
def Expr.layout (e : Expr) : Nat → ByteArray :=
  e.fold Layout.item

namespace Expr

/-- What is laid out behind an item, an entry for each of its slots. -/
def operandLayouts (x : Item String Expr (Option Expr)) : List (Option (Nat → ByteArray)) :=
  (x.operandSlots.map Slot.content).map (Option.map layout)

@[simp] theorem length_operandLayouts (x : Item String Expr (Option Expr)) :
    (operandLayouts x).length = x.operandSlots.length := by
  simp [operandLayouts]

private theorem layout_mk (x : Item String Expr (Option Expr)) (next : Option Expr) :
    (mk x next).layout =
      Layout.item (x.map id layout (Option.map layout)) (next.map layout) := by
  rw [layout, fold_mk]
  rfl

private theorem operandLayouts_eq (x : Item String Expr (Option Expr)) :
    (x.map id layout (Option.map layout)).operandSlots.map Slot.content = operandLayouts x := by
  simp [operandLayouts, Item.operandSlots_map, Slot.map]

theorem layout_last (x : Item String Expr (Option Expr)) (p : Nat) :
    (mk x none).layout p =
      Layout.fixed x p 0 (Layout.operandOffsets p (Layout.stop x p) (operandLayouts x)) ++
        Layout.operandBytes (Layout.stop x p) (operandLayouts x) := by
  simp only [layout_mk, Layout.item, operandLayouts_eq, Layout.stop_map, Layout.fixed_map,
    Option.map_none]

theorem layout_next (x : Item String Expr (Option Expr)) (e : Expr) (p : Nat) :
    let body := Layout.operandBytes (Layout.stop x p) (operandLayouts x)
    (mk x (some e)).layout p =
      Layout.fixed x p (.ofNat (Layout.stop x p + body.size - p))
          (Layout.operandOffsets p (Layout.stop x p) (operandLayouts x)) ++
        (body ++ e.layout (Layout.stop x p + body.size)) := by
  intro body
  simp only [layout_mk, Layout.item, operandLayouts_eq, Layout.stop_map, Layout.fixed_map,
    Option.map_some, body]

theorem size_layout_last (x : Item String Expr (Option Expr)) (p : Nat) :
    p + ((mk x none).layout p).size =
      Layout.stop x p + (Layout.operandBytes (Layout.stop x p) (operandLayouts x)).size := by
  rw [layout_last, ByteArray.size_append, ← Nat.add_assoc, Layout.size_fixed (by simp)]

theorem size_layout_next (x : Item String Expr (Option Expr)) (e : Expr) (p : Nat) :
    let after := Layout.stop x p + (Layout.operandBytes (Layout.stop x p) (operandLayouts x)).size
    p + ((mk x (some e)).layout p).size = after + (e.layout after).size := by
  intro after
  rw [layout_next, ByteArray.size_append, ← Nat.add_assoc, Layout.size_fixed (by simp),
    ByteArray.size_append, ← Nat.add_assoc]

/-- The parts of a layout. What stands behind the operands is the same with and without a next
item. -/
theorem holdsAt_layout {b : ByteArray} {x : Item String Expr (Option Expr)} {next : Option Expr}
    {p : Nat} (h : HoldsAt b p ((mk x next).layout p)) :
    let after := Layout.stop x p + (Layout.operandBytes (Layout.stop x p) (operandLayouts x)).size
    ∃ offset,
      HoldsAt b p (Layout.fixed x p offset
        (Layout.operandOffsets p (Layout.stop x p) (operandLayouts x))) ∧
      HoldsAt b (Layout.stop x p) (Layout.operandBytes (Layout.stop x p) (operandLayouts x)) ∧
      (next = none ∧ offset = 0 ∨
        ∃ e, next = some e ∧ offset = .ofNat (after - p) ∧ HoldsAt b after (e.layout after)) := by
  intro after
  cases next with
  | none =>
      rw [layout_last] at h
      have tail := h.right
      rw [Layout.size_fixed (by simp)] at tail
      exact ⟨0, h.left, tail, .inl ⟨rfl, rfl⟩⟩
  | some e =>
      rw [layout_next] at h
      have tail := h.right
      rw [Layout.size_fixed (by simp)] at tail
      exact ⟨_, h.left, tail.left, .inr ⟨e, rfl, rfl, tail.right⟩⟩

end Expr

end FlatPath
