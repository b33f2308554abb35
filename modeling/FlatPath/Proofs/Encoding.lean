import FlatPath.Buffer.Encode
import FlatPath.Proofs.Layout
import FlatPath.Proofs.Rules

/-!
What the encoder writes. Where the encoding of a chain succeeds it has appended the layout of the
chain and touched nothing before it, although every offset is patched after what it leads to; and
the chain keeps the rules of its scope.
-/

namespace FlatPath

open Bytes Layout

theorem Expr.encode_mk (extensions : Bool) (x : Item String Expr (Option Expr))
    (next : Option Expr) :
    (mk x next).encode extensions =
      Encoder.item extensions (x.map id (encode extensions) (Option.map (encode extensions)))
        (next.map (encode extensions)) := by
  rw [encode, fold_mk]
  rfl

namespace Encoder

theorem ensureRoom_eq_ok {extra : Nat} {w : Writer} {r : Unit × Writer} :
    (ensureRoom extra).run w = .ok r ↔ w.size + extra ≤ maxSize ∧ r = ((), w) := by
  simp only [ensureRoom, StateT.run_bind, StateT.run_get, except_pure, ok_bind]
  split
  · simp
    omega
  · simp [eq_comm]
    omega

/-- What comes after the test for room. -/
theorem ensureRoom_bind_eq_ok {α : Type} {extra : Nat} {k : Unit → Encoder α} {w : Writer}
    {r : α × Writer} :
    (ensureRoom extra >>= k).run w = .ok r ↔
      w.size + extra ≤ maxSize ∧ (k ()).run w = .ok r := by
  rw [run_bind_eq_ok]
  constructor
  · rintro ⟨_, _, room, h⟩
    obtain ⟨fits, unchanged⟩ := ensureRoom_eq_ok.1 room
    cases unchanged
    exact ⟨fits, h⟩
  · rintro ⟨fits, h⟩
    exact ⟨(), w, ensureRoom_eq_ok.2 ⟨fits, rfl⟩, h⟩

theorem run_modify_eq_ok {f : Writer → Writer} {w : Writer} {r : Unit × Writer} :
    (modify f : Encoder Unit).run w = .ok r ↔ r = ((), f w) := by
  simp [eq_comm]

theorem patch_eq_ok {slot : OffsetSlot} {child owner : Nat} {w w' : Writer} :
    (patch slot child owner).run w = .ok ((), w') ↔
      owner < child ∧ child - owner ≤ maxSize ∧
        w'.payload = setWord w.payload slot.position (.ofNat (child - owner)) := by
  obtain ⟨payload⟩ := w'
  simp only [patch, StateT.run, Writer.patch]
  by_cases behind : child ≤ owner
  · have forward : ¬ owner < child := by omega
    simp only [behind, forward, if_true, false_and, reduceCtorEq]
  · by_cases far : maxSize < child - owner
    · have near : ¬ child - owner ≤ maxSize := by omega
      simp only [behind, far, near, if_true, if_false, false_and, and_false, reduceCtorEq]
    · have forward : owner < child := by omega
      have near : child - owner ≤ maxSize := by omega
      simp only [behind, far, forward, near, if_false, true_and, Except.ok.injEq, Prod.mk.injEq,
        Writer.mk.injEq, eq_comm]

/-- An operand is entered where that keeps the nesting within the limit. -/
theorem enter_ok {d d' : Descent} {w w' : Writer} (h : (enter d).run w = .ok (d', w')) :
    d' = { d with depth := d.depth + 1 } ∧ d.depth + 1 ≤ d.limits.recursionLimit.toNat ∧
      w' = w := by
  rw [enter, Descent.enter] at h
  by_cases cancelled : d.limits.isCancelled
  · simp [cancelled] at h
  · by_cases deep : d.limits.recursionLimit.toNat ≤ d.depth
    · simp [cancelled, deep] at h
    · simp only [cancelled, deep, if_false, Bool.false_eq_true, StateT.run_pure, except_pure,
        Except.ok.injEq, Prod.mk.injEq] at h
      exact ⟨h.1.symm, by omega, h.2.symm⟩

/-- The positions of reserved offsets, one word after the other. -/
def offsetSlots : Nat → Nat → List OffsetSlot
  | _, 0 => []
  | base, n + 1 => ⟨base⟩ :: offsetSlots (base + 4) n

theorem run_reserveMany (n : Nat) (w : Writer) :
    (reserveMany n).run w =
      .ok (offsetSlots w.position n, ⟨w.payload ++ words (List.replicate n 0)⟩) := by
  induction n generalizing w with
  | zero => simp [reserveMany, offsetSlots]
  | succ n ih =>
      have first : reserve.run w = .ok (⟨w.position⟩, ⟨w.payload ++ ofWord 0⟩) := rfl
      simp only [reserveMany, StateT.run_bind, first, ok_bind, ih, StateT.run_pure, except_pure]
      simp [offsetSlots, Writer.position, List.replicate_succ, ByteArray.append_assoc]

theorem text_bytes (s : String) (w : Writer) : w.text s = ⟨w.payload ++ Layout.text s⟩ := by
  simp only [Writer.text, Writer.word, Writer.bytes, Writer.byte, Layout.text,
    ← ByteArray.append_assoc, Writer.mk.injEq]
  rw [← ByteArray.append_toByteArray_singleton]

theorem text_eq_ok {s : String} {w : Writer} {r : Unit × Writer} :
    (text s).run w = .ok r ↔
      w.size + s.utf8ByteSize ≤ maxSize ∧ r = ((), ⟨w.payload ++ Layout.text s⟩) := by
  rw [text, ensureRoom_bind_eq_ok, run_modify_eq_ok, text_bytes]

theorem entries_eq_ok {count perEntry : Nat} {w : Writer} {r : List OffsetSlot × Writer} :
    (entries count perEntry).run w = .ok r ↔
      w.size + count * (perEntry * 4) ≤ maxSize ∧
        r = (offsetSlots (w.position + 4) (count * perEntry),
          ⟨w.payload ++ (ofWord (.ofNat count) ++
            words (List.replicate (count * perEntry) 0))⟩) := by
  have written : (do modify (·.word (.ofNat count)); reserveMany (count * perEntry) :
      Encoder (List OffsetSlot)).run w =
        .ok (offsetSlots (w.position + 4) (count * perEntry),
          ⟨w.payload ++ (ofWord (.ofNat count) ++
            words (List.replicate (count * perEntry) 0))⟩) := by
    simp only [StateT.run_bind, StateT.run_modify, except_pure, ok_bind, run_reserveMany]
    simp [Writer.word, Writer.bytes, Writer.position, ByteArray.append_assoc]
  rw [entries, ensureRoom_bind_eq_ok, written, Except.ok.injEq, eq_comm (b := r)]

/-- An item without operands writes only what stands behind its slots. -/
private theorem appended_leaf {ρ : Type} {x : Item String ρ (Option ρ)} {w w' : Writer}
    (slots : x.operandSlots = []) (leads : lead x = .empty)
    (h : w'.payload = w.payload ++ trail x) :
    w'.payload = w.payload ++ (lead x ++ (words (List.replicate x.operandSlots.length 0) ++
      trail x)) := by
  simp [slots, leads, h]

/-- What the encoder writes between the next offset of an item and its first operand, with zeros
for the offsets of the operands. -/
theorem content_ok {ρ : Type} {x : Item String ρ (Option ρ)} {w w' : Writer}
    {slots : List OffsetSlot} (h : (content x).run w = .ok (slots, w')) :
    slots = offsetSlots (w.position + (lead x).size) x.operandSlots.length ∧
      w'.payload = w.payload ++ (lead x ++ (words (List.replicate x.operandSlots.length 0) ++
        trail x)) ∧ (w.payload.size ≤ maxSize + 4 → w'.payload.size < wordRange) := by
  cases x with
  | null | root | current | last | anyArray | anyKey | method m =>
      obtain ⟨rfl, rfl⟩ : slots = [] ∧ w' = w := by simpa [content, eq_comm] using h
      refine ⟨rfl, appended_leaf rfl rfl (by simp [trail]), ?_⟩
      intro room
      simp only [wordRange, maxSize] at *
      omega
  | string s | key s | var s =>
      obtain ⟨_, w₁, written, h⟩ := run_bind_eq_ok.1 h
      obtain ⟨fits, written⟩ := text_eq_ok.1 written
      cases written
      cases h
      refine ⟨rfl, appended_leaf rfl rfl rfl, ?_⟩
      intro _
      simp only [Writer.size, Header.size, ByteArray.size_append] at fits ⊢
      simp [Layout.text, wordRange, maxSize] at fits ⊢
      omega
  | numeric s =>
      rw [content] at h
      split at h
      · cases h
      · obtain ⟨fits, h⟩ := ensureRoom_bind_eq_ok.1 h
        cases h
        refine ⟨rfl, appended_leaf rfl rfl ?_, ?_⟩
        · simp [trail, Writer.word, Writer.bytes, ByteArray.append_assoc]
        · intro _
          simp [Writer.size, Header.size, Writer.word, Writer.bytes, wordRange, maxSize] at fits ⊢
          omega
  | bool v =>
      cases h
      refine ⟨rfl, appended_leaf rfl rfl ?_, ?_⟩
      · rw [trail, ByteArray.append_toByteArray_singleton]
        rfl
      · intro room
        simp [Writer.byte, wordRange, maxSize] at room ⊢
        omega
  | any l =>
      cases h
      refine ⟨rfl, appended_leaf rfl rfl ?_, ?_⟩
      · simp [trail, Writer.word, Writer.bytes, ByteArray.append_assoc]
      · intro room
        simp [Writer.word, Writer.bytes, wordRange, maxSize] at room ⊢
        omega
  | binary _ _ _ | unary _ _ | datetime _ | array _ =>
      rw [content, run_reserveMany] at h
      cases h
      refine ⟨by simp [lead], ?_, ?_⟩
      · simp [lead, trail]
      · intro room
        simp [wordRange, maxSize] at room ⊢
        omega
  | likeRegex e p f =>
      rw [content] at h
      split at h
      · cases h
      · obtain ⟨fits, h⟩ := ensureRoom_bind_eq_ok.1 h
        cases h
        refine ⟨?_, ?_, ?_⟩
        · simp [lead, offsetSlots, Writer.position, Writer.word, Writer.bytes]
        · simp [lead, trail, text_bytes, Writer.word, Writer.bytes, ByteArray.append_assoc]
        · intro _
          simp [Writer.size, Header.size, text_bytes, Layout.text, Writer.word, Writer.bytes,
            wordRange, maxSize] at fits ⊢
          omega
  | indexArray es | sequence es | object es =>
      rw [content, entries_eq_ok] at h
      obtain ⟨fits, h⟩ := h
      cases h
      refine ⟨?_, ?_, ?_⟩
      · simp [lead, Nat.mul_comm]
      · simp [lead, trail, Nat.mul_comm]
      · intro _
        simp [Writer.size, Header.size, wordRange, maxSize] at fits ⊢
        omega

/-- Literals and patterns are checked before they are written. -/
theorem content_rules {ρ ο : Type} {x : Item String ρ ο} {w : Writer}
    {r : List OffsetSlot × Writer} (h : (content x).run w = .ok r) :
    x.HasDigits ∧ x.PatternPasses := by
  cases x with
  | numeric s =>
      rw [content] at h
      split at h
      · cases h
      · next digits => exact ⟨fun empty => digits (by rw [empty]; rfl), trivial⟩
  | likeRegex e p f =>
      rw [content] at h
      split at h
      · cases h
      · next passes => exact ⟨trivial, Option.eq_none_iff_forall_ne_some.2 passes⟩
  | _ => exact ⟨trivial, trivial⟩

/-- The chain stands at the end of the payload, keeps the rules of its scope and nests no deeper
than the limit. -/
structure Written (extensions : Bool) (e : Expr) (scope : Scope) (d : Descent) (w : Writer)
    (start : Nat) (w' : Writer) : Prop where
  start : start = w.position
  payload : w'.payload = w.payload ++ e.layout w.position
  small : w'.payload.size < wordRange
  rules : e.Everywhere (Item.Encodable extensions) scope
  depth : d.depth + e.depth ≤ d.limits.recursionLimit.toNat + 1

/-- Where the encoding of the chain succeeds it has appended the layout. -/
def Appends (extensions : Bool) (e : Expr) : Prop :=
  ∀ scope d w start w', d.depth ≤ d.limits.recursionLimit.toNat →
    (e.encode extensions scope d).run w = .ok (start, w') →
      Written extensions e scope d w start w'

/-- Operand after operand is appended, and the slot of each comes to hold the way to it. -/
theorem operands_ok {extensions : Bool} {owner : Kind} {p : Nat} {scope : Scope} {d : Descent}
    {os : List (Slot (Option Expr))}
    (appends : ∀ e, some e ∈ os.map Slot.content → Appends extensions e) {front back : ByteArray}
    {w w' : Writer} (small : w.payload.size < wordRange)
    (payload : w.payload = front ++ words (List.replicate os.length 0) ++ back)
    (h : (operands owner p scope d ((os.map (Slot.map (Option.map (Expr.encode extensions)))).zip
      (offsetSlots front.size os.length))).run w = .ok ((), w')) :
    w'.payload = front ++ words (operandOffsets p w.position
        ((os.map Slot.content).map (Option.map Expr.layout))) ++
      (back ++ operandBytes w.position ((os.map Slot.content).map (Option.map Expr.layout))) ∧
    w'.payload.size < wordRange ∧
    ∀ s ∈ os, ∀ e, s.content = some e →
      e.Everywhere (Item.Encodable extensions) (scope.operand owner s.role) ∧
        d.depth + 1 + e.depth ≤ d.limits.recursionLimit.toNat + 1 := by
  induction os generalizing front back w with
  | nil =>
      cases h
      exact ⟨by simpa [operandOffsets, operandBytes] using payload, small, by simp⟩
  | cons o os ih =>
      obtain ⟨role, required, _ | e⟩ := o
      · have payload : w.payload =
            (front ++ ofWord 0) ++ words (List.replicate os.length 0) ++ back := by
          simpa [List.replicate_succ, ByteArray.append_assoc] using payload
        have rest := ih (fun e he => appends e (by simp [he])) small payload
          (by simpa [offsetSlots, operands, Slot.map] using h)
        obtain ⟨written, small, kept⟩ := rest
        refine ⟨?_, small, by simpa using kept⟩
        simpa [operandOffsets, operandBytes, ByteArray.append_assoc] using written
      · simp only [List.map_cons, Slot.map, Option.map_some, List.length_cons, offsetSlots,
          List.zip_cons_cons, operands] at h
        obtain ⟨d', w₁, entered, chain⟩ := run_bind_eq_ok.1 h
        obtain ⟨rfl, deep, rfl⟩ := enter_ok entered
        obtain ⟨child, w₂, encoded, patches⟩ := run_bind_eq_ok.1 chain
        obtain ⟨_, w₃, patched, others⟩ := run_bind_eq_ok.1 patches
        obtain ⟨rfl, appended, small, rules, depth⟩ := appends e (by simp) _ _ _ _ _ deep encoded
        -- The slot stands right behind `front`, and holding the way it joins it.
        obtain ⟨_, _, patched⟩ := patch_eq_ok.1 patched
        have overwritten := setWord_append front
          (words (List.replicate os.length 0) ++ (back ++ e.layout w₁.position)) 0
          (.ofNat (w₁.position - p))
        have payload₃ : w₃.payload = (front ++ ofWord (.ofNat (w₁.position - p))) ++
            words (List.replicate os.length 0) ++ (back ++ e.layout w₁.position) := by
          rw [patched, appended, payload]
          simpa [List.replicate_succ, ByteArray.append_assoc] using overwritten
        have position₃ : w₃.position = w₁.position + (e.layout w₁.position).size := by
          rw [Writer.position, payload₃, Writer.position, payload]
          simp
          omega
        have small₃ : w₃.payload.size < wordRange := by
          have : w₂.payload.size = w₁.position + (e.layout w₁.position).size := by
            rw [appended, ByteArray.size_append, Writer.position]
          change w₃.position < wordRange
          omega
        obtain ⟨written, small, kept⟩ := ih (fun e he => appends e (by simp [he])) small₃ payload₃
          (by simpa using others)
        refine ⟨?_, small, ?_⟩
        · rw [position₃] at written
          simpa [operandOffsets, operandBytes, ByteArray.append_assoc] using written
        · intro s mem e' he'
          obtain rfl | mem := List.mem_cons.1 mem
          · obtain rfl : e = e' := by simpa using he'
            exact ⟨rules, depth⟩
          · exact kept s mem e' he'

theorem checkContext_eq_ok {extensions : Bool} {kind : Kind} {scope : Scope} {w : Writer}
    {r : Unit × Writer} :
    (checkContext extensions kind scope).run w = .ok r ↔
      kind.Placed extensions scope ∧ r = ((), w) := by
  rw [checkContext]
  by_cases current : kind = .current ∧ scope.filters = 0
  · rw [if_pos current]
    exact ⟨nofun, fun h => absurd current.2 (h.1.current current.1)⟩
  · by_cases last : kind = .last ∧ scope.subscript = false
    · rw [if_neg current, if_pos last]
      refine ⟨nofun, fun h => ?_⟩
      have := h.1.last last.1
      simp [last.2] at this
    · by_cases constructors : kind.isExtension ∧ extensions = false
      · rw [if_neg current, if_neg last, if_pos constructors]
        refine ⟨nofun, fun h => ?_⟩
        have := h.1.constructors (Kind.isExtension_iff.1 constructors.1)
        simp [constructors.2] at this
      · rw [if_neg current, if_neg last, if_neg constructors]
        have placed : kind.Placed extensions scope := by
          refine ⟨by simpa using current, by simpa using last, fun h => ?_⟩
          simpa [Kind.isExtension_iff.2 h] using constructors
        simp [placed, eq_comm]

/-- The payload once the tag of an item is written and what follows is aligned. -/
def tagged (kind : Kind) (w : Writer) : ByteArray :=
  w.payload ++ ([kind.tag].toByteArray ++ zeros (alignUp (w.position + 1) - (w.position + 1)))

theorem run_reserve_tagged (kind : Kind) (w : Writer) :
    reserve.run (w.byte kind.tag).align =
      .ok (⟨(tagged kind w).size⟩, ⟨tagged kind w ++ ofWord 0⟩) := by
  have written : (w.byte kind.tag).align = ⟨tagged kind w⟩ := by
    simp only [tagged, Writer.align, Writer.bytes, Writer.byte, Writer.position,
      ByteArray.size_push, ← ByteArray.append_assoc, ByteArray.append_toByteArray_singleton]
  rw [written]
  rfl

/-- What the rest of a chain adds after an item. -/
def Continues (scope : Scope) (d : Descent) (next : Option Chain) (slot : OffsetSlot)
    (start : Nat) (w w' : Writer) : Prop :=
  next = none ∧ w' = w ∨ ∃ rest tail w₁, next = some rest ∧
    (rest scope d).run w = .ok (tail, w₁) ∧ (patch slot tail start).run w₁ = .ok ((), w')

/-- Everything that an item does: its fixed part, its operands and the rest of its chain. -/
theorem item_eq_ok {extensions : Bool} {x : Item String Chain (Option Chain)}
    {next : Option Chain} {scope : Scope} {d : Descent} {w w' : Writer} {start : Nat} :
    (item extensions x next scope d).run w = .ok (start, w') ↔
      x.kind.Placed extensions scope ∧ w.size ≤ maxSize ∧ start = w.position ∧
        ∃ slots w₁ w₂, (content x).run ⟨tagged x.kind w ++ ofWord 0⟩ = .ok (slots, w₁) ∧
          (operands x.kind w.position scope d (x.operandSlots.zip slots)).run w₁ = .ok ((), w₂) ∧
          Continues scope d next ⟨(tagged x.kind w).size⟩ w.position w₂ w' := by
  rw [item]
  constructor
  · intro h
    obtain ⟨_, _, checked, h⟩ := run_bind_eq_ok.1 h
    obtain ⟨placed, checked⟩ := checkContext_eq_ok.1 checked
    cases checked
    obtain ⟨fits, h⟩ := ensureRoom_bind_eq_ok.1 h
    obtain ⟨_, _, got, h⟩ := run_bind_eq_ok.1 h
    cases got
    obtain ⟨_, _, modified, h⟩ := run_bind_eq_ok.1 h
    cases modified
    obtain ⟨_, _, reserved, h⟩ := run_bind_eq_ok.1 h
    cases (run_reserve_tagged x.kind w).symm.trans reserved
    obtain ⟨slots, w₁, contents, h⟩ := run_bind_eq_ok.1 h
    obtain ⟨_, w₂, operated, h⟩ := run_bind_eq_ok.1 h
    have ending : start = w.position ∧
        Continues scope d next ⟨(tagged x.kind w).size⟩ w.position w₂ w' := by
      cases next with
      | none =>
          cases h
          exact ⟨rfl, .inl ⟨rfl, rfl⟩⟩
      | some rest =>
          obtain ⟨tail, w₃, encoded, h⟩ := run_bind_eq_ok.1 h
          obtain ⟨_, _, patched, h⟩ := run_bind_eq_ok.1 h
          cases h
          exact ⟨rfl, .inr ⟨rest, tail, w₃, rfl, encoded, patched⟩⟩
    exact ⟨placed, fits, ending.1, slots, w₁, w₂, contents, operated, ending.2⟩
  · rintro ⟨placed, room, rfl, slots, w₁, w₂, contents, operated, ending⟩
    refine run_bind_eq_ok.2 ⟨(), w, checkContext_eq_ok.2 ⟨placed, rfl⟩, ?_⟩
    refine ensureRoom_bind_eq_ok.2 ⟨room, ?_⟩
    refine run_bind_eq_ok.2 ⟨w, w, rfl, ?_⟩
    refine run_bind_eq_ok.2 ⟨(), _, rfl, ?_⟩
    refine run_bind_eq_ok.2 ⟨_, _, run_reserve_tagged x.kind w, ?_⟩
    refine run_bind_eq_ok.2 ⟨slots, w₁, contents, ?_⟩
    refine run_bind_eq_ok.2 ⟨(), w₂, operated, ?_⟩
    obtain ⟨rfl, rfl⟩ | ⟨rest, tail, w₃, rfl, encoded, patched⟩ := ending
    · rfl
    · exact run_bind_eq_ok.2 ⟨tail, w₃, encoded, run_bind_eq_ok.2 ⟨(), w', patched, rfl⟩⟩

theorem size_tagged (kind : Kind) (w : Writer) :
    (tagged kind w).size = alignUp (w.position + 1) := by
  have := le_alignUp (w.position + 1)
  simp only [tagged, ByteArray.size_append, List.size_toByteArray, List.length_singleton,
    size_zeros, Writer.position] at this ⊢
  omega

/-- Where an item is written it keeps the rules, and its fixed part has zeros for offsets. -/
theorem item_ok {extensions : Bool} {x : Item String Chain (Option Chain)} {next : Option Chain}
    {scope : Scope} {d : Descent} {w w' : Writer} {start : Nat}
    (h : (item extensions x next scope d).run w = .ok (start, w')) :
    x.Encodable extensions scope ∧ start = w.position ∧ ∃ w₁ w₂,
      w₁.payload = tagged x.kind w ++ (ofWord 0 ++ (lead x ++
        (words (List.replicate x.operandSlots.length 0) ++ trail x))) ∧
      w₁.payload.size < wordRange ∧
      (operands x.kind w.position scope d (x.operandSlots.zip (offsetSlots
        ((tagged x.kind w).size + 4 + (lead x).size) x.operandSlots.length))).run w₁ =
          .ok ((), w₂) ∧
      Continues scope d next ⟨(tagged x.kind w).size⟩ w.position w₂ w' := by
  obtain ⟨placed, room, start, slots, w₁, w₂, contents, operated, ending⟩ := item_eq_ok.1 h
  obtain ⟨digits, pattern⟩ := content_rules contents
  obtain ⟨rfl, payload, small⟩ := content_ok contents
  have position : (⟨tagged x.kind w ++ ofWord 0⟩ : Writer).position =
      (tagged x.kind w).size + 4 := by
    simp [Writer.position]
  have room : (tagged x.kind w ++ ofWord 0).size ≤ maxSize + 4 := by
    have := alignUp_lt (w.position + 1)
    rw [ByteArray.size_append, size_ofWord, size_tagged]
    simp only [Writer.size, Header.size, Writer.position] at room this ⊢
    omega
  refine ⟨⟨⟨placed, digits⟩, pattern⟩, start, w₁, w₂, ?_, small room, ?_, ending⟩
  · rw [payload, ByteArray.append_assoc]
  · rw [← position]
    exact operated

theorem append_fixed (x : Item String Expr (Option Expr)) (w : Writer) (next : UInt32)
    (offsets : List UInt32) (t : ByteArray) :
    w.payload ++ (fixed x w.position next offsets ++ t) =
      tagged x.kind w ++ ofWord next ++ (lead x ++ (words offsets ++ trail x) ++ t) := by
  simp only [tagged, fixed, ByteArray.append_assoc]

/-- Once its operands are written an item stands there as the last one of its chain. -/
theorem operated_ok {extensions : Bool} {x : Item String Expr (Option Expr)} {scope : Scope}
    {d : Descent} {w w₁ w₂ : Writer} (appends : ∀ e ∈ x.operands, Appends extensions e)
    (payload : w₁.payload = tagged x.kind w ++ (ofWord 0 ++ (lead x ++
      (words (List.replicate x.operandSlots.length 0) ++ trail x))))
    (small : w₁.payload.size < wordRange)
    (h : (operands x.kind w.position scope d
      ((x.operandSlots.map (Slot.map (Option.map (Expr.encode extensions)))).zip (offsetSlots
        ((tagged x.kind w).size + 4 + (lead x).size) x.operandSlots.length))).run w₁ =
          .ok ((), w₂)) :
    w₂.payload = w.payload ++ (Expr.mk x none).layout w.position ∧
      w₂.payload.size < wordRange ∧
      ∀ s ∈ x.operandSlots, ∀ e, s.content = some e →
        e.Everywhere (Item.Encodable extensions) (scope.operand x.kind s.role) ∧
          d.depth + 1 + e.depth ≤ d.limits.recursionLimit.toNat + 1 := by
  have position : w₁.position = stop x w.position := by
    have reserved : w₁.payload =
        w.payload ++ fixed x w.position 0 (List.replicate x.operandSlots.length 0) := by
      rw [payload]
      simp only [tagged, fixed, ByteArray.append_assoc]
    rw [← @size_fixed _ x w.position 0 (List.replicate x.operandSlots.length 0) (by simp),
      Writer.position, reserved, ByteArray.size_append, Writer.position]
  have payload : w₁.payload = (tagged x.kind w ++ (ofWord 0 ++ lead x)) ++
      words (List.replicate x.operandSlots.length 0) ++ trail x := by
    simp only [payload, ByteArray.append_assoc]
  obtain ⟨written, small, kept⟩ := operands_ok (fun e he => appends e (Item.mem_operands.2 he))
    small payload (by simpa [Nat.add_assoc] using h)
  refine ⟨?_, small, kept⟩
  rw [written, position, Expr.layout_last, append_fixed]
  simp only [Expr.operandLayouts, ByteArray.append_assoc]

/-- The last item of a chain is followed by another chain once its next offset leads there. -/
theorem setWord_next (x : Item String Expr (Option Expr)) (e : Expr) (w : Writer) :
    let after := w.position + ((Expr.mk x none).layout w.position).size
    setWord (w.payload ++ (Expr.mk x none).layout w.position ++ e.layout after)
        (tagged x.kind w).size (.ofNat (after - w.position)) =
      w.payload ++ (Expr.mk x (some e)).layout w.position := by
  intro after
  let offsets := operandOffsets w.position (stop x w.position) (Expr.operandLayouts x)
  let body := operandBytes (stop x w.position) (Expr.operandLayouts x)
  have position : after = stop x w.position + body.size := Expr.size_layout_last x w.position
  have overwritten := setWord_append (tagged x.kind w)
    ((lead x ++ (words offsets ++ trail x)) ++ (body ++ e.layout after)) 0
    (.ofNat (after - w.position))
  rw [Expr.layout_next, ← position, append_fixed, ← overwritten, Expr.layout_last,
    ByteArray.append_assoc, ByteArray.append_assoc, append_fixed]

/-- Encoding appends the layout of the chain, whatever stands before it. -/
theorem appends (extensions : Bool) (e : Expr) : Appends extensions e := by
  induction e using Expr.operandInduction with
  | mk x next operands rest =>
      intro scope d w start w' deep h
      rw [Expr.encode_mk] at h
      obtain ⟨encodable, rfl, w₁, w₂, payload, small, operated, ending⟩ := item_ok h
      rw [Item.encodable_map] at encodable
      simp only [Item.kind_map, lead_map, trail_map, Item.operandSlots_map, List.length_map]
        at payload operated ending
      obtain ⟨written, small, kept⟩ := operated_ok operands payload small operated
      have kept (h : ∀ e, next = some e → e.Everywhere (Item.Encodable extensions) scope ∧
          d.depth + e.depth ≤ d.limits.recursionLimit.toNat + 1) :=
        Expr.everywhere_and_depth_mk.2 ⟨encodable, by omega, kept, h⟩
      obtain ⟨stopped, rfl⟩ | ⟨chain, tail, w₃, continued, encoded, patched⟩ := ending
      · obtain rfl := Option.map_eq_none_iff.1 stopped
        obtain ⟨rules, depth⟩ := kept nofun
        exact ⟨rfl, written, small, rules, depth⟩
      · obtain ⟨e, rfl, rfl⟩ := Option.map_eq_some_iff.1 continued
        obtain ⟨rfl, appended, small, rules, depth⟩ := rest e rfl _ _ _ _ _ deep encoded
        obtain ⟨rules, depth⟩ := kept (by simpa using ⟨rules, depth⟩)
        obtain ⟨_, _, patched⟩ := patch_eq_ok.1 patched
        have after : w₂.position = w.position + ((Expr.mk x none).layout w.position).size := by
          rw [Writer.position, written, ByteArray.size_append, Writer.position]
        have payload : w'.payload = w.payload ++ (Expr.mk x (some e)).layout w.position := by
          rw [patched, appended, written, after, setWord_next]
        refine ⟨rfl, payload, ?_, rules, depth⟩
        rwa [patched, size_setWord]

end Encoder

/-- A buffer that was encoded holds the layout of the expression, which keeps the rules and nests
within the limit. -/
theorem Path.encode_ok {path : Path} {limits : Limits} {b : Buffer}
    (h : path.encode limits = .ok b) :
    b.header = .ofModes path.lax path.extensions ∧ b.payload = path.expr.layout 0 ∧
      b.payload.size < wordRange ∧ path.expr.Everywhere (Item.Encodable path.extensions) .top ∧
      path.expr.depth ≤ limits.recursionLimit.toNat := by
  rw [encode] at h
  obtain ⟨⟨start, w⟩, written, h⟩ := bind_eq_ok.1 h
  obtain ⟨d, w₁, entered, encoded⟩ := run_bind_eq_ok.1 written
  obtain ⟨rfl, deep, rfl⟩ := Encoder.enter_ok entered
  obtain ⟨_, payload, small, rules, depth⟩ := Encoder.appends _ _ _ _ _ _ _ deep encoded
  cases h
  refine ⟨rfl, ?_, small, rules, ?_⟩
  · simpa [Writer.position] using payload
  · simp only [Limits.descent] at depth
    omega

end FlatPath
