import FlatPath.Proofs.EncodingSucceeds
import FlatPath.Proofs.Loading

/-!
How far offsets have to span in a buffer that was encoded. The encoder starts no item beyond what an
offset can span, although the last one may end beyond it; so whatever was encoded can be opened
again under every limit that has room for it.
-/

namespace FlatPath

open Bytes Layout

namespace Encoder

variable {b : ByteArray} {extensions : Bool}

/-- Where the chain is written, every item of it starts within what an offset can span. -/
def StartsNear (b : ByteArray) (extensions : Bool) (e : Expr) : Prop :=
  ∀ scope d w start w', d.depth ≤ d.limits.recursionLimit.toNat →
    (e.encode extensions scope d).run w = .ok (start, w') →
      HoldsAt b w.position (e.layout w.position) → ∀ i ∈ tour b w.position, i ≤ maxSize

theorem operands_near {owner : Kind} {p : Nat} {scope : Scope} {d : Descent}
    {os : List (Slot (Option Expr))} (small : b.size < wordRange)
    (each : ∀ e, some e ∈ os.map Slot.content → StartsNear b extensions e)
    {slots : List OffsetSlot} (count : slots.length = os.length) {w w' : Writer}
    (forward : p < w.position)
    (held : HoldsAt b w.position
      (operandBytes w.position ((os.map Slot.content).map (Option.map Expr.layout))))
    (h : (operands owner p scope d ((os.map (Slot.map (Option.map (Expr.encode extensions)))).zip
      slots)).run w = .ok ((), w')) :
    ∀ i ∈ (operandOffsets p w.position ((os.map Slot.content).map
      (Option.map Expr.layout))).flatMap fun offset =>
        if offset = 0 then [] else tour b (p + offset.toNat), i ≤ maxSize := by
  induction os generalizing slots w with
  | nil => nofun
  | cons o os ih =>
      obtain _ | ⟨slot, slots⟩ := slots
      · cases count
      have further {w : Writer} := @ih (fun e he => each e (by simp [he])) slots
        (by simpa using count) w
      obtain ⟨role, required, _ | e⟩ := o
      · simpa [operandOffsets, operandBytes] using further forward held h
      · obtain ⟨d', w₁, entered, chain⟩ := run_bind_eq_ok.1 h
        obtain ⟨rfl, deep, rfl⟩ := enter_ok entered
        obtain ⟨child, w₂, encoded, patches⟩ := run_bind_eq_ok.1 chain
        obtain ⟨_, w₃, patched, others⟩ := run_bind_eq_ok.1 patches
        have position := position_of_operand deep encoded patched
        have first := each e (by simp) _ _ _ _ _ deep encoded held.left
        have rest := further (by omega) (by rw [position]; exact held.right) others
        rw [position] at rest
        obtain ⟨offset, present⟩ := (e.readsAt_of_holdsAt small held.left).offset small forward
        have target : p + (w₁.position - p) = w₁.position := by omega
        simp only [List.map_cons, Option.map_some, operandOffsets, List.flatMap_cons,
          if_neg present, offset, target]
        exact fun i mem => (List.mem_append.1 mem).elim (first i) (rest i)

theorem startsNear (small : b.size < wordRange) (e : Expr) : StartsNear b extensions e := by
  induction e using Expr.operandInduction with
  | mk x next operands rest =>
      intro scope d w start w' deep h held
      rw [Expr.encode_mk] at h
      obtain ⟨_, room, rfl, slots, w₁, w₂, contents, operated, continued⟩ := item_eq_ok.1 h
      obtain ⟨count, position⟩ := content_position contents
      simp only [Item.kind_map, Item.operandSlots_map, List.length_map, stop_map]
        at count position operated
      obtain ⟨offset, first, body, ending⟩ := Expr.holdsAt_layout held
      obtain ⟨c, decoded, rfl, _, offsets⟩ := decode_fixed first (by simp) small
      have forward := lt_stop x w.position
      have below := operands_near small
        (fun e he => operands e (Item.mem_operands.2 he)) count (by rwa [position])
        (by rw [position]; exact body) operated
      have after := position_of_operands count operated
      rw [position] at after below
      rw [tour_eq decoded, c.flatMap_links fun o => tour b (w.position + o.toNat)]
      intro i mem
      obtain rfl | mem := List.mem_cons.1 mem
      · rw [Writer.size, ← Writer.position] at room
        omega
      · obtain mem | mem := List.mem_append.1 mem
        · refine below i ?_
          change i ∈ (operandOffsets w.position (stop x w.position)
            (Expr.operandLayouts x)).flatMap _
          rwa [← offsets, List.flatMap_map]
        · obtain ⟨rfl, absent⟩ | ⟨e, rfl, onward, tail⟩ := ending
          · rw [if_pos absent] at mem
            cases mem
          · obtain ⟨none', _⟩ | ⟨chain, _, w₃, same, encoded, _⟩ := continued
            · cases none'
            · cases same
              change w₂.position = stop x w.position +
                (operandBytes (stop x w.position) (Expr.operandLayouts x)).size at after
              rw [← after] at tail onward
              obtain ⟨offset, present⟩ := (e.readsAt_of_holdsAt small tail).offset small
                (show w.position < _ by omega)
              rw [← onward] at offset present
              rw [if_neg present, offset, Nat.add_sub_cancel' (by omega)] at mem
              exact rest e rfl _ _ _ _ _ deep encoded tail i mem

end Encoder

namespace Path

variable {path : Path} {limits : Limits} {b : Buffer}

theorem starts_near (h : path.encode limits = .ok b) : ∀ i ∈ tour b.payload 0, i ≤ maxSize := by
  obtain ⟨_, payload, small, _⟩ := encode_ok h
  rw [encode] at h
  obtain ⟨⟨start, w⟩, written, h⟩ := bind_eq_ok.1 h
  obtain ⟨d, w₁, entered, encoded⟩ := run_bind_eq_ok.1 written
  obtain ⟨rfl, deep, rfl⟩ := Encoder.enter_ok entered
  exact Encoder.startsNear small path.expr _ _ _ _ _ deep encoded
    ⟨.empty, .empty, by simp [payload, Writer.position], rfl⟩

/-- Whatever was encoded is opened as it is, under every limit that has room for it. -/
theorem load_of_room (h : path.encode limits = .ok b) {limits' : Limits}
    (running : limits'.isCancelled = false)
    (room : path.expr.depth ≤ limits'.recursionLimit.toNat) :
    Buffer.load b.bytes limits' = .ok b :=
  Buffer.load_bytes (isCurrent_of_encode h) (verify_of_near h (starts_near h) running room)

end Path

end FlatPath
