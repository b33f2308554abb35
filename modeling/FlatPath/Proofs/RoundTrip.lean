import FlatPath.Proofs.Encoding
import FlatPath.Proofs.ReadBack

/-!
Reading back what was encoded.
-/

namespace FlatPath

open Bytes

namespace Layout

/-- The bytes at a position are read back to this expression. -/
def ReadsAt (b : ByteArray) (p : Nat) (e : Expr) : Prop :=
  ∃ c, Cursor.decode b p = .ok c ∧ c.expr? = some e

/-- Where something is read back the way to it is a word. -/
theorem ReadsAt.offset {b : ByteArray} {p q : Nat} {e : Expr} (h : ReadsAt b q e)
    (small : b.size < wordRange) (forward : p < q) :
    (UInt32.ofNat (q - p)).toNat = q - p ∧ UInt32.ofNat (q - p) ≠ 0 := by
  obtain ⟨child, decoded, _⟩ := h
  have inside := Cursor.lt_size_of_decode decoded
  have offset := toNat_length small (n := q - p) (by omega)
  refine ⟨offset, fun zero => ?_⟩
  rw [zero] at offset
  simp at offset
  omega

theorem operand?_of_readsAt {c : Cursor} {q : Nat} {e : Expr} (small : c.payload.size < wordRange)
    (forward : c.position < q) (h : ReadsAt c.payload q e) :
    c.operand? (.ofNat (q - c.position)) = some (some e) := by
  obtain ⟨offset, present⟩ := h.offset small forward
  obtain ⟨child, decoded, read⟩ := h
  refine Cursor.operand?_of_decode present ?_ read
  rwa [offset, Nat.add_sub_cancel' (by omega)]

theorem operands?_of_holdsAt {c : Cursor} (small : c.payload.size < wordRange)
    {operands : List (Option Expr)}
    (reads : ∀ e, some e ∈ operands → ∀ q, HoldsAt c.payload q (e.layout q) →
      ReadsAt c.payload q e) {q : Nat} (forward : c.position < q)
    (h : HoldsAt c.payload q (operandBytes q (operands.map (Option.map Expr.layout)))) :
    (operandOffsets c.position q (operands.map (Option.map Expr.layout))).map c.operand? =
      operands.map some := by
  induction operands generalizing q with
  | nil => rfl
  | cons o rest ih =>
      have ih {q : Nat} := @ih (fun e he => reads e (by simp [he])) q
      cases o with
      | none => simp [operandOffsets, Cursor.operand?_zero, ih forward h]
      | some e =>
          have first := reads e (by simp) q h.left
          simp only [List.map_cons, Option.map_some, operandOffsets]
          rw [operand?_of_readsAt small forward first, ih (by omega) h.right]

end Layout

open Layout in
/-- The layout of an expression is read back to the expression. -/
theorem Expr.readsAt_of_holdsAt {b : ByteArray} (small : b.size < wordRange) (e : Expr) {p : Nat}
    (h : HoldsAt b p (e.layout p)) : ReadsAt b p e := by
  induction e using operandInduction generalizing p with
  | mk x next operands rest =>
      obtain ⟨offset, first, body, ending⟩ := holdsAt_layout h
      obtain ⟨c, decoded, nextOffset, skeleton, contents⟩ :=
        decode_fixed first (by simp) small
      obtain ⟨rfl, rfl⟩ := Cursor.decode_eq_ok decoded
      refine ⟨c, decoded, ?_⟩
      have items : c.record.mapM String.fromUTF8? (fun offset => (c.operand? offset).join)
          c.operand? = some x := by
        refine Item.mapM_eq_some_of_slots fromUTF8?_toUTF8 skeleton ?_
        rw [contents]
        exact operands?_of_holdsAt small (fun e he q => operands e (Item.mem_operands.2 he))
          (lt_stop x c.position) body
      have continued : c.operand? offset = some next := by
        obtain ⟨rfl, rfl⟩ | ⟨e, rfl, rfl, tail⟩ := ending
        · exact c.operand?_zero
        · have forward := lt_stop x c.position
          exact operand?_of_readsAt small (by omega) (rest e rfl tail)
      exact Cursor.expr?_eq_some.2 ⟨items, by rw [nextOffset, continued]⟩

theorem Header.modes_ofModes (lax extensions : Bool) :
    (ofModes lax extensions).isLax = lax ∧ (ofModes lax extensions).hasExtensions = extensions := by
  cases lax <;> cases extensions <;> decide

/-- What was written is read back from the first item. -/
theorem Path.root_of_encode {path : Path} {limits : Limits} {b : Buffer}
    (h : path.encode limits = .ok b) :
    ∃ root, b.root = .ok root ∧ root.expr? = some path.expr := by
  obtain ⟨_, payload, small, _⟩ := encode_ok h
  have held : HoldsAt b.payload 0 (path.expr.layout 0) :=
    ⟨.empty, .empty, by simp [payload], rfl⟩
  obtain ⟨root, decoded, read⟩ := path.expr.readsAt_of_holdsAt small held
  exact ⟨root, Buffer.root_eq_ok.2 decoded, read⟩

/-- Decoding undoes encoding. -/
theorem Path.readBack_encode {path : Path} {limits : Limits} {b : Buffer}
    (h : path.encode limits = .ok b) :
    (∃ root, b.root = .ok root ∧ root.expr? = some path.expr) ∧ b.header.isLax = path.lax ∧
      b.header.hasExtensions = path.extensions := by
  obtain ⟨header, _⟩ := encode_ok h
  rw [header]
  exact ⟨root_of_encode h, Header.modes_ofModes _ _⟩

namespace Path

/-- `pg strict {"k": $[0 to last,2]."a"?(@ like_regex "^b" flag "i").datetime()}`. -/
def specimen : Path where
  lax := false
  extensions := true
  expr :=
    let matched := Expr.single (.likeRegex (.single .current) "^b" ⟨1⟩)
    let subscripts := [(.int 0, some (.single .last)), (.int 2, none)]
    let chosen := Expr.mk (.unary .filter matched) (some (.single (.datetime none)))
    let value := Expr.mk .root (some (.mk (.indexArray subscripts) (some (.mk (.key "a") chosen))))
    .single (.object [(.single (.string "k"), value)])

theorem readBack_encode_specimen :
    ∃ b, specimen.encode {} = .ok b ∧
      (∃ root, b.root = .ok root ∧ root.expr? = some specimen.expr) ∧ b.header.isLax = false ∧
        b.header.hasExtensions = true := by
  obtain ⟨b, h⟩ := exists_ok (x := specimen.encode {}) (by decide +kernel)
  exact ⟨b, h, readBack_encode h⟩

end Path

end FlatPath
