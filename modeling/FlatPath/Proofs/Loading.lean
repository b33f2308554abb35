import FlatPath.Proofs.Acceptance
import FlatPath.Proofs.RoundTrip

/-!
Opening what was encoded. The items of a layout stand in the order in which they are walked, so its
tour ascends and no item is the target of two links; and what the encoder asks of an expression is
what the check asks of a payload.
-/

namespace FlatPath

open Bytes Layout

/-- The positions ascend, from `i` at the lowest and below `j`. -/
structure Ascends (i j : Nat) (ps : List Nat) : Prop where
  pairwise : ps.Pairwise (· < ·)
  bounds : ∀ p ∈ ps, i ≤ p ∧ p < j

namespace Ascends

variable {i j k : Nat} {ps qs : List Nat}

theorem nil (i j : Nat) : Ascends i j [] :=
  ⟨.nil, by simp⟩

theorem singleton (h : i < j) : Ascends i j [i] :=
  ⟨List.pairwise_singleton _ i, by simpa using h⟩

theorem append (h : Ascends i j ps) (h' : Ascends j k qs) (le : i ≤ j) (le' : j ≤ k) :
    Ascends i k (ps ++ qs) := by
  refine ⟨List.pairwise_append.2 ⟨h.pairwise, h'.pairwise, fun p hp q hq => ?_⟩, fun p hp => ?_⟩
  · have := h.bounds p hp
    have := h'.bounds q hq
    omega
  · obtain hp | hp := List.mem_append.1 hp
    · have := h.bounds p hp
      omega
    · have := h'.bounds p hp
      omega

end Ascends

section Tour

variable {b : ByteArray}

theorem ascends_operands {p : Nat} (small : b.size < wordRange) {operands : List (Option Expr)}
    (each : ∀ e, some e ∈ operands → ∀ q, HoldsAt b q (e.layout q) →
      Ascends q (q + (e.layout q).size) (tour b q)) {q : Nat} (forward : p < q)
    (h : HoldsAt b q (operandBytes q (operands.map (Option.map Expr.layout)))) :
    Ascends q (q + (operandBytes q (operands.map (Option.map Expr.layout))).size)
      ((operandOffsets p q (operands.map (Option.map Expr.layout))).flatMap fun offset =>
        if offset = 0 then [] else tour b (p + offset.toNat)) := by
  induction operands generalizing q with
  | nil => exact .nil ..
  | cons o rest ih =>
      have ih {q : Nat} := @ih (fun e he => each e (by simp [he])) q
      cases o with
      | none => simpa [operandOffsets, operandBytes] using ih forward h
      | some e =>
          obtain ⟨offset, present⟩ := (e.readsAt_of_holdsAt small h.left).offset small forward
          have first := each e (by simp) q h.left
          have others := ih (by omega) h.right
          have target : p + (q - p) = q := by omega
          simp only [List.map_cons, Option.map_some, operandOffsets, operandBytes,
            List.flatMap_cons, if_neg present, offset, target, ByteArray.size_append,
            ← Nat.add_assoc]
          exact first.append others (by omega) (by omega)

/-- The tour of a layout ascends through it. -/
theorem ascends_tour (small : b.size < wordRange) (e : Expr) {p : Nat}
    (h : HoldsAt b p (e.layout p)) : Ascends p (p + (e.layout p).size) (tour b p) := by
  induction e using Expr.operandInduction generalizing p with
  | mk x next operands rest =>
      obtain ⟨offset, first, body, ending⟩ := Expr.holdsAt_layout h
      obtain ⟨c, decoded, rfl, _, contents⟩ := decode_fixed first (by simp) small
      have forward := lt_stop x p
      have below : Ascends (stop x p)
          (stop x p + (operandBytes (stop x p) (Expr.operandLayouts x)).size) _ :=
        ascends_operands small (fun e he q => operands e (Item.mem_operands.2 he)) forward body
      have slots : (c.slots.flatMap fun s =>
          if s.content = 0 then [] else tour b (p + s.content.toNat)) =
            (operandOffsets p (stop x p) (Expr.operandLayouts x)).flatMap fun offset =>
              if offset = 0 then [] else tour b (p + offset.toNat) := by
        rw [← contents, List.flatMap_map]
        rfl
      rw [tour_eq decoded, c.flatMap_links fun o => tour b (p + o.toNat), slots,
        ← List.singleton_append, ← List.append_assoc]
      -- The tour takes the item, its operands and the rest of the chain as the layout places them.
      have here := (Ascends.singleton forward).append below (by omega) (by omega)
      obtain ⟨rfl, absent⟩ | ⟨e, rfl, onward, tail⟩ := ending
      · rw [Expr.size_layout_last, if_pos absent, List.append_nil]
        exact here
      · obtain ⟨offset, present⟩ := (e.readsAt_of_holdsAt small tail).offset small
          (show p < _ by omega)
        rw [← onward] at offset present
        rw [Expr.size_layout_next, if_neg present, offset, Nat.add_sub_cancel' (by omega)]
        exact here.append (rest e rfl tail) (by omega) (by omega)

end Tour

namespace Header

variable {h : Header}

theorem size_bytes (h : Header) : h.bytes.size = 4 := rfl

theorem read_bytes (current : h.isCurrent) (payload : ByteArray) :
    read (h.bytes ++ payload) = .ok h := by
  have enough : 4 ≤ (h.bytes ++ payload).size := by
    rw [ByteArray.size_append, size_bytes]
    exact Nat.le_add_right ..
  have front {i : Nat} (inFront : i < h.bytes.size) (inWhole : i < (h.bytes ++ payload).size) :
      (h.bytes ++ payload)[i] = h.bytes[i] :=
    ByteArray.getElem_append_left inFront
  have reserved : UInt16.ofNat ((UInt8.ofNat h.reserved.toNat).toNat +
      (UInt8.ofNat (h.reserved.toNat / 0x100)).toNat * 0x100) = h.reserved := by
    apply UInt16.toNat_inj.1
    have := h.reserved.toNat_lt
    simp
    omega
  have same : ofBytes? (h.bytes ++ payload) = some h := by
    rw [ofBytes?, dif_pos (show size ≤ _ from enough)]
    refine congrArg some ((Header.mk.injEq ..).mpr ⟨front (show 0 < 4 by decide) _,
      front (show 1 < 4 by decide) _, ?_⟩)
    exact (congrArg₂ (fun low high : UInt8 => UInt16.ofNat (low.toNat + high.toNat * 0x100))
      (front (show 2 < 4 by decide) _) (front (show 3 < 4 by decide) _)).trans reserved
  simp only [read, same, current, if_true]

theorem extract_bytes (h : Header) (payload : ByteArray) :
    (h.bytes ++ payload).extract size (h.bytes ++ payload).size = payload := by
  rw [ByteArray.size_append]
  exact ByteArray.extract_append_eq_right rfl rfl

theorem isCurrent_ofModes (lax extensions : Bool) : (ofModes lax extensions).isCurrent := by
  cases lax <;> cases extensions <;> rfl

end Header

/-- Opening a buffer of the current version comes down to the check of its payload. -/
theorem Buffer.load_bytes_eq {b : Buffer} (current : b.header.isCurrent) (limits : Limits) :
    load b.bytes limits = verify b.payload b.header.hasExtensions limits >>= fun _ => .ok b := by
  simp only [load, bytes, Header.read_bytes current, Header.extract_bytes, ok_bind, except_pure]

theorem Buffer.load_bytes {b : Buffer} {limits : Limits} (current : b.header.isCurrent)
    (verified : verify b.payload b.header.hasExtensions limits = .ok ()) :
    load b.bytes limits = .ok b := by
  rw [load_bytes_eq current, verified, ok_bind]

theorem Buffer.load_bytes_of_isOk {b : Buffer} {limits : Limits} (current : b.header.isCurrent)
    (verified : (verify b.payload b.header.hasExtensions limits).isOk) :
    load b.bytes limits = .ok b := by
  obtain ⟨_, accepted⟩ := exists_ok verified
  exact load_bytes current accepted

namespace Path

variable {path : Path} {limits : Limits} {b : Buffer}

theorem refused_of_cancelled (path : Path) (raised : limits.isCancelled = true) :
    path.encode limits = .error (.limit .cancelled) := by
  have refused : Encoder.enter limits.descent = throw (.limit .cancelled) := by
    rw [Encoder.enter, Limits.enter_of_cancelled raised]
  rw [encode, refused]
  rfl

theorem running_of_encode (h : path.encode limits = .ok b) : limits.isCancelled = false := by
  rw [← Bool.not_eq_true]
  intro raised
  rw [refused_of_cancelled path raised] at h
  cases h

/-- The check accepts what was encoded under every limit that has room for it, as long as no item
starts farther away than an offset can span. -/
theorem verify_of_near (h : path.encode limits = .ok b) (near : ∀ i ∈ tour b.payload 0, i ≤ maxSize)
    {limits' : Limits} (running : limits'.isCancelled = false)
    (room : path.expr.depth ≤ limits'.recursionLimit.toNat) :
    verify b.payload b.header.hasExtensions limits' = .ok () := by
  obtain ⟨header, payload, narrow, rules, _⟩ := encode_ok h
  have held : HoldsAt b.payload 0 (path.expr.layout 0) :=
    ⟨.empty, .empty, by simp [payload], rfl⟩
  obtain ⟨c, decoded, read⟩ := path.expr.readsAt_of_holdsAt narrow held
  rw [header, (Header.modes_ofModes _ _).2]
  have passes : Visit.first.Passes b.payload path.extensions limits'.recursionLimit.toNat := by
    refine Visit.passes_of_expr? near decoded read ?_ ?_
    · exact rules.mono fun _ _ h => h.toAdmissible
    · simp only [Visit.first]
      omega
  refine (Verify.ok_iff running).2 ⟨passes, ?_⟩
  have ascends := (ascends_tour narrow path.expr held).pairwise
  exact (nodup_tour passes.decodes).1 (ascends.imp fun below => Nat.ne_of_lt below)

theorem verify_of_encode (h : path.encode limits = .ok b) (small : b.payload.size ≤ maxSize)
    {limits' : Limits} (running : limits'.isCancelled = false)
    (room : path.expr.depth ≤ limits'.recursionLimit.toNat) :
    verify b.payload b.header.hasExtensions limits' = .ok () := by
  refine verify_of_near h (fun i mem => ?_) running room
  have := lt_size_of_mem_tour mem
  omega

theorem isCurrent_of_encode (h : path.encode limits = .ok b) : b.header.isCurrent := by
  obtain ⟨header, _⟩ := encode_ok h
  rw [header]
  exact Header.isCurrent_ofModes ..

theorem load_of_encode (h : path.encode limits = .ok b) (small : b.payload.size ≤ maxSize) :
    Buffer.load b.bytes limits = .ok b := by
  obtain ⟨_, _, _, _, depth⟩ := encode_ok h
  exact Buffer.load_bytes (isCurrent_of_encode h)
    (verify_of_encode h small (running_of_encode h) depth)

theorem load_of_encode_layout (h : path.encode limits = .ok b)
    (small : (path.expr.layout 0).size ≤ maxSize) : Buffer.load b.bytes limits = .ok b := by
  obtain ⟨_, payload, _⟩ := encode_ok h
  exact load_of_encode h (by rwa [payload])

/-- A buffer that was encoded, within the size that offsets can span, is opened again as it is
under the same limits. It is of the current version, and passes the check without limits too. -/
theorem load_encode (h : path.encode limits = .ok b) (small : b.size ≤ maxSize) :
    Buffer.load b.bytes limits = .ok b ∧ b.header.isCurrent ∧
      verify b.payload b.header.hasExtensions .unbounded = .ok () := by
  have narrow : b.payload.size ≤ maxSize := by
    rw [Buffer.size] at small
    omega
  obtain ⟨_, _, _, _, depth⟩ := encode_ok h
  exact ⟨load_of_encode h narrow, isCurrent_of_encode h,
    verify_of_encode h narrow rfl (Limits.le_unbounded depth)⟩

theorem load_encode_specimen :
    ∃ b, specimen.encode {} = .ok b ∧ b.size ≤ maxSize ∧ Buffer.load b.bytes {} = .ok b ∧
      b.header.isCurrent ∧ verify b.payload b.header.hasExtensions .unbounded = .ok () := by
  obtain ⟨b, h⟩ := exists_ok (x := specimen.encode {}) (by decide +kernel)
  have fits : (specimen.encode {}).toOption.all (·.size ≤ maxSize) = true := by decide +kernel
  have small : b.size ≤ maxSize := by simpa [h, Except.toOption] using fits
  exact ⟨b, h, small, load_encode h small⟩

end Path

end FlatPath
