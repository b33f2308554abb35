import FlatPath.Proofs.Classification

/-!
Items at another place. Offsets count from the item that holds them and padding ends at multiples of
four, so what is decoded of a byte string is decoded of every longer one that holds it from a
multiple of four on. A payload that passes the check is the same tree there for every reader.
-/

namespace FlatPath

open Bytes Relation

namespace Bytes

theorem alignUp_add {n : Nat} (aligned : n % 4 = 0) (i : Nat) :
    alignUp (n + i) = n + alignUp i := by
  rw [alignUp, alignUp]
  omega

namespace HoldsAt

variable {b s : ByteArray} {n i : Nat}

theorem byteAt_add (h : HoldsAt b n s) (inside : i < s.size) :
    Bytes.byteAt b (n + i) = Bytes.byteAt s i := by
  rw [h.byteAt i inside, Bytes.byteAt, dif_pos inside]

theorem wordAt_add (h : HoldsAt b n s) (inside : i + 4 ≤ s.size) :
    Bytes.wordAt b (n + i) = Bytes.wordAt s i := by
  simp only [Bytes.wordAt, Nat.add_assoc]
  rw [h.byteAt_add (by omega), h.byteAt_add (by omega), h.byteAt_add (by omega),
    h.byteAt_add (by omega)]

theorem wordsAt_add (h : HoldsAt b n s) {k : Nat} (inside : i + 4 * k ≤ s.size) :
    Bytes.wordsAt b (n + i) k = Bytes.wordsAt s i k := by
  refine List.map_congr_left fun j mem => ?_
  have := List.mem_range.1 mem
  rw [Nat.add_assoc, h.wordAt_add (by omega)]

theorem wordPairsAt_add (h : HoldsAt b n s) {k : Nat} (inside : i + 8 * k ≤ s.size) :
    Bytes.wordPairsAt b (n + i) k = Bytes.wordPairsAt s i k := by
  refine List.map_congr_left fun j mem => ?_
  have := List.mem_range.1 mem
  rw [Nat.add_assoc, Nat.add_assoc, h.wordAt_add (by omega), h.wordAt_add (by omega)]

theorem extract_add (h : HoldsAt b n s) {k : Nat} (inside : i + k ≤ s.size) :
    b.extract (n + i) (n + i + k) = s.extract i (i + k) := by
  have bound := h.le_size
  refine (ByteArray.extract_eq_extract_iff_getElem (by omega) inside).2 fun j hj => ?_
  have same := h.byteAt_add (i := i + j) (by omega)
  rw [Bytes.byteAt, Bytes.byteAt, dif_pos (by omega), dif_pos (by omega)] at same
  simpa [Nat.add_assoc] using same

end HoldsAt

end Bytes

/-- What is read of a byte string is read of every one that holds it. -/
def Relocates {α : Type} (read : ByteArray → Nat → Except FormatError α) : Prop :=
  ∀ ⦃b s : ByteArray⦄ ⦃n i : Nat⦄ ⦃v : α⦄, HoldsAt b n s → read s i = .ok v →
    read b (n + i) = .ok v

namespace Relocates

variable {α β : Type} {read : ByteArray → Nat → Except FormatError α}

theorem pure (v : α) : Relocates fun _ _ => .ok v := by
  intro _ _ _ _ _ _ h
  exact h

theorem fails (e : ByteArray → Nat → FormatError) :
    Relocates fun b i => (.error (e b i) : Except FormatError α) := by
  intro _ _ _ _ _ _ h
  cases h

theorem bind (first : Relocates read) {rest : α → ByteArray → Nat → Except FormatError β}
    (each : ∀ v, Relocates (rest v)) : Relocates fun b i => read b i >>= fun v => rest v b i := by
  intro b s n i u held h
  obtain ⟨v, hv, hu⟩ := bind_eq_ok.1 h
  exact bind_eq_ok.2 ⟨v, first held hv, each v held hu⟩

theorem ahead (h : Relocates read) (k : Nat) : Relocates fun b i => read b (i + k) := by
  intro b s n i v held found
  simpa only [Nat.add_assoc] using h held found

theorem ite {p : Prop} [Decidable p] {other : ByteArray → Nat → Except FormatError α}
    (h : Relocates read) (h' : Relocates other) :
    Relocates fun b i => if p then read b i else other b i := by
  split
  · exact h
  · exact h'

end Relocates

namespace Record

variable {b s : ByteArray} {i n : Nat}

theorem word_relocates (d : Defect) : Relocates fun b i => word b i d := by
  intro b s n i v held h
  have bound := held.le_size
  simp only [word, wordAt?] at h ⊢
  by_cases inside : i + 4 ≤ s.size
  · rw [if_pos inside] at h
    rw [if_pos (by omega), held.wordAt_add inside]
    exact h
  · rw [if_neg inside] at h
    cases h

theorem byte_relocates (d : Defect) : Relocates fun b i => byte b i d := by
  intro b s n i v held h
  have bound := held.le_size
  simp only [byte, byteAt?] at h ⊢
  by_cases inside : i < s.size
  · have same := held.byteAt_add inside
    rw [byteAt, byteAt, dif_pos (by omega), dif_pos inside] at same
    rw [dif_pos inside] at h
    rw [dif_pos (by omega), same]
    exact h
  · rw [dif_neg inside] at h
    cases h

theorem slice_relocates (k : Nat) (d : Defect) : Relocates fun b i => slice b i k d := by
  intro b s n i v held h
  have bound := held.le_size
  simp only [slice, sliceAt?] at h ⊢
  by_cases inside : i + k ≤ s.size
  · rw [if_pos inside] at h
    rw [if_pos (by omega), held.extract_add inside]
    exact h
  · rw [if_neg inside] at h
    cases h

theorem text_relocates (d : Defect) : Relocates fun b i => text b i d :=
  (word_relocates d).bind fun v => ((slice_relocates v.toNat d).ahead 4).bind fun s =>
    (((byte_relocates d).ahead v.toNat).ahead 4).bind fun _ => .ite (.pure s) (.fails _)

theorem entryCount_eq_ok {per : Nat} :
    entryCount b i per = .ok n ↔
      ∃ v, word b i .truncatedCount = .ok v ∧ v.toNat = n ∧ i + 4 + n * (per * 4) ≤ b.size := by
  simp only [entryCount, bind_eq_ok]
  refine exists_congr fun v => and_congr_right fun _ => ?_
  by_cases inside : i + 4 + v.toNat * (per * 4) ≤ b.size
  · rw [if_pos inside]
    constructor
    · intro h
      cases h
      exact ⟨rfl, inside⟩
    · rintro ⟨rfl, _⟩
      rfl
  · rw [if_neg inside]
    constructor
    · intro h
      cases h
    · rintro ⟨rfl, h⟩
      exact absurd h inside

/-- The offsets that are listed behind a count are all there. -/
theorem entryCount_relocates (held : HoldsAt b n s) {per k : Nat}
    (h : entryCount s i per = .ok k) :
    entryCount b (n + i) per = .ok k ∧ i + 4 + k * (per * 4) ≤ s.size := by
  have bound := held.le_size
  obtain ⟨v, counted, size, inside⟩ := entryCount_eq_ok.1 h
  exact ⟨entryCount_eq_ok.2 ⟨v, word_relocates _ held counted, size, by omega⟩, inside⟩

theorem decode_relocates (kind : Kind) : Relocates fun b i => decode b i kind := by
  have word := word_relocates
  cases kind with
  | null | root | current | last | anyArray | anyKey | method => exact .pure _
  | string | key | var => exact (text_relocates _).bind fun _ => .pure _
  | numeric =>
      exact (word _).bind fun v => ((slice_relocates v.toNat _).ahead 4).bind fun _ => .pure _
  | bool => exact (byte_relocates _).bind fun _ => .ite (.pure _) (.ite (.pure _) (.fails _))
  | binary | any => exact (word _).bind fun _ => ((word _).ahead 4).bind fun _ => .pure _
  | unary | datetime | array => exact (word _).bind fun _ => .pure _
  | likeRegex =>
      exact (word _).bind fun _ => ((word _).ahead 4).bind fun _ =>
        ((text_relocates _).ahead 8).bind fun _ => .pure _
  | indexArray | object =>
      intro b s n i r held h
      obtain ⟨k, counted, h⟩ := bind_eq_ok.1 h
      obtain ⟨counted, inside⟩ := entryCount_relocates held counted
      refine bind_eq_ok.2 ⟨k, counted, ?_⟩
      rw [Nat.add_assoc, held.wordPairsAt_add (by omega)]
      exact h
  | sequence =>
      intro b s n i r held h
      obtain ⟨k, counted, h⟩ := bind_eq_ok.1 h
      obtain ⟨counted, inside⟩ := entryCount_relocates held counted
      refine bind_eq_ok.2 ⟨k, counted, ?_⟩
      rw [Nat.add_assoc, held.wordsAt_add (by omega)]
      exact h

end Record

/-- Maps that agree on what the slots of an item hold agree on the item. -/
theorem Item.map_congr_slots {τ σ σ' : Type} {x : Item τ σ σ} {f g : σ → σ'}
    (agree : ∀ s ∈ x.slots, f s.content = g s.content) : x.map id f f = x.map id g g := by
  apply ext_slots
  · simp only [skeleton, map_map]
    rfl
  · simp only [slots_map, List.map_map]
    exact List.map_congr_left agree

namespace Cursor

variable {b s : ByteArray} {n i : Nat} {c c' : Cursor}

/-- What is decoded of an item: its tag, behind the padding its next offset, then the rest. -/
theorem exists_decode {r : Record} {next : UInt32} :
    (∃ c, decode b i = .ok c ∧ c.record = r ∧ c.nextOffset = next) ↔
      i < b.size ∧ ∃ kind, Kind.ofTag? (byteAt b i) = some kind ∧
        Record.word b (alignUp (i + 1)) .truncatedNext = .ok next ∧
        Record.decode b (alignUp (i + 1) + 4) kind = .ok r := by
  rw [decode, byteAt]
  by_cases inside : i < b.size
  · simp only [dif_pos inside]
    cases tag : Kind.ofTag? b[i] with
    | none => simp [inside]
    | some kind =>
        simp only [inside, bind_eq_ok, Option.some.injEq, exists_eq_left', true_and]
        constructor
        · rintro ⟨c, ⟨next, word, record, decoded, made⟩, rfl, rfl⟩
          cases made
          exact ⟨word, decoded⟩
        · rintro ⟨word, decoded⟩
          exact ⟨_, ⟨next, word, r, decoded, rfl⟩, rfl, rfl⟩
  · simp [inside]

/-- An item is decoded as the same one in every byte string that holds it from a multiple of four
on. -/
theorem decode_relocates (held : HoldsAt b n s) (aligned : n % 4 = 0)
    (decoded : decode s i = .ok c) :
    ∃ c', decode b (n + i) = .ok c' ∧ c'.record = c.record ∧ c'.nextOffset = c.nextOffset := by
  obtain ⟨inside, kind, tag, word, record⟩ := exists_decode.1 ⟨c, decoded, rfl, rfl⟩
  have bound := held.le_size
  have start : alignUp (n + i + 1) = n + alignUp (i + 1) := by
    rw [Nat.add_assoc, alignUp_add aligned]
  refine exists_decode.2 ⟨by omega, kind, ?_, ?_, ?_⟩
  · rw [held.byteAt_add inside, tag]
  · rw [start]
    exact Record.word_relocates _ held word
  · rw [start, Nat.add_assoc]
    exact Record.decode_relocates kind held record

/-- The same expression is read back from the item at its new place. -/
theorem expr?_relocates (held : HoldsAt b n s) (aligned : n % 4 = 0) (decodes : Decodes s i)
    (decoded : decode s i = .ok c) (decoded' : decode b (n + i) = .ok c') :
    c'.expr? = c.expr? := by
  induction i using @linkInduction s generalizing c c' with
  | owner i ih =>
      obtain ⟨_, found, record, next⟩ := decode_relocates held aligned decoded
      cases decoded'.symm.trans found
      obtain ⟨payload, position⟩ := decode_eq_ok decoded
      obtain ⟨payload', position'⟩ := decode_eq_ok decoded'
      -- A link of the item leads as far at both places, to the same item.
      have below {place : Place} {offset : UInt32}
          (mem : offset ≠ 0 → (place, offset) ∈ c.links) :
          c'.operand? offset = c.operand? offset := by
        by_cases absent : offset = 0
        · rw [absent, operand?_zero, operand?_zero]
        · have link := linked_of_mem_links decoded (mem absent)
          obtain ⟨child, target⟩ := decodes _ (.single link)
          obtain ⟨child', target', _⟩ := decode_relocates held aligned target
          have same := ih _ link (decodes.linked link) target target'
          simp only [operand?, follow, if_neg absent, payload, position, payload', position',
            Nat.add_assoc, target, target', same]
      have operands : c.record.map id c'.operand? c'.operand? =
          c.record.map id c.operand? c.operand? :=
        Item.map_congr_slots fun slot mem =>
          below fun present => mem_links.2 ⟨present, .inl ⟨slot, mem, rfl⟩⟩
      have item (c : Cursor) (r : Record) :
          r.mapM String.fromUTF8? (fun offset => (c.operand? offset).join) c.operand? =
            (r.map id c.operand? c.operand?).mapM String.fromUTF8? Option.join id := by
        rw [Item.mapM_map]
        rfl
      rw [expr?_eq, expr?_eq, item, item, record, operands, next,
        below fun present => mem_links.2 ⟨present, .inr rfl⟩]

end Cursor

/-- In a payload that passes the check, every item that can be reached is decoded as the same item,
with the same tree below it, wherever the payload stands from a multiple of four on, whatever stands
before and behind it. The first item has the same text there and is classified in the same way. -/
theorem verify_relocatable {payload front back : ByteArray} {extensions : Bool} {limits : Limits}
    (verified : verify payload extensions limits = .ok ()) (aligned : front.size % 4 = 0) :
    (∀ i, Reachable payload i → ∃ c c', Cursor.decode payload i = .ok c ∧
      Cursor.decode (front ++ payload ++ back) (front.size + i) = .ok c' ∧
      c'.kind = c.kind ∧ c'.nextOffset = c.nextOffset ∧ c'.record = c.record ∧
      c'.slots = c.slots ∧ c'.node = c.node) ∧
    ∃ root root', Cursor.decode payload 0 = .ok root ∧
      Cursor.decode (front ++ payload ++ back) front.size = .ok root' ∧
      (∃ s, root.node.print .unbounded = .ok s ∧ root'.node.print .unbounded = .ok s) ∧
      ∀ bindings lax, ∃ r, root.node.isMutable ⟨bindings, lax⟩ .unbounded = .ok r ∧
        root'.node.isMutable ⟨bindings, lax⟩ .unbounded = .ok r := by
  have held : HoldsAt (front ++ payload ++ back) front.size payload := ⟨front, back, rfl, rfl⟩
  have passes := ((Verify.ok_iff (Verify.running_of_ok verified)).1 verified).1
  have moved (i : Nat) (reachable : Reachable payload i) : ∃ c c',
      Cursor.decode payload i = .ok c ∧
        Cursor.decode (front ++ payload ++ back) (front.size + i) = .ok c' ∧
        c'.nextOffset = c.nextOffset ∧ c'.record = c.record ∧ c'.node = c.node := by
    obtain ⟨v, reach, rfl⟩ := Visit.reachable_iff.1 reachable
    have passes : v.Passes payload extensions limits.recursionLimit.toNat :=
      fun v' further => passes v' (reach.trans further)
    obtain ⟨c, decoded⟩ := passes.decoded
    obtain ⟨c', decoded', record, next⟩ := Cursor.decode_relocates held aligned decoded
    obtain ⟨e, read⟩ := passes.exists_expr? decoded
    have same := Cursor.expr?_relocates held aligned passes.decodes decoded decoded'
    refine ⟨c, c', decoded, decoded', next, record, ?_⟩
    rw [Cursor.node_of_expr? read, Cursor.node_of_expr? (same.trans read)]
  refine ⟨fun i reachable => ?_, ?_⟩
  · obtain ⟨c, c', decoded, decoded', next, record, tree⟩ := moved i reachable
    exact ⟨c, c', decoded, decoded', congrArg Item.kind record, next, record,
      congrArg Item.slots record, tree⟩
  · obtain ⟨root, root', decoded, decoded', _, _, tree⟩ := moved 0 .refl
    obtain ⟨_, found, _, ⟨s, printed⟩, classified⟩ := passes.safe_of_reachable .refl
    cases decoded.symm.trans found
    refine ⟨root, root', decoded, decoded', ?_, fun bindings lax => ?_⟩
    · exact ⟨s, printed, by rw [tree, printed]⟩
    · obtain ⟨r, decided⟩ := classified ⟨bindings, lax⟩
      exact ⟨r, decided, by rw [tree, decided]⟩

open Specimen in
/-- `$?($x < $y)` between bytes that are no items. -/
theorem verify_relocatable_filter :
    let front : ByteArray := ⟨#[250, 251, 252, 253]⟩
    let back : ByteArray := ⟨#[254, 255]⟩
    verify filterBuffer.payload false {} = .ok () ∧ front.size % 4 = 0 ∧
      ∃ root root', Cursor.decode filterBuffer.payload 0 = .ok root ∧
        Cursor.decode (front ++ filterBuffer.payload ++ back) 4 = .ok root' ∧
        root'.node = root.node ∧
        root.node.isMutable ⟨zones, true⟩ .unbounded = .ok true ∧
        root'.node.isMutable ⟨zones, true⟩ .unbounded = .ok true := by
  intro front back
  obtain ⟨_, verified⟩ := exists_ok (x := verify filterBuffer.payload false {}) (by decide +kernel)
  have start : Cursor.decode filterBuffer.payload 0 =
      .ok ⟨filterBuffer.payload, 0, by decide, .root, 8⟩ := rfl
  have found : (⟨filterBuffer.payload, 0, by decide, .root, 8⟩ : Cursor).node.isMutable
      ⟨zones, true⟩ .unbounded = .ok true := by cbv
  have aligned : front.size % 4 = 0 := by decide
  obtain ⟨items, root, root', decoded, decoded', _, classified⟩ :=
    @verify_relocatable _ front back _ _ verified aligned
  obtain ⟨_, _, first, first', _, _, _, _, tree⟩ := items 0 .refl
  cases decoded.symm.trans first
  cases decoded'.symm.trans first'
  cases decoded.symm.trans start
  obtain ⟨_, decided, decided'⟩ := classified zones true
  cases found.symm.trans decided
  exact ⟨verified, aligned, _, root', decoded, decoded', tree, found, decided'⟩

end FlatPath
