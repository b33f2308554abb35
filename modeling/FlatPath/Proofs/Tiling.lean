import FlatPath.Proofs.EncodingSucceeds
import FlatPath.Proofs.Loading

/-!
The items of an encoded payload as tiles. In pre-order each item starts where the fixed part of the
one before it ends, and the last one ends with the payload; every word of an item stands on a
boundary of four, and every offset is the way from the start of its item to the start of the item
that it leads to.
-/

namespace FlatPath

open Bytes Layout

section Each

variable {α : Type} {P : Nat → α → Prop} {n : Nat} {a : α} {as bs : List α}

/-- The property holds of everything in the list and its number, the first one being `n`. -/
def Each (P : Nat → α → Prop) (n : Nat) (as : List α) : Prop :=
  ∀ k a, as[k]? = some a → P (n + k) a

theorem each_nil : Each P n [] := nofun

theorem each_cons : Each P n (a :: as) ↔ P n a ∧ Each P (n + 1) as := by
  constructor
  · intro h
    refine ⟨h 0 a rfl, fun k b hb => ?_⟩
    rw [Nat.add_right_comm]
    exact h (k + 1) b hb
  · rintro ⟨first, rest⟩ k b hb
    cases k with
    | zero =>
        cases hb
        exact first
    | succ k =>
        rw [← Nat.add_assoc, Nat.add_right_comm]
        exact rest k b hb

theorem each_append : Each P n (as ++ bs) ↔ Each P n as ∧ Each P (n + as.length) bs := by
  induction as generalizing n with
  | nil => simp [each_nil]
  | cons a as ih =>
      rw [List.cons_append, each_cons, each_cons, ih, and_assoc, List.length_cons, Nat.add_assoc,
        Nat.add_comm 1]

end Each

/-- An item in pre-order, with the numbers of the items that its offsets lead to. -/
structure Tile where
  item : Item String Unit Unit
  operands : List (Option Nat)
  next : Option Nat

namespace Layout

/-- The items of the operands, the first one with number `n`. -/
def operandTiles : Nat → List (Option (Nat → List Tile)) → List Tile
  | _, [] => []
  | n, none :: rest => operandTiles n rest
  | n, some tiles :: rest => tiles n ++ operandTiles (n + (tiles n).length) rest

/-- The numbers of the operands. -/
def operandNumbers : Nat → List (Option (Nat → List Tile)) → List (Option Nat)
  | _, [] => []
  | n, none :: rest => none :: operandNumbers n rest
  | n, some tiles :: rest => some n :: operandNumbers (n + (tiles n).length) rest

/-- An item with number `n`, then the items of its operands and of the rest of its chain. -/
def itemTiles (x : Item String (Nat → List Tile) (Option (Nat → List Tile)))
    (next : Option (Nat → List Tile)) (n : Nat) : List Tile :=
  let operands := x.operandSlots.map Slot.content
  let below := operandTiles (n + 1) operands
  let after := n + 1 + below.length
  ⟨x.skeleton, operandNumbers (n + 1) operands, next.map fun _ => after⟩ ::
    (below ++ next.elim [] (· after))

@[simp] theorem length_operandNumbers (n : Nat) (operands : List (Option (Nat → List Tile))) :
    (operandNumbers n operands).length = operands.length := by
  induction operands generalizing n with
  | nil => rfl
  | cons o rest ih => cases o <;> simp [operandNumbers, ih]

end Layout

namespace Expr

/-- The items of a chain in pre-order, the first one with number `n`. -/
def tiles (e : Expr) : Nat → List Tile :=
  e.fold itemTiles

/-- What the slots of an item hold, as items in pre-order. -/
def operandTilings (x : Item String Expr (Option Expr)) : List (Option (Nat → List Tile)) :=
  (x.operandSlots.map Slot.content).map (Option.map tiles)

theorem tiles_mk (x : Item String Expr (Option Expr)) (next : Option Expr) (n : Nat) :
    let below := operandTiles (n + 1) (operandTilings x)
    let after := n + 1 + below.length
    (mk x next).tiles n =
      ⟨x.skeleton, operandNumbers (n + 1) (operandTilings x), next.map fun _ => after⟩ ::
        (below ++ next.elim [] (·.tiles after)) := by
  have step : (mk x next).tiles =
      itemTiles (x.map id tiles (Option.map tiles)) (next.map tiles) := by
    rw [tiles, fold_mk]
    rfl
  have operands : (x.map id tiles (Option.map tiles)).operandSlots.map Slot.content =
      operandTilings x := by
    simp [operandTilings, Item.operandSlots_map, Slot.map]
  have skeleton : (x.map id tiles (Option.map tiles)).skeleton = x.skeleton := by
    rw [Item.skeleton, Item.map_map]
    rfl
  intro below after
  rw [step, itemTiles, operands, skeleton]
  cases next <;> rfl

theorem length_tiles_mk (x : Item String Expr (Option Expr)) (next : Option Expr) (n : Nat) :
    let after := n + 1 + (operandTiles (n + 1) (operandTilings x)).length
    n + ((mk x next).tiles n).length = after + (next.elim [] (·.tiles after)).length := by
  intro after
  rw [tiles_mk, List.length_cons, List.length_append]
  simp only [after]
  omega

/-- The numbers of the items that the offsets of `$.a == $` lead to. -/
example : ((mk (.binary .equal (mk .root (some (single (.key "a")))) (single .root)) none).tiles
    0).map (fun t => (t.operands, t.next)) =
      [([some 1, some 3], none), ([], some 2), ([], none), ([], none)] := by
  rfl

end Expr

namespace Item

variable {ρ ρ' ο ο' : Type}

/-- The words between the next offset and the slots. -/
def leadWords : Item String ρ ο → List UInt32
  | .indexArray ss => [.ofNat ss.length]
  | .sequence es => [.ofNat es.length]
  | .object fs => [.ofNat fs.length]
  | .likeRegex _ _ f => [f.bits]
  | _ => []

/-- The words behind the slots. -/
def trailWords : Item String ρ ο → List UInt32
  | .string s | .key s | .var s | .numeric s => [.ofNat s.utf8ByteSize]
  | .likeRegex _ p _ => [.ofNat p.utf8ByteSize]
  | .any l => [l.first, l.last]
  | _ => []

/-- The bytes behind all words. -/
def raw : Item String ρ ο → ByteArray
  | .string s | .key s | .var s => s.toUTF8 ++ [0].toByteArray
  | .numeric s => s.toUTF8
  | .bool v => [if v then 1 else 0].toByteArray
  | .likeRegex _ p _ => p.toUTF8 ++ [0].toByteArray
  | _ => .empty

theorem lead_eq (x : Item String ρ ο) : lead x = words x.leadWords := by
  cases x <;> simp [lead, leadWords]

theorem trail_eq (x : Item String ρ ο) : trail x = words x.trailWords ++ x.raw := by
  cases x with
  | bool v => exact ByteArray.empty_append.symm
  | _ => simp [trail, trailWords, raw, Layout.text]

end Item

namespace Tile

/-- The way from the item with number `n` to another one; zero stands for none. -/
def offset (starts : Nat → Nat) (n : Nat) : Option Nat → UInt32
  | none => 0
  | some m => .ofNat (starts m - starts n)

/-- All words of an item, in their order. -/
def words (starts : Nat → Nat) (n : Nat) (t : Tile) : List UInt32 :=
  offset starts n t.next ::
    (t.item.leadWords ++ (t.operands.map (offset starts n) ++ t.item.trailWords))

/-- The fixed part of an item. -/
def bytes (starts : Nat → Nat) (n : Nat) (t : Tile) : ByteArray :=
  [t.item.kind.tag].toByteArray ++ (zeros (alignUp (starts n + 1) - (starts n + 1)) ++
    (Bytes.words (t.words starts n) ++ t.item.raw))

/-- Where an item ends that starts at `p`. -/
def stop (t : Tile) (p : Nat) : Nat :=
  alignUp (p + 1) + 4 * (1 + t.item.leadWords.length + t.operands.length +
    t.item.trailWords.length) + t.item.raw.size

theorem length_words (starts : Nat → Nat) (n : Nat) (t : Tile) :
    (t.words starts n).length =
      1 + t.item.leadWords.length + t.operands.length + t.item.trailWords.length := by
  simp only [words, List.length_cons, List.length_append, List.length_map]
  omega

theorem lt_stop (t : Tile) (p : Nat) : p < t.stop p := by
  have := le_alignUp (p + 1)
  rw [stop]
  omega

section Item

variable {x : Item String Expr (Option Expr)} {operands : List (Option Nat)} {next : Option Nat}

theorem stop_skeleton (count : operands.length = x.operandSlots.length) (p : Nat) :
    stop ⟨x.skeleton, operands, next⟩ p = Layout.stop x p := by
  have lead := lead_map (fun _ => ()) (fun _ => ()) x
  have trail := trail_map (fun _ => ()) (fun _ => ()) x
  rw [stop, Layout.stop, ← lead, ← trail, Item.lead_eq, Item.trail_eq, size_words,
    ByteArray.size_append, size_words, ← count]
  simp only [Item.skeleton]
  omega

theorem bytes_skeleton (starts : Nat → Nat) (n : Nat) :
    bytes starts n ⟨x.skeleton, operands, next⟩ =
      fixed x (starts n) (offset starts n next) (operands.map (offset starts n)) := by
  have kind : x.skeleton.kind = x.kind := Item.kind_map ..
  have lead := lead_map (fun _ => ()) (fun _ => ()) x
  have trail := trail_map (fun _ => ()) (fun _ => ()) x
  rw [bytes, fixed, ← lead, ← trail, Item.lead_eq, Item.trail_eq, words, kind]
  simp only [words_cons, words_append, ByteArray.append_assoc, Item.skeleton]

end Item

end Tile

/-- Each tile starts where the one before it ends. -/
def Follows (starts : Nat → Nat) : Nat → List Tile → Prop :=
  Each fun n t => starts (n + 1) = t.stop (starts n)

/-- The payload holds each tile where it starts. -/
def Laid (payload : ByteArray) (starts : Nat → Nat) : Nat → List Tile → Prop :=
  Each fun n t => HoldsAt payload (starts n) (t.bytes starts n)

/-- Where the tiles of a chain follow each other, its layout is made of them. -/
def Tiled (payload : ByteArray) (starts : Nat → Nat) (e : Expr) : Prop :=
  ∀ n, Follows starts n (e.tiles n) → HoldsAt payload (starts n) (e.layout (starts n)) →
    starts (n + (e.tiles n).length) = starts n + (e.layout (starts n)).size ∧
      Laid payload starts n (e.tiles n)

section Laid

variable {payload : ByteArray} {starts : Nat → Nat}

theorem tiled_operands {os : List (Option Expr)} (each : ∀ e, some e ∈ os → Tiled payload starts e)
    (owner : Nat) {n : Nat} (follows : Follows starts n (operandTiles n (os.map (Option.map
      Expr.tiles))))
    (held : HoldsAt payload (starts n) (operandBytes (starts n) (os.map (Option.map
      Expr.layout)))) :
    starts (n + (operandTiles n (os.map (Option.map Expr.tiles))).length) =
        starts n + (operandBytes (starts n) (os.map (Option.map Expr.layout))).size ∧
      Laid payload starts n (operandTiles n (os.map (Option.map Expr.tiles))) ∧
      operandOffsets (starts owner) (starts n) (os.map (Option.map Expr.layout)) =
        (operandNumbers n (os.map (Option.map Expr.tiles))).map (Tile.offset starts owner) := by
  induction os generalizing n with
  | nil => exact ⟨rfl, each_nil, rfl⟩
  | cons o os ih =>
      have ih {n : Nat} := @ih (fun e he => each e (by simp [he])) n
      cases o with
      | none =>
          obtain ⟨ends, laid, offsets⟩ := ih follows held
          refine ⟨ends, laid, ?_⟩
          simp only [List.map_cons, Option.map_none, operandOffsets, operandNumbers, offsets]
          rfl
      | some e =>
          obtain ⟨first, others⟩ := each_append.1 follows
          obtain ⟨here, laid⟩ := each e (by simp) n first held.left
          have rest := held.right
          rw [← here] at rest
          obtain ⟨ends, laid', offsets⟩ := ih others rest
          refine ⟨?_, each_append.2 ⟨laid, laid'⟩, ?_⟩
          · simp only [List.map_cons, Option.map_some, operandTiles, operandBytes,
              List.length_append, ByteArray.size_append, ← Nat.add_assoc, ends, here]
          · simp only [List.map_cons, Option.map_some, operandOffsets, operandNumbers, ← here,
              offsets]
            rfl

/-- A layout is made of the tiles of its chain. -/
theorem tiled (payload : ByteArray) (starts : Nat → Nat) (e : Expr) : Tiled payload starts e := by
  induction e using Expr.operandInduction with
  | mk x next operands rest =>
      intro n follows held
      let after := n + 1 + (operandTiles (n + 1) (Expr.operandTilings x)).length
      rw [Expr.length_tiles_mk, Expr.tiles_mk]
      rw [Expr.tiles_mk] at follows
      obtain ⟨head, others⟩ := each_cons.1 follows
      obtain ⟨inner, outer⟩ := each_append.1 others
      rw [Tile.stop_skeleton (by simp [Expr.operandTilings])] at head
      obtain ⟨offset, first, body, ending⟩ := Expr.holdsAt_layout held
      rw [← head] at body first ending
      obtain ⟨ends, laid, offsets⟩ := tiled_operands
        (fun e he => operands e (Item.mem_operands.2 he)) n inner body
      change starts after =
        starts (n + 1) + (operandBytes (starts (n + 1)) (Expr.operandLayouts x)).size at ends
      change operandOffsets (starts n) (starts (n + 1)) (Expr.operandLayouts x) =
        (operandNumbers (n + 1) (Expr.operandTilings x)).map (Tile.offset starts n) at offsets
      rw [offsets] at first
      rw [← ends] at ending
      have here (next : Option Nat) (same : offset = Tile.offset starts n next) :
          HoldsAt payload (starts n) (Tile.bytes starts n
            ⟨x.skeleton, operandNumbers (n + 1) (Expr.operandTilings x), next⟩) := by
        rwa [Tile.bytes_skeleton, ← same]
      obtain ⟨rfl, absent⟩ | ⟨e, rfl, onward, held⟩ := ending
      · refine ⟨?_, each_cons.2 ⟨here _ absent, each_append.2 ⟨laid, each_nil⟩⟩⟩
        rw [Expr.size_layout_last, ← head]
        exact ends
      · obtain ⟨ends', laid'⟩ := rest e rfl _ outer held
        refine ⟨?_, each_cons.2 ⟨here _ onward, each_append.2 ⟨laid, laid'⟩⟩⟩
        rw [Expr.size_layout_next, ← head, ← ends]
        exact ends'

/-- Tiles that follow each other start one behind the other. -/
theorem Follows.lt {ts : List Tile} (h : Follows starts 0 ts) {n m : Nat} (lt : n < m)
    (le : m ≤ ts.length) : starts n < starts m := by
  induction m with
  | zero => omega
  | succ m ih =>
      have next := h m ts[m] (List.getElem?_eq_getElem le)
      have step := ts[m].lt_stop (starts m)
      rw [Nat.zero_add] at next
      obtain rfl | below := Nat.eq_or_lt_of_le (Nat.le_of_lt_succ lt)
      · omega
      · have := ih below (by omega)
        omega

end Laid

/-- The offsets of a tile lead forward, to items with numbers below `count`. -/
def Tile.LeadsOn (count n : Nat) (t : Tile) : Prop :=
  ∀ m, some m ∈ t.next :: t.operands → n < m ∧ m < count

theorem Expr.length_tiles_pos (e : Expr) (n : Nat) : 0 < (e.tiles n).length := by
  obtain ⟨x, next⟩ := e
  rw [tiles_mk]
  exact Nat.succ_pos _

theorem operands_leadOn {count : Nat} {os : List (Option Expr)}
    (each : ∀ e, some e ∈ os → ∀ n, n + (e.tiles n).length ≤ count →
      Each (Tile.LeadsOn count) n (e.tiles n)) {n : Nat}
    (room : n + (operandTiles n (os.map (Option.map Expr.tiles))).length ≤ count) :
    (∀ m, some m ∈ operandNumbers n (os.map (Option.map Expr.tiles)) → n ≤ m ∧ m < count) ∧
      Each (Tile.LeadsOn count) n (operandTiles n (os.map (Option.map Expr.tiles))) := by
  induction os generalizing n with
  | nil => exact ⟨nofun, each_nil⟩
  | cons o os ih =>
      have ih {n : Nat} := @ih (fun e he => each e (by simp [he])) n
      cases o with
      | none =>
          obtain ⟨numbers, tiles⟩ := ih room
          refine ⟨fun m mem => numbers m ?_, tiles⟩
          simpa [operandNumbers] using mem
      | some e =>
          have positive := e.length_tiles_pos n
          simp only [List.map_cons, Option.map_some, operandTiles, List.length_append] at room
          obtain ⟨numbers, tiles⟩ := ih (n := n + (e.tiles n).length) (by omega)
          refine ⟨fun m mem => ?_, each_append.2 ⟨each e (by simp) n (by omega), tiles⟩⟩
          simp only [List.map_cons, Option.map_some, operandNumbers, List.mem_cons,
            Option.some.injEq] at mem
          obtain rfl | mem := mem
          · omega
          · have := numbers m mem
            omega

/-- Offsets lead to items of the same list, further on. -/
theorem Expr.leadsOn (count : Nat) (e : Expr) (n : Nat) (room : n + (e.tiles n).length ≤ count) :
    Each (Tile.LeadsOn count) n (e.tiles n) := by
  induction e using Expr.operandInduction generalizing n with
  | mk x next operands rest =>
      let after := n + 1 + (operandTiles (n + 1) (operandTilings x)).length
      rw [length_tiles_mk] at room
      rw [tiles_mk]
      obtain ⟨numbers, inner⟩ := operands_leadOn
        (fun e he => operands e (Item.mem_operands.2 he)) (Nat.le_of_add_right_le room)
      have outer : Each (Tile.LeadsOn count) after (next.elim [] (·.tiles after)) := by
        cases next with
        | none => exact each_nil
        | some e => exact rest e rfl _ room
      refine each_cons.2 ⟨fun m mem => ?_, each_append.2 ⟨inner, outer⟩⟩
      obtain onward | operand := List.mem_cons.1 mem
      · obtain ⟨e, rfl, number⟩ := Option.map_eq_some_iff.1 onward.symm
        have positive := e.length_tiles_pos after
        change after = m at number
        change after + (e.tiles after).length ≤ count at room
        omega
      · have := numbers m operand
        omega

/-- The item stands in the buffer from its start on, up to where the next one starts. -/
structure Tile.Stands (b : Buffer) (starts : Nat → Nat) (n : Nat) (t : Tile) : Prop where
  tag : byteAt? b.bytes (Header.size + starts n) = some t.item.kind.tag
  padding : ∀ i, starts n < i → i < alignUp (starts n + 1) →
    byteAt? b.bytes (Header.size + i) = some 0
  words : ∀ k v, (t.words starts n)[k]? = some v →
    (Header.size + alignUp (starts n + 1) + 4 * k) % 4 = 0 ∧
      wordAt? b.bytes (Header.size + alignUp (starts n + 1) + 4 * k) = some v
  raw : sliceAt? b.bytes (Header.size + alignUp (starts n + 1) + 4 * (t.words starts n).length)
    t.item.raw.size = some t.item.raw
  ends : starts (n + 1) =
    alignUp (starts n + 1) + 4 * (t.words starts n).length + t.item.raw.size

theorem Tile.stands {b : Buffer} {starts : Nat → Nat} {n : Nat} {t : Tile}
    (held : HoldsAt b.payload (starts n) (t.bytes starts n))
    (follows : starts (n + 1) = t.stop (starts n)) : t.Stands b starts n := by
  have held : HoldsAt b.bytes (Header.size + starts n) (t.bytes starts n) := held.behind _
  have le := le_alignUp (starts n + 1)
  have padding := held.right.left
  have rest := held.right.right
  have aligned : Header.size + starts n + 1 + (alignUp (starts n + 1) - (starts n + 1)) =
      Header.size + alignUp (starts n + 1) := by omega
  simp only [List.size_toByteArray, List.length_singleton, size_zeros, aligned] at padding rest
  refine ⟨held.left.byteAt?, fun i lower upper => ?_,
    fun k v hk => ⟨?_, rest.left.wordAt?_words hk⟩, ?_, ?_⟩
  · have zero := padding.byteAt?_zeros (k := i - (starts n + 1)) (by omega)
    rwa [show Header.size + starts n + 1 + (i - (starts n + 1)) = Header.size + i by omega] at zero
  · have := alignUp_mod (starts n + 1)
    rw [Header.size]
    omega
  · have raw := rest.right.sliceAt?
    rwa [size_words] at raw
  · rw [follows, stop, length_words]

namespace Path

variable {path : Path} {limits : Limits} {b : Buffer}

/-- Where the item with number `n` starts, when each tile starts where the one before it ends. -/
def start (path : Path) (n : Nat) : Nat :=
  ((path.expr.tiles 0).take n).foldl (fun p t => t.stop p) 0

theorem follows_start (path : Path) : Follows path.start 0 (path.expr.tiles 0) := by
  intro n t ht
  rw [Nat.zero_add, start, start, List.take_add_one, ht, List.foldl_append]
  rfl

/-- Every offset that the encoder patches leads forward and not too far. -/
theorem encode_ne_patch (path : Path) (limits : Limits) (e : PatchError) :
    path.encode limits ≠ .error (.patch e) := by
  intro refused
  cases running : limits.isCancelled with
  | true =>
      rw [path.refused_of_cancelled running] at refused
      cases refused
  | false =>
      obtain ⟨v, _, same⟩ | ⟨_, same, _⟩ := (path.encode_reports running).2 _ refused
      · cases v <;> cases same
      · cases same

/-- The items of an encoded path tile its payload in pre-order, from the first byte to the last, and
every offset is the way forward from the item that holds it to the one that it leads to. So no
offset is ever refused when it is patched. -/
theorem encode_tiles (h : path.encode limits = .ok b) (small : b.size ≤ maxSize) :
    (∃ starts : Nat → Nat,
      starts 0 = 0 ∧ starts (path.expr.tiles 0).length = b.payload.size ∧
      ∀ n t, (path.expr.tiles 0)[n]? = some t →
        t.Stands b starts n ∧
        ∀ m, some m ∈ t.next :: t.operands →
          (n < m ∧ m < (path.expr.tiles 0).length) ∧
          starts n < starts m ∧ starts m - starts n ≤ maxSize) ∧
    ∀ limits' e, path.encode limits' ≠ .error (.patch e) := by
  obtain ⟨_, payload, _⟩ := encode_ok h
  have follows := path.follows_start
  have held : HoldsAt b.payload (path.start 0) (path.expr.layout (path.start 0)) :=
    ⟨.empty, .empty, by simpa [start] using payload, rfl⟩
  obtain ⟨ends, laid⟩ := tiled b.payload path.start path.expr 0 follows held
  have first : path.start 0 = 0 := rfl
  rw [Nat.zero_add, first, Nat.zero_add, ← payload] at ends
  refine ⟨⟨path.start, first, ends, fun n t ht => ?_⟩, ?_⟩
  · have stands := Tile.stands (laid n t ht) (follows n t ht)
    rw [Nat.zero_add] at stands
    refine ⟨stands, fun m mem => ?_⟩
    have between := path.expr.leadsOn _ 0 (Nat.le_of_eq (Nat.zero_add _)) n t ht m mem
    rw [Nat.zero_add] at between
    have forward := follows.lt between.1 (Nat.le_of_lt between.2)
    have last := follows.lt between.2 (Nat.le_refl _)
    refine ⟨between, forward, ?_⟩
    rw [Buffer.size] at small
    omega
  · exact fun limits' e => path.encode_ne_patch limits' e

theorem encode_tiles_specimen :
    ∃ (b : Buffer) (starts : Nat → Nat), specimen.encode {} = .ok b ∧ b.size ≤ maxSize ∧
      starts 0 = 0 ∧ starts (specimen.expr.tiles 0).length = b.payload.size ∧
      ∀ (n : Nat) (t : Tile), (specimen.expr.tiles 0)[n]? = some t → t.Stands b starts n := by
  obtain ⟨b, h⟩ := exists_ok (x := specimen.encode {}) (by decide +kernel)
  have fits : (specimen.encode {}).toOption.all (·.size ≤ maxSize) = true := by decide +kernel
  have small : b.size ≤ maxSize := by simpa [h, Except.toOption] using fits
  obtain ⟨⟨starts, first, last, tiles⟩, _⟩ := encode_tiles h small
  exact ⟨b, starts, h, small, first, last, fun n t ht => (tiles n t ht).1⟩

end Path

end FlatPath
