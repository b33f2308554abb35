import FlatPath.Proofs.Accessors
import FlatPath.Proofs.OutlineText

/-!
The outline of a buffer that was opened shows its tree: a line for each item that can be reached, in
the order of their positions, and each item but the first is named where one link leads to it. The
items are those that a walk with a stack visits, each once, before the stack is empty.
-/

namespace FlatPath

open Relation
open scoped List

variable {payload : ByteArray} {i : Nat} {c : Cursor}

/-- The positions that the links of the item at `i` lead to. -/
def targets (payload : ByteArray) (i : Nat) : List Nat :=
  match Cursor.decode payload i with
  | .ok c => c.links.map fun l => i + l.2.toNat
  | .error _ => []

/-- The links of the items of a tour lead to the items of the tour but the first. -/
theorem flatMap_targets_tour (h : Decodes payload i) :
    (tour payload i).flatMap (targets payload) ~ (tour payload i).tail := by
  induction i using @linkInduction payload with
  | owner i ih =>
      obtain ⟨c, decoded⟩ := h i .refl
      have here : targets payload i = c.links.map fun l => i + l.2.toNat := by
        rw [targets, decoded]
      have below (l : Place × UInt32) (mem : l ∈ c.links) :
          (tour payload (i + l.2.toNat)).flatMap (targets payload) ~
            (tour payload (i + l.2.toNat)).tail :=
        have link := linked_of_mem_links decoded mem
        ih _ link (h.linked link)
      have headed (l : Place × UInt32) (mem : l ∈ c.links) :
          (i + l.2.toNat) :: (tour payload (i + l.2.toNat)).tail =
            tour payload (i + l.2.toNat) := by
        obtain ⟨child, found⟩ := h _ (.single (linked_of_mem_links decoded mem))
        rw [tour_eq found, List.tail_cons]
      rw [tour_eq decoded, List.flatMap_cons, List.flatMap_assoc, here, List.tail_cons]
      calc (c.links.map fun l => i + l.2.toNat) ++
            c.links.flatMap (fun l => (tour payload (i + l.2.toNat)).flatMap (targets payload))
        _ ~ (c.links.map fun l => i + l.2.toNat) ++
            c.links.flatMap (fun l => (tour payload (i + l.2.toNat)).tail) :=
            (List.Perm.flatMap_left _ below).append_left _
        _ ~ c.links.flatMap (fun l => (i + l.2.toNat) :: (tour payload (i + l.2.toNat)).tail) :=
            List.map_append_flatMap_perm ..
        _ = c.links.flatMap (fun l => tour payload (i + l.2.toNat)) := List.flatMap_congr headed

namespace Outline

/-- A walk with a stack: the items it visited and those it has yet to visit. -/
structure Walk where
  visited : List Cursor
  stack : List Cursor

/-- One turn of the walk. The item on top is visited; the rest of its chain and its operands take
its place, the last operand on top. -/
def Walk.turn (w : Walk) : Except Fault Walk :=
  match w.stack with
  | [] => .ok w
  | c :: rest => do
    let next ← c.next
    let operands ← c.followed
    return ⟨w.visited ++ [c], operands.reverse ++ next.toList ++ rest⟩

def Walk.turns : Nat → Walk → Except Fault Walk
  | 0, w => .ok w
  | n + 1, w => w.turn >>= turns n

theorem Walk.turns_add (m n : Nat) (w : Walk) : turns (m + n) w = turns m w >>= turns n := by
  induction m generalizing w with
  | zero => rw [Nat.zero_add, turns, ok_bind]
  | succ m ih =>
      rw [Nat.add_right_comm, turns, turns]
      cases w.turn with
      | error e => rfl
      | ok w => exact ih w

/-- With the items of `stack` on top of its stack a walk visits those of `all`, one in each turn and
in some order, and has then come down to what was below. -/
def Unwinds (stack all : List Cursor) : Prop :=
  ∃ order, order ~ all ∧ ∀ visited rest,
    Walk.turns all.length ⟨visited, stack ++ rest⟩ = .ok ⟨visited ++ order, rest⟩

namespace Unwinds

variable {stack stack' all all' : List Cursor}

theorem nil : Unwinds [] [] :=
  ⟨[], .refl [], fun visited rest => by rw [List.append_nil]; rfl⟩

theorem perm (h : Unwinds stack all) (same : all ~ all') : Unwinds stack all' := by
  obtain ⟨order, visits, walk⟩ := h
  exact ⟨order, visits.trans same, fun visited rest => same.length_eq ▸ walk visited rest⟩

theorem append (h : Unwinds stack all) (h' : Unwinds stack' all') :
    Unwinds (stack ++ stack') (all ++ all') := by
  obtain ⟨order, visits, walk⟩ := h
  obtain ⟨order', visits', walk'⟩ := h'
  refine ⟨order ++ order', visits.append visits', fun visited rest => ?_⟩
  rw [List.length_append, Walk.turns_add, List.append_assoc, walk, ok_bind, walk',
    List.append_assoc]

/-- An item is visited before all that it leads to. -/
theorem item {next : Option Cursor} {operands : List Cursor} (continued : c.next = .ok next)
    (opened : c.followed = .ok operands) (h : Unwinds (operands.reverse ++ next.toList) all) :
    Unwinds [c] (c :: all) := by
  obtain ⟨order, visits, walk⟩ := h
  refine ⟨c :: order, visits.cons c, fun visited rest => ?_⟩
  have turn : Walk.turn ⟨visited, [c] ++ rest⟩ =
      .ok ⟨visited ++ [c], operands.reverse ++ next.toList ++ rest⟩ := by
    simp only [Walk.turn, List.cons_append, List.nil_append, continued, opened, ok_bind,
      except_pure]
  rw [List.length_cons, Walk.turns, turn, ok_bind, walk, List.append_cons visited c order]

end Unwinds

/-- What is behind an offset: an item with all that it leads to, or nothing. -/
structure Behind (c : Cursor) (offset : UInt32) (o : Option Cursor) (all : List Cursor) :
    Prop where
  followed : c.follow offset = .ok o
  listed : c.below offset = .ok all
  positions : all.map Cursor.position =
    if offset = 0 then [] else tour c.payload (c.position + offset.toNat)
  decoded : ∀ c' ∈ all, Cursor.decode c.payload c'.position = .ok c'
  unwinds : Unwinds o.toList all

theorem Behind.absent (c : Cursor) : Behind c 0 none [] where
  followed := rfl
  listed := rfl
  positions := rfl
  decoded := by simp
  unwinds := .nil

/-- What is behind the slots of an item, where it is known of each slot. -/
theorem exists_behind_slots {c : Cursor} {slots : List (Slot UInt32)}
    (h : ∀ s ∈ slots, ∃ o all, Behind c s.content o all) :
    ∃ os alls, slots.mapM (fun s => c.follow s.content) = .ok os ∧
      slots.mapM (fun s => c.below s.content) = .ok alls ∧
      alls.flatten.map Cursor.position =
        (slots.flatMap fun s =>
          if s.content = 0 then [] else tour c.payload (c.position + s.content.toNat)) ∧
      (∀ c' ∈ alls.flatten, Cursor.decode c.payload c'.position = .ok c') ∧
      Unwinds os.reduceOption.reverse alls.flatten := by
  induction slots with
  | nil => exact ⟨[], [], rfl, rfl, rfl, by simp, .nil⟩
  | cons s slots ih =>
      obtain ⟨o, all, first⟩ := h s (by simp)
      obtain ⟨os, alls, followed, listed, positions, decoded, unwinds⟩ :=
        ih fun s mem => h s (by simp [mem])
      have stack : (o :: os).reduceOption.reverse = os.reduceOption.reverse ++ o.toList := by
        cases o <;> simp
      refine ⟨o :: os, all :: alls, ?_, ?_, ?_, ?_, ?_⟩
      · rw [List.mapM_cons, first.followed, followed]
        rfl
      · rw [List.mapM_cons, first.listed, listed]
        rfl
      · rw [List.flatten_cons, List.map_append, first.positions, positions, List.flatMap_cons]
      · intro c' mem
        obtain mem | mem := List.mem_append.1 mem
        · exact first.decoded c' mem
        · exact decoded c' mem
      · rw [stack]
        exact (unwinds.append first.unwinds).perm List.perm_append_comm

end Outline

/-- What is listed from an item on is its tour, and a walk with a stack visits it. -/
theorem Cursor.exists_preorder (h : Decodes payload i) (decoded : decode payload i = .ok c) :
    ∃ all, c.preorder = .ok all ∧ all.map position = tour payload i ∧
      (∀ c' ∈ all, decode payload c'.position = .ok c') ∧ Outline.Unwinds [c] all := by
  induction i using @linkInduction payload generalizing c with
  | owner i ih =>
      obtain ⟨rfl, rfl⟩ := decode_eq_ok decoded
      have behind (place : Place) {offset : UInt32}
          (mem : offset ≠ 0 → (place, offset) ∈ c.links) :
          ∃ o all, Outline.Behind c offset o all := by
        by_cases absent : offset = 0
        · subst absent
          exact ⟨none, [], .absent c⟩
        · have link := linked_of_mem_links decoded (mem absent)
          obtain ⟨child, found⟩ := h _ (.single link)
          obtain ⟨all, listed, positions, each, unwinds⟩ := ih _ link (h.linked link) found
          refine ⟨some child, all, ?_, ?_, ?_, each, unwinds⟩
          · rw [follow, if_neg absent, found]
          · rw [below, if_neg absent, found]
            exact listed
          · rw [if_neg absent, positions]
      obtain ⟨os, alls, followed, listed, positions, each, unwinds⟩ :=
        Outline.exists_behind_slots fun s mem =>
          behind (.operand s.role) fun present => mem_links.2 ⟨present, .inl ⟨s, mem, rfl⟩⟩
      obtain ⟨next, rest, after⟩ :=
        behind .next fun present => mem_links.2 ⟨present, .inr rfl⟩
      refine ⟨c :: (alls.flatten ++ rest), ?_, ?_, ?_, ?_⟩
      · rw [preorder_eq, listed, after.listed]
        rfl
      · rw [List.map_cons, List.map_append, positions, after.positions, tour_eq decoded,
          c.flatMap_links fun o => tour c.payload (c.position + o.toNat)]
      · intro c' mem
        obtain rfl | mem := List.mem_cons.1 mem
        · exact decoded
        · obtain mem | mem := List.mem_append.1 mem
          · exact each c' mem
          · exact after.decoded c' mem
      · have opened : c.followed = .ok os.reduceOption := by
          rw [Cursor.followed, followed]
          rfl
        exact .item after.followed opened (unwinds.append after.unwinds)

namespace Outline

/-- With the root alone on its stack the walk visits the items, one in each turn, and then the stack
is empty. -/
structure Visits (root : Cursor) (items : List Cursor) : Prop where
  ends : ∃ visited, Walk.turns items.length ⟨[], [root]⟩ = .ok ⟨visited, []⟩ ∧ visited ~ items
  goesOn : ∀ n < items.length, ∃ w, Walk.turns n ⟨[], [root]⟩ = .ok w ∧ w.stack ≠ []

theorem Walk.turns_of_done {w : Walk} (done : w.stack = []) (n : Nat) : turns n w = .ok w := by
  have turn : w.turn = .ok w := by rw [Walk.turn, done]
  induction n with
  | zero => rfl
  | succ n ih => rw [turns, turn, ok_bind, ih]

theorem Walk.visited_le {n : Nat} {w w' : Walk} (h : turns n w = .ok w') :
    w'.visited.length ≤ w.visited.length + n := by
  induction n generalizing w with
  | zero =>
      cases h
      exact Nat.le_refl _
  | succ n ih =>
      obtain ⟨w₁, turned, h⟩ := bind_eq_ok.1 h
      have rest := ih h
      have first : w₁.visited.length ≤ w.visited.length + 1 := by
        rw [Walk.turn] at turned
        split at turned
        · cases turned
          omega
        · obtain ⟨_, _, turned⟩ := bind_eq_ok.1 turned
          obtain ⟨_, _, turned⟩ := bind_eq_ok.1 turned
          cases turned
          simp
      omega

theorem Unwinds.visits {root : Cursor} {all items : List Cursor} (h : Unwinds [root] all)
    (same : all ~ items) : Visits root items := by
  obtain ⟨order, visits, walk⟩ := h.perm same
  have whole : Walk.turns items.length ⟨[], [root]⟩ = .ok ⟨order, []⟩ := walk [] []
  refine ⟨⟨order, whole, visits⟩, fun n few => ?_⟩
  rw [show items.length = n + (items.length - n) by omega, Walk.turns_add] at whole
  obtain ⟨w, turned, rest⟩ := bind_eq_ok.1 whole
  refine ⟨w, turned, fun done => ?_⟩
  -- A walk that is done visits nothing more, but not all items are visited in so few turns.
  rw [Walk.turns_of_done done] at rest
  have few' := Walk.visited_le turned
  cases rest
  have := visits.length_eq
  simp only [List.length_nil] at few'
  omega

/-- Entries show the tree of a payload: those of the items that can be reached, in the order of
their positions from the first on, each with the links that are there. What they refer to is every
item but the first, and each of these once. -/
structure Shows (payload : ByteArray) (entries : List Entry) : Prop where
  read : ∀ e ∈ entries, ∃ c, Cursor.decode payload e.position = .ok c ∧ entry c = .ok e
  listed : ∀ i, i ∈ entries.map Entry.position ↔ Reachable payload i
  ordered : (entries.map Entry.position).Pairwise (· < ·)
  first : (entries.map Entry.position).head? = some 0
  links : ∀ e ∈ entries, ∀ place j,
    (place, j) ∈ e.references ↔ Leads payload e.position place j
  named : (entries.flatMap fun e => e.references.map Prod.snd) ~ entries.tail.map Entry.position

/-- Entries show the tree if they are those of its items in the order of their positions. -/
theorem Shows.of_tour {entries : List Entry} (h : Decodes payload 0)
    (read : ∀ e ∈ entries, ∃ c, Cursor.decode payload e.position = .ok c ∧ entry c = .ok e)
    (positions : entries.map Entry.position ~ tour payload 0)
    (ordered : (entries.map Entry.position).Pairwise (· < ·)) : Shows payload entries := by
  obtain ⟨root, decoded⟩ := h 0 .refl
  have headed := tour_eq decoded
  have first : (entries.map Entry.position).head? = some 0 := by
    have zero : 0 ∈ entries.map Entry.position := by
      rw [positions.mem_iff, headed]
      exact List.mem_cons_self
    cases listed : entries.map Entry.position with
    | nil =>
        rw [listed] at zero
        cases zero
    | cons p ps =>
        rw [listed] at zero ordered
        obtain same | behind := List.mem_cons.1 zero
        · rw [same, List.head?_cons]
        · exact absurd ((List.pairwise_cons.1 ordered).1 0 behind) (Nat.not_lt_zero p)
  have references (e : Entry) (mem : e ∈ entries) :
      e.references.map Prod.snd = targets payload e.position := by
    obtain ⟨c, decoded, shown⟩ := read e mem
    obtain ⟨_, position, _, references⟩ := entry_eq_ok.1 shown
    rw [targets, decoded, references, List.map_map, position]
    rfl
  have rest : entries.tail.map Entry.position ~ (tour payload 0).tail := by
    cases entries with
    | nil => cases first
    | cons e entries =>
        have zero : e.position = 0 := by simpa using first
        rw [headed, List.map_cons, zero] at positions
        rw [headed]
        exact positions.cons_inv
  refine ⟨read, fun i => ?_, ordered, first, fun e mem place j => ?_, ?_⟩
  · rw [positions.mem_iff, mem_tour h]
    rfl
  · obtain ⟨c, decoded, shown⟩ := read e mem
    obtain ⟨_, position, _, references⟩ := entry_eq_ok.1 shown
    rw [references, List.mem_map, ← position]
    constructor
    · rintro ⟨l, mem, same⟩
      obtain ⟨rfl, rfl⟩ := Prod.mk.inj same
      exact ⟨c, l.2, decoded, mem, rfl⟩
    · rintro ⟨c', offset, decoded', mem, rfl⟩
      cases decoded.symm.trans decoded'
      exact ⟨(place, offset), mem, rfl⟩
  · calc entries.flatMap (fun e => e.references.map Prod.snd)
      _ = (entries.map Entry.position).flatMap (targets payload) := by
          rw [List.flatMap_map]
          exact List.flatMap_congr references
      _ ~ (tour payload 0).flatMap (targets payload) := positions.flatMap_right _
      _ ~ (tour payload 0).tail := flatMap_targets_tour h
      _ ~ entries.tail.map Entry.position := rest.symm

end Outline

/-- The items of a buffer are listed by their positions. -/
theorem Buffer.items_ordered {b : Buffer} {root : Cursor} {all : List Cursor}
    (first : b.root = .ok root) (listed : root.preorder = .ok all)
    (nodup : (all.map Cursor.position).Nodup) :
    ∃ items, b.items = .ok items ∧ items ~ all ∧
      (items.map Cursor.position).Pairwise (· < ·) := by
  refine ⟨all.mergeSort fun x y => x.position ≤ y.position, ?_, List.mergeSort_perm .., ?_⟩
  · rw [items, first, ok_bind, listed]
    rfl
  · have sorted : (all.mergeSort fun x y => x.position ≤ y.position).Pairwise fun x y =>
        decide (x.position ≤ y.position) = true := by
      refine List.pairwise_mergeSort (fun x y z => ?_) (fun x y => ?_) all
      · simp only [decide_eq_true_eq]
        exact Nat.le_trans
      · simp only [Bool.or_eq_true, decide_eq_true_eq]
        exact Nat.le_total ..
    have distinct := ((List.mergeSort_perm all fun x y => x.position ≤ y.position).map
      Cursor.position).nodup_iff.2 nodup
    rw [List.pairwise_map]
    rw [List.Nodup, List.pairwise_map] at distinct
    refine (sorted.and distinct).imp fun both => ?_
    exact Nat.lt_of_le_of_ne (of_decide_eq_true both.1) both.2

/-- The outline of a buffer that was opened shows its tree, unless the text of a number breaks a
line: behind the head each line is the text of one entry, and texts of positions are the same only
for the same position. A walk with a stack comes to the same items, and its stack is empty once it
visited each of them. -/
theorem Buffer.outline_shows_tree {bytes : ByteArray} {limits : Limits} {b : Buffer}
    (h : load bytes limits = .ok b)
    (numbers : ∀ i c s, Reachable b.payload i → Cursor.decode b.payload i = .ok c →
      c.numericText = .ok s → OneLine s) :
    ∃ root items entries text, b.root = .ok root ∧ b.items = .ok items ∧
      items.mapM Outline.entry = .ok entries ∧ b.outline .plain = .ok text ∧
      Outline.lines text = b.outlineHead ++ entries.map (·.text b.outlineWidth) ++ [""] ∧
      Function.Injective (Outline.padded b.outlineWidth) ∧ Outline.Shows b.payload entries ∧
      Outline.Visits root items := by
  obtain ⟨passes, unshared⟩ := Verify.passes_of_ok (load_eq_ok h)
  have decodes : Decodes b.payload 0 := passes.decodes
  obtain ⟨root, decoded⟩ := decodes 0 .refl
  obtain ⟨all, listed, positions, each, unwinds⟩ := Cursor.exists_preorder decodes decoded
  have first := root_eq_ok.2 decoded
  have nodup : (all.map Cursor.position).Nodup := by
    rw [positions]
    exact (nodup_tour decodes).2 unshared
  obtain ⟨items, sorted, same, ordered⟩ := items_ordered first listed nodup
  have entry (c : Cursor) (mem : c ∈ items) : ∃ e, Outline.entry c = .ok e ∧
      (∃ c, Cursor.decode b.payload e.position = .ok c ∧ Outline.entry c = .ok e) ∧
      OneLine (e.text b.outlineWidth) := by
    have decoded := each c (same.mem_iff.1 mem)
    have reachable : Reachable b.payload c.position := by
      rw [Reachable, ← mem_tour decodes, ← positions]
      exact List.mem_map_of_mem (same.mem_iff.1 mem)
    obtain ⟨_, found, whole⟩ := passes.whole_of_reachable reachable
    cases decoded.symm.trans found
    obtain ⟨e, shown⟩ := Outline.exists_entry whole
    refine ⟨e, shown, ⟨c, ?_, shown⟩, Outline.oneLine_entry shown _ fun s =>
      numbers _ c s reachable decoded⟩
    rw [(Outline.entry_eq_ok.1 shown).2.1]
    exact decoded
  obtain ⟨entries, read, shown⟩ := exists_mapM_eq_ok entry
  refine ⟨root, items, entries, _, first, sorted, read, outline_plain sorted read, ?_,
    Outline.padded_injective _, ?_, unwinds.visits same.symm⟩
  · refine Outline.lines_join fun s mem => ?_
    obtain mem | mem := List.mem_append.1 mem
    · exact b.oneLine_outlineHead s mem
    · obtain ⟨e, listed, rfl⟩ := List.mem_map.1 mem
      exact (shown e listed).2
  · refine .of_tour decodes (fun e mem => (shown e mem).1) ?_ ?_
    · rw [map_eq_map_of_mapM_eq_ok read fun c e shown => (Outline.entry_eq_ok.1 shown).2.1,
        ← positions]
      exact same.map Cursor.position
    · rwa [map_eq_map_of_mapM_eq_ok read fun c e shown => (Outline.entry_eq_ok.1 shown).2.1]

/-- `strict $[1]`. -/
theorem Buffer.outline_shows_tree_subscript :
    let bytes : ByteArray := ⟨#[1, 0, 0, 0, 27, 0, 0, 0, 8, 0, 0, 0,
      23, 0, 0, 0, 0, 0, 0, 0, 1, 0, 0, 0, 20, 0, 0, 0, 0, 0, 0, 0,
      2, 0, 0, 0, 0, 0, 0, 0, 1, 0, 0, 0, 49]⟩
    ∃ b, load bytes {} = .ok b ∧
      (∀ i c s, Reachable b.payload i → Cursor.decode b.payload i = .ok c →
        c.numericText = .ok s → OneLine s) ∧
      ∃ root items entries text, b.root = .ok root ∧ b.items = .ok items ∧
        items.mapM Outline.entry = .ok entries ∧ b.outline .plain = .ok text ∧
        Outline.lines text = b.outlineHead ++ entries.map (·.text b.outlineWidth) ++ [""] ∧
        Function.Injective (Outline.padded b.outlineWidth) ∧ Outline.Shows b.payload entries ∧
        Outline.Visits root items := by
  intro bytes
  obtain ⟨b, loaded⟩ := exists_ok (x := load bytes {}) (by decide +kernel)
  have passes := (Verify.passes_of_ok (load_eq_ok loaded)).1
  have check : (load bytes {}).toOption.all (fun b => (tour b.payload 0).all fun i =>
      (Cursor.decode b.payload i).toOption.all fun c =>
        c.numericText.toOption.all fun s => !s.toList.contains '\n') = true := by
    decide +kernel
  have numbers : ∀ i c s, Reachable b.payload i → Cursor.decode b.payload i = .ok c →
      c.numericText = .ok s → OneLine s := by
    intro i c s reachable decoded number
    have listed := (mem_tour passes.decodes).2 reachable
    simp only [loaded, Except.toOption, Option.all_some, List.all_eq_true] at check
    simpa [decoded, number, OneLine] using check i listed
  exact ⟨b, loaded, numbers, outline_shows_tree loaded numbers⟩

end FlatPath
