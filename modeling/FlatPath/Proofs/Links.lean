import FlatPath.Buffer.Cursor
import FlatPath.Proofs.Operands

/-!
The links between the items of a payload. They lead forward, so what can be reached from an item is
listed by its tour, and a tour repeats no position exactly if no position is the target of two
links.
-/

namespace FlatPath

open Relation

/-- Where a link of an item stands: in an operand slot or behind the item. -/
inductive Place
  | operand (role : Role)
  | next
deriving DecidableEq

namespace Item

variable {τ σ : Type}

private theorem nodup_pairSlots {first second : Nat → Role} (firsts : Function.Injective first)
    (seconds : Function.Injective second) (apart : ∀ i j, first i ≠ second j) (required : Bool)
    (ps : List (σ × σ)) (i : Nat) :
    ((pairSlots first second required i ps).map Slot.role).Nodup := by
  induction ps generalizing i with
  | nil => exact List.nodup_nil
  | cons p ps ih =>
      have fresh (role : Role) (h : role ∈ (pairSlots first second required (i + 1) ps).map
          Slot.role) : ∃ k, role = first (i + 1 + k) ∨ role = second (i + 1 + k) := by
        obtain ⟨s, hs, rfl⟩ := List.mem_map.1 h
        obtain ⟨k, a, b, _, rfl | rfl⟩ := mem_pairSlots.1 hs
        · exact ⟨k, .inl rfl⟩
        · exact ⟨k, .inr rfl⟩
      simp only [pairSlots, List.map_cons, List.nodup_cons, List.mem_cons, not_or]
      refine ⟨⟨apart i i, fun h => ?_⟩, fun h => ?_, ih (i + 1)⟩
      · obtain ⟨k, same | other⟩ := fresh _ h
        · have := firsts same
          omega
        · exact apart _ _ other
      · obtain ⟨k, other | same⟩ := fresh _ h
        · exact apart _ _ other.symm
        · have := seconds same
          omega

private theorem nodup_elementSlots (es : List σ) (i : Nat) :
    ((elementSlots i es).map Slot.role).Nodup := by
  induction es generalizing i with
  | nil => exact List.nodup_nil
  | cons e es ih =>
      simp only [elementSlots, List.map_cons, List.nodup_cons]
      refine ⟨fun h => ?_, ih (i + 1)⟩
      obtain ⟨s, hs, same⟩ := List.mem_map.1 h
      obtain ⟨k, a, _, rfl⟩ := mem_elementSlots.1 hs
      simp only [Role.element.injEq] at same
      omega

/-- No two slots of an item have the same role. -/
theorem nodup_roles (x : Item τ σ σ) : (x.slots.map Slot.role).Nodup := by
  cases x with
  | indexArray ss | object ss =>
      refine nodup_pairSlots (fun i j h => ?_) (fun i j h => ?_) (fun i j h => ?_) ..
      · simpa using h
      · simpa using h
      · cases h
  | sequence es => exact nodup_elementSlots es 0
  | _ => simp [slots]

end Item

namespace Cursor

/-- Every place for a link with what stands there, operands first. -/
def places (c : Cursor) : List (Place × UInt32) :=
  c.slots.map (fun s => (Place.operand s.role, s.content)) ++ [(Place.next, c.nextOffset)]

/-- The links of an item in the order they are walked. -/
def links (c : Cursor) : List (Place × UInt32) :=
  c.places.filter (·.2 ≠ 0)

theorem nodup_places (c : Cursor) : (c.links.map Prod.fst).Nodup := by
  have roles : ((c.slots.map Slot.role).map Place.operand).Nodup :=
    c.record.nodup_roles.map fun r r' h => by simpa using h
  have all : (c.places.map Prod.fst).Nodup := by
    simpa [places, List.nodup_append, Function.comp_def] using roles
  exact all.sublist (List.filter_sublist.map _)

theorem mem_links {c : Cursor} {l : Place × UInt32} :
    l ∈ c.links ↔
      l.2 ≠ 0 ∧
        ((∃ s ∈ c.slots, l = (.operand s.role, s.content)) ∨ l = (.next, c.nextOffset)) := by
  rw [links, List.mem_filter, and_comm]
  apply and_congr (by simp)
  simp [places, eq_comm]

/-- Link by link is slot by slot and then the next offset, where these lead anywhere. -/
theorem flatMap_links_places {α : Type} (c : Cursor) (f : Place × UInt32 → List α) :
    c.links.flatMap f =
      (c.slots.flatMap fun s => if s.content = 0 then [] else f (.operand s.role, s.content)) ++
        if c.nextOffset = 0 then [] else f (.next, c.nextOffset) := by
  have all (ps : List (Place × UInt32)) : (ps.filter (·.2 ≠ 0)).flatMap f =
      ps.flatMap fun l => if l.2 = 0 then [] else f l := by
    induction ps with
    | nil => rfl
    | cons p ps ih =>
        by_cases absent : p.2 = 0
        · simpa [absent] using ih
        · simpa [absent] using ih
  rw [links, all, places, List.flatMap_append, List.flatMap_map, List.flatMap_singleton]

theorem flatMap_links {α : Type} (c : Cursor) (f : UInt32 → List α) :
    c.links.flatMap (fun l => f l.2) =
      (c.slots.flatMap fun s => if s.content = 0 then [] else f s.content) ++
        if c.nextOffset = 0 then [] else f c.nextOffset :=
  c.flatMap_links_places fun l => f l.2

theorem present_of_mem_links {c : Cursor} {l : Place × UInt32} (h : l ∈ c.links) : l.2 ≠ 0 := by
  simpa using (List.mem_filter.1 h).2

end Cursor

section Walk

variable {payload : ByteArray}

/-- The item at `i` has a link to `j`. -/
def Leads (payload : ByteArray) (i : Nat) (place : Place) (j : Nat) : Prop :=
  ∃ c offset, Cursor.decode payload i = .ok c ∧ (place, offset) ∈ c.links ∧ j = i + offset.toNat

def Linked (payload : ByteArray) (i j : Nat) : Prop :=
  ∃ place, Leads payload i place j

theorem Linked.lt {i j : Nat} (h : Linked payload i j) : i < j ∧ i < payload.size := by
  obtain ⟨place, c, offset, decoded, mem, rfl⟩ := h
  have := Bytes.toNat_pos (Cursor.present_of_mem_links mem)
  exact ⟨by simpa using this, Cursor.lt_size_of_decode decoded⟩

theorem le_of_reflTransGen_linked {i j : Nat} (h : ReflTransGen (Linked payload) i j) : i ≤ j := by
  induction h with
  | refl => exact Nat.le_refl _
  | tail _ link ih => exact Nat.le_trans ih (Nat.le_of_lt link.lt.1)

/-- Induction from the targets of links to their owners. -/
@[elab_as_elim]
theorem linkInduction {motive : Nat → Prop}
    (owner : ∀ i, (∀ j, Linked payload i j → motive j) → motive i) (i : Nat) : motive i := by
  induction size : payload.size - i using Nat.strongRecOn generalizing i with
  | _ n ih =>
      refine owner i fun j link => ih _ ?_ j rfl
      have := link.lt
      omega

/-- The positions of an item and of all that it leads to, in the order of a walk. -/
def tour (payload : ByteArray) (i : Nat) : List Nat :=
  match _h : Cursor.decode payload i with
  | .error _ => []
  | .ok c => i :: c.links.attach.flatMap fun l => tour payload (i + l.1.2.toNat)
termination_by payload.size - i
decreasing_by
  have inside := c.inside
  obtain ⟨hp, hi⟩ := Cursor.decode_eq_ok _h
  have := Bytes.toNat_pos (Cursor.present_of_mem_links l.2)
  rw [hp, hi] at inside
  omega

theorem tour_eq {i : Nat} {c : Cursor} (h : Cursor.decode payload i = .ok c) :
    tour payload i = i :: c.links.flatMap fun l => tour payload (i + l.2.toNat) := by
  rw [tour]
  split
  · next failed => cases h.symm.trans failed
  · next c' decoded =>
      cases h.symm.trans decoded
      conv_rhs => rw [← List.attach_map_subtype_val c.links, List.flatMap_map]

theorem lt_size_of_mem_tour {i j : Nat} (h : j ∈ tour payload i) : j < payload.size := by
  induction i using @linkInduction payload with
  | owner i ih =>
      cases decoded : Cursor.decode payload i with
      | error e =>
          rw [tour] at h
          split at h
          · cases h
          · next found => cases decoded.symm.trans found
      | ok c =>
          rw [tour_eq decoded, List.mem_cons, List.mem_flatMap] at h
          obtain rfl | ⟨l, mem, below⟩ := h
          · exact Cursor.lt_size_of_decode decoded
          · exact ih _ ⟨l.1, c, l.2, decoded, mem, rfl⟩ below

/-- Every item that can be reached from this one is decoded. -/
def Decodes (payload : ByteArray) (i : Nat) : Prop :=
  ∀ j, ReflTransGen (Linked payload) i j → ∃ c, Cursor.decode payload j = .ok c

/-- No position is the target of two links of items that can be reached from this one. -/
def Unshared (payload : ByteArray) (i : Nat) : Prop :=
  ∀ j j' place place' k, ReflTransGen (Linked payload) i j → ReflTransGen (Linked payload) i j' →
    Leads payload j place k → Leads payload j' place' k → j = j' ∧ place = place'

theorem Decodes.linked {i j : Nat} (h : Decodes payload i) (link : Linked payload i j) :
    Decodes payload j :=
  fun k reach => h k (.head link reach)

theorem Unshared.linked {i j : Nat} (h : Unshared payload i) (link : Linked payload i j) :
    Unshared payload j :=
  fun k k' _ _ l reach reach' => h k k' _ _ l (.head link reach) (.head link reach')

theorem linked_of_mem_links {i : Nat} {c : Cursor} {l : Place × UInt32}
    (decoded : Cursor.decode payload i = .ok c) (h : l ∈ c.links) :
    Linked payload i (i + l.2.toNat) :=
  ⟨l.1, c, l.2, decoded, h, rfl⟩

theorem exists_link {i j : Nat} {c : Cursor} (decoded : Cursor.decode payload i = .ok c) :
    (∃ k, Linked payload i k ∧ ReflTransGen (Linked payload) k j) ↔
      ∃ l ∈ c.links, ReflTransGen (Linked payload) (i + l.2.toNat) j := by
  constructor
  · rintro ⟨_, ⟨place, c', offset, decoded', mem, rfl⟩, reach⟩
    cases decoded.symm.trans decoded'
    exact ⟨(place, offset), mem, reach⟩
  · rintro ⟨l, mem, reach⟩
    exact ⟨_, linked_of_mem_links decoded mem, reach⟩

/-- A link of an item at `i` or below it lies below one link of `i`, if it is not that link. -/
theorem Leads.below_link {i j k : Nat} {place : Place} {c : Cursor} (link : Leads payload j place k)
    (decoded : Cursor.decode payload i = .ok c) (reach : ReflTransGen (Linked payload) i j) :
    ∃ l ∈ c.links, ReflTransGen (Linked payload) (i + l.2.toNat) k ∧
      (j = i ∧ place = l.1 ∧ k = i + l.2.toNat ∨
        ReflTransGen (Linked payload) (i + l.2.toNat) j) := by
  obtain rfl | below := reach.cases_head
  · obtain ⟨c', offset, decoded', mem, rfl⟩ := link
    cases decoded.symm.trans decoded'
    exact ⟨_, mem, .refl, .inl ⟨rfl, rfl, rfl⟩⟩
  · obtain ⟨l, mem, below⟩ := (exists_link decoded).1 below
    exact ⟨l, mem, below.tail ⟨place, link⟩, .inr below⟩

/-- A tour lists what can be reached. -/
theorem mem_tour {i j : Nat} (h : Decodes payload i) :
    j ∈ tour payload i ↔ ReflTransGen (Linked payload) i j := by
  induction i using @linkInduction payload with
  | owner i ih =>
      obtain ⟨c, decoded⟩ := h i .refl
      have below (l : Place × UInt32) (mem : l ∈ c.links) :
          j ∈ tour payload (i + l.2.toNat) ↔
            ReflTransGen (Linked payload) (i + l.2.toNat) j :=
        have link := linked_of_mem_links decoded mem
        ih _ link (h.linked link)
      rw [tour_eq decoded, List.mem_cons, List.mem_flatMap, ReflTransGen.cases_head_iff,
        exists_link decoded, eq_comm]
      exact or_congr Iff.rfl (exists_congr fun l => and_congr_right fun mem => below l mem)

/-- Two places of one item lead to disjoint parts of an unshared payload. -/
theorem Unshared.place_eq {i j j' k : Nat} {place place' : Place} (h : Unshared payload i)
    (link : Leads payload i place j) (link' : Leads payload i place' j')
    (reach : ReflTransGen (Linked payload) j k) (reach' : ReflTransGen (Linked payload) j' k) :
    place = place' := by
  have above {a b : Nat} {p : Place} (link : Leads payload i p a)
      (reach : ReflTransGen (Linked payload) a b) : i < b :=
    Nat.lt_of_lt_of_le (Linked.lt ⟨p, link⟩).1 (le_of_reflTransGen_linked reach)
  -- The two ways to `k` are followed back until they part; they can only part at `i`.
  induction k using Nat.strongRecOn generalizing j j' place place' with
  | _ k ih =>
      obtain rfl | ⟨y, reach, last, hlast⟩ := reach.cases_tail
      · obtain rfl | ⟨y', reach', last', hlast'⟩ := reach'.cases_tail
        · exact (h i i _ _ _ .refl .refl link link').2
        · have := above link' reach'
          obtain ⟨rfl, -⟩ := h i y' _ _ _ .refl (.head ⟨_, link'⟩ reach') link hlast'
          omega
      · obtain rfl | ⟨y', reach', last', hlast'⟩ := reach'.cases_tail
        · have := above link reach
          obtain ⟨rfl, -⟩ := h i y _ _ _ .refl (.head ⟨_, link⟩ reach) link' hlast
          omega
        · obtain ⟨rfl, -⟩ := h y y' _ _ _ (.head ⟨_, link⟩ reach) (.head ⟨_, link'⟩ reach') hlast
            hlast'
          exact ih y (Linked.lt ⟨_, hlast⟩).1 link link' reach reach'

/-- Where the tours behind the links of an item are unshared and apart, nothing is shared below the
item. -/
theorem unshared_of_disjoint {i : Nat} {c : Cursor} (h : Decodes payload i)
    (decoded : Cursor.decode payload i = .ok c)
    (each : ∀ l ∈ c.links, Unshared payload (i + l.2.toNat))
    (apart : ∀ l ∈ c.links, ∀ l' ∈ c.links, l ≠ l' →
      (tour payload (i + l.2.toNat)).Disjoint (tour payload (i + l'.2.toNat))) :
    Unshared payload i := by
  have same {l l' : Place × UInt32} (mem : l ∈ c.links) (mem' : l' ∈ c.links) {k : Nat}
      (reach : ReflTransGen (Linked payload) (i + l.2.toNat) k)
      (reach' : ReflTransGen (Linked payload) (i + l'.2.toNat) k) : l = l' := by
    by_contra differ
    have listed := (mem_tour (h.linked (linked_of_mem_links decoded mem))).2 reach
    have listed' := (mem_tour (h.linked (linked_of_mem_links decoded mem'))).2 reach'
    exact apart l mem l' mem' differ listed listed'
  -- Two links with one target lie below one link of `i`, which that target tells.
  intro j j' place place' k reach reach' link link'
  obtain ⟨l, mem, below, position⟩ := link.below_link decoded reach
  obtain ⟨l', mem', below', position'⟩ := link'.below_link decoded reach'
  obtain rfl := same mem mem' below below'
  obtain top | deep := position
  · obtain top' | deep' := position'
    · exact ⟨top.1.trans top'.1.symm, top.2.1.trans top'.2.1.symm⟩
    · have := le_of_reflTransGen_linked deep'
      have := Linked.lt ⟨_, link'⟩
      omega
  · obtain top' | deep' := position'
    · have := le_of_reflTransGen_linked deep
      have := Linked.lt ⟨_, link⟩
      omega
    · exact each l mem j j' _ _ k deep deep' link link'

/-- A tour repeats no position exactly if no position is the target of two links. -/
theorem nodup_tour {i : Nat} (h : Decodes payload i) :
    (tour payload i).Nodup ↔ Unshared payload i := by
  induction i using @linkInduction payload with
  | owner i ih =>
      obtain ⟨c, decoded⟩ := h i .refl
      have nodup : c.links.Nodup := c.nodup_places.of_map
      rw [tour_eq decoded, List.nodup_cons, List.nodup_flatMap]
      constructor
      · rintro ⟨-, each, apart⟩
        have symmetric : Std.Symm (Function.onFun List.Disjoint
            fun l : Place × UInt32 => tour payload (i + l.2.toNat)) :=
          ⟨fun _ _ => List.Disjoint.symm⟩
        refine unshared_of_disjoint h decoded (fun l mem => ?_)
          fun l mem l' mem' differ => apart.forall mem mem' differ
        have link := linked_of_mem_links decoded mem
        exact (ih _ link (h.linked link)).1 (each l mem)
      · intro unshared
        refine ⟨fun repeated => ?_, fun l mem => ?_, ?_⟩
        · obtain ⟨l, mem, again⟩ := List.mem_flatMap.1 repeated
          have link := linked_of_mem_links decoded mem
          have := le_of_reflTransGen_linked ((mem_tour (h.linked link)).1 again)
          have := link.lt
          omega
        · have link := linked_of_mem_links decoded mem
          exact (ih _ link (h.linked link)).2 (unshared.linked link)
        · apply nodup.pairwise_of_forall_ne
          intro l mem l' mem' differ k hk hk'
          have link := linked_of_mem_links decoded mem
          have link' := linked_of_mem_links decoded mem'
          have places := unshared.place_eq ⟨c, l.2, decoded, mem, rfl⟩ ⟨c, l'.2, decoded, mem', rfl⟩
            ((mem_tour (h.linked link)).1 hk) ((mem_tour (h.linked link')).1 hk')
          exact differ (List.inj_on_of_nodup_map c.nodup_places mem mem' places)

end Walk

end FlatPath
