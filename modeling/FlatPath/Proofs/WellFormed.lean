import FlatPath.Buffer.Verify
import FlatPath.Proofs.Links
import FlatPath.Proofs.Rules

/-!
Well-formed payloads: what has to hold of the items that can be reached from the first one. A walk
meets an item in a scope and at a nesting; where no position is the target of two links it meets
each item in one way only, and what it checks there is what the item needs.
-/

namespace FlatPath

open Relation

section

variable {payload : ByteArray} {extensions : Bool} {limit i j n : Nat}

/-- Links lead from the first item to this one. -/
def Reachable (payload : ByteArray) (i : Nat) : Prop :=
  ReflTransGen (Linked payload) 0 i

/-- Links lead from the first item to this one by way of `n` operand chains, that of the first item
included. -/
inductive Reaches (payload : ByteArray) : Nat → Nat → Prop
  | first : Reaches payload 0 1
  | next {i j n : Nat} (reach : Reaches payload i n) (link : Leads payload i .next j) :
      Reaches payload j n
  | operand {i j n : Nat} {role : Role} (reach : Reaches payload i n)
      (link : Leads payload i (.operand role) j) : Reaches payload j (n + 1)

theorem Reaches.reachable (h : Reaches payload i n) : Reachable payload i := by
  induction h with
  | first => exact .refl
  | next _ link ih => exact ih.tail ⟨_, link⟩
  | operand _ link ih => exact ih.tail ⟨_, link⟩

theorem Reaches.pos (h : Reaches payload i n) : 0 < n := by
  induction h with
  | first => exact Nat.one_pos
  | next _ _ ih => exact ih
  | operand _ _ _ => exact Nat.succ_pos _

/-- The item lies in an operand of an item of this kind. -/
def Below (payload : ByteArray) (kind : Kind) (i : Nat) : Prop :=
  ∃ owner c role j, Reachable payload owner ∧ Cursor.decode payload owner = .ok c ∧ c.kind = kind ∧
    Leads payload owner (.operand role) j ∧ ReflTransGen (Linked payload) j i

structure WellFormed (payload : ByteArray) (extensions : Bool) (limit : Nat) : Prop where
  decodes : ∀ i, Reachable payload i → ∃ c, Cursor.decode payload i = .ok c
  legible : ∀ i c, Reachable payload i → Cursor.decode payload i = .ok c →
    ∀ t ∈ c.record.texts, t.IsValidUTF8
  digits : ∀ i c t, Reachable payload i → Cursor.decode payload i = .ok c →
    c.record = .numeric t → t.size ≠ 0
  complete : ∀ i c, Reachable payload i → Cursor.decode payload i = .ok c →
    ∀ s ∈ c.slots, s.required → s.content ≠ 0
  bounded : ∀ i c, Reachable payload i → Cursor.decode payload i = .ok c →
    ∀ l ∈ c.links, l.2.toNat ≤ maxSize ∧ i + l.2.toNat < payload.size
  unshared : ∀ i i' place place' j, Reachable payload i → Reachable payload i' →
    Leads payload i place j → Leads payload i' place' j → i = i' ∧ place = place'
  current : ∀ i c, Reachable payload i → Cursor.decode payload i = .ok c → c.kind = .current →
    Below payload (.unary .filter) i
  last : ∀ i c, Reachable payload i → Cursor.decode payload i = .ok c → c.kind = .last →
    Below payload .indexArray i
  constructors : ∀ i c, Reachable payload i → Cursor.decode payload i = .ok c →
    c.kind = .sequence ∨ c.kind = .array ∨ c.kind = .object → extensions = true
  nesting : ∀ i n, Reaches payload i n → n ≤ limit

/-- A walk at an item: in which scope, and in how many operand chains. -/
structure Visit where
  position : Nat
  scope : Scope
  nesting : Nat

namespace Visit

def first : Visit := ⟨0, .top, 1⟩

/-- The walk goes on to an operand or to the next item. -/
inductive Step (payload : ByteArray) : Visit → Visit → Prop
  | next {v : Visit} {j : Nat} (link : Leads payload v.position .next j) :
      Step payload v ⟨j, v.scope, v.nesting⟩
  | operand {v : Visit} {c : Cursor} {role : Role} {j : Nat}
      (decoded : Cursor.decode payload v.position = .ok c)
      (link : Leads payload v.position (.operand role) j) :
      Step payload v ⟨j, v.scope.operand c.kind role, v.nesting + 1⟩

/-- What the walk checks of an item before it goes on. -/
structure Sound (payload : ByteArray) (extensions : Bool) (limit : Nat) (v : Visit) (c : Cursor) :
    Prop where
  nesting : v.nesting ≤ limit
  decoded : Cursor.decode payload v.position = .ok c
  text : Verify.textDefect c.record = none
  scope : Verify.scopeDefect extensions v.scope c.kind = none
  complete : ∀ s ∈ c.slots, s.required → s.content ≠ 0
  bounded : ∀ l ∈ c.links, l.2.toNat ≤ maxSize ∧ v.position + l.2.toNat < payload.size

/-- Every item that the walk comes to from here passes. -/
def Passes (payload : ByteArray) (extensions : Bool) (limit : Nat) (v : Visit) : Prop :=
  ∀ v', ReflTransGen (Step payload) v v' → ∃ c, v'.Sound payload extensions limit c

variable {v v' : Visit}

theorem Step.link (h : Step payload v v') : Linked payload v.position v'.position := by
  cases h with
  | next link => exact ⟨_, link⟩
  | operand _ link => exact ⟨_, link⟩

theorem Passes.nesting (h : v.Passes payload extensions limit) : v.nesting ≤ limit := by
  obtain ⟨_, sound⟩ := h v .refl
  exact sound.nesting

/-- An operand slot passes: it is empty and may be, or all that it leads to passes. -/
def OperandPasses (payload : ByteArray) (extensions : Bool) (limit : Nat) (v : Visit) (c : Cursor)
    (s : Slot UInt32) : Prop :=
  if s.content = 0 then s.required = false
  else
    (s.content.toNat ≤ maxSize ∧ v.position + s.content.toNat < payload.size) ∧
      Passes payload extensions limit
        ⟨v.position + s.content.toNat, v.scope.operand c.kind s.role, v.nesting + 1⟩

/-- The rest of the chain passes. -/
def NextPasses (payload : ByteArray) (extensions : Bool) (limit : Nat) (v : Visit) (c : Cursor) :
    Prop :=
  if c.nextOffset = 0 then True
  else
    (c.nextOffset.toNat ≤ maxSize ∧ v.position + c.nextOffset.toNat < payload.size) ∧
      Passes payload extensions limit ⟨v.position + c.nextOffset.toNat, v.scope, v.nesting⟩

/-- Where the walk goes on from an item. -/
theorem step_iff {c : Cursor} (decoded : Cursor.decode payload v.position = .ok c) :
    Step payload v v' ↔
      (∃ s ∈ c.slots, s.content ≠ 0 ∧ v' =
        ⟨v.position + s.content.toNat, v.scope.operand c.kind s.role, v.nesting + 1⟩) ∨
      c.nextOffset ≠ 0 ∧ v' = ⟨v.position + c.nextOffset.toNat, v.scope, v.nesting⟩ := by
  constructor
  · intro step
    cases step with
    | next link =>
        obtain ⟨c', offset, decoded', mem, rfl⟩ := link
        cases decoded.symm.trans decoded'
        obtain ⟨present, ⟨s, _, same⟩ | same⟩ := Cursor.mem_links.1 mem
        · cases same
        · cases same
          exact .inr ⟨present, rfl⟩
    | operand decoded' link =>
        cases decoded.symm.trans decoded'
        obtain ⟨c', offset, decoded'', mem, rfl⟩ := link
        cases decoded.symm.trans decoded''
        obtain ⟨present, ⟨s, slot, same⟩ | same⟩ := Cursor.mem_links.1 mem
        · cases same
          exact .inl ⟨s, slot, present, rfl⟩
        · cases same
  · rintro (⟨s, mem, present, rfl⟩ | ⟨present, rfl⟩)
    · have link := Cursor.mem_links.2 ⟨present, .inl ⟨s, mem, rfl⟩⟩
      exact .operand decoded ⟨c, _, decoded, link, rfl⟩
    · exact .next ⟨c, _, decoded, Cursor.mem_links.2 ⟨present, .inr rfl⟩, rfl⟩

theorem passes_iff_step :
    v.Passes payload extensions limit ↔
      (∃ c, v.Sound payload extensions limit c) ∧
        ∀ v', Step payload v v' → v'.Passes payload extensions limit := by
  constructor
  · exact fun h => ⟨h v .refl, fun v' step w reach => h w (.head step reach)⟩
  · rintro ⟨sound, steps⟩ w reach
    obtain rfl | ⟨v', step, reach⟩ := reach.cases_head
    · exact sound
    · exact steps v' step w reach

theorem passes_iff {c : Cursor} (decoded : Cursor.decode payload v.position = .ok c) :
    v.Passes payload extensions limit ↔
      v.nesting ≤ limit ∧ Verify.textDefect c.record = none ∧
        Verify.scopeDefect extensions v.scope c.kind = none ∧
        (∀ s ∈ c.slots, v.OperandPasses payload extensions limit c s) ∧
        v.NextPasses payload extensions limit c := by
  rw [passes_iff_step]
  constructor
  · rintro ⟨⟨c', sound⟩, steps⟩
    cases decoded.symm.trans sound.decoded
    refine ⟨sound.nesting, sound.text, sound.scope, fun s mem => ?_, ?_⟩
    · rw [OperandPasses]
      split
      · next absent =>
          exact Bool.eq_false_iff.2 fun required => sound.complete s mem required absent
      · next present =>
          exact ⟨sound.bounded _ (Cursor.mem_links.2 ⟨present, .inl ⟨s, mem, rfl⟩⟩),
            steps _ ((step_iff decoded).2 (.inl ⟨s, mem, present, rfl⟩))⟩
    · rw [NextPasses]
      split
      · trivial
      · next present =>
          exact ⟨sound.bounded _ (Cursor.mem_links.2 ⟨present, .inr rfl⟩),
            steps _ ((step_iff decoded).2 (.inr ⟨present, rfl⟩))⟩
  · rintro ⟨nesting, text, scope, operands, next⟩
    have operand (s : Slot UInt32) (mem : s ∈ c.slots) (present : s.content ≠ 0) := by
      simpa only [OperandPasses, if_neg present] using operands s mem
    refine ⟨⟨c, nesting, decoded, text, scope, fun s mem required absent => ?_, fun l mem => ?_⟩,
      fun v' step => ?_⟩
    · have := operands s mem
      rw [OperandPasses, if_pos absent, required] at this
      cases this
    · obtain ⟨present, ⟨s, slot, rfl⟩ | rfl⟩ := Cursor.mem_links.1 mem
      · exact (operand s slot present).1
      · rw [NextPasses, if_neg present] at next
        exact next.1
    · obtain ⟨s, slot, present, rfl⟩ | ⟨present, rfl⟩ := (step_iff decoded).1 step
      · exact (operand s slot present).2
      · rw [NextPasses, if_neg present] at next
        exact next.2

theorem exists_visit (h : Reaches payload i n) :
    ∃ scope, ReflTransGen (Step payload) first ⟨i, scope, n⟩ := by
  induction h with
  | first => exact ⟨.top, .refl⟩
  | next _ link ih =>
      obtain ⟨scope, reach⟩ := ih
      exact ⟨scope, reach.tail (.next link)⟩
  | operand _ link ih =>
      obtain ⟨scope, reach⟩ := ih
      obtain ⟨c, offset, decoded, mem, rfl⟩ := link
      exact ⟨_, reach.tail (.operand decoded ⟨c, offset, decoded, mem, rfl⟩)⟩

theorem reaches (h : ReflTransGen (Step payload) first v) :
    Reaches payload v.position v.nesting := by
  induction h with
  | refl => exact .first
  | tail _ step ih =>
      cases step with
      | next link => exact ih.next link
      | operand _ link => exact ih.operand link

/-- A walk follows the links wherever they lead. -/
theorem exists_visit_of_linked {v : Visit} (h : ReflTransGen (Linked payload) v.position i) :
    ∃ v', ReflTransGen (Step payload) v v' ∧ v'.position = i := by
  induction h with
  | refl => exact ⟨v, .refl, rfl⟩
  | tail _ link ih =>
      obtain ⟨v', reach, rfl⟩ := ih
      obtain ⟨place, link⟩ := link
      cases place with
      | next => exact ⟨_, reach.tail (.next link), rfl⟩
      | operand role =>
          obtain ⟨c, offset, decoded, mem, rfl⟩ := link
          exact ⟨_, reach.tail (.operand decoded ⟨c, offset, decoded, mem, rfl⟩), rfl⟩

theorem Passes.decodes (h : v.Passes payload extensions limit) : Decodes payload v.position := by
  intro j reach
  obtain ⟨v', visited, rfl⟩ := exists_visit_of_linked reach
  obtain ⟨c, sound⟩ := h v' visited
  exact ⟨c, sound.decoded⟩

theorem reachable_iff :
    Reachable payload i ↔ ∃ v, ReflTransGen (Step payload) first v ∧ v.position = i := by
  constructor
  · intro h
    exact exists_visit_of_linked (v := first) h
  · rintro ⟨v, reach, rfl⟩
    exact (reaches reach).reachable

/-- Where nothing is shared the walk meets an item in one way only. -/
theorem unique (h : Unshared payload 0) (reach : ReflTransGen (Step payload) first v)
    (reach' : ReflTransGen (Step payload) first v') (same : v.position = v'.position) : v = v' := by
  induction reach generalizing v' with
  | refl =>
      obtain rfl | ⟨w', _, step'⟩ := reach'.cases_tail
      · rfl
      · have := step'.link.lt
        simp only [first] at same
        omega
  | @tail w u reach step ih =>
      obtain rfl | ⟨w', reach', step'⟩ := reach'.cases_tail
      · have := step.link.lt
        simp only [first] at same
        omega
      · have meet {place place' : Place} (link : Leads payload w.position place u.position)
            (link' : Leads payload w'.position place' v'.position) : w = w' ∧ place = place' := by
          have owners := h _ _ _ _ _ (reaches reach).reachable (reaches reach').reachable link
            (same ▸ link')
          exact ⟨ih reach' owners.1, owners.2⟩
        cases step with
        | next link =>
            cases step' with
            | next link' =>
                obtain ⟨rfl, -⟩ := meet link link'
                cases same
                rfl
            | operand _ link' => cases (meet link link').2
        | operand decoded link =>
            cases step' with
            | next link' => cases (meet link link').2
            | operand decoded' link' =>
                obtain ⟨rfl, roles⟩ := meet link link'
                cases roles
                cases same
                cases decoded.symm.trans decoded'
                rfl

/-- What an operand puts in force stays in force below it. -/
theorem scope_mono (h : ReflTransGen (Step payload) v v') :
    (v.scope.filters ≠ 0 → v'.scope.filters ≠ 0) ∧
      (v.scope.subscript = true → v'.scope.subscript = true) := by
  induction h with
  | refl => exact ⟨id, id⟩
  | tail _ step ih =>
      cases step with
      | next => exact ih
      | operand =>
          refine ⟨fun h => ?_, fun h => ?_⟩
          · simp only [Scope.operand]
            split
            · exact Nat.succ_ne_zero _
            · exact ih.1 h
            · exact ih.1 h
            · exact ih.1 h
          · simp only [Scope.operand]
            split
            · exact ih.2 h
            · rfl
            · rfl
            · exact ih.2 h

theorem below_of_scope (h : ReflTransGen (Step payload) first v) :
    (v.scope.filters ≠ 0 → Below payload (.unary .filter) v.position) ∧
      (v.scope.subscript = true → Below payload .indexArray v.position) := by
  induction h with
  | refl => exact ⟨fun h => absurd rfl h, fun h => absurd h Bool.false_ne_true⟩
  | @tail v w reach step ih =>
      have further {kind : Kind} (h : Below payload kind v.position) :
          Below payload kind w.position := by
        obtain ⟨owner, c, role, j, reachable, decoded, rfl, link, below⟩ := h
        exact ⟨owner, c, role, j, reachable, decoded, rfl, link, below.tail step.link⟩
      cases step with
      | next => exact ⟨fun h => further (ih.1 h), fun h => further (ih.2 h)⟩
      | @operand c role j decoded link =>
          have here : Below payload c.kind j :=
            ⟨_, c, role, j, (reaches reach).reachable, decoded, rfl, link, .refl⟩
          refine ⟨fun h => ?_, fun h => ?_⟩
          · simp only [Scope.operand] at h
            split at h
            · exact ‹c.kind = _› ▸ here
            · exact further (ih.1 h)
            · exact further (ih.1 h)
            · exact further (ih.1 h)
          · simp only [Scope.operand] at h
            split at h
            · exact further (ih.2 h)
            · exact ‹c.kind = _› ▸ here
            · exact ‹c.kind = _› ▸ here
            · exact further (ih.2 h)

private theorem operand_scope {c : Cursor} {role : Role} {offset : UInt32} (scope : Scope)
    (h : (Place.operand role, offset) ∈ c.links) :
    (c.kind = .unary .filter → (scope.operand c.kind role).filters ≠ 0) ∧
      (c.kind = .indexArray → (scope.operand c.kind role).subscript = true) := by
  have mem : ∃ s ∈ c.record.slots, s.role = role := by
    have := (List.mem_filter.1 h).1
    simp only [Cursor.places, Cursor.slots, List.mem_append, List.mem_map, Prod.mk.injEq,
      Place.operand.injEq, List.mem_singleton, reduceCtorEq, false_and, or_false] at this
    obtain ⟨s, hs, rfl, -⟩ := this
    exact ⟨s, hs, rfl⟩
  obtain ⟨s, hs, rfl⟩ := mem
  rw [Cursor.kind, scope.operand_eq hs]
  constructor
  · intro filter
    rw [if_pos filter]
    exact Nat.succ_ne_zero _
  · intro index
    rw [index, if_neg (by simp), if_pos rfl]
    rfl

theorem exists_visit_of_below {kind : Kind} (h : Below payload kind i) :
    ∃ v, ReflTransGen (Step payload) first v ∧ v.position = i ∧
      (kind = .unary .filter → v.scope.filters ≠ 0) ∧
      (kind = .indexArray → v.scope.subscript = true) := by
  obtain ⟨owner, c, role, j, reachable, decoded, rfl, link, below⟩ := h
  obtain ⟨w, reach, rfl⟩ := reachable_iff.1 reachable
  obtain ⟨v, further, rfl⟩ := exists_visit_of_linked
    (v := ⟨j, w.scope.operand c.kind role, w.nesting + 1⟩) below
  have mono := scope_mono further
  have ⟨c', offset, decoded', mem, _⟩ := link
  cases decoded.symm.trans decoded'
  have start := operand_scope w.scope mem
  exact ⟨v, (reach.tail (.operand decoded link)).trans further, rfl, fun h => mono.1 (start.1 h),
    fun h => mono.2 (start.2 h)⟩

end Visit

theorem scopeDefect_eq_none {scope : Scope} {kind : Kind} :
    Verify.scopeDefect extensions scope kind = none ↔ kind.Placed extensions scope := by
  have fields : kind.Placed extensions scope ↔ (kind = .current → scope.filters ≠ 0) ∧
      (kind = .last → scope.subscript = true) ∧ (kind.isExtension = true → extensions = true) := by
    rw [Kind.isExtension_iff]
    exact ⟨fun h => ⟨h.current, h.last, h.constructors⟩, fun h => ⟨h.1, h.2.1, h.2.2⟩⟩
  rw [Verify.scopeDefect, fields]
  split
  · simp_all
  · split
    · simp_all
    · split <;> simp_all

theorem textDefect_eq_none {r : Record} :
    Verify.textDefect r = none ↔
      (∀ t ∈ r.texts, t.IsValidUTF8) ∧ ∀ t, r = .numeric t → t.size ≠ 0 := by
  cases r with
  | numeric t =>
      have isEmpty : t.isEmpty = true ↔ t = .empty := by simp [ByteArray.isEmpty]
      by_cases empty : t = .empty
      · subst empty
        simp [Verify.textDefect, isEmpty.2 rfl]
      · simp [Verify.textDefect, Item.texts, isEmpty, empty, ByteArray.validateUTF8_eq_true_iff]
  | string t | key t | var t =>
      simp [Verify.textDefect, Item.texts, ByteArray.validateUTF8_eq_true_iff]
  | likeRegex e p f =>
      simp [Verify.textDefect, Item.texts, ByteArray.validateUTF8_eq_true_iff]
  | _ => simp [Verify.textDefect, Item.texts]

theorem WellFormed.passes (h : WellFormed payload extensions limit) :
    Visit.first.Passes payload extensions limit := by
  intro v reach
  have reaches := Visit.reaches reach
  have reachable := reaches.reachable
  obtain ⟨c, decoded⟩ := h.decodes _ reachable
  have inScope {kind : Kind} (below : Below payload kind v.position) :
      (kind = .unary .filter → v.scope.filters ≠ 0) ∧
        (kind = .indexArray → v.scope.subscript = true) := by
    obtain ⟨w, reach', same, scope⟩ := Visit.exists_visit_of_below below
    rwa [Visit.unique h.unshared reach' reach same] at scope
  exact ⟨c, {
    nesting := h.nesting _ _ reaches
    decoded
    text := textDefect_eq_none.2 ⟨h.legible _ c reachable decoded,
      fun t => h.digits _ c t reachable decoded⟩
    scope := scopeDefect_eq_none.2
      ⟨fun kind => (inScope (h.current _ c reachable decoded kind)).1 rfl,
        fun kind => (inScope (h.last _ c reachable decoded kind)).2 rfl,
        h.constructors _ c reachable decoded⟩
    complete := h.complete _ c reachable decoded
    bounded := h.bounded _ c reachable decoded }⟩

/-- Well-formed is what passes wherever the walk meets it, as long as nothing is shared. -/
theorem wellFormed_iff :
    WellFormed payload extensions limit ↔
      Visit.first.Passes payload extensions limit ∧ Unshared payload 0 := by
  constructor
  · exact fun h => ⟨h.passes, h.unshared⟩
  · rintro ⟨passes, unshared⟩
    have sound {i : Nat} {c : Cursor} (h : Reachable payload i)
        (decoded : Cursor.decode payload i = .ok c) :
        ∃ v, ReflTransGen (Visit.Step payload) .first v ∧ v.position = i ∧
          v.Sound payload extensions limit c := by
      obtain ⟨v, reach, rfl⟩ := Visit.reachable_iff.1 h
      obtain ⟨c', sound⟩ := passes v reach
      cases decoded.symm.trans sound.decoded
      exact ⟨v, reach, rfl, sound⟩
    exact {
      decodes := fun i reachable => by
        obtain ⟨v, reach, rfl⟩ := Visit.reachable_iff.1 reachable
        obtain ⟨c, sound⟩ := passes v reach
        exact ⟨c, sound.decoded⟩
      legible := fun i c reachable decoded => by
        obtain ⟨v, _, rfl, sound⟩ := sound reachable decoded
        exact (textDefect_eq_none.1 sound.text).1
      digits := fun i c t reachable decoded => by
        obtain ⟨v, _, rfl, sound⟩ := sound reachable decoded
        exact (textDefect_eq_none.1 sound.text).2 t
      complete := fun i c reachable decoded => by
        obtain ⟨v, _, rfl, sound⟩ := sound reachable decoded
        exact sound.complete
      bounded := fun i c reachable decoded => by
        obtain ⟨v, _, rfl, sound⟩ := sound reachable decoded
        exact sound.bounded
      unshared := unshared
      current := fun i c reachable decoded kind => by
        obtain ⟨v, reach, rfl, sound⟩ := sound reachable decoded
        exact (Visit.below_of_scope reach).1 ((scopeDefect_eq_none.1 sound.scope).current kind)
      last := fun i c reachable decoded kind => by
        obtain ⟨v, reach, rfl, sound⟩ := sound reachable decoded
        exact (Visit.below_of_scope reach).2 ((scopeDefect_eq_none.1 sound.scope).last kind)
      constructors := fun i c reachable decoded => by
        obtain ⟨v, _, rfl, sound⟩ := sound reachable decoded
        exact (scopeDefect_eq_none.1 sound.scope).constructors
      nesting := fun i n reaches => by
        obtain ⟨scope, reach⟩ := Visit.exists_visit reaches
        obtain ⟨c, sound⟩ := passes _ reach
        exact sound.nesting }

end

end FlatPath
