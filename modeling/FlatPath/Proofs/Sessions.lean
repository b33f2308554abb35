import FlatPath.Proofs.Drafts

/-!
The encoder as a session with its writer. It does nothing to the writer but call the operations, and
it patches only slots that it got from them. So what is said of sessions holds of encoding: in one
array, behind the place of the header, it leads to the same buffer.
-/

namespace FlatPath

namespace Session

/-- The session goes on to the other one by calls that patch only slots that were returned. -/
def Reaches (s s' : Session) : Prop :=
  ∃ ops, s.AllowsAll ops ∧ s.run ops = s'

variable {s s' s'' : Session} {slot : OffsetSlot}

theorem allowsAll_append {ops more : List Writing} :
    s.AllowsAll (ops ++ more) ↔ s.AllowsAll ops ∧ (s.run ops).AllowsAll more := by
  induction ops generalizing s with
  | nil => exact ⟨fun allowed => ⟨trivial, allowed⟩, And.right⟩
  | cons op ops ih =>
      simp only [List.cons_append, AllowsAll, ih, and_assoc]
      rfl

theorem mem_slots_step (mem : slot ∈ s.slots) (op : Writing) : slot ∈ (s.step op).slots := by
  cases op with
  | reserve => exact .tail _ mem
  | patch =>
      rw [step]
      split <;> exact mem
  | _ => exact mem

namespace Reaches

theorem refl (s : Session) : s.Reaches s :=
  ⟨[], trivial, rfl⟩

theorem step {op : Writing} (allowed : s.Allows op) : s.Reaches (s.step op) :=
  ⟨[op], ⟨allowed, trivial⟩, rfl⟩

theorem trans (h : s.Reaches s') (h' : s'.Reaches s'') : s.Reaches s'' := by
  obtain ⟨ops, allowed, rfl⟩ := h
  obtain ⟨more, allowed', rfl⟩ := h'
  exact ⟨ops ++ more, allowsAll_append.2 ⟨allowed, allowed'⟩, List.foldl_append ..⟩

/-- A slot stays returned. -/
theorem mem_slots (h : s.Reaches s') (mem : slot ∈ s.slots) : slot ∈ s'.slots := by
  obtain ⟨ops, allowed, rfl⟩ := h
  induction ops generalizing s with
  | nil => exact mem
  | cons op ops ih => exact ih (mem_slots_step mem op) allowed.2

end Reaches

end Session

namespace Encoder

open Session

variable {s : Session} {w : Writer} {slots : List OffsetSlot}

/-- From this session on, calls lead to one with this writer that has returned these slots. -/
def Leads (s : Session) (w : Writer) (slots : List OffsetSlot) : Prop :=
  ∃ s', s.Reaches s' ∧ s'.writer = w ∧ ∀ slot ∈ slots, slot ∈ s'.slots

theorem reserveMany_leads {n : Nat} (h : (reserveMany n).run s.writer = .ok (slots, w)) :
    Leads s w slots := by
  induction n generalizing s slots with
  | zero =>
      cases h
      exact ⟨s, .refl s, rfl, by simp⟩
  | succ n ih =>
      obtain ⟨slot, _, reserved, h⟩ := run_bind_eq_ok.1 h
      cases reserved
      obtain ⟨rest, _, others, h⟩ := run_bind_eq_ok.1 h
      cases h
      have first : s.Reaches (s.step .reserve) := .step trivial
      obtain ⟨s', onward, writer, returned⟩ := ih (s := s.step .reserve) others
      refine ⟨s', first.trans onward, writer, fun slot mem => ?_⟩
      obtain rfl | mem := List.mem_cons.1 mem
      · exact onward.mem_slots (.head _)
      · exact returned slot mem

theorem text_leads {t : String} (h : (text t).run s.writer = .ok ((), w)) : Leads s w [] := by
  obtain ⟨_, h⟩ := ensureRoom_bind_eq_ok.1 h
  cases h
  exact ⟨s.step (.text t), .step trivial, rfl, by simp⟩

theorem entries_leads {count perEntry : Nat}
    (h : (entries count perEntry).run s.writer = .ok (slots, w)) : Leads s w slots := by
  obtain ⟨_, h⟩ := ensureRoom_bind_eq_ok.1 h
  obtain ⟨_, _, written, h⟩ := run_bind_eq_ok.1 h
  cases written
  have first : s.Reaches (s.step (.word (.ofNat count))) := .step trivial
  obtain ⟨s', onward, writer, returned⟩ := reserveMany_leads (s := s.step (.word _)) h
  exact ⟨s', first.trans onward, writer, returned⟩

/-- What stands between the next slot of an item and its first operand. -/
theorem content_leads {ρ ο : Type} {x : Item String ρ ο}
    (h : (content x).run s.writer = .ok (slots, w)) : Leads s w slots := by
  cases x with
  | null | root | current | last | anyArray | anyKey | method =>
      cases h
      exact ⟨s, .refl s, rfl, by simp⟩
  | string t | key t | var t =>
      obtain ⟨_, _, written, h⟩ := run_bind_eq_ok.1 h
      cases h
      exact text_leads written
  | numeric t =>
      rw [content] at h
      split at h
      · cases h
      · obtain ⟨_, h⟩ := ensureRoom_bind_eq_ok.1 h
        cases h
        exact ⟨_, ⟨[.word (.ofNat t.utf8ByteSize), .bytes t.toUTF8],
          ⟨trivial, trivial, trivial⟩, rfl⟩, rfl, by simp⟩
  | bool b =>
      cases h
      exact ⟨s.step (.byte (if b then 1 else 0)), .step trivial, rfl, by simp⟩
  | any levels =>
      cases h
      exact ⟨_, ⟨[.word levels.first, .word levels.last], ⟨trivial, trivial, trivial⟩, rfl⟩, rfl,
        by simp⟩
  | binary | unary | datetime | array => exact reserveMany_leads h
  | likeRegex e pattern flags =>
      rw [content] at h
      split at h
      · cases h
      · obtain ⟨_, h⟩ := ensureRoom_bind_eq_ok.1 h
        cases h
        refine ⟨_, ⟨[.word flags.bits, .reserve, .text pattern],
          ⟨trivial, trivial, trivial, trivial⟩, rfl⟩, rfl, fun slot mem => ?_⟩
        rw [List.mem_singleton.1 mem]
        exact .head _
  | indexArray | sequence | object => exact entries_leads h

theorem patch_leads {slot : OffsetSlot} {child owner : Nat} (returned : slot ∈ s.slots)
    (h : (patch slot child owner).run s.writer = .ok ((), w)) : Leads s w [] := by
  have patched : s.writer.patch slot child owner = .ok w := by
    simp only [patch, StateT.run] at h
    split at h
    · next patched =>
        cases h
        exact patched
    · cases h
  have allowed : s.Allows (.patch slot child owner) := returned
  exact ⟨_, .step allowed, by rw [Session.step, patched], by simp⟩

/-- Wherever the encoding of the chain succeeds, it does so by calls. -/
def Conducts (chain : Chain) : Prop :=
  ∀ scope d s start w, (chain scope d).run s.writer = .ok (start, w) → Leads s w []

theorem operands_leads {owner : Kind} {start : Nat} {scope : Scope} {d : Descent}
    {os : List (Slot (Option Chain) × OffsetSlot)}
    (conducts : ∀ o ∈ os, ∀ chain, o.1.content = some chain → Conducts chain)
    (returned : ∀ o ∈ os, o.2 ∈ s.slots)
    (h : (operands owner start scope d os).run s.writer = .ok ((), w)) : Leads s w [] := by
  induction os generalizing s with
  | nil =>
      cases h
      exact ⟨s, .refl s, rfl, by simp⟩
  | cons o os ih =>
      obtain ⟨⟨role, required, _ | chain⟩, slot⟩ := o
      · exact ih (fun o mem => conducts o (.tail _ mem)) (fun o mem => returned o (.tail _ mem)) h
      · obtain ⟨d', _, entered, h⟩ := run_bind_eq_ok.1 h
        obtain ⟨_, _, rfl⟩ := enter_ok entered
        obtain ⟨child, _, encoded, h⟩ := run_bind_eq_ok.1 h
        obtain ⟨_, _, patched, h⟩ := run_bind_eq_ok.1 h
        obtain ⟨s₁, first, rfl, _⟩ := conducts _ (.head _) chain rfl _ _ s _ _ encoded
        obtain ⟨s₂, second, rfl, _⟩ := patch_leads (first.mem_slots (returned _ (.head _))) patched
        obtain ⟨s₃, third, writer, _⟩ := ih (fun o mem => conducts o (.tail _ mem))
          (fun o mem => second.mem_slots (first.mem_slots (returned o (.tail _ mem)))) h
        exact ⟨s₃, (first.trans second).trans third, writer, by simp⟩

/-- The tag of an item, aligned, and its next slot. -/
theorem tagged_leads (kind : Kind) (s : Session) :
    Leads s ⟨tagged kind s.writer ++ Bytes.ofWord 0⟩ [⟨(tagged kind s.writer).size⟩] := by
  have reserved := Prod.ext_iff.1 (Except.ok.inj (run_reserve_tagged kind s.writer))
  refine ⟨_, ⟨[.byte kind.tag, .align, .reserve], ⟨trivial, trivial, trivial, trivial⟩, rfl⟩,
    reserved.2, fun slot mem => ?_⟩
  rw [List.mem_singleton.1 mem]
  exact List.mem_cons.2 (.inl reserved.1.symm)

theorem item_conducts {extensions : Bool} {x : Item String Chain (Option Chain)}
    {next : Option Chain} (operands : ∀ chain ∈ x.operands, Conducts chain)
    (rest : ∀ chain, next = some chain → Conducts chain) :
    Conducts (item extensions x next) := by
  intro scope d s start w h
  obtain ⟨_, _, _, slots, w₁, w₂, contents, operated, ending⟩ := item_eq_ok.1 h
  obtain ⟨s₀, front, writer, nextSlot⟩ := tagged_leads x.kind s
  rw [← writer] at contents
  obtain ⟨s₁, fixed, rfl, returned⟩ := content_leads contents
  obtain ⟨s₂, behind, rfl, _⟩ := operands_leads
    (fun o mem chain content => operands chain (Item.mem_operands_iff_slot.2
      ⟨o.1, (List.of_mem_zip mem).1, content⟩))
    (fun o mem => returned o.2 (List.of_mem_zip mem).2) operated
  have item : s.Reaches s₂ := (front.trans fixed).trans behind
  obtain ⟨_, rfl⟩ | ⟨chain, tail, w₃, continued, encoded, patched⟩ := ending
  · exact ⟨s₂, item, rfl, by simp⟩
  · obtain ⟨s₃, onward, rfl, _⟩ := rest chain continued _ _ _ _ _ encoded
    have held := (fixed.trans behind).trans onward |>.mem_slots (nextSlot _ (.head _))
    obtain ⟨s₄, last, writer, _⟩ := patch_leads held patched
    exact ⟨s₄, (item.trans onward).trans last, writer, by simp⟩

/-- The encoder only calls the operations of its writer. -/
theorem encode_conducts (extensions : Bool) (e : Expr) : Conducts (e.encode extensions) := by
  induction e using Expr.operandInduction with
  | mk x next operands rest =>
      rw [Expr.encode_mk]
      refine item_conducts (fun chain mem => ?_) (fun chain continued => ?_)
      · rw [Item.operands_map] at mem
        obtain ⟨e, operand, rfl⟩ := List.mem_map.1 mem
        exact operands e operand
      · obtain ⟨e, rfl, rfl⟩ := Option.map_eq_some_iff.1 continued
        exact rest e rfl

end Encoder

/-- A path that is encoded is written in one array by calls of the operations, and is the buffer that
they end with there. -/
theorem Path.encode_in_place {path : Path} {limits : Limits} {b : Buffer}
    (h : path.encode limits = .ok b) :
    ∃ ops, Session.AllowsAll {} ops ∧ (Draft.run {} ops).finish b.header = b.bytes ∧
      b.payload = contributions (lastPatch ops) 0 ops := by
  rw [encode] at h
  obtain ⟨⟨start, w⟩, written, h⟩ := bind_eq_ok.1 h
  obtain ⟨d, _, entered, encoded⟩ := run_bind_eq_ok.1 written
  obtain ⟨_, _, rfl⟩ := Encoder.enter_ok entered
  obtain ⟨s, ⟨ops, allowed, rfl⟩, rfl, _⟩ := Encoder.encode_conducts _ _ _ _ {} _ _ encoded
  cases h
  have payload := (Session.Written.start.run allowed).payload
  refine ⟨ops, allowed, ?_, payload⟩
  rw [(Session.run_in_place allowed).1, Buffer.bytes, payload]
  rfl

end FlatPath
