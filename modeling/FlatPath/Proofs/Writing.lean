import Mathlib
import FlatPath.Proofs.Encoding

/-!
Sessions with a writer. Whatever is called, and in which order: the buffer consists of the header
and of what each call has appended, one after the other, and a reserved slot holds what was stored
in it by the last patch that did not fail.
-/

namespace FlatPath

open Bytes

/-- A call of one of the operations. -/
inductive Writing
  | align
  | reserve
  | byte (v : UInt8)
  | word (v : UInt32)
  | bytes (b : ByteArray)
  | text (s : String)
  | patch (slot : OffsetSlot) (child owner : Nat)

/-- What a call appends at position `p`, where a slot that is reserved at `q` holds `value ⟨q⟩`. -/
def Writing.contribution (value : OffsetSlot → UInt32) (p : Nat) : Writing → ByteArray
  | .align => zeros (alignUp p - p)
  | .reserve => ofWord (value ⟨p⟩)
  | .byte v => [v].toByteArray
  | .word v => ofWord v
  | .bytes b => b
  | .text s => Layout.text s
  | .patch .. => .empty

/-- What the calls append from position `p` on. -/
def contributions (value : OffsetSlot → UInt32) : Nat → List Writing → ByteArray
  | _, [] => .empty
  | p, op :: ops =>
    let here := op.contribution value p
    here ++ contributions value (p + here.size) ops

/-- What a call stores in this slot. -/
def Writing.stored? (slot : OffsetSlot) : Writing → Option UInt32
  | .patch target child owner =>
    if target = slot ∧ owner < child ∧ child - owner ≤ maxSize then
      some (.ofNat (child - owner))
    else none
  | _ => none

/-- What was stored in the slot last, zero if nothing was. -/
def lastPatch (ops : List Writing) (slot : OffsetSlot) : UInt32 :=
  (ops.filterMap (·.stored? slot)).getLastD 0

/-- A writer together with the slots that it has returned. -/
structure Session where
  writer : Writer := {}
  slots : List OffsetSlot := []

namespace Session

/-- A call that fails leaves everything as it is. -/
def step (s : Session) : Writing → Session
  | .align => { s with writer := s.writer.align }
  | .reserve =>
    let (slot, w) := s.writer.reserve
    { writer := w, slots := slot :: s.slots }
  | .byte v => { s with writer := s.writer.byte v }
  | .word v => { s with writer := s.writer.word v }
  | .bytes b => { s with writer := s.writer.bytes b }
  | .text t => { s with writer := s.writer.text t }
  | .patch slot child owner =>
    match s.writer.patch slot child owner with
    | .ok w => { s with writer := w }
    | .error _ => s

def run (s : Session) (ops : List Writing) : Session :=
  ops.foldl step s

/-- Only slots that the writer has returned are patched. -/
def Allows (s : Session) : Writing → Prop
  | .patch slot _ _ => slot ∈ s.slots
  | _ => True

def AllowsAll (s : Session) : List Writing → Prop
  | [] => True
  | op :: ops => s.Allows op ∧ (s.step op).AllowsAll ops

instance (s : Session) : DecidablePred s.Allows
  | .patch slot _ _ => inferInstanceAs (Decidable (slot ∈ s.slots))
  | .align | .reserve | .byte _ | .word _ | .bytes _ | .text _ => .isTrue trivial

instance decidableAllowsAll (s : Session) : DecidablePred s.AllowsAll
  | [] => .isTrue trivial
  | op :: ops =>
    have := decidableAllowsAll (s.step op) ops
    inferInstanceAs (Decidable (s.Allows op ∧ (s.step op).AllowsAll ops))

end Session

section Contributions

variable {value other : OffsetSlot → UInt32} {ops : List Writing} {slot : OffsetSlot}

theorem Writing.size_contribution (value other : OffsetSlot → UInt32) (p : Nat) (op : Writing) :
    (op.contribution value p).size = (op.contribution other p).size := by
  cases op <;> rfl

theorem Writing.contribution_congr {p : Nat} {op : Writing}
    (same : op = .reserve → value ⟨p⟩ = other ⟨p⟩) :
    op.contribution value p = op.contribution other p := by
  cases op with
  | reserve => rw [contribution, contribution, same rfl]
  | _ => rfl

/-- How much is appended does not depend on what is stored in slots. -/
theorem size_contributions (value other : OffsetSlot → UInt32) (p : Nat) (ops : List Writing) :
    (contributions value p ops).size = (contributions other p ops).size := by
  induction ops generalizing p with
  | nil => rfl
  | cons op ops ih =>
      simp only [contributions, ByteArray.size_append]
      rw [op.size_contribution value other, ih]

theorem contributions_append (value : OffsetSlot → UInt32) (p : Nat) (ops more : List Writing) :
    contributions value p (ops ++ more) =
      contributions value p ops ++
        contributions value (p + (contributions value p ops).size) more := by
  induction ops generalizing p with
  | nil => simp [contributions]
  | cons op ops ih =>
      simp only [List.cons_append, contributions, ih, ByteArray.size_append, ByteArray.append_assoc,
        Nat.add_assoc]

theorem contributions_concat (value : OffsetSlot → UInt32) (ops : List Writing) (op : Writing) :
    contributions value 0 (ops ++ [op]) =
      contributions value 0 ops ++ op.contribution value (contributions value 0 ops).size := by
  simp [contributions_append, contributions]

/-- Only the slots that are reserved in between count. -/
theorem contributions_congr {p : Nat}
    (same : ∀ slot : OffsetSlot, p ≤ slot.position →
      slot.position < p + (contributions value p ops).size → value slot = other slot) :
    contributions value p ops = contributions other p ops := by
  induction ops generalizing p with
  | nil => rfl
  | cons op ops ih =>
      simp only [contributions, ByteArray.size_append] at same ⊢
      have here : op.contribution value p = op.contribution other p := by
        refine Writing.contribution_congr fun reserves => same ⟨p⟩ le_rfl ?_
        subst reserves
        simp only [Writing.contribution, size_ofWord]
        omega
      rw [← here]
      congr 1
      exact ih fun slot behind inside => same slot (by omega) (by omega)

/-- One of the calls has reserved the slot. -/
def Reserved (ops : List Writing) (slot : OffsetSlot) : Prop :=
  ∃ front back, ops = front ++ .reserve :: back ∧
    ∀ value, (contributions value 0 front).size = slot.position

theorem Reserved.append (h : Reserved ops slot) (more : List Writing) :
    Reserved (ops ++ more) slot := by
  obtain ⟨front, back, rfl, place⟩ := h
  exact ⟨front, back ++ more, by simp, place⟩

theorem Reserved.le_size (h : Reserved ops slot) (value : OffsetSlot → UInt32) :
    slot.position + 4 ≤ (contributions value 0 ops).size := by
  obtain ⟨front, back, rfl, place⟩ := h
  rw [contributions_append, contributions, ByteArray.size_append, ByteArray.size_append, place]
  simp only [Writing.contribution, size_ofWord]
  omega

/-- A word that is written into a reserved slot is the value of that slot from then on. -/
theorem Reserved.setWord_contributions (h : Reserved ops slot) (value : OffsetSlot → UInt32)
    (v : UInt32) :
    setWord (contributions value 0 ops) slot.position v =
      contributions (Function.update value slot v) 0 ops := by
  obtain ⟨front, back, rfl, place⟩ := h
  have before : contributions (Function.update value slot v) 0 front =
      contributions value 0 front := by
    refine contributions_congr fun other _ inFront => Function.update_of_ne ?_ ..
    rintro rfl
    rw [place] at inFront
    omega
  have behind : contributions (Function.update value slot v) (slot.position + 4) back =
      contributions value (slot.position + 4) back := by
    refine contributions_congr fun other beyond _ => Function.update_of_ne ?_ ..
    rintro rfl
    omega
  simp only [contributions_append, contributions, Writing.contribution, before, place, size_ofWord,
    Nat.zero_add, behind, Function.update_self, ← ByteArray.append_assoc]
  have overwritten := setWord_append (contributions value 0 front)
    (contributions value (slot.position + 4) back) (value ⟨slot.position⟩) v
  rwa [place] at overwritten

end Contributions

section Patches

variable {op : Writing} {child owner : Nat}

theorem lastPatch_concat (ops : List Writing) (op : Writing) (slot : OffsetSlot) :
    lastPatch (ops ++ [op]) slot = (op.stored? slot).getD (lastPatch ops slot) := by
  rw [lastPatch, lastPatch, List.filterMap_append]
  cases stored : op.stored? slot with
  | none => simp [stored]
  | some v => simp [stored]

theorem lastPatch_concat_of_inert (ops : List Writing) (inert : ∀ slot, op.stored? slot = none) :
    lastPatch (ops ++ [op]) = lastPatch ops := by
  funext slot
  rw [lastPatch_concat, inert]
  rfl

theorem lastPatch_concat_patch (ops : List Writing) (slot : OffsetSlot) (forward : owner < child)
    (near : child - owner ≤ maxSize) :
    lastPatch (ops ++ [.patch slot child owner]) =
      Function.update (lastPatch ops) slot (.ofNat (child - owner)) := by
  funext other
  rw [lastPatch_concat, Writing.stored?]
  by_cases same : slot = other
  · subst same
    simp [forward, near]
  · simp [same, Function.update_of_ne (Ne.symm same)]

end Patches

/-- A patch fails where it would lead backwards or too far. -/
theorem Writer.patch_fails_iff (w : Writer) (slot : OffsetSlot) (child owner : Nat) :
    (∃ e, w.patch slot child owner = .error e) ↔ child ≤ owner ∨ maxSize < child - owner := by
  rw [patch]
  by_cases behind : child ≤ owner
  · simp [behind]
  · by_cases far : maxSize < child - owner <;> simp [behind, far]

theorem Writer.patch_of_near {w : Writer} {slot : OffsetSlot} {child owner : Nat}
    (forward : owner < child) (near : child - owner ≤ maxSize) :
    w.patch slot child owner =
      .ok ⟨setWord w.payload slot.position (.ofNat (child - owner))⟩ := by
  rw [patch, if_neg (by omega), if_neg (by omega)]

namespace Session

variable {ops : List Writing} {op : Writing} {s : Session}

theorem step_of_fails {slot : OffsetSlot} {child owner : Nat}
    (fails : child ≤ owner ∨ maxSize < child - owner) (s : Session) :
    s.step (.patch slot child owner) = s := by
  obtain ⟨e, refused⟩ := (Writer.patch_fails_iff s.writer slot child owner).2 fails
  rw [step, refused]

/-- What is known of a session after these calls. -/
structure Written (ops : List Writing) (s : Session) : Prop where
  payload : s.writer.payload = contributions (lastPatch ops) 0 ops
  reserved : ∀ slot ∈ s.slots, Reserved ops slot
  fresh : ∀ slot : OffsetSlot, s.writer.position ≤ slot.position → lastPatch ops slot = 0

namespace Written

theorem start : Written [] {} where
  payload := rfl
  reserved := by simp
  fresh := fun _ _ => rfl

/-- A call that stores nothing in any slot. -/
theorem append {w : Writer} (h : Written ops s) (inert : ∀ slot, op.stored? slot = none)
    (appended : w.payload = s.writer.payload ++ op.contribution (lastPatch ops) s.writer.position) :
    Written (ops ++ [op]) { s with writer := w } := by
  have kept := lastPatch_concat_of_inert ops inert
  refine ⟨?_, fun slot mem => (h.reserved slot mem).append [op], fun slot behind => ?_⟩
  · rw [kept, contributions_concat, ← h.payload]
    exact appended
  · rw [kept]
    apply h.fresh
    simp only [Writer.position, appended, ByteArray.size_append] at behind ⊢
    omega

/-- A slot that is reserved has not been patched before. -/
theorem reserve (h : Written ops s) : Written (ops ++ [.reserve]) (s.step .reserve) := by
  have zero : lastPatch ops ⟨s.writer.position⟩ = 0 := h.fresh _ le_rfl
  have appended : Written (ops ++ [.reserve]) { s with writer := s.writer.word 0 } := by
    refine h.append (fun _ => rfl) ?_
    simp only [Writing.contribution, zero, Writer.word, Writer.bytes]
  refine ⟨appended.payload, ?_, appended.fresh⟩
  intro slot mem
  obtain rfl | mem := List.mem_cons.1 mem
  · refine ⟨ops, [], rfl, fun value => ?_⟩
    rw [size_contributions value (lastPatch ops), ← h.payload]
    rfl
  · exact appended.reserved slot mem

theorem patch {slot : OffsetSlot} {child owner : Nat} (h : Written ops s)
    (returned : slot ∈ s.slots) (forward : owner < child) (near : child - owner ≤ maxSize) :
    Written (ops ++ [.patch slot child owner]) (s.step (.patch slot child owner)) := by
  have stored := lastPatch_concat_patch ops slot forward near
  have room := (h.reserved slot returned).le_size (lastPatch ops)
  have payload : setWord s.writer.payload slot.position (.ofNat (child - owner)) =
      contributions (lastPatch (ops ++ [.patch slot child owner])) 0
        (ops ++ [.patch slot child owner]) := by
    rw [h.payload, (h.reserved slot returned).setWord_contributions, stored, contributions_concat]
    exact ByteArray.append_empty.symm
  rw [step, Writer.patch_of_near forward near]
  refine ⟨payload, fun other mem => (h.reserved other mem).append _, fun other behind => ?_⟩
  have position : s.writer.position ≤ other.position := by
    simp only [Writer.position, payload, contributions_concat, Writing.contribution] at behind
    rw [Writer.position, h.payload, size_contributions _ (lastPatch _)]
    simpa using behind
  rw [stored, Function.update_of_ne, h.fresh other position]
  rintro rfl
  rw [Writer.position, h.payload] at position
  omega

/-- One call. -/
theorem step (h : Written ops s) (allowed : s.Allows op) : Written (ops ++ [op]) (s.step op) := by
  cases op with
  | align => exact h.append (fun _ => rfl) rfl
  | reserve => exact h.reserve
  | byte v => exact h.append (fun _ => rfl) ByteArray.append_toByteArray_singleton.symm
  | word v => exact h.append (fun _ => rfl) rfl
  | bytes b => exact h.append (fun _ => rfl) rfl
  | text t => exact h.append (fun _ => rfl) (by rw [Encoder.text_bytes]; rfl)
  | patch slot child owner =>
      by_cases fails : child ≤ owner ∨ maxSize < child - owner
      · rw [step_of_fails fails]
        refine h.append (fun other => ?_) ByteArray.append_empty.symm
        rw [Writing.stored?, if_neg (by omega)]
      · exact h.patch allowed (by omega) (by omega)

/-- A run of calls. -/
theorem run {more : List Writing} (h : Written ops s) (allowed : s.AllowsAll more) :
    Written (ops ++ more) (s.run more) := by
  induction more generalizing ops s with
  | nil => rwa [List.append_nil]
  | cons op more ih =>
      have next := ih (h.step allowed.1) allowed.2
      rwa [List.append_assoc] at next

end Written

/-- After any calls that patch no other slots than those that were returned, the buffer consists of
the header and of what the calls have appended in their order, where each reserved slot holds what
the last patch that did not fail has stored in it, or zero. The next position is the size of what
they have appended. A patch fails if and only if the child does not follow its owner or is too far
away from it, and changes nothing then. -/
theorem finish_run {ops : List Writing} (allowed : AllowsAll {} ops) :
    let s := run {} ops
    (∀ header, s.writer.finish header = header.bytes ++ contributions (lastPatch ops) 0 ops) ∧
      s.writer.position = (contributions (lastPatch ops) 0 ops).size ∧
      ∀ slot child owner,
        ((∃ e, s.writer.patch slot child owner = .error e) ↔
          child ≤ owner ∨ maxSize < child - owner) ∧
        (child ≤ owner ∨ maxSize < child - owner → s.step (.patch slot child owner) = s) := by
  intro s
  have written : Written ops s := Written.start.run allowed
  refine ⟨fun header => ?_, ?_,
    fun slot child owner => ⟨s.writer.patch_fails_iff slot child owner, ?_⟩⟩
  · rw [Writer.finish, written.payload]
  · rw [Writer.position, written.payload]
  · exact fun fails => step_of_fails fails s

/-- The slot at 4 is patched twice, and in between in vain; that at 8 is not patched. -/
theorem finish_run_patched_twice :
    let ops : List Writing := [.byte 1, .align, .reserve, .patch ⟨4⟩ 16 0, .reserve,
      .patch ⟨4⟩ 8 8, .text "a", .patch ⟨4⟩ 12 4, .align]
    AllowsAll {} ops ∧
      contributions (lastPatch ops) 0 ops =
        [1, 0, 0, 0, 8, 0, 0, 0, 0, 0, 0, 0, 1, 0, 0, 0, 97, 0, 0, 0].toByteArray ∧
      (∀ header, (run {} ops).writer.finish header =
        header.bytes ++ contributions (lastPatch ops) 0 ops) ∧
      (run {} ops).writer.position = 20 ∧
      ∃ e, (run {} ops).writer.patch ⟨8⟩ 3 7 = .error e := by
  intro ops
  have allowed : AllowsAll {} ops := by decide +kernel
  have appended : contributions (lastPatch ops) 0 ops =
      [1, 0, 0, 0, 8, 0, 0, 0, 0, 0, 0, 0, 1, 0, 0, 0, 97, 0, 0, 0].toByteArray := by
    decide +kernel
  obtain ⟨finished, position, patches⟩ := finish_run allowed
  refine ⟨allowed, appended, finished, ?_, (patches ⟨8⟩ 3 7).1.2 (by decide)⟩
  rw [position, appended]
  rfl

end Session

end FlatPath
