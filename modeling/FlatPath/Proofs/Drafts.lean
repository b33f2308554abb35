import FlatPath.Buffer.Draft
import FlatPath.Proofs.Writing

/-!
Header and payload in one array. Every operation does there, behind the four bytes of the header,
what the writer does to its payload; so a session leads to the same buffer, and the slots that are
patched lie inside the array.
-/

namespace FlatPath

open Bytes

/-- The array that a writer stands for: its payload behind the place of the header. -/
def Writer.draft (w : Writer) : Draft :=
  ⟨zeros Header.size ++ w.payload⟩

namespace Writer

variable (w : Writer)

theorem size_draft : w.draft.size = w.size := by
  simp [draft, Draft.size, size]

theorem position_draft : w.draft.position = w.position := by
  rw [Draft.position, size_draft, size, Nat.add_sub_cancel_left, position]

theorem isEmpty_draft : w.draft.isEmpty = w.isEmpty := by
  rw [Draft.isEmpty, position_draft, isEmpty]

theorem append_draft (b : ByteArray) : w.draft.append b = (w.bytes b).draft := by
  simp only [draft, Draft.append, bytes, ByteArray.append_assoc]

theorem byte_draft (v : UInt8) : w.draft.byte v = (w.byte v).draft := by
  simp only [draft, Draft.byte, byte, ← ByteArray.append_toByteArray_singleton,
    ByteArray.append_assoc]

theorem word_draft (v : UInt32) : w.draft.word v = (w.word v).draft :=
  w.append_draft (ofWord v)

theorem text_draft (s : String) : w.draft.text s = (w.text s).draft := by
  rw [Draft.text, word_draft, append_draft, byte_draft, text]

/-- The header ends at a boundary. -/
theorem align_draft : w.draft.align = w.align.draft := by
  have gap : alignUp w.size - w.size = alignUp w.position - w.position := by
    simp only [alignUp, size, Header.size, position]
    omega
  rw [Draft.align, size_draft, gap, append_draft, align]

theorem reserve_draft : w.draft.reserve = (w.reserve.1, w.reserve.2.draft) := by
  rw [Draft.reserve, position_draft, word_draft, reserve]

theorem patch_draft (slot : OffsetSlot) (child owner : Nat) :
    w.draft.patch slot child owner = (w.patch slot child owner).map draft := by
  have behind := setWord_behind (zeros Header.size) w.payload slot.position (.ofNat (child - owner))
  rw [size_zeros] at behind
  rw [Draft.patch, patch]
  split_ifs
  · rfl
  · rfl
  · exact congrArg (fun bytes => Except.ok (Draft.mk bytes)) behind

theorem finish_draft (header : Header) : w.draft.finish header = w.finish header := by
  have whole : header.bytes.extract 0 Header.size = header.bytes := header.bytes.extract_zero_size
  have behind : w.draft.bytes.extract Header.size w.draft.size = w.payload := by
    rw [size_draft]
    exact ByteArray.extract_append_eq_right (size_zeros _).symm (by rw [size_zeros, size])
  have overwritten : w.draft.finish header =
      header.bytes.extract 0 Header.size ++ w.draft.bytes.extract Header.size w.draft.size := by
    rw [Draft.finish, ByteArray.copySlice_eq_append, ByteArray.extract_same,
      ByteArray.empty_append, Nat.zero_add, Nat.zero_add]
    rfl
  rw [overwritten, whole, behind, finish]

end Writer

namespace Draft

/-- A call that fails leaves everything as it is. -/
def call (t : Draft) : Writing → Draft
  | .align => t.align
  | .reserve => t.reserve.2
  | .byte v => t.byte v
  | .word v => t.word v
  | .bytes b => t.append b
  | .text s => t.text s
  | .patch slot child owner =>
    match t.patch slot child owner with
    | .ok t => t
    | .error _ => t

def run (t : Draft) (ops : List Writing) : Draft :=
  ops.foldl call t

end Draft

namespace Session

theorem call_draft (s : Session) (op : Writing) :
    s.writer.draft.call op = (s.step op).writer.draft := by
  cases op with
  | align => exact s.writer.align_draft
  | reserve => rw [Draft.call, Writer.reserve_draft, step]
  | byte v => exact s.writer.byte_draft v
  | word v => exact s.writer.word_draft v
  | bytes b => exact s.writer.append_draft b
  | text t => exact s.writer.text_draft t
  | patch slot child owner =>
      rw [Draft.call, Writer.patch_draft, step]
      cases s.writer.patch slot child owner <;> rfl

theorem run_draft (s : Session) (ops : List Writing) :
    s.writer.draft.run ops = (s.run ops).writer.draft := by
  induction ops generalizing s with
  | nil => rfl
  | cons op ops ih =>
      have rest := ih (s.step op)
      rwa [← call_draft] at rest

/-- A session in one array, from the four zeros that hold the place of the header: what it ends with
is the header and what the calls have appended, with the last patch in each slot. Each slot that was
returned has its four bytes in the array. -/
theorem run_in_place {ops : List Writing} (allowed : AllowsAll {} ops) :
    (∀ header, (Draft.run {} ops).finish header =
        header.bytes ++ contributions (lastPatch ops) 0 ops) ∧
      (Draft.run {} ops).position = (contributions (lastPatch ops) 0 ops).size ∧
      ∀ slot ∈ (run {} ops).slots,
        Header.size + slot.position + 4 ≤ (Draft.run {} ops).size := by
  have written : Written ops (run {} ops) := Written.start.run allowed
  have same : Draft.run {} ops = (run {} ops).writer.draft := by
    have same := run_draft {} ops
    rwa [Writer.draft, ByteArray.append_empty] at same
  rw [same]
  refine ⟨fun header => ?_, ?_, fun slot returned => ?_⟩
  · rw [Writer.finish_draft, Writer.finish, written.payload]
  · rw [Writer.position_draft, Writer.position, written.payload]
  · have inside := (written.reserved slot returned).le_size (lastPatch ops)
    rw [Writer.size_draft, Writer.size, written.payload]
    omega

end Session

end FlatPath
