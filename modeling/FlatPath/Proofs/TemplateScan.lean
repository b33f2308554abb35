import Mathlib
import FlatPath.Template
import FlatPath.Proofs.JsonText

/-!
The scan of a datetime template beside an automaton on its characters. The scan counts bytes, so
that a backslash may take it into the middle of a character; there it finds nothing and goes on
byte by byte to where the automaton is already. So both come to the same answer.
-/

namespace FlatPath.Template

open Relation Json

/-! Texts and their bytes. -/

/-- The bytes of a character after its first. -/
def Continues (b : UInt8) : Prop :=
  128 ≤ b.toNat ∧ b.toNat < 192

instance : DecidablePred Continues :=
  fun _ => inferInstanceAs (Decidable (_ ∧ _))

theorem continues_ofNat (n : Nat) : Continues (UInt8.ofNat (n % 64 + 128)) := by
  rw [Continues, UInt8.toNat_ofNat']
  omega

theorem continues_of_mem_tail {c : Char} {b : UInt8} (mem : b ∈ (String.utf8EncodeChar c).tail) :
    Continues b := by
  simp only [String.utf8EncodeChar] at mem
  split at mem
  · cases mem
  · split at mem
    · obtain rfl := List.mem_singleton.1 mem
      exact continues_ofNat _
    · split at mem
      · obtain rfl | rfl := List.mem_pair.1 mem <;> exact continues_ofNat _
      · obtain rfl | mem := List.mem_cons.1 mem
        · exact continues_ofNat _
        · obtain rfl | rfl := List.mem_pair.1 mem <;> exact continues_ofNat _

/-- No other character begins with the byte of an ASCII one. -/
theorem eq_toUInt8_iff {c d : Char} {b : UInt8} {left : List UInt8}
    (bytes : String.utf8EncodeChar c = b :: left) (small : d.toNat < 128) :
    b = d.toUInt8 ↔ c = d := by
  by_cases ascii : c.toNat < 128
  · rw [encodeChar_ascii ascii] at bytes
    cases bytes
    exact ⟨ascii_inj ascii small, fun same => same ▸ rfl⟩
  · have large := encodeChar_large (Nat.le_of_not_lt ascii) b (by simp [bytes])
    have value : d.toUInt8.toNat = d.toNat := toNat_ascii small
    constructor
    · rintro rfl
      omega
    · rintro rfl
      omega

theorem exists_encodeChar (c : Char) : ∃ b left, String.utf8EncodeChar c = b :: left :=
  List.exists_cons_of_ne_nil String.utf8EncodeChar_ne_nil

theorem utf8_eq_nil {cs : List Char} : utf8 cs = [] ↔ cs = [] := by
  cases cs with
  | nil => simp [utf8]
  | cons c cs => simp [utf8_cons, String.utf8EncodeChar_ne_nil]

theorem head?_utf8 {cs : List Char} {d : Char} (small : d.toNat < 128) :
    (utf8 cs).head? = some d.toUInt8 ↔ cs.head? = some d := by
  cases cs with
  | nil => simp [utf8]
  | cons c cs =>
      obtain ⟨b, left, bytes⟩ := exists_encodeChar c
      simp [utf8_cons, bytes, eq_toUInt8_iff bytes small]

/-- A text begins with an ASCII word exactly if its bytes do. -/
theorem prefix_utf8 {word cs : List Char} (small : ∀ c ∈ word, c.toNat < 128) :
    word.map Char.toUInt8 <+: utf8 cs ↔ word <+: cs := by
  induction word generalizing cs with
  | nil => simp
  | cons d word ih =>
      cases cs with
      | nil => simp [utf8]
      | cons c cs =>
          obtain ⟨b, left, bytes⟩ := exists_encodeChar c
          rw [utf8_cons, bytes, List.map_cons, List.cons_append, List.cons_prefix_cons,
            List.cons_prefix_cons, eq_comm, eq_toUInt8_iff bytes (small d (by simp)), eq_comm]
          refine and_congr_right ?_
          rintro rfl
          rw [encodeChar_ascii (small d (by simp))] at bytes
          cases bytes
          exact ih fun c mem => small c (by simp [mem])

section Bytes

variable {bytes : ByteArray} {i : Nat}

theorem byteAt?_eq_head? (bytes : ByteArray) (i : Nat) :
    Bytes.byteAt? bytes i = (bytes.data.toList.drop i).head? := by
  rw [List.head?_drop, Bytes.byteAt?]
  split
  · next inside => exact (List.getElem?_eq_getElem inside).symm
  · next outside => exact (List.getElem?_eq_none (Nat.le_of_not_lt outside)).symm

theorem drop_eq_cons (inside : i < bytes.size) :
    bytes.data.toList.drop i = bytes[i] :: bytes.data.toList.drop (i + 1) :=
  List.drop_eq_getElem_cons inside

theorem drop_eq_singleton (inside : i < bytes.size) (last : ¬ i + 1 < bytes.size) :
    bytes.data.toList.drop i = [bytes[i]] := by
  rw [drop_eq_cons inside, List.drop_of_length_le (Nat.le_of_not_lt last)]

theorem beginsAt_iff {word : List Char} :
    beginsAt bytes i word = true ↔ word.map Char.toUInt8 <+: bytes.data.toList.drop i := by
  induction word generalizing i with
  | nil => simp [beginsAt]
  | cons c word ih =>
      rw [beginsAt, Bool.and_eq_true, beq_iff_eq, byteAt?_eq_head?, ih, ← List.tail_drop]
      cases bytes.data.toList.drop i with
      | nil => simp
      | cons b left => simp [List.cons_prefix_cons, eq_comm]

/-- What follows the first byte of a text continues its first character. -/
theorem exists_drop_succ {cs : List Char} (ahead : bytes.data.toList.drop i = utf8 cs) :
    ∃ left, (∀ b ∈ left, Continues b) ∧
      bytes.data.toList.drop (i + 1) = left ++ utf8 cs.tail := by
  rw [← List.tail_drop, ahead]
  cases cs with
  | nil => exact ⟨[], by simp, rfl⟩
  | cons c cs =>
      refine ⟨(String.utf8EncodeChar c).tail, fun b => continues_of_mem_tail, ?_⟩
      rw [utf8_cons, List.tail_append_of_ne_nil String.utf8EncodeChar_ne_nil]
      rfl

end Bytes

/-! One turn of the scan. -/

/-- A field that gives a zone begins the text. -/
def BeginsField (cs : List Char) : Prop :=
  ∃ field ∈ zoneFields, field <+: cs

instance (cs : List Char) : Decidable (BeginsField cs) :=
  inferInstanceAs (Decidable (∃ field ∈ zoneFields, field <+: cs))

theorem BeginsField.head? {cs : List Char} (h : BeginsField cs) : cs.head? = some 'T' := by
  obtain ⟨field, mem, rest, rfl⟩ := h
  fin_cases mem <;> rfl

theorem beginsField_iff (cs : List Char) :
    (∃ field ∈ zoneFields, field.map Char.toUInt8 <+: utf8 cs) ↔ BeginsField cs := by
  refine exists_congr fun field => and_congr_right fun mem => prefix_utf8 fun c inside => ?_
  fin_cases mem <;> fin_cases inside <;> decide

section Turn

variable {bytes : ByteArray} {p p' : Place}

/-- A turn looks at no more than the bytes that are still to come. -/
theorem turn_eq {b : UInt8} {left : List UInt8}
    (ahead : bytes.data.toList.drop p.index = b :: left) (inside : p.index < bytes.size) :
    turn bytes p inside =
      if b = '\\'.toUInt8 ∧ (p.quoted ∨ left.head? = some '"'.toUInt8) then
        some { p with index := p.index + 2 }
      else if b = '"'.toUInt8 then some { quoted := !p.quoted, index := p.index + 1 }
      else if ¬ p.quoted ∧ ∃ field ∈ zoneFields, field.map Char.toUInt8 <+: b :: left then none
      else some { p with index := p.index + 1 } := by
  have first : bytes[p.index] = b := by
    have head := congrArg List.head? ahead
    rw [← byteAt?_eq_head?, Bytes.byteAt?, dif_pos inside] at head
    exact Option.some.inj head
  have second : Bytes.byteAt? bytes (p.index + 1) = left.head? := by
    rw [byteAt?_eq_head?, ← List.tail_drop, ahead, List.tail_cons]
  have field : zoneFields.any (beginsAt bytes p.index) = true ↔
      ∃ field ∈ zoneFields, field.map Char.toUInt8 <+: b :: left := by
    simp only [List.any_eq_true, beginsAt_iff, ahead]
  simp only [turn, first, second, field]

/-- Inside of a character nothing is found. -/
theorem turn_of_continues {b : UInt8} {left : List UInt8}
    (ahead : bytes.data.toList.drop p.index = b :: left) (continues : Continues b)
    (inside : p.index < bytes.size) :
    turn bytes p inside = some { p with index := p.index + 1 } := by
  have other {d : Char} (small : d.toNat < 128) : b ≠ d.toUInt8 := by
    rintro rfl
    have value : d.toUInt8.toNat = d.toNat := toNat_ascii small
    have := continues.1
    omega
  have field : ¬ ∃ field ∈ zoneFields, field.map Char.toUInt8 <+: b :: left := by
    rintro ⟨field, mem, begins⟩
    have same : 'T'.toUInt8 = b := by
      fin_cases mem <;> exact (List.cons_prefix_cons.1 begins).1
    exact other (by decide) same.symm
  rw [turn_eq ahead inside, if_neg fun h => other (by decide) h.1, if_neg (other (by decide)),
    if_neg fun h => field h.2]

/-- At the first byte of a character the turn depends on the characters to come. -/
theorem turn_of_char {c : Char} {rest : List Char}
    (ahead : bytes.data.toList.drop p.index = utf8 (c :: rest)) (inside : p.index < bytes.size) :
    turn bytes p inside =
      if c = '\\' ∧ (p.quoted ∨ rest.head? = some '"') then
        some { p with index := p.index + 2 }
      else if c = '"' then some { quoted := !p.quoted, index := p.index + 1 }
      else if ¬ p.quoted ∧ BeginsField (c :: rest) then none
      else some { p with index := p.index + 1 } := by
  obtain ⟨b, left, bytes⟩ := exists_encodeChar c
  have field := beginsField_iff (c :: rest)
  rw [utf8_cons, bytes, List.cons_append] at ahead field
  have escapes : (b = '\\'.toUInt8 ∧
      (p.quoted ∨ (left ++ utf8 rest).head? = some '"'.toUInt8)) ↔
        (c = '\\' ∧ (p.quoted ∨ rest.head? = some '"')) := by
    rw [eq_toUInt8_iff bytes (by decide)]
    refine and_congr_right ?_
    rintro rfl
    cases bytes
    rw [List.nil_append, head?_utf8 (by decide)]
  simp only [turn_eq ahead inside, escapes, eq_toUInt8_iff bytes (show '"'.toNat < 128 by decide),
    field]

/-- Two bytes are passed behind a backslash only, and outside of quotes only if there are two. -/
theorem step_of_turn {inside : p.index < bytes.size} (h : turn bytes p inside = some p') :
    p'.index = p.index + 1 ∨ p' = { p with index := p.index + 2 } ∧
      bytes[p.index] = '\\'.toUInt8 ∧ (p.quoted ∨ p.index + 1 < bytes.size) := by
  simp only [turn] at h
  split at h
  · next escapes =>
      cases h
      refine .inr ⟨rfl, escapes.1, escapes.2.imp_right fun second => ?_⟩
      by_contra outside
      rw [Bytes.byteAt?, dif_neg outside] at second
      cases second
  · split at h
    · cases h
      exact .inl rfl
    · split at h
      · cases h
      · cases h
        exact .inl rfl

end Turn

/-! The automaton, and the scan beside it. -/

/-- What the automaton knows: whether it is inside of quotes, and the characters still to come. -/
structure Reading where
  quoted : Bool
  rest : List Char

/-- The automaton goes from character to character. A quote that is not escaped takes it into quotes
or out of them. Inside of quotes it leaves out the character behind a backslash, outside only a
quote. -/
inductive Step : Reading → Reading → Prop
  | escape {rest : List Char} : Step ⟨true, '\\' :: rest⟩ ⟨true, rest.tail⟩
  | escapedQuote {rest : List Char} : Step ⟨false, '\\' :: '"' :: rest⟩ ⟨false, rest⟩
  | quote {quoted : Bool} {rest : List Char} : Step ⟨quoted, '"' :: rest⟩ ⟨!quoted, rest⟩
  | other {quoted : Bool} {c : Char} {rest : List Char} (quote : c ≠ '"')
      (escape : ¬ (c = '\\' ∧ (quoted ∨ rest.head? = some '"'))) :
      Step ⟨quoted, c :: rest⟩ ⟨quoted, rest⟩

theorem Step.unique {r s t : Reading} (h : Step r s) (h' : Step r t) : s = t := by
  cases h <;> cases h' <;> simp_all

theorem Step.suffix {r s : Reading} (h : Step r s) : s.rest <:+ r.rest := by
  cases h with
  | escape => exact (List.tail_suffix _).trans (List.suffix_cons _ _)
  | escapedQuote => exact (List.suffix_cons _ _).trans (List.suffix_cons _ _)
  | quote | other => exact List.suffix_cons _ _

/-- The automaton comes this far in a template, outside of quotes at first. -/
def Reaches (template : String) : Reading → Prop :=
  ReflTransGen Step ⟨false, template.toList⟩

theorem Reaches.suffix {template : String} {r : Reading} (h : Reaches template r) :
    r.rest <:+ template.toList := by
  induction h with
  | refl => exact List.suffix_refl _
  | tail _ step ih => exact step.suffix.trans ih

/-- The scan at `p` has come as far as the automaton in `r`, but for bytes of the character that the
automaton has just passed. -/
def Abreast (bytes : ByteArray) (p : Place) (r : Reading) : Prop :=
  p.quoted = r.quoted ∧ ∃ left, (∀ b ∈ left, Continues b) ∧
    bytes.data.toList.drop p.index = left ++ utf8 r.rest

namespace Abreast

variable {bytes : ByteArray} {p : Place} {r : Reading}

theorem start (template : String) : Abreast template.toUTF8 {} ⟨false, template.toList⟩ := by
  refine ⟨rfl, [], by simp, ?_⟩
  rw [toUTF8_eq, List.data_toByteArray]
  rfl

theorem rest_eq_nil (h : Abreast bytes p r) (outside : bytes.size ≤ p.index) : r.rest = [] := by
  obtain ⟨_, left, _, ahead⟩ := h
  rw [List.drop_of_length_le outside, eq_comm, List.append_eq_nil_iff] at ahead
  exact utf8_eq_nil.1 ahead.2

/-- The automaton has come to a backslash at the end if the scan has. -/
theorem rest_of_last (h : Abreast bytes p r)
    (last : bytes.data.toList.drop p.index = ['\\'.toUInt8]) : r.rest = ['\\'] := by
  obtain ⟨_, left, continues, ahead⟩ := h
  rw [last, eq_comm, List.append_eq_singleton_iff] at ahead
  obtain ⟨rfl, bytes⟩ | ⟨rfl, _⟩ := ahead
  · obtain ⟨cs, rest⟩ := List.head?_eq_some_iff.1 ((head?_utf8 (d := '\\') (by decide)).1
      (congrArg List.head? bytes))
    rw [rest, utf8_cons, encodeChar_ascii (by decide)] at bytes
    rw [rest, utf8_eq_nil.1 (List.cons.inj bytes).2]
  · exact absurd (continues '\\'.toUInt8 (by simp)) (by decide)

/-- A turn inside of a character takes the scan on to where the automaton is already. Any other ends
the scan where the automaton is at a field, or is a step of the automaton. -/
theorem turn (h : Abreast bytes p r) (inside : p.index < bytes.size) :
    (∃ p', turn bytes p inside = some p' ∧ Abreast bytes p' r) ∨
      (r.quoted = false ∧ BeginsField r.rest) ∧ turn bytes p inside = none ∨
      ¬ (r.quoted = false ∧ BeginsField r.rest) ∧
        ∃ p' r', turn bytes p inside = some p' ∧ Step r r' ∧ Abreast bytes p' r' := by
  obtain ⟨quoted, rest⟩ := r
  obtain ⟨rfl, left, continues, ahead⟩ := h
  cases left with
  | cons b left =>
      refine .inl ⟨_, turn_of_continues ahead (continues b (by simp)) inside, rfl, left,
        fun b mem => continues b (by simp [mem]), ?_⟩
      rw [← List.tail_drop, ahead]
      rfl
  | nil =>
      rw [List.nil_append] at ahead
      obtain ⟨left, continues, behind⟩ := exists_drop_succ ahead
      right
      cases rest with
      | nil =>
          rw [drop_eq_cons inside] at ahead
          cases ahead
      | cons c rest =>
          rw [turn_of_char ahead inside]
          split
          · next escapes =>
              obtain ⟨rfl, takes⟩ := escapes
              -- The backslash is one byte, so the second one passed begins the character behind it.
              have next : bytes.data.toList.drop (p.index + 1) = utf8 rest := by
                rw [← List.tail_drop, ahead, utf8_cons, encodeChar_ascii (by decide)]
                rfl
              obtain ⟨left, continues, behind⟩ := exists_drop_succ next
              refine .inr ⟨fun field => ?_, _, ⟨p.quoted, rest.tail⟩, rfl, ?_, rfl, left, continues,
                behind⟩
              · cases field.2.head?
              · cases quoted : p.quoted with
                | true => exact .escape
                | false =>
                    obtain ⟨rest, rfl⟩ :=
                      List.head?_eq_some_iff.1 (takes.resolve_left (by simp [quoted]))
                    exact .escapedQuote
          · next plain =>
              split
              · next quote =>
                  subst quote
                  refine .inr ⟨fun field => ?_, _, _, rfl, .quote, rfl, left, continues, behind⟩
                  cases field.2.head?
              · next quote =>
                  split
                  · next field => exact .inl ⟨⟨by simpa using field.1, field.2⟩, rfl⟩
                  · next field =>
                      exact .inr ⟨by simpa using field, _, _, rfl, .other quote plain, rfl, left,
                        continues, behind⟩

end Abreast

/-- Wherever the scan is abreast of the automaton, it is ended by a field exactly if the automaton
comes to one. -/
theorem scan_iff {bytes : ByteArray} {p : Place} {r : Reading} (h : Abreast bytes p r) :
    scan bytes p = true ↔ ∃ rest, ReflTransGen Step r ⟨false, rest⟩ ∧ BeginsField rest := by
  fun_induction scan bytes p generalizing r with
  | case1 p inside ended =>
      obtain ⟨p', onward, _⟩ | ⟨⟨quoted, field⟩, _⟩ | ⟨_, p', _, onward, _⟩ := h.turn inside
      · cases ended.symm.trans onward
      · refine iff_of_true rfl ⟨r.rest, ?_, field⟩
        rw [← quoted]
      · cases ended.symm.trans onward
  | case2 p inside p' onward ih =>
      obtain ⟨_, same, h'⟩ | ⟨_, ended⟩ | ⟨other, _, r', same, step, h'⟩ := h.turn inside
      · cases onward.symm.trans same
        exact ih h'
      · cases onward.symm.trans ended
      · cases onward.symm.trans same
        rw [ih h']
        refine exists_congr fun rest => and_congr_left fun field => ?_
        rw [ReflTransGen.cases_head_iff (a := r)]
        constructor
        · exact fun reach => .inr ⟨r', step, reach⟩
        · rintro (rfl | ⟨s, step', reach⟩)
          · exact absurd ⟨rfl, field⟩ other
          · rwa [step.unique step']
  | case3 p outside =>
      refine iff_of_false (by simp) ?_
      rintro ⟨rest, reach, field⟩
      obtain ⟨quoted, _⟩ := r
      cases h.rest_eq_nil (Nat.le_of_not_lt outside)
      obtain same | ⟨_, step, _⟩ := ReflTransGen.cases_head reach
      · cases same
        cases field.head?
      · cases step

/-- The places where the scan of a template comes to stand. -/
inductive Visited (bytes : ByteArray) : Place → Prop
  | start : Visited bytes {}
  | turn {p p' : Place} (visited : Visited bytes p) (inside : p.index < bytes.size)
      (onward : Template.turn bytes p inside = some p') : Visited bytes p'

namespace Visited

variable {template : String} {p : Place}

theorem exists_abreast (h : Visited template.toUTF8 p) :
    ∃ r, Reaches template r ∧ Abreast template.toUTF8 p r := by
  induction h with
  | start => exact ⟨_, .refl, .start template⟩
  | turn _ inside onward ih =>
      obtain ⟨r, reach, abreast⟩ := ih
      obtain ⟨_, same, h'⟩ | ⟨_, ended⟩ | ⟨_, _, r', same, step, h'⟩ := abreast.turn inside
      · cases onward.symm.trans same
        exact ⟨r, reach, h'⟩
      · cases onward.symm.trans ended
      · cases onward.symm.trans same
        exact ⟨r', reach.tail step, h'⟩

/-- Only a backslash at the end, inside of quotes, takes the scan past the end. -/
theorem index_le (h : Visited template.toUTF8 p) :
    p.index ≤ template.toUTF8.size ∨ p.index = template.toUTF8.size + 1 ∧ p.quoted = true ∧
      template.toList.getLast? = some '\\' := by
  cases h with
  | start => exact .inl (Nat.zero_le _)
  | @turn p _ visited inside onward =>
      obtain one | ⟨rfl, backslash, within⟩ := step_of_turn onward
      · omega
      · by_cases last : p.index + 1 < template.toUTF8.size
        · exact .inl (Nat.succ_le_of_lt last)
        · refine .inr ⟨by simp only; omega, within.resolve_right last, ?_⟩
          have byte := drop_eq_singleton inside last
          rw [backslash] at byte
          obtain ⟨r, reach, abreast⟩ := visited.exists_abreast
          obtain ⟨front, whole⟩ := reach.suffix
          rw [← whole, abreast.rest_of_last byte, List.getLast?_concat]

end Visited

/-- A template gives a zone exactly if the automaton on its characters comes to a field outside of
quotes. Wherever the scan stands, the automaton has come as far with the same quoting, but for bytes
that continue a character; of these the scan passes one at a time. The scan goes past the end only
behind a last backslash inside of quotes, and takes no turn there. -/
theorem isZoned_iff_reaches (template : String) :
    (isZoned template = true ↔ ∃ rest, Reaches template ⟨false, rest⟩ ∧ BeginsField rest) ∧
      ∀ p, Visited template.toUTF8 p →
        (p.index ≤ template.toUTF8.size ∨ p.index = template.toUTF8.size + 1 ∧ p.quoted = true ∧
          template.toList.getLast? = some '\\') ∧
        ∃ left rest, Reaches template ⟨p.quoted, rest⟩ ∧
          template.toUTF8.data.toList.drop p.index = left ++ utf8 rest ∧
          (∀ b ∈ left, Continues b) ∧ (left ≠ [] → ∀ inside : p.index < template.toUTF8.size,
            turn template.toUTF8 p inside = some { p with index := p.index + 1 }) := by
  refine ⟨scan_iff (.start template), fun p visited => ⟨visited.index_le, ?_⟩⟩
  obtain ⟨⟨_, rest⟩, reach, rfl, left, continues, ahead⟩ := visited.exists_abreast
  refine ⟨left, rest, reach, ahead, continues, fun present inside => ?_⟩
  obtain ⟨b, left, rfl⟩ := List.exists_cons_of_ne_nil present
  exact turn_of_continues ahead (continues b (by simp)) inside

/-- In a template of a quote, a backslash, `é` and a backslash the scan comes to stand on the second
byte of `é`, and behind the last backslash one byte past the end. -/
theorem isZoned_iff_reaches_backslashes :
    let template := "\"\\é\\"
    isZoned template = false ∧ (¬ ∃ rest, Reaches template ⟨false, rest⟩ ∧ BeginsField rest) ∧
      (Visited template.toUTF8 ⟨true, 3⟩ ∧ ∃ left rest, Reaches template ⟨true, rest⟩ ∧
        template.toUTF8.data.toList.drop 3 = left ++ utf8 rest ∧ ∀ b ∈ left, Continues b) ∧
      Visited template.toUTF8 ⟨true, 6⟩ ∧ 6 = template.toUTF8.size + 1 ∧
        template.toList.getLast? = some '\\' := by
  intro template
  obtain ⟨answer, places⟩ := isZoned_iff_reaches template
  have zoned : ¬ isZoned template = true := by decide +kernel
  have first : Visited template.toUTF8 ⟨true, 1⟩ :=
    .turn .start (by decide +kernel) (by decide +kernel)
  have inner : Visited template.toUTF8 ⟨true, 3⟩ :=
    .turn first (by decide +kernel) (by decide +kernel)
  have last : Visited template.toUTF8 ⟨true, 4⟩ :=
    .turn inner (by decide +kernel) (by decide +kernel)
  have past : Visited template.toUTF8 ⟨true, 6⟩ :=
    .turn last (by decide +kernel) (by decide +kernel)
  obtain ⟨_, left, rest, reach, ahead, continues, _⟩ := places _ inner
  obtain ⟨size, _, backslash⟩ := (places _ past).1.resolve_left (by decide +kernel)
  exact ⟨Bool.eq_false_of_not_eq_true zoned, mt answer.2 zoned,
    ⟨inner, left, rest, reach, ahead, continues⟩, past, size, backslash⟩

end FlatPath.Template
