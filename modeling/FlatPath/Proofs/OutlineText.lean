import FlatPath.Proofs.Readers
import FlatPath.Proofs.Tokens

/-!
The lines of an outline without colors. Behind its head it has one line for each item, which is the
text of an entry: the position of the item, its name and content, and the positions its links lead
to. No content breaks a line, unless the text of a number does.
-/

namespace FlatPath

/-- The text has no line break. -/
def OneLine (s : String) : Prop :=
  '\n' ∉ s.toList

namespace OneLine

theorem empty : OneLine "" := by
  simp [OneLine]

theorem append {s t : String} (h : OneLine s) (h' : OneLine t) : OneLine (s ++ t) := by
  rw [OneLine, String.toList_append, List.mem_append, not_or]
  exact ⟨h, h'⟩

theorem join {ss : List String} (h : ∀ s ∈ ss, OneLine s) : OneLine (String.join ss) := by
  rw [OneLine, String.toList_join, List.mem_flatMap]
  rintro ⟨s, mem, broken⟩
  exact h s mem broken

theorem digits (n : Nat) : OneLine (toString n) := by
  intro mem
  rw [Nat.toString_eq_repr, Nat.toList_repr] at mem
  have digit := Nat.isDigit_of_mem_toDigits (b := 10) (n := n) (by decide) (by decide) mem
  cases digit

theorem quoted (s : String) : OneLine (quoted s) := by
  intro mem
  rw [FlatPath.quoted, String.toList_ofList] at mem
  exact Quoted.encode_visible mem (by decide)

theorem suffix (f : RegexFlags) : OneLine f.suffix := by
  have letters : OneLine f.letters := by
    have all : ∀ p ∈ RegexFlags.table, p.2 ≠ '\n' := by decide
    intro mem
    obtain ⟨p, listed, broken⟩ := Reading.exists_of_mem_letters mem
    exact all p listed broken
  rw [RegexFlags.suffix]
  split
  · exact empty
  · exact .append (.append (by simp [OneLine]) letters) (by simp [OneLine])

theorem kind (k : Kind) : OneLine k.name := by
  have all : ∀ k ∈ Kind.all, '\n' ∉ k.name.toList := by decide
  exact all k (List.mem_of_getElem? k.ofTag?_tag)

theorem role (r : Role) : OneLine r.name := by
  cases r with
  | left | right | argument | operand => simp [OneLine, Role.name]
  | start i | stop i | element i | key i | value i => exact .append (by simp [OneLine]) (digits i)

theorem padded (width n : Nat) : OneLine (Outline.padded width n) := by
  refine .append ?_ (digits n)
  simp [OneLine]

theorem levelText (v : UInt32) : OneLine (Outline.levelText v) := by
  rw [Outline.levelText]
  split
  · simp [OneLine]
  · exact digits _

/-- No content breaks a line, unless it is the text of a number. -/
theorem content {r : Record} {s : String} (h : Outline.content r = .ok s)
    (numeric : ∀ digits, r = .numeric digits → OneLine s) : OneLine s := by
  cases r with
  | null | root | current | last | anyArray | anyKey | method | binary | unary | datetime | array =>
      cases h
      exact empty
  | string t | key t | var t =>
      obtain ⟨_, _, h⟩ := bind_eq_ok.1 h
      cases h
      exact quoted _
  | numeric t => exact numeric t rfl
  | bool b =>
      cases h
      cases b <;> simp [OneLine]
  | likeRegex e p f =>
      obtain ⟨_, _, h⟩ := bind_eq_ok.1 h
      cases h
      exact .append (quoted _) (suffix f)
  | any l =>
      cases h
      refine .append (.append (.append (by simp [OneLine]) (levelText _)) ?_) (by simp [OneLine])
      split
      · exact empty
      · exact .append (by simp [OneLine]) (levelText _)
  | indexArray ss | sequence es | object fs =>
      cases h
      exact .append (.append (by simp [OneLine]) (digits _)) (by simp [OneLine])

end OneLine

namespace Palette

@[simp] theorem paintName_plain (s : String) : plain.paintName s = s := by
  simp [paintName, plain]

@[simp] theorem paintContent_plain (s : String) : plain.paintContent s = s := by
  simp [paintContent, plain]

@[simp] theorem paintPosition_plain (s : String) : plain.paintPosition s = s := by
  simp [paintPosition, plain]

end Palette

/-- What an outline writes in front of the position that a link leads to. -/
def Place.sign : Place → String
  | .operand role => role.name ++ "@"
  | .next => "-> "

namespace Outline

/-- Positions are told apart by their texts. -/
theorem padded_injective (width : Nat) : Function.Injective (padded width) := by
  have value (n : Nat) : Nat.ofDigitChars 10 (padded width n).toList 0 = n := by
    rw [padded, String.toList_append, String.toList_ofList, Nat.toString_eq_repr, Nat.toList_repr]
    induction width - n.repr.length with
    | zero => exact Nat.ofDigitChars_toDigits (by decide) (by decide)
    | succ k ih =>
        rw [List.replicate_succ]
        exact ih
  intro m n same
  rw [← value m, same, value n]

/-- What a line tells of an item: where it stands, what it is and what it holds, and the position
that each of its links leads to. -/
structure Entry where
  position : Nat
  name : String
  content : String
  references : List (Place × Nat)

def referenceText (width : Nat) (r : Place × Nat) : String :=
  " " ++ r.1.sign ++ padded width r.2

def Entry.text (width : Nat) (e : Entry) : String :=
  padded width e.position ++ "  " ++ e.name ++
    (if e.content.isEmpty then "" else " " ++ e.content) ++
    String.join (e.references.map (referenceText width))

/-- The entry of an item. Its references are the links that are there. -/
def entry (c : Cursor) : Except Fault Entry := do
  return {
    position := c.position
    name := c.kind.name
    content := ← content c.record
    references := c.links.map fun l => (l.1, c.position + l.2.toNat) }

/-- Slot by slot and with the arrow behind them an item shows the links that are there. -/
theorem join_references (width : Nat) (c : Cursor) :
    String.join ((c.links.map fun l => (l.1, c.position + l.2.toNat)).map (referenceText width)) =
      String.join (c.slots.map (slotText .plain width c.position)) ++
        if c.hasNext then
          " -> " ++ Palette.plain.paintPosition (padded width (c.position + c.nextOffset.toNat))
        else "" := by
  have slot (s : Slot UInt32) : (slotText .plain width c.position s).toList =
      if s.content = 0 then []
      else (referenceText width (.operand s.role, c.position + s.content.toNat)).toList := by
    rw [slotText]
    split <;> simp [referenceText, Place.sign]
  apply String.toList_inj.1
  rw [String.toList_append, String.toList_join, String.toList_join, List.flatMap_map,
    List.flatMap_map, List.flatMap_map, c.flatMap_links_places]
  simp only [slot]
  refine congrArg₂ (· ++ ·) rfl ?_
  by_cases absent : c.nextOffset = 0
  · simp [Cursor.hasNext, absent]
  · simp [Cursor.hasNext, absent, referenceText, Place.sign]

/-- A line without colors is the text of an entry. -/
theorem line_eq (width : Nat) (c : Cursor) :
    line .plain width c = (entry c).map fun e => e.text width ++ "\n" := by
  rw [line, entry]
  cases content c.record with
  | error e => rfl
  | ok s =>
      simp only [ok_bind, except_pure, Except.map, Entry.text, join_references]
      simp [String.append_assoc]

example : (Entry.mk 8 "index_array" "[1]" [(.operand (.start 0), 28), (.next, 44)]).text 4 =
    "0008  index_array [1] from0@0028 -> 0044" := by
  decide +kernel

theorem entry_eq_ok {c : Cursor} {e : Entry} :
    entry c = .ok e ↔ content c.record = .ok e.content ∧ e.position = c.position ∧
      e.name = c.kind.name ∧ e.references = c.links.map fun l => (l.1, c.position + l.2.toNat) := by
  rw [entry]
  cases content c.record with
  | error _ => simp
  | ok s =>
      obtain ⟨position, name, text, references⟩ := e
      simp only [ok_bind, except_pure, Except.ok.injEq, Entry.mk.injEq]
      tauto

theorem exists_entry {c : Cursor} (h : c.Whole) : ∃ e, entry c = .ok e := by
  obtain ⟨s, shown⟩ := line_ok h .plain 0
  rw [line_eq] at shown
  cases made : entry c with
  | error e =>
      rw [made] at shown
      cases shown
  | ok e => exact ⟨e, rfl⟩

/-- The text of an entry does not break the line unless that of a number does. -/
theorem oneLine_entry {c : Cursor} {e : Entry} (h : entry c = .ok e) (width : Nat)
    (numeric : ∀ s, c.numericText = .ok s → OneLine s) : OneLine (e.text width) := by
  obtain ⟨shown, _, name, _⟩ := entry_eq_ok.1 h
  have content : OneLine e.content := .content shown fun digits record => by
    rw [record] at shown
    refine numeric e.content ?_
    rw [Cursor.numericText, record]
    exact shown
  have sign (place : Place) : OneLine place.sign := by
    cases place with
    | operand role => exact .append (.role role) (by simp [OneLine])
    | next => simp [OneLine, Place.sign]
  have blank : OneLine " " := by simp [OneLine]
  refine .append (.append (.append (.append (.padded _ _) (.append blank blank)) ?_) ?_)
    (.join fun s mem => ?_)
  · rw [name]
    exact .kind _
  · split
    · exact .empty
    · exact .append blank content
  · obtain ⟨r, _, rfl⟩ := List.mem_map.1 mem
    exact .append (.append blank (sign _)) (.padded _ _)

/-- The lines of a text. -/
def lines (text : String) : List String :=
  (text.split '\n').toList.map String.Slice.copy

/-- Lines are told apart in what they make up, where an empty one ends it. -/
theorem lines_join {ls : List String} (h : ∀ s ∈ ls, OneLine s) :
    lines (String.join (ls.map (· ++ "\n"))) = ls ++ [""] := by
  rw [lines, String.toList_split_char, String.toList_join]
  induction ls with
  | nil => rfl
  | cons s ls ih =>
      have first : ∀ c ∈ s.toList, (c == '\n') = false := by
        intro c mem
        rw [beq_eq_false_iff_ne]
        rintro rfl
        exact h s (by simp) mem
      have rest := ih fun s mem => h s (by simp [mem])
      have split : ((s :: ls).map (· ++ "\n")).flatMap String.toList =
          s.toList ++ '\n' :: (ls.map (· ++ "\n")).flatMap String.toList := by
        simp
      rw [split, List.splitOn, List.splitOnP_append_cons_of_forall_mem first _ (by decide),
        List.map_cons, String.ofList_toList]
      exact congrArg (s :: ·) rest

end Outline

/-- The lines of an outline in front of those of its items. -/
def Buffer.outlineHead (b : Buffer) : List String :=
  ["[header]", "version = " ++ toString b.header.version.toNat,
    "mode = " ++ (if b.header.isLax then "lax" else "strict"),
    "extensions = " ++ (if b.header.hasExtensions then "true" else "false"), "", "[items]"]

theorem Buffer.oneLine_outlineHead (b : Buffer) : ∀ s ∈ b.outlineHead, OneLine s := by
  simp only [outlineHead, List.forall_mem_cons]
  refine ⟨by simp [OneLine], .append (by simp [OneLine]) (.digits _), ?_, ?_, .empty,
    by simp [OneLine], by simp⟩
  · split <;> simp [OneLine]
  · split <;> simp [OneLine]

/-- The width of a position in the outline of a buffer. -/
def Buffer.outlineWidth (b : Buffer) : Nat :=
  max 4 (toString b.payload.size).length

/-- The outline without colors is the lines of its head and the texts of the entries. -/
theorem Buffer.outline_plain {b : Buffer} {cs : List Cursor} {entries : List Outline.Entry}
    (listed : b.items = .ok cs) (read : cs.mapM Outline.entry = .ok entries) :
    b.outline .plain = .ok (String.join
      ((b.outlineHead ++ entries.map (Outline.Entry.text b.outlineWidth)).map (· ++ "\n"))) := by
  have head : String.join (b.outlineHead.map (· ++ "\n")) =
      "[header]" ++ "\n"
        ++ "version = " ++ toString b.header.version.toNat ++ "\n"
        ++ "mode = " ++ (if b.header.isLax then "lax" else "strict") ++ "\n"
        ++ "extensions = " ++ (if b.header.hasExtensions then "true" else "false") ++ "\n\n"
        ++ "[items]" ++ "\n" := by
    apply String.toList_inj.1
    simp [outlineHead]
  have shown := mapM_map_eq_ok (fun e => Outline.Entry.text b.outlineWidth e ++ "\n") read
  simp only [← Outline.line_eq] at shown
  rw [List.map_append, String.join_append, head, List.map_map, outline, listed, ok_bind]
  exact bind_eq_ok.2 ⟨_, shown, rfl⟩

end FlatPath
