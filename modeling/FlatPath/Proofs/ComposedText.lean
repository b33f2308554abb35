import Mathlib
import FlatPath.Proofs.CanonicalText
import FlatPath.Proofs.Rules
import FlatPath.Proofs.Tokens

/-!
What canonical texts are put together from: characters that are neither quotes nor brackets, the
spellings of numbers, string literals, and pairs of brackets around texts of the same sort. A reader
of texts that copes with each of these copes with the text of every expression.
-/

namespace FlatPath

/-- The brackets that texts are put into. -/
def bracketPairs : List (Char × Char) :=
  [('(', ')'), ('[', ']'), ('\x7b', '\x7d')]

/-- Quotes and brackets. -/
def marks : List Char :=
  ['"', '(', ')', '[', ']', '\x7b', '\x7d']

/-- Texts put together from numbers of some spelling. -/
inductive Composed (Number : List Char → Prop) : List Char → Prop
  | plain {t : List Char} : (∀ c ∈ t, c ∉ marks) → Composed Number t
  | number {t : List Char} : Number t → Composed Number t
  | literal (t : List Char) : Composed Number (Quoted.encode t)
  | append {t u : List Char} : Composed Number t → Composed Number u → Composed Number (t ++ u)
  | brackets {opening closing : Char} {t : List Char} : (opening, closing) ∈ bracketPairs →
      Composed Number t → Composed Number (opening :: (t ++ [closing]))

/-- The numbers in an item are spelled like this. -/
def Item.Numbers {ρ ο : Type} (Number : List Char → Prop) : Item String ρ ο → Prop
  | .numeric s => Number s.toList
  | _ => True

/-! Between the quotes of a literal. -/

theorem Quoted.hexDigit_ordinary :
    ∀ n : Fin 16, hexDigit n ≠ '\\' ∧ hexDigit n ≠ '"' := by
  decide

/-- An escape is a backslash and a character, and neither a quote nor a backslash stands on its
own. -/
theorem Quoted.escape_eq (c : Char) :
    ∃ t, (∀ d ∈ t, d ≠ '\\' ∧ d ≠ '"') ∧ (escape c = t ∨ ∃ d, escape c = '\\' :: d :: t) := by
  obtain ⟨d, _, escaped⟩ | ⟨control, escaped⟩ | ⟨⟨quote, backslash, _⟩, escaped⟩ := escape_cases c
  · exact ⟨[], by simp, .inr ⟨d, escaped⟩⟩
  · have high := hexDigit_ordinary ⟨c.toNat / 16, by omega⟩
    have low := hexDigit_ordinary ⟨c.toNat % 16, by omega⟩
    exact ⟨['0', '0', hexDigit (c.toNat / 16), hexDigit (c.toNat % 16)],
      by simpa using ⟨high, low⟩, .inr ⟨'u', escaped⟩⟩
  · exact ⟨[c], List.forall_mem_singleton.2 ⟨backslash, quote⟩, .inl escaped⟩

/-- Whoever passes over ordinary characters and over escapes passes over the inside of a literal. -/
theorem Quoted.read_escaped {α : Type} (read : List Char → α)
    (ordinary : ∀ c s, c ≠ '\\' → c ≠ '"' → read (c :: s) = read s)
    (escaped : ∀ c s, read ('\\' :: c :: s) = read s) (t s : List Char) :
    read (t.flatMap escape ++ s) = read s := by
  have run {u : List Char} (plain : ∀ c ∈ u, c ≠ '\\' ∧ c ≠ '"') (s : List Char) :
      read (u ++ s) = read s := by
    induction u with
    | nil => rfl
    | cons c u ih =>
        obtain ⟨backslash, quote⟩ := plain c (by simp)
        rw [List.cons_append, ordinary c _ backslash quote]
        exact ih fun c mem => plain c (by simp [mem])
  induction t with
  | nil => rfl
  | cons c t ih =>
      obtain ⟨u, plain, same | ⟨d, same⟩⟩ := escape_eq c
      · rw [List.flatMap_cons, List.append_assoc, same, run plain, ih]
      · rw [List.flatMap_cons, List.append_assoc, same, List.cons_append, List.cons_append,
          escaped, run plain, ih]

namespace Composed

variable {Number : List Char → Prop} {t u : List Char}

theorem nil : Composed Number [] := .plain (by simp)

theorem cons {c : Char} (plain : c ∉ marks) (h : Composed Number t) : Composed Number (c :: t) :=
  (Composed.plain (t := [c]) (by simpa using plain)).append h

theorem round (h : Composed Number t) : Composed Number ('(' :: (t ++ [')'])) :=
  h.brackets (by simp [bracketPairs])

theorem square (h : Composed Number t) : Composed Number ('[' :: (t ++ [']'])) :=
  h.brackets (by simp [bracketPairs])

theorem curly (h : Composed Number t) : Composed Number ('\x7b' :: (t ++ ['\x7d'])) :=
  h.brackets (by simp [bracketPairs])

theorem enclosed (h : Composed Number t) (wanted : Bool) : Composed Number (enclosed wanted t) := by
  cases wanted with
  | false => exact h
  | true => exact h.round

theorem flatMap {α : Type} {f : α → List Char} {as : List α}
    (h : ∀ a ∈ as, Composed Number (f a)) : Composed Number (as.flatMap f) := by
  induction as with
  | nil => exact nil
  | cons a as ih =>
      exact (h a (by simp)).append (ih fun a mem => h a (by simp [mem]))

theorem separated {separator : List Char} {ts : List (List Char)}
    (plain : ∀ c ∈ separator, c ∉ marks) (h : ∀ t ∈ ts, Composed Number t) :
    Composed Number (separated separator ts) := by
  cases ts with
  | nil => exact nil
  | cons t ts =>
      exact (h t (by simp)).append
        (flatMap fun t mem => (Composed.plain plain).append (h t (by simp [mem])))

theorem symbol (op : BinaryOp) : Composed Number op.symbol.toList := by
  refine .plain ?_
  cases op <;> simp [BinaryOp.symbol, marks]

theorem method (m : Method) : Composed Number m.symbol.toList := by
  refine .plain ?_
  cases m <;> simp [Method.symbol, marks]

theorem digits (n : Nat) : Composed Number (Nat.toDigits 10 n) := by
  refine .plain fun c mem mark => ?_
  have digit := Nat.isDigit_of_mem_toDigits (by decide) (by decide) mem
  simp only [marks, List.mem_cons, List.not_mem_nil, or_false] at mark
  obtain rfl | rfl | rfl | rfl | rfl | rfl | rfl := mark <;> cases digit

theorem bound (n : UInt32) : Composed Number (Reading.boundText n) := by
  rw [Reading.boundText]
  split
  · exact .plain (by simp [marks])
  · exact digits _

theorem levels (l : Levels) : Composed Number l.text.toList := by
  have range : Composed Number (Reading.boundText l.first ++ if l.first = l.last then [] else
      [' ', 't', 'o', ' '] ++ Reading.boundText l.last) := by
    refine (bound _).append ?_
    split
    · exact nil
    · exact (Composed.plain (by simp [marks])).append (bound _)
  have braces := range.curly
  have stars : Composed Number ['*', '*'] := .plain (by simp [marks])
  rw [Reading.levels_text_toList]
  by_cases unbounded : l = .unbounded
  · rw [if_pos unbounded]
    exact stars
  · rw [if_neg unbounded]
    refine stars.append ?_
    by_cases single : l.first = l.last
    · simpa [single] using braces
    · simpa [single] using braces

/-- The letters of flags need no escapes, so their text is a literal. -/
theorem suffix (f : RegexFlags) : Composed Number f.suffix.toList := by
  rw [RegexFlags.suffix]
  split
  · exact nil
  · have unescaped : ∀ p ∈ RegexFlags.table, Quoted.escape p.2 = [p.2] := by decide
    have letters : Quoted.encode f.letters.toList = '"' :: (f.letters.toList ++ ['"']) := by
      rw [Quoted.encode, List.flatMap_congr (g := fun c => [c]), List.flatMap_singleton']
      intro c mem
      obtain ⟨p, listed, rfl⟩ := Reading.exists_of_mem_letters mem
      exact unescaped p listed
    have announced : Composed Number [' ', 'f', 'l', 'a', 'g', ' '] := .plain (by simp [marks])
    have text := announced.append (literal f.letters.toList)
    rw [letters] at text
    simpa using text

end Composed

namespace Expr

/-- Where this expression stands, in key context or not and in brackets or not, its text is
composed. -/
def ComposedText (Number : List Char → Prop) (e : Expr) : Prop :=
  ∀ inKey brackets, Composed Number (e.text inKey brackets)

section Items

variable {Number : List Char → Prop} {e : Expr} {o : Option Expr}

theorem ComposedText.operand (h : e.ComposedText Number) (asks : Kind → Bool) :
    Composed Number (e.piece.operand asks) :=
  h false _

theorem ComposedText.element (h : e.ComposedText Number) : Composed Number e.piece.element :=
  h.operand _

theorem composed_optional (h : ∀ e ∈ o, ComposedText Number e) :
    Composed Number (Piece.optional (o.map piece)) := by
  cases o with
  | none => exact .nil
  | some e => exact (h e rfl).operand fun _ => false

theorem composed_subscript {s : Expr × Option Expr} (start : s.1.ComposedText Number)
    (stop : ∀ e ∈ s.2, ComposedText Number e) :
    Composed Number (Piece.subscript (s.1.piece, s.2.map piece)) := by
  obtain ⟨a, b⟩ := s
  cases b with
  | none => exact start.element
  | some b =>
      have range : Composed Number [' ', 't', 'o', ' '] := .plain (by simp [marks])
      exact start.element.append (range.append (stop b rfl).element)

theorem composed_field {f : Expr × Expr} (key : f.1.ComposedText Number)
    (value : f.2.ComposedText Number) :
    Composed Number (Piece.field (f.1.piece, f.2.piece)) := by
  have colon : Composed Number [':', ' '] := .plain (by simp [marks])
  exact (key.operand fun _ => false).append (colon.append value.element)

theorem composed_unary {a : Expr} (h : a.ComposedText Number) (brackets : Bool) (op : UnaryOp) :
    Composed Number (op.text brackets a.piece) := by
  cases op with
  | plus | minus => exact ((h.operand _).cons (by simp [marks])).enclosed brackets
  | filter | not => exact (h.operand _).round.cons (by simp [marks])
  | isUnknown =>
      have unknown : Composed Number [' ', 'i', 's', ' ', 'u', 'n', 'k', 'n', 'o', 'w', 'n'] :=
        .plain (by simp [marks])
      simpa [UnaryOp.text] using (h.operand _).round.append unknown
  | «exists» =>
      have word : Composed Number ['e', 'x', 'i', 's', 't', 's', ' '] := .plain (by simp [marks])
      exact word.append (h.operand _).round

theorem composed_item {x : Item String Expr (Option Expr)} (here : x.Numbers Number)
    (operands : ∀ e ∈ x.operands, ComposedText Number e) (inKey brackets hasNext : Bool) :
    Composed Number ((x.map id piece (Option.map piece)).text inKey brackets hasNext) := by
  have key {t : List Char} (h : Composed Number t) : Composed Number (afterDot inKey t) := by
    cases inKey with
    | false => exact h
    | true => exact h.cons (by simp [marks])
  have blank {t : List Char} (h : Composed Number t) : Composed Number (' ' :: t) :=
    h.cons (by simp [marks])
  have comma : ∀ c ∈ [',', ' '], c ∉ marks := by simp [marks]
  cases x with
  | null | root | current | last => exact .plain (by simp [marks, Item.map, Item.text])
  | bool b => cases b <;> exact .plain (by simp [marks, Item.map, Item.text])
  | anyArray =>
      have star : Composed Number ['*'] := .plain (by simp [marks])
      exact star.square
  | anyKey => exact key (.plain (by simp [marks]))
  | key s => exact key (.literal _)
  | string s => exact .literal _
  | var s => exact (Composed.literal _).cons (by simp [marks])
  | numeric s => exact (Composed.number here).enclosed hasNext
  | any l => exact key (.levels l)
  | method m =>
      have call : Composed Number ['(', ')'] := Composed.nil.round
      exact ((Composed.method m).append call).cons (by simp [marks])
  | binary op l r =>
      have left := operands l (by simp)
      have right := operands r (by simp)
      have symbol : Composed Number op.symbol.toList := .symbol op
      exact ((left.operand _).append (blank (symbol.append (blank (right.operand _))))).enclosed _
  | unary op a => exact composed_unary (operands a (by simp)) brackets op
  | likeRegex e p f =>
      have word : Composed Number [' ', 'l', 'i', 'k', 'e', '_', 'r', 'e', 'g', 'e', 'x', ' '] :=
        .plain (by simp [marks])
      have pattern : Composed Number _ := (Composed.literal p.toList).append (.suffix f)
      exact (((operands e (by simp)).operand _).append (word.append pattern)).enclosed _
  | datetime o =>
      have name : Composed Number ['.', 'd', 'a', 't', 'e', 't', 'i', 'm', 'e'] :=
        .plain (by simp [marks])
      have template := composed_optional fun e mem => operands e (by simpa using mem)
      exact name.append template.round
  | array o => exact (composed_optional fun e mem => operands e (by simpa using mem)).square
  | sequence es =>
      have elements : ∀ t ∈ (es.map piece).map Piece.element, Composed Number t := by
        rw [List.map_map]
        exact List.forall_mem_map.2 fun e mem => (operands e (by simpa using mem)).element
      exact (Composed.separated comma elements).enclosed _
  | indexArray ss =>
      have parts := Item.forall_operands_indexArray operands
      have subscripts : ∀ t ∈ (ss.map fun s => (s.1.piece, s.2.map piece)).map
          Piece.subscript, Composed Number t := by
        rw [List.map_map]
        exact List.forall_mem_map.2 fun s mem => composed_subscript (parts s mem).1 (parts s mem).2
      exact (Composed.separated (by simp [marks]) subscripts).square
  | object fs =>
      have parts := Item.forall_operands_object operands
      have fields : ∀ t ∈ (fs.map fun f => (f.1.piece, f.2.piece)).map Piece.field,
          Composed Number t := by
        rw [List.map_map]
        exact List.forall_mem_map.2 fun f mem => composed_field (parts f mem).1 (parts f mem).2
      exact (Composed.separated comma fields).curly

variable {scope : Scope} {x : Item String Expr (Option Expr)} {next : Option Expr}

/-- The text of an expression is composed of the numbers in it. -/
theorem composed_text (numbers : e.Everywhere (fun _ x => x.Numbers Number) scope) :
    e.ComposedText Number := by
  induction numbers with
  | @mk scope x next here _ _ operands rest =>
      intro inKey brackets
      have item := composed_item here (fun e mem => by
        obtain ⟨s, slot, content⟩ := Item.mem_operands_iff_slot.1 mem
        exact operands s slot e content) inKey brackets next.isSome
      rw [text_mk]
      cases next with
      | none => exact item.append .nil
      | some e => exact item.append (rest e rfl true true)

/-- The same of its first item alone. -/
theorem composed_head (numbers : (mk x next).Everywhere (fun _ x => x.Numbers Number) scope)
    (inKey brackets hasNext : Bool) :
    Composed Number ((x.map id piece (Option.map piece)).text inKey brackets hasNext) := by
  obtain ⟨here, operands, _⟩ := numbers
  refine composed_item here (fun e mem => ?_) inKey brackets hasNext
  obtain ⟨s, slot, content⟩ := Item.mem_operands_iff_slot.1 mem
  exact composed_text (operands s slot e content)

end Items

end Expr

end FlatPath
