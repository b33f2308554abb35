import Mathlib
import FlatPath.Proofs.Brackets
import FlatPath.Proofs.Reencoding

/-!
Literals and brackets in printed texts. In the text of a buffer that was opened every string literal
is closed, and outside of literals the brackets of all three kinds are nested and have their
partners. The same holds of the text of each item that can be reached.
-/

namespace FlatPath

namespace Brackets

/-- Every literal that is open or opened is closed by a quote that is not escaped, and every bracket
outside of literals by its partner, the last one first; behind them come the closing brackets that
are due before. -/
def closes : Mode → List Char → List Char → Bool
  | .text, due, [] => due.isEmpty
  | .string, _, [] | .escaped, _, [] => false
  | .escaped, due, _ :: s => closes .string due s
  | .string, due, c :: s =>
    if c = '\\' then closes .escaped due s
    else if c = '"' then closes .text due s
    else closes .string due s
  | .text, due, c :: s =>
    if c = '"' then closes .string due s
    else
      match bracketPairs.lookup c with
      | some closing => closes .text (closing :: due) s
      | none =>
        if c ∈ bracketPairs.map Prod.snd then due.head? = some c && closes .text due.tail s
        else closes .text due s

/-- Whatever stands behind the text is read as if the text were not there. -/
def Neutral (t : List Char) : Prop :=
  ∀ due s, closes .text due (t ++ s) = closes .text due s

namespace Neutral

variable {t u : List Char}

theorem append (h : Neutral t) (h' : Neutral u) : Neutral (t ++ u) := by
  intro due s
  rw [List.append_assoc, h, h']

theorem plain (free : ∀ c ∈ t, c ∉ marks) : Neutral t := by
  have brackets : ∀ p ∈ bracketPairs, p.1 ∈ marks ∧ p.2 ∈ marks := by simp [bracketPairs, marks]
  induction t with
  | nil => exact fun _ _ => rfl
  | cons c t ih =>
      intro due s
      have other := free c (by simp)
      have quote : c ≠ '"' := fun same => other (by simp [same, marks])
      have opening : bracketPairs.lookup c = none := by
        refine List.lookup_eq_none_iff.2 fun p pair => bne_iff_ne.2 ?_
        rintro rfl
        exact other (brackets p pair).1
      have closing : c ∉ bracketPairs.map Prod.snd := by
        intro mem
        obtain ⟨p, pair, rfl⟩ := List.mem_map.1 mem
        exact other (brackets p pair).2
      rw [List.cons_append, closes, if_neg quote, opening]
      simp only
      rw [if_neg closing]
      exact ih (fun c mem => free c (by simp [mem])) due s

theorem literal (t : List Char) : Neutral (Quoted.encode t) := by
  intro due s
  have inside := Quoted.read_escaped (closes .string due)
    (fun c s backslash quote => by rw [closes, if_neg backslash, if_neg quote])
    (fun c s => rfl) t ('"' :: s)
  rw [Quoted.encode, List.cons_append, List.append_assoc]
  exact inside

theorem brackets {opening closing : Char} (pair : (opening, closing) ∈ bracketPairs)
    (h : Neutral t) : Neutral (opening :: (t ++ [closing])) := by
  intro due s
  rw [List.cons_append, List.append_assoc]
  simp only [bracketPairs, List.mem_cons, Prod.mk.injEq, List.not_mem_nil, or_false] at pair
  obtain ⟨rfl, rfl⟩ | ⟨rfl, rfl⟩ | ⟨rfl, rfl⟩ := pair
  · exact h (')' :: due) (')' :: s)
  · exact h (']' :: due) (']' :: s)
  · exact h ('\x7d' :: due) ('\x7d' :: s)

theorem closes (h : Neutral t) : closes .text [] t := by
  have read := h [] []
  rw [List.append_nil] at read
  rw [read]
  rfl

end Neutral

end Brackets

/-- Numbers are spelled without quotes and brackets. -/
theorem Composed.neutral {Number : List Char → Prop} {t : List Char} (h : Composed Number t)
    (free : ∀ t, Number t → ∀ c ∈ t, c ∉ marks) : Brackets.Neutral t := by
  induction h with
  | plain free => exact .plain free
  | number h => exact .plain (free _ h)
  | literal t => exact .literal t
  | append _ _ ih ih' => exact ih.append ih'
  | brackets pair _ ih => exact ih.brackets pair

/-- Digits, signs, points and the letters of an exponent. -/
def NumberChars (t : List Char) : Prop :=
  ∀ c ∈ t, c.isDigit ∨ c ∈ ['+', '-', '.', 'e', 'E']

theorem NumberChars.free {t : List Char} (h : NumberChars t) : ∀ c ∈ t, c ∉ marks := by
  have other : ∀ c ∈ marks, ¬ (c.isDigit ∨ c ∈ ['+', '-', '.', 'e', 'E']) := by simp [marks]
  exact fun c mem mark => other c mark (h c mem)

namespace Cursor

variable {payload : ByteArray} {i : Nat} {c : Cursor} {e : Expr}

theorem StandsFor.numericText {s : String} {next : Option Expr}
    (h : c.StandsFor (.numeric s) next) : c.numericText = .ok s := by
  have item := h.item
  have kind : Kind.numeric = c.record.kind := h.kind
  cases record : c.record with
  | numeric t =>
      rw [record, Item.mapM, Option.map_eq_some_iff] at item
      obtain ⟨s', legible, same⟩ := item
      cases same
      rw [Cursor.numericText, record]
      simp only [decodeText, legible]
  | _ =>
      rw [record] at kind
      cases kind

/-- What holds of every item that can be reached holds everywhere in the expression read back. -/
theorem everywhere_of_reached {P : Item String Expr (Option Expr) → Prop}
    (holds : ∀ j c x next, Relation.ReflTransGen (Linked payload) i j →
      decode payload j = .ok c → c.StandsFor x next → P x)
    (decoded : decode payload i = .ok c) (read : c.expr? = some e) (scope : Scope) :
    e.Everywhere (fun _ x => P x) scope := by
  induction e using Expr.operandInduction generalizing i c scope with
  | mk x next operands rest =>
      obtain ⟨same, position⟩ := decode_eq_ok decoded
      have stands := expr?_eq_some.1 read
      have below {offset : UInt32} {place : Place} {e : Expr}
          (back : c.operand? offset = some (some e))
          (link : offset ≠ 0 → (place, offset) ∈ c.links) :
          ∃ j child, Linked payload i j ∧ decode payload j = .ok child ∧ child.expr? = some e := by
        obtain ⟨present, child, found, read⟩ := operand?_eq_some.1 back
        rw [same, position] at found
        exact ⟨_, child, linked_of_mem_links decoded (link present), found, read⟩
      refine .mk (holds i c x next .refl decoded stands) (fun s mem e content => ?_)
        fun e content => ?_
      · obtain ⟨offset, slot, back⟩ := stands.operand mem
        obtain ⟨j, child, link, found, read⟩ := below (back.trans (by rw [content]))
          fun present => mem_links.2 ⟨present, .inl ⟨_, slot, rfl⟩⟩
        exact operands e (Item.mem_operands_iff_slot.2 ⟨s, mem, content⟩)
          (fun k c x next reach => holds k c x next (reach.head link)) found read _
      · obtain ⟨j, child, link, found, read⟩ := below (stands.next.trans (by rw [content]))
          fun present => mem_links.2 ⟨present, .inr rfl⟩
        exact rest e content (fun k c x next reach => holds k c x next (reach.head link)) found
          read _

end Cursor

namespace Buffer

variable {bytes : ByteArray} {limits : Limits} {b : Buffer}

/-- The numeric literals that can be reached are spelled with digits, signs, points and letters of
an exponent. -/
def NumbersSpelled (b : Buffer) : Prop :=
  ∀ i c s, Reachable b.payload i → Cursor.decode b.payload i = .ok c → c.numericText = .ok s →
    NumberChars s.toList

/-- The text of an item that can be reached changes nothing for what stands behind it. -/
theorem exists_neutral_of_load (h : load bytes limits = .ok b) (spelled : b.NumbersSpelled)
    {i : Nat} (reachable : Reachable b.payload i) :
    ∃ c s, Cursor.decode b.payload i = .ok c ∧ c.node.print .unbounded = .ok s ∧
      Brackets.Neutral s.toList := by
  have first := (Verify.passes_of_ok (load_eq_ok h)).1
  obtain ⟨v, rfl, nested, passes⟩ := first.exists_of_reachable reachable
  obtain ⟨c, decoded⟩ := passes.decoded
  obtain ⟨e, read⟩ := passes.exists_expr? decoded
  obtain ⟨_, room⟩ := passes.keeps decoded read
  have depth := Limits.le_unbounded (show e.depth ≤ limits.recursionLimit.toNat by omega)
  have numbers : e.Everywhere (fun _ x => x.Numbers NumberChars) .top := by
    refine Cursor.everywhere_of_reached (fun j c x next reach found stands => ?_) decoded read .top
    cases x with
    | numeric s => exact spelled j c s (reachable.trans reach) found stands.numericText
    | _ => trivial
  refine ⟨c, String.ofList (e.text false (e.item.kind != .sequence)), decoded, ?_, ?_⟩
  · rw [Cursor.node_of_expr? read]
    exact Expr.print_node depth
  · rw [String.toList_ofList]
    exact (Expr.composed_text numbers _ _).neutral fun t => NumberChars.free

/-- In the text of a buffer that was opened every string literal is closed by a quote that is not
escaped, and outside of literals the brackets are nested and each has its partner, provided that
numbers are spelled as such. The same holds of the text of every item that can be reached. -/
theorem print_closes_of_load (h : load bytes limits = .ok b) (spelled : b.NumbersSpelled) :
    (∃ s, b.print .unbounded = .ok s ∧ Brackets.closes .text [] s.toList) ∧
      ∀ i, Reachable b.payload i → ∃ c s, Cursor.decode b.payload i = .ok c ∧
        c.node.print .unbounded = .ok s ∧ Brackets.closes .text [] s.toList := by
  constructor
  · obtain ⟨root, body, first, printed, neutral⟩ := exists_neutral_of_load h spelled .refl
    refine ⟨_, by rw [print, root_eq_ok.2 first]; simp only [printed, ok_bind]; rfl,
      Brackets.Neutral.closes ?_⟩
    rw [String.toList_append, String.toList_append]
    refine .append (.append ?_ ?_) neutral
    · split
      · exact .plain (by simp [marks])
      · exact .plain (by simp)
    · split
      · exact .plain (by simp)
      · exact .plain (by simp [marks])
  · intro i reachable
    obtain ⟨c, s, decoded, printed, neutral⟩ := exists_neutral_of_load h spelled reachable
    exact ⟨c, s, decoded, printed, neutral.closes⟩

/-- `?(@."]\"" == 1.5)`, whose key stands at 36. -/
theorem print_closes_of_load_filter :
    let b : Buffer := { header := {}, payload := ⟨#[29, 0, 0, 0, 0, 0, 0, 0, 12, 0, 0, 0,
      8, 0, 0, 0, 0, 0, 0, 0, 16, 0, 0, 0, 39, 0, 0, 0, 26, 0, 0, 0, 8, 0, 0, 0,
      25, 0, 0, 0, 0, 0, 0, 0, 2, 0, 0, 0, 93, 34, 0,
      2, 0, 0, 0, 0, 3, 0, 0, 0, 49, 46, 53]⟩ }
    load b.bytes {} = .ok b ∧ b.NumbersSpelled ∧
      (∃ s, b.print .unbounded = .ok s ∧ Brackets.closes .text [] s.toList) ∧
      ∃ c s, Cursor.decode b.payload 36 = .ok c ∧ c.node.print .unbounded = .ok s ∧
        Brackets.closes .text [] s.toList := by
  intro b
  have loaded : load b.bytes {} = .ok b := load_bytes_of_isOk rfl (by decide +kernel)
  have decodes : Decodes b.payload 0 := (Verify.passes_of_ok (load_eq_ok loaded)).1.decodes
  have numbers : ∀ i ∈ tour b.payload 0, ∀ c ∈ (Cursor.decode b.payload i).toOption,
      ∀ s ∈ c.numericText.toOption, s.toList = ['1', '.', '5'] := by
    decide +kernel
  have spelled : b.NumbersSpelled := by
    intro i c s reachable decoded number
    have listed := (mem_tour decodes).2 reachable
    rw [numbers i listed c (by rw [decoded]; rfl) s (by rw [number]; rfl)]
    simp [NumberChars]
  have key : Reachable b.payload 36 := (mem_tour decodes).1 (by decide +kernel)
  obtain ⟨printed, items⟩ := print_closes_of_load loaded spelled
  exact ⟨loaded, spelled, printed, items 36 key⟩

end Buffer

end FlatPath
