import Mathlib
import FlatPath.Buffer.Encode
import FlatPath.Proofs.Success

/-!
What the check of a pattern accepts, said without its reader. A pattern of letters, dots, bars,
groups and quantifiers passes exactly if its parentheses are balanced and each quantifier has
something to repeat. A bracket expression of letters passes, but one with another bracket inside it
does not: the reader takes that bracket for a class of its own, and then one of the two is never
closed.
-/

namespace FlatPath.Pattern

/-! Groups, alternatives and quantifiers. -/

section Groups

variable {depth : Nat} {groups : List Bool} {names : List (List Char)} {last : Piece} {c : Char}
  {s : List Char}

/-- Letters, digits, dots, bars, parentheses and the quantifiers that take no count. -/
def Plain (s : List Char) : Prop :=
  ∀ c ∈ s, c.isAlphanum ∨ c ∈ ['.', '|', '(', ')', '*', '+']

def quantifiers : List Char := ['*', '+']

/-- Right behind these there is nothing yet to repeat. -/
def openers : List Char := ['(', '|']

/-- Behind `depth` open parentheses, none is closed that is not open and none is left open. -/
structure Balanced (depth : Nat) (s : List Char) : Prop where
  opened : ∀ t, t <+: s → t.count ')' ≤ depth + t.count '('
  closed : s.count ')' = depth + s.count '('

/-- A quantifier stands first only behind an operand, and never right behind an opener. -/
structure Quantified (last : Piece) (s : List Char) : Prop where
  first : last ≠ .operand → ∀ q ∈ s.head?, q ∉ quantifiers
  behind : s.IsChain fun c q => c ∈ openers → q ∉ quantifiers

theorem balanced_nil : Balanced depth [] ↔ depth = 0 := by
  constructor
  · intro h
    simpa using h.closed.symm
  · intro outermost
    exact ⟨by simp, by simp [outermost]⟩

/-- The first character decides how many are open behind it. -/
theorem balanced_cons (depth' : Nat)
    (shift : depth' + (if c == ')' then 1 else 0) = depth + if c == '(' then 1 else 0) :
    Balanced depth (c :: s) ↔ Balanced depth' s := by
  constructor
  · intro h
    refine ⟨fun t part => ?_, ?_⟩
    · have opened := h.opened (c :: t) (List.cons_prefix_cons.2 ⟨rfl, part⟩)
      rw [List.count_cons, List.count_cons] at opened
      omega
    · have closed := h.closed
      rw [List.count_cons, List.count_cons] at closed
      omega
  · intro h
    refine ⟨fun t part => ?_, ?_⟩
    · obtain rfl | ⟨u, rfl, tail⟩ := List.prefix_cons_iff.1 part
      · simp
      · have opened := h.opened u tail
        rw [List.count_cons, List.count_cons]
        omega
    · have closed := h.closed
      rw [List.count_cons, List.count_cons]
      omega

theorem not_balanced_closing : ¬ Balanced 0 (')' :: s) := by
  intro h
  have early := h.opened [')'] (by simp)
  simp at early

theorem quantified_nil : Quantified last [] :=
  ⟨by simp, .nil⟩

theorem quantified_cons :
    Quantified last (c :: s) ↔ (last ≠ .operand → c ∉ quantifiers) ∧
      Quantified (if c ∈ openers then .nothing else .operand) s := by
  constructor
  · intro ⟨first, behind⟩
    obtain ⟨next, rest⟩ := List.isChain_cons.1 behind
    refine ⟨fun bare => first bare c rfl, fun bare q head => ?_, rest⟩
    split at bare
    · next opener => exact next q head opener
    · exact absurd rfl bare
  · intro ⟨here, next, rest⟩
    refine ⟨fun bare q head => ?_, List.isChain_cons.2 ⟨fun q head opener => ?_, rest⟩⟩
    · cases head
      exact here bare
    · rw [if_pos opener] at next
      exact next (by decide) q head

/-! One step of the reader for each sort of character. -/

theorem scan_nil : scan false groups names last [] =
    if groups.isEmpty then .ok () else refuse .unclosedGroup := by
  rw [scan]
  rfl

theorem scan_opening (plain : s.head? ≠ some '?') :
    scan false groups names last ('(' :: s) = scan false (false :: groups) names .nothing s := by
  have group : opening false names s = .ok (.group none false, s) := by
    cases s with
    | nil => rfl
    | cons c s =>
        have other : c ≠ '?' := fun h => plain (by simp [h])
        simp [opening, skip, other]
  rw [scan]
  simp only [skip, Bool.false_eq_true, ↓dreduceIte]
  split
  · next found =>
      rw [group] at found
      cases found
  · next found =>
      rw [group] at found
      cases found
  · next found =>
      rw [group] at found
      cases found
      rfl

theorem scan_closing :
    scan false (false :: groups) names last (')' :: s) = scan false groups names .operand s := by
  rw [scan]
  rfl

theorem scan_unopened : scan false [] names last (')' :: s) = refuse .unopenedGroup := by
  rw [scan]
  rfl

theorem scan_bar :
    scan false groups names last ('|' :: s) = scan false groups names .nothing s := by
  rw [scan]
  rfl

theorem scan_quantifier (quantifier : c ∈ quantifiers) (plain : s.head? ≠ some '?') :
    scan false groups names last (c :: s) =
      if last = .operand then scan false groups names .operand s else refuse .missingOperand := by
  have greedy : dropLazy s = s := by
    cases s with
    | nil => rfl
    | cons c s =>
        have other : c ≠ '?' := fun h => plain (by simp [h])
        simp [dropLazy, other]
  obtain rfl | rfl : c = '*' ∨ c = '+' := by simpa [quantifiers] using quantifier
  · rw [scan]
    simp [skip, greedy]
  · rw [scan]
    simp [skip, greedy]

/-- The characters that do not stand for themselves. -/
def special : List Char := ['(', ')', '|', '[', '?', '*', '+', '\x7b', '\\']

theorem scan_literal (literal : c ∉ special) :
    scan false groups names last (c :: s) = scan false groups names .operand s := by
  simp only [special, List.mem_cons, List.not_mem_nil, or_false, not_or] at literal
  rw [scan]
  simp [skip, literal]

theorem Plain.head?_ne (plain : Plain s) : s.head? ≠ some '?' := by
  intro head
  have allowed := plain '?' (List.mem_of_mem_head? head)
  revert allowed
  decide

theorem not_special (plain : c.isAlphanum ∨ c ∈ ['.', '|', '(', ')', '*', '+'])
    (other : c ∉ ['(', ')', '|', '*', '+']) : c ∉ special := by
  have allowed : ∀ c ∈ special, c.isAlphanum ∨ c ∈ ['.', '|', '(', ')', '*', '+'] →
      c ∈ ['(', ')', '|', '*', '+'] := by simp [special]
  exact fun mem => other (allowed c mem plain)

/-- A verdict that lets pass what is sound, and names a flaw of all else. -/
def Decides (verdict : Except Stop Unit) (sound : Prop) : Prop :=
  match verdict with
  | .ok () => sound
  | .error (.flaw _) => ¬ sound
  | .error .foreign => False

/-- The stack of the reader is as deep as the text before it leaves parentheses open. -/
theorem scan_decides (plain : Plain s) :
    Decides (scan false (List.replicate depth false) names last s)
      (Balanced depth s ∧ Quantified last s) := by
  induction s generalizing depth last with
  | nil =>
      rw [scan_nil, balanced_nil]
      cases depth with
      | zero => exact ⟨rfl, quantified_nil⟩
      | succ depth => exact fun sound => absurd sound.1 (Nat.succ_ne_zero depth)
  | cons c s ih =>
      have rest : Plain s := fun c mem => plain c (List.mem_cons_of_mem _ mem)
      have further (depth : Nat) (last : Piece) :
          Decides (scan false (List.replicate depth false) names last s)
            (Balanced depth s ∧ Quantified last s) := ih rest
      rw [quantified_cons]
      by_cases opening : c = '('
      · subst opening
        rw [scan_opening rest.head?_ne, balanced_cons (depth + 1) (by simp)]
        simpa [openers, quantifiers, List.replicate_succ] using further (depth + 1) .nothing
      by_cases closing : c = ')'
      · subst closing
        cases depth with
        | zero =>
            rw [List.replicate_zero, scan_unopened]
            exact fun sound => not_balanced_closing sound.1
        | succ depth =>
            rw [List.replicate_succ, scan_closing, balanced_cons depth (by simp)]
            simpa [openers, quantifiers] using further depth .operand
      rw [balanced_cons depth (by simp [opening, closing])]
      by_cases bar : c = '|'
      · subst bar
        rw [scan_bar]
        simpa [openers, quantifiers] using further depth .nothing
      have behind : c ∉ openers := by simp [openers, opening, bar]
      rw [if_neg behind]
      by_cases quantifier : c ∈ quantifiers
      · rw [scan_quantifier quantifier rest.head?_ne]
        by_cases supplied : last = .operand
        · simpa [supplied] using further depth .operand
        · rw [if_neg supplied]
          exact fun sound => sound.2.1 supplied quantifier
      · have other : c ∉ ['(', ')', '|', '*', '+'] := by
          simpa [quantifiers, opening, closing, bar] using quantifier
        rw [scan_literal (not_special (plain c List.mem_cons_self) other)]
        simpa [quantifier] using further depth .operand

/-- A pattern of letters, digits, dots, bars, groups and quantifiers passes exactly if its
parentheses are balanced and no quantifier stands first, behind an opening parenthesis or behind a
bar. -/
theorem check_eq_none_iff_of_plain {pattern : String} {flags : RegexFlags}
    (plain : Plain pattern.toList) (unextended : flags.contains .extended = false)
    (unquoted : flags.contains .quote = false) :
    check pattern flags = none ↔
      Balanced 0 pattern.toList ∧ Quantified .nothing pattern.toList := by
  have decided : Decides (scan false (.replicate 0 false) [] .nothing pattern.toList) _ :=
    scan_decides plain
  rw [List.replicate_zero] at decided
  rw [check, if_neg (by simp [unquoted]), unextended]
  cases verdict : scan false [] [] .nothing pattern.toList with
  | ok =>
      rw [verdict] at decided
      exact iff_of_true rfl decided
  | error stop =>
      rw [verdict] at decided
      cases stop with
      | flaw f => exact iff_of_false nofun decided
      | foreign => exact decided.elim

/-- Groups in groups with alternatives and quantifiers pass; a quantifier behind a bar does not. -/
theorem check_eq_none_iff_of_plain_nested :
    let sound := "(a|(b.)*+)+|()"
    let bare := "(a|*)"
    Plain sound.toList ∧ Plain bare.toList ∧ check sound ⟨7⟩ = none ∧ check bare ⟨7⟩ ≠ none := by
  intro sound bare
  have plain : Plain sound.toList ∧ Plain bare.toList := by
    constructor <;> simp [Plain, sound, bare]
  have balanced : Balanced 0 sound.toList := by
    have opened : ∀ t ∈ sound.toList.inits, t.count ')' ≤ 0 + t.count '(' := by decide +kernel
    exact ⟨fun t part => opened t ((List.mem_inits t _).2 part), by decide +kernel⟩
  refine ⟨plain.1, plain.2, ?_, fun passed => ?_⟩
  · exact (check_eq_none_iff_of_plain plain.1 rfl rfl).2
      ⟨balanced, by simp [sound, quantifiers], by decide +kernel⟩
  · have quantified := ((check_eq_none_iff_of_plain plain.2 rfl rfl).1 passed).2.behind
    revert quantified
    decide

end Groups

/-! Bracket expressions. -/

section Members

variable {depth : Nat} {c : Char} {s w : List Char}

/-- Letters and opening brackets. -/
def Members (w : List Char) : Prop :=
  ∀ c ∈ w, c.isAlpha ∨ c = '['

/-- The characters that have a meaning of their own somewhere in a bracket expression. -/
def classSpecial : List Char := [']', '^', '-', '&', '~', ':', '\\']

theorem not_classSpecial (member : c.isAlpha ∨ c = '[') : c ∉ classSpecial := by
  have special : ∀ c ∈ classSpecial, ¬ (c.isAlpha ∨ c = '[') := by simp [classSpecial]
  exact fun mem => special c mem member

theorem classOpening_cons (ordinary : c ∉ classSpecial) :
    classOpening false (c :: s) = .ok (c :: s) := by
  simp only [classSpecial, List.mem_cons, List.not_mem_nil, or_false, not_or] at ordinary
  simp [classOpening, dropCaret, dropDashes, inBracket, skip, ordinary]

theorem namedClass?_cons (ordinary : c ≠ ':') : namedClass? (c :: s) = none := by
  simp [namedClass?, ordinary]

theorem classBody_nil : classBody false depth [] = refuse .unclosedClass := by
  rw [classBody]
  rfl

theorem classBody_closing : classBody false depth (']' :: s) =
    match depth with
    | 0 => .ok s
    | depth + 1 => classBody false depth s := by
  rw [classBody]
  rfl

theorem classBody_inner (unnamed : namedClass? s = none) :
    classBody false depth ('[' :: s) =
      (do classBody false (depth + 1) (← classOpening false s)) := by
  rw [classBody]
  simp only [skip, Bool.false_eq_true, ↓dreduceIte]
  split
  · next found =>
      rw [unnamed] at found
      cases found
  · split
    · next found =>
        rw [found]
        rfl
    · next found =>
        rw [found]
        rfl

theorem classBody_member (member : c ∉ ['[', ']', '&', '-', '~']) :
    classBody false depth (c :: s) =
      (do classBody false depth (← classRange false (c :: s))) := by
  simp only [List.mem_cons, List.not_mem_nil, or_false, not_or] at member
  rw [classBody]
  simp only [skip, Bool.false_eq_true, ↓dreduceIte, member, imp_self, imp_false,
    IsEmpty.forall_iff, implies_true]
  split
  · next found =>
      rw [found]
      rfl
  · next found =>
      rw [found]
      rfl

theorem classBody_letter {d : Char} (letter : c ∉ '[' :: classSpecial) (single : d ≠ '-') :
    classBody false depth (c :: d :: s) = classBody false depth (d :: s) := by
  simp only [classSpecial, List.mem_cons, List.not_mem_nil, or_false, not_or] at letter
  have alone : classRange false (c :: d :: s) = .ok (d :: s) := by
    simp [classRange, classMember, inBracket, loneMember, skip, letter, single]
  rw [classBody_member (by simp [letter]), alone, ok_bind]

/-- Each bracket among the members opens a class, and a single bracket follows to close them. -/
theorem classBody_members (depth : Nat) (members : Members w) :
    classBody false depth (w ++ [']']) =
      if depth = 0 ∧ '[' ∉ w then .ok [] else refuse .unclosedClass := by
  induction w generalizing depth with
  | nil =>
      rw [List.nil_append, classBody_closing]
      cases depth with
      | zero => rfl
      | succ depth => exact classBody_nil
  | cons c w ih =>
      have rest : Members w := fun c mem => members c (List.mem_cons_of_mem _ mem)
      have ordinary := not_classSpecial (members c List.mem_cons_self)
      -- The reader looks one character ahead, which may be the bracket at the end.
      obtain ⟨d, t, behind, dash, colon⟩ :
          ∃ d t, w ++ [']'] = d :: t ∧ d ≠ '-' ∧ d ≠ ':' := by
        cases w with
        | nil => exact ⟨']', [], rfl, by decide, by decide⟩
        | cons d w =>
            have next := not_classSpecial (rest d List.mem_cons_self)
            simp only [classSpecial, List.mem_cons, List.not_mem_nil, or_false, not_or] at next
            exact ⟨d, _, rfl, next.2.2.1, next.2.2.2.2.2.1⟩
      rw [List.cons_append]
      by_cases inner : c = '['
      · subst inner
        rw [behind, classBody_inner (namedClass?_cons colon), ← behind]
        cases w with
        | nil => simp [classOpening, dropCaret, skip, inBracket]
        | cons d w =>
            have next := not_classSpecial (rest d List.mem_cons_self)
            have opened := ih (depth + 1) rest
            rw [List.cons_append] at opened ⊢
            rw [classOpening_cons next, ok_bind, opened]
            simp
      · rw [behind, classBody_letter (by simp [inner, ordinary]) dash, ← behind, ih depth rest]
        simp [inner, eq_comm]

theorem scan_bracket {groups : List Bool} {names : List (List Char)} {last : Piece} :
    scan false groups names last ('[' :: s) =
      (do scan false groups names .operand (← bracket false s)) := by
  rw [scan]
  simp only [skip, Bool.false_eq_true, ↓dreduceIte]
  split
  · next found =>
      rw [found]
      rfl
  · next found =>
      rw [found]
      rfl

/-- A bracket expression of letters passes exactly if no bracket opens among them. -/
theorem check_bracketed {w : String} {flags : RegexFlags} (present : w ≠ "")
    (members : Members w.toList) (unextended : flags.contains .extended = false)
    (unquoted : flags.contains .quote = false) :
    check ("[" ++ w ++ "]") flags =
      if '[' ∈ w.toList then some .unclosedClass else none := by
  have body := classBody_members 0 members
  have read : bracket false (w.toList ++ [']']) =
      if '[' ∈ w.toList then refuse .unclosedClass else .ok [] := by
    obtain ⟨c, s, letters⟩ := List.exists_cons_of_ne_nil (mt String.toList_eq_nil_iff.1 present)
    rw [letters] at members body ⊢
    rw [bracket, List.cons_append,
      classOpening_cons (not_classSpecial (members c List.mem_cons_self)), ok_bind,
      ← List.cons_append, body]
    by_cases inner : '[' ∈ c :: s
    · simp [inner]
    · simp [inner]
  have pattern : ("[" ++ w ++ "]").toList = '[' :: (w.toList ++ [']']) := by simp
  rw [check, if_neg (by simp [unquoted]), unextended, pattern, scan_bracket, read]
  by_cases inner : '[' ∈ w.toList
  · rw [if_pos inner, if_pos inner]
    rfl
  · rw [if_neg inner, if_neg inner, ok_bind, scan_nil]
    rfl

/-- `[xyz]` passes and `[a[b]` does not. -/
theorem check_bracketed_letters :
    Members "xyz".toList ∧ Members "a[b".toList ∧ check "[xyz]" ⟨5⟩ = none ∧
      check "[a[b]" ⟨5⟩ = some .unclosedClass := by
  have letters : Members "xyz".toList := by simp [Members]
  have bracket : Members "a[b".toList := by simp [Members]
  have passed : check "[xyz]" ⟨5⟩ = none := check_bracketed (by decide) letters rfl rfl
  have refused : check "[a[b]" ⟨5⟩ = some .unclosedClass :=
    check_bracketed (by decide) bracket rfl rfl
  exact ⟨letters, bracket, passed, refused⟩

/-- An opening bracket among the members is an ordinary character to the matcher, but `[a[b]` is
refused, and no path with this pattern is encoded. -/
theorem not_check_bracketed :
    let path : Path := { expr := .single (.likeRegex (.single .root) "[a[b]" ⟨0⟩) }
    Members "a[b".toList ∧ check ("[" ++ "a[b" ++ "]") ⟨0⟩ = some .unclosedClass ∧
      path.encode {} = .error (.invalidPattern "[a[b]" .unclosedClass) := by
  intro path
  have refused : (path.encode {}).map Buffer.bytes =
      .error (.invalidPattern "[a[b]" .unclosedClass) := by decide +kernel
  refine ⟨by simp [Members], by decide +kernel, ?_⟩
  cases encoded : path.encode {} with
  | error e => simpa [encoded, Except.map] using refused
  | ok b => simp [encoded, Except.map] at refused

end Members

end FlatPath.Pattern
