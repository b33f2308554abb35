import FlatPath.Proofs.AccessorReading
import FlatPath.Proofs.RoundTrip

/-!
The canonical text of a well-shaped path is read back as the path, so no two of them share a text.
-/

namespace FlatPath

open Reading

section Heads

variable {x : Item String Expr (Option Expr)} {next : Option Expr}

theorem text_single (x : Item String Expr (Option Expr)) (inKey brackets : Bool) :
    (Expr.mk x none).text inKey brackets = x.written inKey brackets false := by
  rw [Expr.text_mk]
  exact List.append_nil _

theorem readable_decimal {t : String} (decimal : IsDecimal t) :
    Readable (.single (.numeric t)) := by
  apply readable_atom (by simp) (fun _ => rfl)
  intro n u _ _ ends
  apply head_numeric decimal
  intro c mem
  have first := (ends rfl).first c mem
  fin_cases first <;> decide

/-- A numeral with accessors stands in parentheses, so that their dot is not its own. -/
theorem readable_numeric {t : String} (decimal : IsDecimal t) (chained : ∀ e ∈ next, Chained e) :
    Readable (.mk (.numeric t) next) := by
  cases next with
  | none => exact readable_decimal decimal
  | some e =>
      apply readable_atom chained (fun _ => rfl)
      intro n u size boundary _
      have small : (Expr.single (.numeric t)).size ≤ n := by
        have := e.size_pos
        simp only [Expr.size_mk, Option.map_some, Option.getD_some] at size
        simp only [Expr.single, Expr.size_mk, Option.map_none, Option.getD_none]
        simp at size ⊢
        omega
      have listed (s : List Char) (closes : Closes s) :
          listing (element n) n (t.toList ++ s) = some (.single (.numeric t), s) := by
        have := (readable_decimal decimal).listed n s small closes
        rwa [Expr.single, text_single] at this
      have read := head_enclosed listed boundary
      simpa [Expr.single, Expr.item] using read

theorem readable_array {o : Option Expr} (readable : ∀ e ∈ o, Readable e)
    (chained : ∀ e ∈ next, Chained e) : Readable (.mk (.array o) next) := by
  cases o with
  | none => exact readable_atom chained (fun _ => rfl) fun _ u _ _ _ => head_array_none u
  | some e =>
      apply readable_atom chained (fun _ => rfl)
      intro n u size _ _
      have read := head_array_some (readable e rfl) (size_le_of_operand size (by simp)) u
      simpa [Item.map, Piece.optional] using read

theorem readable_object {fs : List (Expr × Expr)} (bare : ∀ f ∈ fs, f.1.IsBareString)
    (readable : ∀ e ∈ (Item.object fs : Item String Expr (Option Expr)).operands, Readable e)
    (chained : ∀ e ∈ next, Chained e) : Readable (.mk (.object fs) next) := by
  refine readable_atom (t := '\x7b' :: (separated [',', ' ']
    (fs.map fun f => Piece.field (f.1.piece, f.2.piece)) ++ ['\x7d'])) chained
    (fun _ => by simp [Item.written, Item.map, Item.text, Function.comp_def])
    fun n u size _ _ => ?_
  have length : (Item.object fs : Item String Expr (Option Expr)).operands.length =
      2 * fs.length := by
    simp [List.length_flatMap, Nat.mul_comm]
  have small : ∀ e ∈ (Item.object fs : Item String Expr (Option Expr)).operands,
      e.size + 2 * fs.length ≤ n + 1 := by
    intro e mem
    rw [← length]
    exact size_of_operand size mem
  have parts := Item.forall_operands_object small
  have count : fs.length ≤ n := by
    cases fs with
    | nil => exact Nat.zero_le n
    | cons f fs =>
        have := (parts f (by simp)).1
        have := f.1.size_pos
        simp only [List.length_cons] at *
        omega
  have short : ∀ f ∈ fs, f.2.size < n := by
    intro f mem
    have := (parts f mem).2
    have := List.length_pos_of_mem mem
    omega
  have read := head_object bare (fun f mem => (Item.forall_operands_object readable f mem).2)
    short count u
  simpa using read

theorem readable_sequence {es : List Expr} (many : 2 ≤ es.length) (readable : ∀ e ∈ es, Readable e)
    (chained : ∀ e ∈ next, Chained e) : Readable (.mk (.sequence es) next) := by
  have inside : (es.map Expr.piece).map Piece.element = es.map fun e => e.piece.element := by
    rw [List.map_map]
    rfl
  cases next with
  | none =>
      have text : (Expr.mk (.sequence es) none).text false false =
          separated [',', ' '] (es.map fun e => e.piece.element) := by
        rw [text_single, ← inside]
        rfl
      refine readable_enclosed rfl (fun _ _ single => absurd rfl single)
        (fun n s size closes => ?_) ?_
      · rw [text]
        exact listing_sequence many readable size closes
      · rw [text, text_single, ← inside]
        rfl
  | some e =>
      refine readable_atom (t := '(' :: (separated [',', ' ']
        (es.map fun e => e.piece.element) ++ [')'])) chained (fun brackets => ?_)
        fun n u size boundary _ => ?_
      · rw [← inside]
        cases brackets <;> rfl
      · have small : (Expr.single (.sequence es)).size ≤ n := by
          have := e.size_pos
          simp only [Expr.single, Expr.size_mk, Option.map_some, Option.getD_some,
            Option.map_none, Option.getD_none] at size ⊢
          omega
        have read := head_enclosed (fun s => listing_sequence many readable small) boundary
        simpa [Expr.single, Expr.item] using read

theorem readable_predicate {op : UnaryOp} {a : Expr} (readable : Readable a)
    (chained : ∀ e ∈ next, Chained e) (word : op ∈ [UnaryOp.not, .isUnknown, .exists]) :
    Readable (.mk (.unary op a) next) := by
  fin_cases word
  · apply readable_atom chained (fun _ => rfl)
    intro n u size _ _
    have read := head_not readable (size_le_of_operand size (by simp)) u
    simpa using read
  · apply readable_atom chained (fun _ => rfl)
    intro n u size _ _
    have read := head_isUnknown readable (size_le_of_operand size (by simp)) u
    simpa using read
  · apply readable_atom chained (fun _ => rfl)
    intro n u size _ _
    have read := head_exists readable (size_le_of_operand size (by simp)) u
    simpa using read

theorem readable_sign {op : UnaryOp} {a : Expr} (readable : Readable a)
    (sign : op ∈ [UnaryOp.plus, .minus]) : Readable (.single (.unary op a)) := by
  fin_cases sign
  · refine readable_operator rfl (fun n size => ?_) ?_
    · rw [Expr.single, text_single]
      exact reads_sign readable (size_le_of_operand size (by simp)) (by simp)
    · rw [Expr.single, text_single, text_single]
      rfl
  · refine readable_operator rfl (fun n size => ?_) ?_
    · rw [Expr.single, text_single]
      exact reads_sign readable (size_le_of_operand size (by simp)) (by simp)
    · rw [Expr.single, text_single, text_single]
      rfl

theorem readable_binary (op : BinaryOp) {l r : Expr} (left : Readable l) (right : Readable r) :
    Readable (.single (.binary op l r)) := by
  refine readable_operator rfl (fun n size => ?_) ?_
  · rw [Expr.single, text_single]
    exact reads_binary left right (size_le_of_operand size (by simp))
      (size_le_of_operand size (by simp))
  · rw [Expr.single, text_single, text_single]
    rfl

theorem readable_likeRegex {e : Expr} {p : String} {f : RegexFlags} (readable : Readable e)
    (defined : f.bits < 32) : Readable (.single (.likeRegex e p f)) := by
  refine readable_operator rfl (fun n size => ?_) ?_
  · rw [Expr.single, text_single]
    exact reads_likeRegex readable (size_le_of_operand size (by simp)) defined
  · rw [Expr.single, text_single, text_single]
    rfl

end Heads

theorem readable_of_head {x : Item String Expr (Option Expr)} {next : Option Expr} (head : x.IsHead)
    (last : x.IsOperator → next = none) (readable : ∀ e ∈ x.operands, Readable e)
    (chained : ∀ e ∈ next, Chained e) : Readable (.mk x next) := by
  cases x with
  | key | anyArray | anyKey | any | indexArray | method | datetime => cases head
  | null =>
      exact readable_atom chained (fun _ => rfl) fun _ u _ _ _ => head_word (by simp) u
  | root =>
      exact readable_atom chained (fun _ => rfl) fun _ u _ boundary _ => head_root boundary
  | current =>
      exact readable_atom chained (fun _ => rfl) fun _ u _ _ _ => head_word (by simp) u
  | last =>
      exact readable_atom chained (fun _ => rfl) fun _ u _ _ _ => head_word (by simp) u
  | bool b =>
      cases b with
      | false =>
          exact readable_atom chained (fun _ => rfl) fun _ u _ _ _ => head_word (by simp) u
      | true =>
          exact readable_atom chained (fun _ => rfl) fun _ u _ _ _ => head_word (by simp) u
  | string t =>
      exact readable_atom chained (fun _ => rfl) fun _ u _ _ _ => head_string t u
  | var t =>
      exact readable_atom chained (fun _ => rfl) fun _ u _ _ _ => head_var t u
  | numeric t => exact readable_numeric head chained
  | array o => exact readable_array (fun e mem => readable e (by simpa using mem)) chained
  | object fs => exact readable_object head readable chained
  | sequence es =>
      exact readable_sequence head (fun e mem => readable e (by simpa using mem)) chained
  | binary op l r =>
      cases last trivial
      exact readable_binary op (readable l (by simp)) (readable r (by simp))
  | likeRegex e p f =>
      cases last trivial
      exact readable_likeRegex (readable e (by simp)) head
  | unary op a =>
      have argument := readable a (by simp)
      cases op with
      | filter => exact absurd rfl head
      | plus | minus =>
          cases last head
          exact readable_sign argument (by simp)
      | _ => exact readable_predicate argument chained (by simp)

theorem chained_indexArray {ss : List (Expr × Option Expr)} {next : Option Expr}
    (present : ss ≠ [])
    (readable : ∀ e ∈ (Item.indexArray ss : Item String Expr (Option Expr)).operands, Readable e)
    (chained : ∀ e ∈ next, Chained e) : Chained (.mk (.indexArray ss) next) := by
  have text : (Item.indexArray ss).written true true next.isSome = '[' :: (separated [',']
      (ss.map fun a => Piece.subscript (a.1.piece, a.2.map Expr.piece)) ++ [']']) := by
    simp [Item.written, Item.map, Item.text, Function.comp_def]
  apply chained_of_accessor chained text (by simp)
  intro n u size _
  have longer : ss.length ≤
      (Item.indexArray ss : Item String Expr (Option Expr)).operands.length := by
    rw [Item.operands_indexArray]
    clear size text readable present
    induction ss with
    | nil => exact Nat.zero_le _
    | cons a ss ih =>
        rw [List.flatMap_cons, List.length_append, List.length_cons, List.length_cons]
        omega
  have small : ∀ e ∈ (Item.indexArray ss : Item String Expr (Option Expr)).operands,
      e.size + ss.length ≤ n := by
    intro e mem
    have := Expr.size_operand_le next mem
    omega
  have parts := Item.forall_operands_indexArray small
  have positive : 0 < ss.length := List.length_pos_iff.2 present
  have short : ∀ a ∈ ss, a.1.size < n ∧ ∀ e ∈ a.2, e.size < n := by
    intro a mem
    refine ⟨?_, fun e mem' => ?_⟩
    · have := (parts a mem).1
      omega
    · have := (parts a mem).2 e mem'
      omega
  have count : ss.length ≤ n := by
    have := (parts _ (List.head_mem present)).1
    omega
  have read := accessor_indexArray present (Item.forall_operands_indexArray readable) short count u
  simpa using read

theorem chained_of_item {x : Item String Expr (Option Expr)} {next : Option Expr}
    (accessor : x.IsAccessor) (readable : ∀ e ∈ x.operands, Readable e)
    (chained : ∀ e ∈ next, Chained e) : Chained (.mk x next) := by
  cases x with
  | null | string | numeric | bool | var | root | current | last | binary | likeRegex | sequence
  | array | object => cases accessor
  | key t =>
      apply chained_of_accessor chained rfl (by simp)
      intro n u _ _
      exact accessor_key t u
  | anyKey =>
      apply chained_of_accessor chained rfl (by simp)
      intro n u _ boundary
      exact accessor_anyKey boundary
  | anyArray =>
      apply chained_of_accessor chained rfl (by simp)
      intro n u _ _
      exact accessor_anyArray u
  | any l =>
      apply chained_of_accessor chained rfl (by simp)
      intro n u _ boundary
      exact accessor_any l boundary
  | method m =>
      apply chained_of_accessor chained rfl (by simp)
      intro n u _ _
      simpa using accessor_method m u
  | datetime t =>
      apply chained_of_accessor chained rfl (by simp)
      intro n u _ _
      simpa using accessor_datetime accessor u
  | unary op a =>
      cases accessor
      apply chained_of_accessor chained rfl (by simp)
      intro n u size _
      have small := size_le_of_operand (e := a) (Nat.le_succ_of_le size) (by simp)
      simpa using accessor_filter (readable a (by simp)) small u
  | indexArray ss => exact chained_indexArray accessor readable chained

/-- What is well-shaped is read back. -/
theorem readable_and_chained (e : Expr) :
    (e.WellShaped → Readable e) ∧ (e.Accessors → Chained e) := by
  induction e using Expr.operandInduction with
  | mk x next operands rest =>
      constructor
      · intro shaped
        cases shaped with
        | mk head last shaped chain =>
            exact readable_of_head head last (fun e mem => (operands e mem).1 (shaped e mem))
              fun e mem => (rest e mem).2 (chain e mem)
      · intro shaped
        cases shaped with
        | mk accessor shaped chain =>
            exact chained_of_item accessor (fun e mem => (operands e mem).1 (shaped e mem))
              fun e mem => (rest e mem).2 (chain e mem)

/-- The text of a whole path. -/
def Path.text (p : Path) : List Char :=
  (if p.extensions then ['p', 'g', ' '] else []) ++
    ((if p.lax then [] else ['s', 't', 'r', 'i', 'c', 't', ' ']) ++
      p.expr.text false (p.expr.item.kind != .sequence))

theorem Readable.listing_text {e : Expr} (h : Readable e) {n : Nat} (size : e.size < n) :
    listing (Reading.element n) n (e.text false (e.item.kind != .sequence)) = some (e, []) := by
  by_cases several : e.item.kind = .sequence
  · have read := h.listed n [] (Nat.le_of_lt size) .nil
    rw [several]
    simpa using read
  · cases n with
    | zero => cases size
    | succ n =>
        have read := (h.enclosed n (Nat.le_of_lt_succ size)).element (by decide) Ends.nil
        have loose : (e.item.kind != .sequence) = true := by simpa using several
        rw [loose]
        simpa using listing_of_inner read .nil

/-- No expression begins like a modifier. -/
theorem strip_modifier {n : Nat} {e : Expr} {c : Char} {t s u : List Char}
    (read : listing (element n) n s = some (e, u)) (modifier : c ∈ ['p', 's']) :
    strip (c :: t) s = none := by
  cases s with
  | nil => rfl
  | cons d s =>
      by_cases same : c = d
      · have nothing : element n (d :: s) = none := by
          rw [← same]
          exact element_eq_none (List.mem_append_right ['*', ']'] modifier)
        rw [listing, nothing] at read
        cases read
      · simp [same]

theorem Readable.path {p : Path} (h : Readable p.expr) {n : Nat} (size : p.expr.size < n) :
    Reading.path n p.text = some p := by
  obtain ⟨e, lax, extensions⟩ := p
  have read := h.listing_text size
  have pg := strip_modifier (t := ['g', ' ']) read (c := 'p') (by simp)
  have strict := strip_modifier (t := ['t', 'r', 'i', 'c', 't', ' ']) read (c := 's') (by simp)
  cases lax with
  | true => cases extensions <;> simp [Reading.path, Path.text, read, pg, strict]
  | false => cases extensions <;> simp [Reading.path, Path.text, read]

theorem Path.print_of_encode {p : Path} {limits : Limits} {b : Buffer}
    (h : p.encode limits = .ok b) : b.print .unbounded = .ok (String.ofList p.text) := by
  obtain ⟨header, _, _, _, depth⟩ := encode_ok h
  obtain ⟨root, first, read⟩ := root_of_encode h
  have within := Limits.le_unbounded depth
  obtain ⟨lax, extensions⟩ := Header.modes_ofModes p.lax p.extensions
  rw [Buffer.print, first]
  simp only [Cursor.node_of_expr? read, Expr.print_node within, ok_bind, except_pure, header, lax,
    extensions]
  have text (s : String) (same : s.toList = p.text) : s = String.ofList p.text := by
    rw [← same, String.ofList_toList]
  refine congrArg _ (text _ ?_)
  rw [Path.text]
  cases p.lax <;> cases p.extensions <;> simp

/-- Canonical texts are uniquely readable: of two well-shaped paths that encode, both have a text,
and if the texts are equal the paths are. -/
theorem Path.eq_of_print_eq {p q : Path} {limits limits' : Limits} {a b : Buffer}
    (shaped : p.expr.WellShaped) (shaped' : q.expr.WellShaped) (encoded : p.encode limits = .ok a)
    (encoded' : q.encode limits' = .ok b) :
    ∃ s t, a.print .unbounded = .ok s ∧ b.print .unbounded = .ok t ∧ (s = t → p = q) := by
  refine ⟨_, _, print_of_encode encoded, print_of_encode encoded', ?_⟩
  intro same
  have texts : p.text = q.text := by
    have := congrArg String.toList same
    simpa using this
  have first := ((readable_and_chained p.expr).1 shaped).path
    (n := p.expr.size + q.expr.size + 1) (by omega)
  have second := ((readable_and_chained q.expr).1 shaped').path
    (n := p.expr.size + q.expr.size + 1) (by omega)
  rw [texts, second] at first
  exact (Option.some.inj first).symm

/-- `((1 + 2) + 3)` and `(1 + (2 + 3))`. -/
theorem Path.eq_of_print_eq_sums :
    let sum (l r : Expr) : Expr := .single (.binary .add l r)
    let left : Path := { expr := sum (sum (.int 1) (.int 2)) (.int 3) }
    let right : Path := { expr := sum (.int 1) (sum (.int 2) (.int 3)) }
    left.expr.WellShaped ∧ right.expr.WellShaped ∧
      ∃ a b s t, left.encode {} = .ok a ∧ right.encode {} = .ok b ∧
        a.print .unbounded = .ok s ∧ b.print .unbounded = .ok t ∧ s ≠ t := by
  intro sum left right
  have digit (c : Char) (h : c.isDigit) : (Expr.single (.numeric (String.ofList [c]))).WellShaped :=
    .mk ⟨[c], [], by simp, by simpa using h, by simp⟩ (fun _ => rfl) (fun _ mem => by cases mem)
      (by simp)
  have both {l r : Expr} (hl : l.WellShaped) (hr : r.WellShaped) : (sum l r).WellShaped := by
    refine .mk trivial (fun _ => rfl) (fun e mem => ?_) (by simp)
    obtain rfl | rfl : e = l ∨ e = r := by simpa using mem
    · exact hl
    · exact hr
  have one : (Expr.int 1).WellShaped := digit '1' (by decide)
  have two : (Expr.int 2).WellShaped := digit '2' (by decide)
  have three : (Expr.int 3).WellShaped := digit '3' (by decide)
  obtain ⟨a, encoded⟩ := exists_ok (x := left.encode {}) (by decide +kernel)
  obtain ⟨b, encoded'⟩ := exists_ok (x := right.encode {}) (by decide +kernel)
  have shaped := both (both one two) three
  have shaped' := both one (both two three)
  obtain ⟨s, t, printed, printed', unique⟩ := eq_of_print_eq shaped shaped' encoded encoded'
  refine ⟨shaped, shaped', a, b, s, t, encoded, encoded', printed, printed', ?_⟩
  intro same
  have equal : left.expr = right.expr := congrArg Path.expr (unique same)
  simp [left, right, sum, Expr.single, Expr.int] at equal

end FlatPath
