import FlatPath.Proofs.Reading
import FlatPath.Proofs.WellShaped

/-!
Every item that a chain may start with is read back from its text, with or without parentheses, as
long as its operands and the rest of its chain are.
-/

namespace FlatPath

open Reading

/-- The tightest level at which an expression of this kind is read without parentheses. -/
def Kind.level : Kind → Nat
  | .binary op => 8 - (Kind.binary op).priority
  | .unary .plus | .unary .minus => 2
  | .likeRegex => 1
  | _ => 0

theorem Kind.level_add_priority_le {k : Kind} (h : k ≠ .sequence) : k.level + k.priority ≤ 8 := by
  cases k with
  | sequence => exact absurd rfl h
  | binary op => cases op <;> decide
  | unary op => cases op <;> decide
  | method m => cases m <;> decide
  | _ => decide

theorem Kind.level_le (k : Kind) : k.level ≤ 7 := by
  cases k with
  | binary op => cases op <;> decide
  | unary op => cases op <;> decide
  | method m => cases m <;> decide
  | _ => decide

/-- An expression is read back from its text, in parentheses or not, once the reader goes as deep
as the expression has items. -/
structure Readable (e : Expr) : Prop where
  plain : ∀ n, e.size ≤ n + 1 → e.item.kind ≠ .sequence →
    Reads n e.item.kind.level e (e.text false false)
  enclosed : ∀ n, e.size ≤ n → Reads n 0 e (e.text false true)
  listed : ∀ n s, e.size ≤ n → Closes s →
    listing (element n) n (e.text false false ++ s) = some (e, s)

/-- The rest of a chain is read back, and begins like an accessor. -/
structure Chained (e : Expr) : Prop where
  first : ∃ c t, e.text true true = c :: t ∧ c ∈ ['.', '[', '?']
  read : ∀ n k s, e.size ≤ n → e.size ≤ k → Ends 0 s →
    accessors (element n) n k (e.text true true ++ s) = some (some e, s)

namespace Readable

variable {e : Expr} {n j : Nat} {s : List Char}

theorem operand (h : Readable e) (brackets : Kind → Bool) (size : e.size ≤ n)
    (loose : brackets e.item.kind = false → e.item.kind ≠ .sequence ∧ e.item.kind.level ≤ j) :
    Reads n j e (e.piece.operand brackets) := by
  rw [Piece.operand, Expr.piece_kind]
  cases wanted : brackets e.item.kind with
  | false =>
      obtain ⟨single, le⟩ := loose wanted
      exact (h.plain n (by omega) single).loosen le
  | true => exact (h.enclosed n size).loosen (Nat.zero_le j)

theorem element (h : Readable e) (size : e.size < n) (ends : Ends 7 s) :
    Reading.element n (e.piece.element ++ s) = some (e, s) := by
  cases n with
  | zero => cases size
  | succ n =>
      refine h.operand (j := 7) _ (Nat.le_of_lt_succ size) (fun single => ?_) s ends
      exact ⟨by simpa using single, e.item.kind.level_le⟩

/-- What stands in parentheses is closed by the second of them. -/
theorem closed (h : Readable e) (size : e.size ≤ n) :
    Reading.closed (Reading.element n) n (e.piece.operand (fun _ => false) ++ ')' :: s) =
      some (e, s) :=
  closed_of_listing (h.listed n _ size (.close (by simp)))

end Readable

section Items

variable {x : Item String Expr (Option Expr)} {next : Option Expr} {n : Nat} {s u : List Char}

/-- The text of an item whose operands are expressions. -/
def Item.written (x : Item String Expr (Option Expr)) (inKey brackets hasNext : Bool) :
    List Char :=
  (x.map id Expr.piece (Option.map Expr.piece)).text inKey brackets hasNext

theorem chained_boundary (chained : ∀ e ∈ next, Chained e) (ends : Ends 0 s) :
    Boundary (Piece.rest (next.map Expr.piece) ++ s) := by
  cases next with
  | none => exact ends.boundary
  | some e =>
      obtain ⟨c, t, text, first⟩ := (chained e rfl).first
      rw [Expr.text] at text
      simp only [Option.map_some, Piece.rest, text, List.cons_append]
      exact .accessor first

theorem accessors_nil (ends : Ends 0 s) (k : Nat) :
    accessors (element n) n k s = some (none, s) := by
  cases k with
  | zero => rfl
  | succ k => rw [accessors, accessor_eq_none ends]

theorem chained_read (chained : ∀ e ∈ next, Chained e) (size : ∀ e ∈ next, e.size ≤ n)
    {k : Nat} (count : ∀ e ∈ next, e.size ≤ k) (ends : Ends 0 s) :
    accessors (element n) n k (Piece.rest (next.map Expr.piece) ++ s) = some (next, s) := by
  cases next with
  | none => exact accessors_nil ends k
  | some e => exact (chained e rfl).read n k s (size e rfl) (count e rfl) ends

/-- An item that can be read in front of any boundary is read with the rest of its chain. -/
theorem reads_of_head {t : List Char} (chained : ∀ e ∈ next, Chained e)
    (size : (Expr.mk x next).size ≤ n + 1)
    (first : ∀ u, Boundary u → (next = none → Ends 0 u) →
      head (element n) n (t ++ u) = some (x, u)) :
    Reads n 0 (.mk x next) (t ++ Piece.rest (next.map Expr.piece)) := by
  intro s ends
  have short : ∀ e ∈ next, e.size ≤ n := by
    rintro e rfl
    have := Expr.size_next_lt x e
    omega
  have last (h : next = none) : Ends 0 (Piece.rest (next.map Expr.piece) ++ s) := by
    rw [h]
    exact ends
  rw [List.append_assoc]
  exact level_zero (first _ (chained_boundary chained ends) last)
    (chained_read chained short short ends)

theorem separated_cons (separator t : List Char) (ts : List (List Char)) (s : List Char) :
    separated separator (t :: ts) ++ s = t ++ (ts.flatMap (separator ++ ·) ++ s) := by
  rw [separated, List.append_assoc]

theorem piece_string (s : String) (brackets : Kind → Bool) :
    (Expr.single (.string s)).piece.operand brackets = Quoted.encode s.toList := by
  rw [Expr.single, Expr.piece_mk]
  exact List.append_nil _

theorem field_read {f : Expr × Expr} (bare : f.1.IsBareString) (value : Readable f.2)
    (size : f.2.size < n) (ends : Ends 7 s) :
    field (element n) (Piece.field (f.1.piece, f.2.piece) ++ s) = some (f, s) := by
  obtain ⟨k, v⟩ := f
  obtain ⟨t, rfl⟩ := bare
  have read := value.element size ends
  rw [Piece.field, piece_string, List.append_assoc, encode_append]
  simp [field, unquote_encode, read]

theorem subscript_read {a : Expr × Option Expr} (start : Readable a.1)
    (stop : ∀ e ∈ a.2, Readable e) (size : a.1.size < n) (size' : ∀ e ∈ a.2, e.size < n)
    (ends : Ends 7 s) (single : strip [' ', 't', 'o', ' '] s = none) :
    subscript (element n) (Piece.subscript (a.1.piece, a.2.map Expr.piece) ++ s) =
      some (a, s) := by
  obtain ⟨a, b⟩ := a
  cases b with
  | none =>
      have read := start.element size ends
      rw [Option.map_none, Piece.subscript, subscript, read]
      simp [single]
  | some b =>
      have read := start.element (s := ' ' :: 't' :: 'o' :: ' ' :: (b.piece.element ++ s)) size
        .beforeTo
      have read' := (stop b rfl).element (size' b rfl) ends
      rw [Option.map_some, Piece.subscript, subscript, List.append_assoc]
      simp only [List.cons_append, List.nil_append, read, Option.bind_eq_bind, Option.bind_some]
      simp [read']

theorem fields_read {fs : List (Expr × Expr)} (bare : ∀ f ∈ fs, f.1.IsBareString)
    (readable : ∀ f ∈ fs, Readable f.2) (size : ∀ f ∈ fs, f.2.size < n) (count : fs.length ≤ n) :
    more [',', ' '] (field (element n)) n
        ((fs.map fun f => Piece.field (f.1.piece, f.2.piece)).flatMap ([',', ' '] ++ ·) ++
          '\x7d' :: s) = some (fs, '\x7d' :: s) :=
  more_append (Ends 7)
    (fun f mem _ ends => field_read (bare f mem) (readable f mem) (size f mem) ends)
    (fun _ => .close (by simp)) (.close (by simp)) (by simp) count

theorem elements_read (es : List Expr) (readable : ∀ e ∈ es, Readable e)
    (size : ∀ e ∈ es, e.size < n) (count : es.length ≤ n) (closes : Closes s) :
    more [',', ' '] (element n) n
        ((es.map fun e => e.piece.element).flatMap ([',', ' '] ++ ·) ++ s) = some (es, s) :=
  more_append (Ends 7)
    (fun e mem _ ends => (readable e mem).element (size e mem) ends)
    (fun _ => .close (by simp)) closes.ends closes.stop count

theorem subscripts_read {ss : List (Expr × Option Expr)}
    (readable : ∀ a ∈ ss, Readable a.1 ∧ ∀ e ∈ a.2, Readable e)
    (size : ∀ a ∈ ss, a.1.size < n ∧ ∀ e ∈ a.2, e.size < n) (count : ss.length ≤ n) :
    more [','] (subscript (element n)) n
        ((ss.map fun a => Piece.subscript (a.1.piece, a.2.map Expr.piece)).flatMap ([','] ++ ·) ++
          ']' :: s) = some (ss, ']' :: s) :=
  more_append (fun s => Ends 7 s ∧ strip [' ', 't', 'o', ' '] s = none)
    (fun a mem _ follows => subscript_read (readable a mem).1 (readable a mem).2 (size a mem).1
      (size a mem).2 follows.1 follows.2)
    (fun _ => ⟨.close (by simp), by simp⟩) ⟨.close (by simp), by simp⟩ (by simp) count

/-! The first item of a chain. -/

theorem size_of_operand (size : (Expr.mk x next).size ≤ n + 1) {e : Expr} (mem : e ∈ x.operands) :
    e.size + x.operands.length ≤ n + 1 := by
  have := Expr.size_operand_le next mem
  omega

theorem size_le_of_operand (size : (Expr.mk x next).size ≤ n + 1) {e : Expr}
    (mem : e ∈ x.operands) : e.size ≤ n := by
  have := size_of_operand size mem
  have := List.length_pos_of_mem mem
  omega

/-- An item whose text is the same with and without parentheses. -/
theorem readable_atom {t : List Char} (chained : ∀ e ∈ next, Chained e)
    (text : ∀ brackets, x.written false brackets next.isSome = t)
    (first : ∀ n u, (Expr.mk x next).size ≤ n + 1 → Boundary u → (next = none → Ends 0 u) →
      head (element n) n (t ++ u) = some (x, u)) : Readable (.mk x next) := by
  have written (brackets : Bool) :
      (Expr.mk x next).text false brackets = t ++ Piece.rest (next.map Expr.piece) := by
    rw [Expr.text_mk, ← text brackets, Item.written]
  have reads (n : Nat) (size : (Expr.mk x next).size ≤ n + 1) (brackets : Bool) :
      Reads n 0 (.mk x next) ((Expr.mk x next).text false brackets) := by
    rw [written]
    exact reads_of_head chained size fun u => first n u size
  refine ⟨fun n size _ => (reads n size false).loosen (Nat.zero_le _),
    fun n size => reads n (by omega) true, fun n s size closes => ?_⟩
  cases n with
  | zero => exact absurd size (Nat.not_le.2 (Expr.size_pos _))
  | succ n =>
      exact listing_of_inner ((reads n size false).element (by decide) closes.ends) closes

theorem head_word {t : List Char}
    (h : (t, x) ∈ [(['n', 'u', 'l', 'l'], Item.null), (['t', 'r', 'u', 'e'], .bool true),
      (['f', 'a', 'l', 's', 'e'], .bool false), (['l', 'a', 's', 't'], .last), (['@'], .current)])
    (u : List Char) : head (element n) n (t ++ u) = some (x, u) := by
  fin_cases h <;> rfl

theorem head_root (boundary : Boundary u) : head (element n) n ('$' :: u) = some (.root, u) := by
  have other := boundary.head?_ne (c := '"') (by decide)
  rw [head_of_symbol (by decide)]
  cases u with
  | nil => rfl
  | cons c u =>
      have different : '"' ≠ c := by
        intro same
        exact other (congrArg some same.symm)
      simp [symbol, different]

theorem head_string (t : String) (u : List Char) :
    head (element n) n (Quoted.encode t.toList ++ u) = some (.string t, u) := by
  rw [encode_append, head_of_symbol (by decide)]
  simp [symbol, unquote_encode]

theorem head_var (t : String) (u : List Char) :
    head (element n) n ('$' :: (Quoted.encode t.toList ++ u)) = some (.var t, u) := by
  rw [encode_append, head_of_symbol (by decide)]
  simp [symbol, unquote_encode]

theorem head_array_none (u : List Char) :
    head (element n) n ('[' :: ']' :: u) = some (.array none, u) := by
  have nothing : element n (']' :: u) = none := element_eq_none (by simp)
  rw [head_of_symbol (by decide)]
  simp [symbol, listing, nothing]

theorem head_array_some {e : Expr} (readable : Readable e) (size : e.size ≤ n) (u : List Char) :
    head (element n) n ('[' :: (e.piece.operand (fun _ => false) ++ ']' :: u)) =
      some (.array (some e), u) := by
  have read : listing (element n) n (e.piece.operand (fun _ => false) ++ ']' :: u) =
      some (e, ']' :: u) := readable.listed n _ size (.close (by simp))
  rw [head_of_symbol (by decide)]
  simp [symbol, read]

theorem head_object {fs : List (Expr × Expr)} (bare : ∀ f ∈ fs, f.1.IsBareString)
    (readable : ∀ f ∈ fs, Readable f.2) (size : ∀ f ∈ fs, f.2.size < n) (count : fs.length ≤ n)
    (u : List Char) :
    head (element n) n ('\x7b' :: (separated [',', ' ']
        (fs.map fun f => Piece.field (f.1.piece, f.2.piece)) ++ '\x7d' :: u)) =
      some (.object fs, u) := by
  rw [head_of_symbol (by decide)]
  cases fs with
  | nil => rfl
  | cons f fs =>
      have later := fields_read (s := u) (fun f mem => bare f (by simp [mem]))
        (fun f mem => readable f (by simp [mem])) (fun f mem => size f (by simp [mem]))
        (Nat.le_of_succ_le count)
      have first := field_read (s := (fs.map fun f => Piece.field (f.1.piece, f.2.piece)).flatMap
        ([',', ' '] ++ ·) ++ '\x7d' :: u) (bare f (by simp)) (readable f (by simp))
        (size f (by simp)) ?_
      · rw [List.map_cons, separated_cons]
        simp only [symbol, oneOf_cons, after_cons_cons, after_nil, first, later,
          Option.bind_eq_bind, Option.bind_some]
        simp
      · cases fs with
        | nil => exact .close (by simp)
        | cons _ _ => exact .close (by simp)

theorem head_not {e : Expr} (readable : Readable e) (size : e.size ≤ n) (u : List Char) :
    head (element n) n ('!' :: '(' :: (e.piece.operand (fun _ => false) ++ ')' :: u)) =
      some (.unary .not e, u) := by
  rw [head_of_symbol (by decide)]
  simp [symbol, readable.closed size]

theorem head_exists {e : Expr} (readable : Readable e) (size : e.size ≤ n) (u : List Char) :
    head (element n) n ('e' :: 'x' :: 'i' :: 's' :: 't' :: 's' :: ' ' :: '(' ::
      (e.piece.operand (fun _ => false) ++ ')' :: u)) = some (.unary .exists e, u) := by
  rw [head_of_symbol (by decide)]
  simp [symbol, readable.closed size]

theorem head_isUnknown {e : Expr} (readable : Readable e) (size : e.size ≤ n) (u : List Char) :
    head (element n) n ('(' :: (e.piece.operand (fun _ => false) ++ ')' :: (unknownToken ++ u))) =
      some (.unary .isUnknown e, u) := by
  rw [head_of_symbol (by decide)]
  simp [symbol, readable.closed size]

/-- What stands in parentheses alone goes on as the item it is. -/
theorem head_enclosed {e : Expr} {t : List Char}
    (listed : ∀ s, Closes s → listing (element n) n (t ++ s) = some (e, s))
    (boundary : Boundary u) : head (element n) n ('(' :: (t ++ ')' :: u)) = some (e.item, u) := by
  have read := closed_of_listing (listed (')' :: u) (.close (by simp)))
  rw [head_of_symbol (by decide)]
  simp [symbol, read, boundary.isUnknown]

theorem head_numeric {t : String} (decimal : IsDecimal t)
    (stop : ∀ c ∈ u.head?, ¬ isNumeral c) :
    head (element n) n (t.toList ++ u) = some (.numeric t, u) := by
  obtain ⟨whole, fraction, present, digits, text⟩ := decimal
  have run : ∀ c ∈ t.toList, isNumeral c := by
    intro c mem
    obtain text | text := text
    · have := digits c (by simp [← text, mem])
      simp [isNumeral, this]
    · have part : c ∈ whole ∨ c = '.' ∨ c ∈ fraction := by simpa [text] using mem
      obtain part | rfl | part := part
      · simp [isNumeral, digits c (by simp [part])]
      · rfl
      · simp [isNumeral, digits c (by simp [part])]
  have nonempty : t.toList ≠ [] := by
    obtain text | text := text
    · rwa [text]
    · simp [text]
  rw [head, numeral_append nonempty run stop]
  simp

/-! Sequences and operators. -/

/-- An expression that stands in parentheses with nothing behind them. -/
theorem readable_enclosed {e : Expr} (bare : e.next = none)
    (plain : ∀ n, e.size ≤ n + 1 → e.item.kind ≠ .sequence →
      Reads n e.item.kind.level e (e.text false false))
    (listed : ∀ n s, e.size ≤ n → Closes s →
      listing (element n) n (e.text false false ++ s) = some (e, s))
    (text : e.text false true = '(' :: (e.text false false ++ [')'])) : Readable e := by
  refine ⟨plain, fun n size s ends => ?_, listed⟩
  have first : head (element n) n ('(' :: (e.text false false ++ [')']) ++ s) =
      some (e.item, s) := by
    simpa using head_enclosed (fun s closes => listed n s size closes) ends.boundary
  have whole := level_zero first (accessors_nil ends n)
  obtain ⟨x, next⟩ := e
  cases bare
  rw [text]
  exact whole

/-- An operator that is read as its text goes is read in parentheses, too. -/
theorem readable_operator {e : Expr} (bare : e.next = none)
    (plain : ∀ n, e.size ≤ n + 1 → Reads n e.item.kind.level e (e.text false false))
    (text : e.text false true = '(' :: (e.text false false ++ [')'])) : Readable e := by
  refine readable_enclosed bare (fun n size _ => plain n size) (fun n s size closes => ?_) text
  cases n with
  | zero => exact absurd size (Nat.not_le.2 e.size_pos)
  | succ n =>
      exact listing_of_inner ((plain n size).element e.item.kind.level_le closes.ends) closes

theorem listing_sequence {es : List Expr} (many : 2 ≤ es.length)
    (readable : ∀ e ∈ es, Readable e) (size : (Expr.single (.sequence es)).size ≤ n)
    (closes : Closes s) :
    listing (element n) n (separated [',', ' '] (es.map fun e => e.piece.element) ++ s) =
      some (.single (.sequence es), s) := by
  have small : ∀ e ∈ es, e.size + es.length ≤ n := by
    intro e mem
    have := Expr.size_operand_le (x := .sequence es) none (by simpa using mem)
    simp only [Item.operands_sequence, Option.map_none, Option.getD_none] at this
    exact Nat.le_trans this size
  cases es with
  | nil => simp at many
  | cons e es =>
      have short (e' : Expr) (mem : e' ∈ e :: es) : e'.size < n := by
        have := small e' mem
        rw [List.length_cons] at this
        omega
      have count : es.length ≤ n := by
        have := small e (by simp)
        rw [List.length_cons] at this
        omega
      have follows : Ends 7 ((es.map fun e => e.piece.element).flatMap ([',', ' '] ++ ·) ++ s) := by
        cases es with
        | nil => exact closes.ends
        | cons _ _ => exact .close (by simp)
      have first := (readable e (by simp)).element (short e (by simp)) follows
      have later := elements_read es (fun e mem => readable e (by simp [mem]))
        (fun e mem => short e (by simp [mem])) count closes
      have several : es ≠ [] := by
        intro none
        simp [none] at many
      rw [List.map_cons, separated_cons, listing, first]
      simp only [Option.bind_eq_bind, Option.bind_some, later, several, if_false]
      rfl

theorem operand_loose {p j : Nat} {k : Kind} (near : 8 ≤ p + 1 + j)
    (h : decide (k.priority ≤ p) = false) : k ≠ .sequence ∧ k.level ≤ j := by
  have above : p < k.priority := by simpa using h
  have single : k ≠ .sequence := by
    intro same
    simp [same, Kind.priority] at above
  have := Kind.level_add_priority_le single
  exact ⟨single, by omega⟩

theorem reads_binary {op : BinaryOp} {l r : Expr} (left : Readable l) (right : Readable r)
    (size : l.size ≤ n) (size' : r.size ≤ n) :
    Reads n (Kind.binary op).level (.single (.binary op l r))
      ((Item.binary op l r).written false false false) := by
  have priority : 1 ≤ (Kind.binary op).priority ∧ (Kind.binary op).priority ≤ 5 := by
    cases op <;> decide
  obtain ⟨j, rank⟩ : ∃ j, (Kind.binary op).priority + j = 5 :=
    ⟨5 - (Kind.binary op).priority, by omega⟩
  have level_eq : (Kind.binary op).level = j + 3 := by
    rw [Kind.level]
    omega
  have number : 5 - j = (Kind.binary op).priority := by omega
  have loose (k : Kind) (h : decide (k.priority ≤ (Kind.binary op).priority) = false) :
      k ≠ .sequence ∧ k.level ≤ j + 2 := operand_loose (j := j + 2) (by omega) h
  rw [level_eq]
  intro s ends
  have first := left.operand (·.priority ≤ (Kind.binary op).priority) size (loose _) (spelling op ++
    (r.piece.operand (·.priority ≤ (Kind.binary op).priority) ++ s)) (.beforeOperator (by omega))
  have second := right.operand (·.priority ≤ (Kind.binary op).priority) size' (loose _) s
    (ends.mono (Nat.le_succ _))
  have text : (Item.binary op l r).written false false false ++ s =
      l.piece.operand (·.priority ≤ (Kind.binary op).priority) ++ (spelling op ++
        (r.piece.operand (·.priority ≤ (Kind.binary op).priority) ++ s)) := by
    simp [Item.written, Item.map, Item.text, enclosed, spelling]
  rw [text, level, first]
  simp only [Option.bind_eq_bind, Option.bind_some, number, operator_spelling, second]
  rfl

theorem reads_sign {op : UnaryOp} {c : Char} {a : Expr} (readable : Readable a) (size : a.size ≤ n)
    (sign : (op, c) ∈ [(UnaryOp.plus, '+'), (UnaryOp.minus, '-')]) :
    Reads n 2 (.single (.unary op a)) (c :: a.piece.operand (·.priority ≤ 6)) := by
  intro s ends
  have argument := readable.operand (j := 1) (·.priority ≤ 6) size (operand_loose (by decide)) s
    (ends.mono (by decide))
  have unread (c : Char) (mem : c ∈ ['+', '-']) (s : List Char) :
      level (element n) n 1 (c :: s) = none := by
    have silent : head (element n) n (c :: s) = none := by
      fin_cases mem
      all_goals
        rw [head_of_symbol (by decide)]
        rfl
    rw [level, level, silent]
    rfl
  fin_cases sign
  · rw [List.cons_append, level, unread _ (by simp)]
    simp [signed, argument]
  · rw [List.cons_append, level, unread _ (by simp)]
    simp [signed, argument]

theorem reads_likeRegex {e : Expr} {p : String} {f : RegexFlags} (readable : Readable e)
    (size : e.size ≤ n) (defined : f.bits < 32) :
    Reads n 1 (.single (.likeRegex e p f)) ((Item.likeRegex e p f).written false false false) := by
  intro s ends
  have always (k : Kind) : decide (k.priority ≤ Kind.likeRegex.priority) = true := by
    cases k with
    | binary op => cases op <;> decide
    | unary op => cases op <;> decide
    | method m => cases m <;> decide
    | _ => decide
  have operand := readable.operand (j := 0) (·.priority ≤ Kind.likeRegex.priority) size
    (fun h => by simp [always] at h) (likeRegexToken ++ (p.toList.flatMap Quoted.escape ++
      '"' :: (f.suffix.toList ++ s))) .beforeLikeRegex
  have text : (Item.likeRegex e p f).written false false false ++ s =
      e.piece.operand (·.priority ≤ Kind.likeRegex.priority) ++ (likeRegexToken ++
        (p.toList.flatMap Quoted.escape ++ '"' :: (f.suffix.toList ++ s))) := by
    simp [Item.written, Item.map, Item.text, enclosed, Quoted.encode]
  rw [text, level, operand]
  simp only [Option.bind_eq_bind, Option.bind_some, strip_append, unquote_encode,
    flags_suffix defined ends.flag, String.ofList_toList]
  rfl

end Items

end FlatPath
