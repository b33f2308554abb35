import FlatPath.Proofs.HeadReading

/-!
Every accessor is read back from its text, as long as its operands and the rest of its chain are.
-/

namespace FlatPath

open Reading

section Items

variable {x : Item String Expr (Option Expr)} {next : Option Expr} {n : Nat} {s u : List Char}

theorem chained_of_accessor {c : Char} {t : List Char} (chained : ∀ e ∈ next, Chained e)
    (text : x.written true true next.isSome = c :: t) (dot : c ∈ ['.', '[', '?'])
    (first : ∀ n u, (Expr.mk x next).size ≤ n → Boundary u →
      accessor (element n) n (c :: (t ++ u)) = some (x, u)) : Chained (.mk x next) := by
  have written : (Expr.mk x next).text true true =
      c :: (t ++ Piece.rest (next.map Expr.piece)) := by
    rw [Expr.text_mk, ← List.cons_append, ← text, Item.written]
  refine ⟨⟨c, _, written, dot⟩, ?_⟩
  intro n k s size count ends
  have short : ∀ e ∈ next, e.size < (Expr.mk x next).size := by
    intro e mem
    cases mem
    exact Expr.size_next_lt x e
  rw [written, List.cons_append, List.append_assoc]
  cases k with
  | zero => exact absurd count (Nat.not_le.2 (Expr.size_pos _))
  | succ k =>
      have later := chained_read (k := k) chained
        (fun e mem => Nat.le_trans (Nat.le_of_lt (short e mem)) size)
        (fun e mem => Nat.le_of_lt_succ (Nat.lt_of_lt_of_le (short e mem) count)) ends
      rw [accessors, first n _ size (chained_boundary chained ends)]
      simp only [later, Option.bind_eq_bind, Option.bind_some]
      rfl

theorem accessor_key (t : String) (u : List Char) :
    accessor (element n) n ('.' :: (Quoted.encode t.toList ++ u)) = some (.key t, u) := by
  rw [encode_append]
  simp [accessor, dotted, unquote_encode]

theorem accessor_anyKey (boundary : Boundary u) :
    accessor (element n) n ('.' :: '*' :: u) = some (.anyKey, u) := by
  have other := boundary.head?_ne (c := '*') (by decide)
  cases u with
  | nil => rfl
  | cons c u =>
      have different : '*' ≠ c := by
        intro same
        exact other (congrArg some same.symm)
      simp [accessor, dotted, different]

theorem accessor_any (l : Levels) (boundary : Boundary u) :
    accessor (element n) n ('.' :: (l.text.toList ++ u)) = some (.any l, u) := by
  obtain ⟨t, text, read⟩ := levels_text l (boundary.head?_ne (c := '\x7b') (by decide))
  rw [text]
  simp [accessor, dotted, read]

theorem accessor_anyArray (u : List Char) :
    accessor (element n) n ('[' :: '*' :: ']' :: u) = some (.anyArray, u) := by
  have nothing : element n ('*' :: ']' :: u) = none := element_eq_none (by simp)
  simp [accessor, subscript, nothing]

theorem accessor_method (m : Method) (u : List Char) :
    accessor (element n) n ('.' :: (m.symbol.toList ++ '(' :: ')' :: u)) = some (.method m, u) := by
  have read := method_symbol m u
  -- No method has a name that begins like the other tokens behind a dot.
  have plain : dotted (m.symbol.toList ++ '(' :: ')' :: u) = some (.method m, u) := by
    cases m with
    | _ =>
        simp only [Method.symbol] at read
        simp at read
        simp [Method.symbol, dotted, read]
  simp [accessor, plain]

theorem accessor_datetime {t : Option Expr} (bare : ∀ e ∈ t, e.IsBareString) (u : List Char) :
    accessor (element n) n ('.' :: (datetimeToken ++
      (Piece.optional (t.map Expr.piece) ++ ')' :: u))) = some (.datetime t, u) := by
  cases t with
  | none => simp [accessor, dotted, Piece.optional]
  | some e =>
      obtain ⟨s, rfl⟩ := bare e rfl
      rw [Option.map_some, Piece.optional, piece_string, encode_append]
      simp [accessor, dotted, unquote_encode]

theorem accessor_filter {e : Expr} (readable : Readable e) (size : e.size ≤ n) (u : List Char) :
    accessor (element n) n ('?' :: '(' :: (e.piece.operand (fun _ => false) ++ ')' :: u)) =
      some (.unary .filter e, u) := by
  simp [accessor, readable.closed size]

theorem accessor_indexArray {ss : List (Expr × Option Expr)} (present : ss ≠ [])
    (readable : ∀ a ∈ ss, Readable a.1 ∧ ∀ e ∈ a.2, Readable e)
    (size : ∀ a ∈ ss, a.1.size < n ∧ ∀ e ∈ a.2, e.size < n) (count : ss.length ≤ n)
    (u : List Char) :
    accessor (element n) n ('[' :: (separated [',']
        (ss.map fun a => Piece.subscript (a.1.piece, a.2.map Expr.piece)) ++ ']' :: u)) =
      some (.indexArray ss, u) := by
  cases ss with
  | nil => exact absurd rfl present
  | cons a ss =>
      have later := subscripts_read (s := u) (fun a mem => readable a (by simp [mem]))
        (fun a mem => size a (by simp [mem])) (Nat.le_of_succ_le count)
      have follows : Ends 7 ((ss.map fun a => Piece.subscript (a.1.piece,
          a.2.map Expr.piece)).flatMap ([','] ++ ·) ++ ']' :: u) ∧
          strip [' ', 't', 'o', ' '] ((ss.map fun a => Piece.subscript (a.1.piece,
            a.2.map Expr.piece)).flatMap ([','] ++ ·) ++ ']' :: u) = none := by
        cases ss with
        | nil => exact ⟨.close (by simp), by simp⟩
        | cons _ _ => exact ⟨.close (by simp), by simp⟩
      have first := subscript_read (readable a (by simp)).1 (readable a (by simp)).2
        (size a (by simp)).1 (size a (by simp)).2 follows.1 follows.2
      rw [List.map_cons, separated_cons]
      simp only [accessor, oneOf_cons, after_cons_cons, after_nil, first, later,
        Option.bind_eq_bind, Option.bind_some]
      simp

end Items

end FlatPath
