import FlatPath.Proofs.Tokens

/-!
A reader for the canonical text of an expression. It reads at levels from the tightest to the
loosest: an item with its accessors, `like_regex`, signs, and the binary operators by priority. Of
each operator a level takes at most one, since the text has parentheses around an operand that binds
no tighter. What stands between brackets is read by a reader that is handed in, and `element` ties
the knot as often as it is told.
-/

namespace FlatPath.Reading

abbrev unknownToken : List Char := [' ', 'i', 's', ' ', 'u', 'n', 'k', 'n', 'o', 'w', 'n']

abbrev likeRegexToken : List Char :=
  [' ', 'l', 'i', 'k', 'e', '_', 'r', 'e', 'g', 'e', 'x', ' ', '"']

/-- Reads up to `n` things, each behind a separator. -/
def more {α : Type} (separator : List Char) (r : Reader α) : Nat → Reader (List α)
  | 0, s => some ([], s)
  | n + 1, s =>
    match strip separator s with
    | none => some ([], s)
    | some s => do
      let (a, s) ← r s
      let (as, s) ← more separator r n s
      return (a :: as, s)

section Levels

variable (inner : Reader Expr) (n : Nat)

/-- What stands between brackets: one expression, or a sequence. -/
def listing : Reader Expr := fun s => do
  let (e, s) ← inner s
  let (es, s) ← more [',', ' '] inner n s
  return (if es = [] then e else .single (.sequence (e :: es)), s)

/-- What stands in front of a closing parenthesis. -/
def closed : Reader Expr := fun s => do
  let (e, s) ← listing inner n s
  return (e, ← strip [')'] s)

def field : Reader (Expr × Expr) :=
  after ['"'] fun s => do
    let (k, s) ← unquote s
    let s ← strip [':', ' '] s
    let (v, s) ← inner s
    return ((.single (.string (String.ofList k)), v), s)

def subscript : Reader (Expr × Option Expr) := fun s => do
  let (a, s) ← inner s
  match strip [' ', 't', 'o', ' '] s with
  | none => return ((a, none), s)
  | some s => do
    let (b, s) ← inner s
    return ((a, some b), s)

/-- The first item of a chain, if it is not a numeral. What stands in parentheses goes on as the
item it is. -/
def symbol : Reader (Item String Expr (Option Expr)) :=
  oneOf [
    after ['('] fun s => do
      let (e, s) ← closed inner n s
      match strip unknownToken s with
      | none => return (e.item, s)
      | some s => return (.unary .isUnknown e, s),
    after ['!', '('] fun s => do
      let (e, s) ← closed inner n s
      return (.unary .not e, s),
    after ['e', 'x', 'i', 's', 't', 's', ' ', '('] fun s => do
      let (e, s) ← closed inner n s
      return (.unary .exists e, s),
    after ['"'] fun s => do
      let (t, s) ← unquote s
      return (.string (String.ofList t), s),
    after ['$', '"'] fun s => do
      let (t, s) ← unquote s
      return (.var (String.ofList t), s),
    after ['$'] fun s => some (.root, s),
    after ['@'] fun s => some (.current, s),
    after ['n', 'u', 'l', 'l'] fun s => some (.null, s),
    after ['t', 'r', 'u', 'e'] fun s => some (.bool true, s),
    after ['f', 'a', 'l', 's', 'e'] fun s => some (.bool false, s),
    after ['l', 'a', 's', 't'] fun s => some (.last, s),
    after ['['] fun s => do
      let (e, s) ← listing inner n s
      return (.array (some e), ← strip [']'] s),
    after ['[', ']'] fun s => some (.array none, s),
    after ['\x7b'] fun s => do
      let (f, s) ← field inner s
      let (fs, s) ← more [',', ' '] (field inner) n s
      return (.object (f :: fs), ← strip ['\x7d'] s),
    after ['\x7b', '\x7d'] fun s => some (.object [], s)]

/-- The first item of a chain. -/
def head : Reader (Item String Expr (Option Expr)) := fun s =>
  match numeral s with
  | some (t, s) => some (.numeric t, s)
  | none => symbol inner n s

abbrev datetimeToken : List Char := ['d', 'a', 't', 'e', 't', 'i', 'm', 'e', '(']

/-- What follows a dot. -/
def dotted : Reader (Item String Expr (Option Expr)) :=
  oneOf [
    after ['"'] fun s => do
      let (t, s) ← unquote s
      return (.key (String.ofList t), s),
    after ['*', '*'] fun s => do
      let (l, s) ← levels s
      return (.any l, s),
    after ['*'] fun s => some (.anyKey, s),
    after (datetimeToken ++ [')']) fun s => some (.datetime none, s),
    after (datetimeToken ++ ['"']) fun s => do
      let (t, s) ← unquote s
      return (.datetime (some (.single (.string (String.ofList t)))), ← strip [')'] s),
    fun s => do
      let (m, s) ← method s
      return (.method m, s)]

def accessor : Reader (Item String Expr (Option Expr)) :=
  oneOf [
    after ['.'] dotted,
    after ['['] fun s => do
      let (a, s) ← subscript inner s
      let (as, s) ← more [','] (subscript inner) n s
      return (.indexArray (a :: as), ← strip [']'] s),
    after ['[', '*', ']'] fun s => some (.anyArray, s),
    after ['?', '('] fun s => do
      let (e, s) ← closed inner n s
      return (.unary .filter e, s)]

/-- Up to so many accessors. -/
def accessors : Nat → Reader (Option Expr)
  | 0, s => some (none, s)
  | k + 1, s =>
    match accessor inner n s with
    | none => some (none, s)
    | some (x, s) => do
      let (next, s) ← accessors k s
      return (some (.mk x next), s)

/-- A sign and its operand. -/
def signed (operand : Reader Expr) : Reader Expr :=
  oneOf [
    after ['+'] fun s => do
      let (e, s) ← operand s
      return (.single (.unary .plus e), s),
    after ['-'] fun s => do
      let (e, s) ← operand s
      return (.single (.unary .minus e), s)]

/-- An expression at a level; level `j` takes the operators of priority `8 - j`. -/
def level : Nat → Reader Expr
  | 0, s => do
    let (x, s) ← head inner n s
    let (next, s) ← accessors inner n n s
    return (.mk x next, s)
  | 1, s => do
    let (e, s) ← level 0 s
    match strip likeRegexToken s with
    | none => return (e, s)
    | some s => do
      let (p, s) ← unquote s
      let (f, s) ← flags s
      return (.single (.likeRegex e (String.ofList p) f), s)
  | 2, s => (level 1 s).or (signed (level 1) s)
  | j + 3, s => do
    let (l, s) ← level (j + 2) s
    match operator (5 - j) s with
    | none => return (l, s)
    | some (op, s) => do
      let (r, s) ← level (j + 2) s
      return (.single (.binary op l r), s)

end Levels

/-- An expression that is not a sequence, with brackets nested in it less than `n` times. -/
def element : Nat → Reader Expr
  | 0, _ => none
  | n + 1, s => level (element n) n 7 s

/-- A whole path, with its modifiers in front. -/
def path (n : Nat) (s : List Char) : Option Path := do
  let (extensions, s) := match strip ['p', 'g', ' '] s with
    | none => (false, s)
    | some s => (true, s)
  let (lax, s) := match strip ['s', 't', 'r', 'i', 'c', 't', ' '] s with
    | none => (true, s)
    | some s => (false, s)
  let (expr, s) ← listing (element n) n s
  if s = [] then some { expr, lax, extensions } else none

/-! What may stand behind an expression. -/

/-- What may stand behind an expression at a level: nothing that could belong to it. -/
structure Ends (j : Nat) (s : List Char) : Prop where
  first : ∀ c ∈ s.head?, c ∈ [')', ',', ']', '\x7d', ' ']
  isUnknown : strip unknownToken s = none
  flag : strip flagToken s = none
  likeRegex : 0 < j → strip likeRegexToken s = none
  operator : ∀ op, 8 ≤ (Kind.binary op).priority + j → strip (spelling op) s = none

namespace Ends

variable {j k : Nat} {c : Char} {s : List Char}

theorem mono (h : Ends k s) (le : j ≤ k) : Ends j s where
  first := h.first
  isUnknown := h.isUnknown
  flag := h.flag
  likeRegex := fun positive => h.likeRegex (by omega)
  operator := fun op near => h.operator op (by omega)

theorem nil : Ends j [] where
  first := by simp
  isUnknown := rfl
  flag := rfl
  likeRegex := fun _ => rfl
  operator := fun _ _ => rfl

theorem close (h : c ∈ [')', ',', ']', '\x7d']) : Ends j (c :: s) := by
  have visible : ' ' ≠ c := by
    rintro rfl
    simp at h
  exact {
    first := by
      rintro d ⟨⟩
      exact List.mem_append_left [' '] h
    isUnknown := by simp [visible]
    flag := by simp [visible]
    likeRegex := fun _ => by simp [visible]
    operator := fun op _ => by simp [spelling, visible] }

theorem beforeTo : Ends j (' ' :: 't' :: 'o' :: ' ' :: s) where
  first := by simp
  isUnknown := by simp
  flag := by simp
  likeRegex := fun _ => by simp
  operator := fun op _ => by
    cases op <;> simp [spelling, BinaryOp.symbol]

theorem beforeLikeRegex : Ends 0 (likeRegexToken ++ s) where
  first := by simp
  isUnknown := by simp
  flag := by simp
  likeRegex := fun positive => absurd positive (by omega)
  operator := fun op _ => by
    cases op <;> simp [spelling, BinaryOp.symbol]

theorem beforeOperator {op : BinaryOp} (h : (Kind.binary op).priority + j < 8) :
    Ends j (spelling op ++ s) where
  first := by simp [spelling]
  isUnknown := by cases op <;> simp [spelling, BinaryOp.symbol]
  flag := by cases op <;> simp [spelling, BinaryOp.symbol]
  likeRegex := fun _ => by cases op <;> simp [spelling, BinaryOp.symbol]
  operator := fun op' near => by
    refine strip_spelling ?_ s
    rintro rfl
    omega

end Ends

/-- What may stand behind an item: the end of its chain, or another item. -/
structure Boundary (s : List Char) : Prop where
  first : ∀ c ∈ s.head?, c ∈ [')', ',', ']', '\x7d', ' ', '.', '[', '?']
  isUnknown : strip unknownToken s = none

theorem Ends.boundary {j : Nat} {s : List Char} (h : Ends j s) : Boundary s where
  first := fun c mem => List.mem_append_left ['.', '[', '?'] (h.first c mem)
  isUnknown := h.isUnknown

namespace Boundary

variable {c : Char} {s : List Char}

theorem accessor (h : c ∈ ['.', '[', '?']) : Boundary (c :: s) where
  first := by
    rintro d ⟨⟩
    exact List.mem_append_right [')', ',', ']', '\x7d', ' '] h
  isUnknown := by
    have visible : ' ' ≠ c := by
      rintro rfl
      simp at h
    simp [visible]

theorem head?_ne (h : Boundary s) (other : c ∉ [')', ',', ']', '\x7d', ' ', '.', '[', '?']) :
    s.head? ≠ some c := fun same => other (h.first c same)

end Boundary

/-! Lists and brackets. -/

section Lists

variable {α : Type} {separator s : List Char} {r : Reader α}

theorem more_nil (stop : strip separator s = none) (n : Nat) :
    more separator r n s = some ([], s) := by
  cases n with
  | zero => rfl
  | succ n => rw [more, stop]

theorem more_append (follows : List Char → Prop) {text : α → List Char} {as : List α} {n : Nat}
    (read : ∀ a ∈ as, ∀ s, follows s → r (text a ++ s) = some (a, s))
    (again : ∀ s, follows (separator ++ s)) (last : follows s) (stop : strip separator s = none)
    (count : as.length ≤ n) :
    more separator r n ((as.map text).flatMap (separator ++ ·) ++ s) = some (as, s) := by
  induction as generalizing n with
  | nil => exact more_nil stop n
  | cons a as ih =>
      cases n with
      | zero => cases count
      | succ n =>
          have rest := ih (fun a mem => read a (by simp [mem])) (Nat.le_of_succ_le_succ count)
          have later : follows ((as.map text).flatMap (separator ++ ·) ++ s) := by
            cases as with
            | nil => exact last
            | cons b as =>
                simp only [List.map_cons, List.flatMap_cons, List.append_assoc]
                exact again _
          have first := read a (by simp) _ later
          simp only [List.map_cons, List.flatMap_cons, List.append_assoc, more, strip_append,
            first, rest, Option.bind_eq_bind, Option.bind_some]
          rfl

end Lists

section Brackets

variable {inner : Reader Expr} {n : Nat} {e : Expr} {t s : List Char}

/-- What may stand behind everything between brackets. -/
structure Closes (s : List Char) : Prop where
  ends : Ends 7 s
  stop : strip [',', ' '] s = none

theorem Closes.nil : Closes [] := ⟨.nil, rfl⟩

theorem Closes.close {c : Char} (h : c ∈ [')', ']']) : Closes (c :: s) := by
  have other : ',' ≠ c := by
    rintro rfl
    simp at h
  refine ⟨.close ?_, by simp [other]⟩
  obtain rfl | rfl : c = ')' ∨ c = ']' := by simpa using h
  · simp
  · simp

theorem listing_of_inner (read : inner (t ++ s) = some (e, s)) (closes : Closes s) :
    listing inner n (t ++ s) = some (e, s) := by
  simp [listing, read, more_nil closes.stop]

theorem closed_of_listing (read : listing inner n (t ++ ')' :: s) = some (e, ')' :: s)) :
    closed inner n (t ++ ')' :: s) = some (e, s) := by
  simp [closed, read]

end Brackets

/-! Levels. -/

section Levels

variable {inner : Reader Expr} {n j : Nat} {e : Expr} {t s : List Char}

theorem accessor_eq_none (h : Ends j s) : accessor inner n s = none := by
  cases s with
  | nil => rfl
  | cons c s =>
      have first := h.first c rfl
      fin_cases first <;> rfl

theorem level_zero {x : Item String Expr (Option Expr)} {next : Option Expr} {u : List Char}
    (first : head inner n (t ++ u) = some (x, u)) (rest : accessors inner n n u = some (next, s)) :
    level inner n 0 (t ++ u) = some (.mk x next, s) := by
  simp [level, first, rest]

theorem head_of_symbol {c : Char} (h : isNumeral c = false) :
    head inner n (c :: s) = symbol inner n (c :: s) := by
  simp [head, numeral, h]

/-- Where no item begins there is nothing but a sign to read. -/
theorem level_eq_none {c : Char} (silent : head inner n (c :: s) = none) (plus : c ≠ '+')
    (minus : c ≠ '-') : ∀ j, level inner n j (c :: s) = none
  | 0 => by
    rw [level, silent]
    rfl
  | 1 => by
    rw [level, level_eq_none silent plus minus 0]
    rfl
  | 2 => by
    have unsigned : signed (level inner n 1) (c :: s) = none := by
      simp [signed, plus.symm, minus.symm]
    rw [level, level_eq_none silent plus minus 1, unsigned]
    rfl
  | j + 3 => by
    rw [level, level_eq_none silent plus minus (j + 2)]
    rfl

theorem element_eq_none {c : Char} (h : c ∈ ['*', ']', 'p', 's']) : element n (c :: s) = none := by
  cases n with
  | zero => rfl
  | succ n =>
      have silent : head (element n) n (c :: s) = none := by
        fin_cases h
        all_goals
          rw [head_of_symbol (by decide)]
          rfl
      refine level_eq_none silent ?_ ?_ 7
      · rintro rfl
        simp at h
      · rintro rfl
        simp at h

/-- This text is read as the expression at the level. -/
def Reads (n j : Nat) (e : Expr) (t : List Char) : Prop :=
  ∀ s, Ends j s → level (element n) n j (t ++ s) = some (e, s)

theorem Reads.loosen_one (h : Reads n j e t) : Reads n (j + 1) e t := by
  intro s ends
  have read := h s (ends.mono (Nat.le_succ j))
  match j with
  | 0 =>
      have stop := ends.likeRegex (by omega)
      rw [level, read]
      simp only [Option.bind_eq_bind, Option.bind_some, stop]
      rfl
  | 1 => rw [level, read, Option.some_or]
  | j + 2 =>
      have stop : operator (5 - j) s = none := operator_eq_none fun op same =>
        ends.operator op (by omega)
      rw [level, read]
      simp only [Option.bind_eq_bind, Option.bind_some, stop]
      rfl

theorem Reads.loosen {k : Nat} (h : Reads n j e t) (le : j ≤ k) : Reads n k e t := by
  induction le with
  | refl => exact h
  | step _ ih => exact ih.loosen_one

theorem Reads.element (h : Reads n j e t) (le : j ≤ 7) (ends : Ends 7 s) :
    element (n + 1) (t ++ s) = some (e, s) :=
  h.loosen le s ends

end Levels

end FlatPath.Reading
