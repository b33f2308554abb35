import FlatPath.Json.Basic

/-!
The tokens of a JSON document. Strings are cut out by their escapes alone; whether one spells a
text, valid UTF-8 with its surrogates paired, is kept as the token's content.
-/

namespace FlatPath.Json

inductive Token
  | openBrace | closeBrace
  | openBracket | closeBracket
  | comma | colon
  | null
  | bool (value : Bool)
  | number (literal : String)
  | string (text : Option String)
deriving DecidableEq, Inhabited

namespace Token

/-- The byte of an ASCII character. -/
@[reducible] def ascii (c : Char) : UInt8 :=
  .ofNat c.toNat

def isSpace (b : UInt8) : Bool :=
  b == ascii ' ' || b == ascii '\t' || b == ascii '\n' || b == ascii '\r'

def isDigit (b : UInt8) : Bool :=
  ascii '0' ≤ b && b ≤ ascii '9'

def hexValue? (b : UInt8) : Option Nat :=
  if isDigit b then some (b.toNat - 48)
  else if ascii 'a' ≤ b && b ≤ ascii 'f' then some (b.toNat - 87)
  else if ascii 'A' ≤ b && b ≤ ascii 'F' then some (b.toNat - 55)
  else none

/-- A piece of a string: a byte that stands for itself, or the value of an escape. -/
inductive Piece
  | byte (b : UInt8)
  | code (n : Nat)
deriving DecidableEq

/-- What the one-letter escapes stand for. -/
def letterEscape? (b : UInt8) : Option UInt8 :=
  if b = ascii '"' then some b
  else if b = ascii '\\' then some b
  else if b = ascii '/' then some b
  else if b = ascii 'b' then some 8
  else if b = ascii 'f' then some 12
  else if b = ascii 'n' then some 10
  else if b = ascii 'r' then some 13
  else if b = ascii 't' then some 9
  else none

def hexEscape? (a b c d : UInt8) : Option Nat := do
  return (((← hexValue? a) * 16 + (← hexValue? b)) * 16 + (← hexValue? c)) * 16 + (← hexValue? d)

/-- The pieces of a string up to its closing quote, and what follows. Control characters have to be
escaped. -/
def pieces (done : List Piece) : List UInt8 → Option (List Piece × List UInt8)
  | [] => none
  | b :: rest =>
    if b = ascii '"' then some (done.reverse, rest)
    else if b = ascii '\\' then
      match rest with
      | [] => none
      | e :: rest =>
        if e = ascii 'u' then
          match rest with
          | a :: b :: c :: d :: rest =>
            match hexEscape? a b c d with
            | some n => pieces (.code n :: done) rest
            | none => none
          | _ => none
        else
          match letterEscape? e with
          | some b => pieces (.byte b :: done) rest
          | none => none
    else if b < 32 then none
    else pieces (.byte b :: done) rest

def isLead (n : Nat) : Bool :=
  0xD800 ≤ n && n < 0xDC00

def isTrail (n : Nat) : Bool :=
  0xDC00 ≤ n && n < 0xE000

/-- The bytes that the pieces spell. Surrogates are paired, lead before trail. -/
def spell (done : List UInt8) : List Piece → Option (List UInt8)
  | [] => some done.reverse
  | .byte b :: rest => spell (b :: done) rest
  | .code n :: rest =>
    if isLead n then
      match rest with
      | .code m :: rest =>
        if isTrail m then
          let c := Char.ofNat (0x10000 + (n - 0xD800) * 0x400 + (m - 0xDC00))
          spell ((String.utf8EncodeChar c).reverse ++ done) rest
        else none
      | _ => none
    else if isTrail n then none
    else spell ((String.utf8EncodeChar (Char.ofNat n)).reverse ++ done) rest

def textOf (ps : List Piece) : Option String := do
  let bytes ← spell [] ps
  String.fromUTF8? bytes.toByteArray

/-- Digits and what follows them. -/
def digits (s : List UInt8) : List UInt8 × List UInt8 :=
  (s.takeWhile isDigit, s.dropWhile isDigit)

/-- A fraction, if a point announces one. -/
def fraction (s : List UInt8) : Option (List UInt8 × List UInt8) :=
  match s with
  | [] => some ([], [])
  | b :: rest =>
    if b = ascii '.' then
      let (ds, rest) := digits rest
      if ds.isEmpty then none else some (b :: ds, rest)
    else some ([], s)

def exponentSign : List UInt8 → List UInt8 × List UInt8
  | [] => ([], [])
  | b :: rest => if b = ascii '+' || b = ascii '-' then ([b], rest) else ([], b :: rest)

/-- An exponent, if a letter announces one. -/
def exponent (s : List UInt8) : Option (List UInt8 × List UInt8) :=
  match s with
  | [] => some ([], [])
  | b :: rest =>
    if b = ascii 'e' || b = ascii 'E' then
      let (sign, rest) := exponentSign rest
      let (ds, rest) := digits rest
      if ds.isEmpty then none else some (b :: (sign ++ ds), rest)
    else some ([], s)

/-- A number without its sign. Its integer part has no leading zero. -/
def unsigned (s : List UInt8) : Option (List UInt8 × List UInt8) := do
  let (ds, rest) := digits s
  if ds.isEmpty || (1 < ds.length && ds.head? == some (ascii '0')) then none
  else
    let (frac, rest) ← fraction rest
    let (exp, rest) ← exponent rest
    return (ds ++ frac ++ exp, rest)

def literal (bytes : List UInt8) : Token :=
  .number (String.ofList (bytes.map fun b => Char.ofNat b.toNat))

def marks : List (UInt8 × Token) :=
  [(ascii '\x7b', .openBrace), (ascii '\x7d', .closeBrace), (ascii '[', .openBracket),
    (ascii ']', .closeBracket), (ascii ',', .comma), (ascii ':', .colon)]

def keywords : List (List Char × Token) :=
  [(['n', 'u', 'l', 'l'], .null), (['t', 'r', 'u', 'e'], .bool true),
    (['f', 'a', 'l', 's', 'e'], .bool false)]

/-- The token at the front, and what follows it. -/
def next (s : List UInt8) : Option (Token × List UInt8) :=
  match s with
  | [] => none
  | b :: rest =>
    match marks.lookup b with
    | some t => some (t, rest)
    | none =>
      if b = ascii '"' then (pieces [] rest).map fun (ps, rest) => (.string (textOf ps), rest)
      else if b = ascii '-' then (unsigned rest).map fun (n, rest) => (literal (b :: n), rest)
      else if isDigit b then (unsigned s).map fun (n, rest) => (literal n, rest)
      else
        (keywords.find? fun (word, _) => (word.map ascii).isPrefixOf s).map fun (word, t) =>
          (t, s.drop word.length)

theorem pieces_rest {done ps : List Piece} {s r : List UInt8}
    (h : pieces done s = some (ps, r)) : r.length < s.length := by
  fun_induction pieces done s with
  | case1 | case3 | case5 | case6 | case8 | case9 => simp at h
  | case2 => cases h; simp
  | case4 | case7 | case10 =>
    rename_i ih
    have := ih h
    simp only [List.length_cons]; omega

theorem digits_rest (s : List UInt8) : (digits s).1.length + (digits s).2.length = s.length := by
  rw [← List.length_append, digits, List.takeWhile_append_dropWhile]

theorem fraction_rest {s f r : List UInt8} (h : fraction s = some (f, r)) :
    r.length ≤ s.length := by
  unfold fraction at h
  split at h
  · cases h; exact Nat.le_refl _
  · rename_i b rest
    have hd := digits_rest rest
    split at h
    · simp only at h
      split at h
      · cases h
      · cases h; simp only [List.length_cons]; omega
    · cases h; exact Nat.le_refl _

theorem exponentSign_rest (s : List UInt8) : (exponentSign s).2.length ≤ s.length := by
  unfold exponentSign
  split
  · exact Nat.le_refl _
  · split <;> simp

theorem exponent_rest {s e r : List UInt8} (h : exponent s = some (e, r)) :
    r.length ≤ s.length := by
  unfold exponent at h
  split at h
  · cases h; exact Nat.le_refl _
  · rename_i b rest
    have hs := exponentSign_rest rest
    have hd := digits_rest (exponentSign rest).2
    split at h
    · simp only at h
      split at h
      · cases h
      · cases h; simp only [List.length_cons]; omega
    · cases h; exact Nat.le_refl _

theorem unsigned_rest {s n r : List UInt8} (h : unsigned s = some (n, r)) :
    r.length < s.length := by
  unfold unsigned at h
  have hd := digits_rest s
  simp only at h
  split at h
  · cases h
  · rename_i hne
    have : 0 < (digits s).1.length := by
      simp only [Bool.or_eq_true, List.isEmpty_iff, not_or] at hne
      exact List.length_pos_iff.2 hne.1
    cases hf : fraction (digits s).2 with
    | none => rw [hf] at h; cases h
    | some p =>
      obtain ⟨f, t⟩ := p
      have := fraction_rest hf
      rw [hf] at h
      simp only [Option.bind_eq_bind, Option.bind_some] at h
      cases he : exponent t with
      | none => rw [he] at h; cases h
      | some q =>
        obtain ⟨e, u⟩ := q
        have := exponent_rest he
        rw [he] at h
        cases h
        show u.length < s.length
        omega

theorem next_rest {s r : List UInt8} {t : Token} (h : next s = some (t, r)) :
    r.length < s.length := by
  cases s with
  | nil => cases h
  | cons b rest =>
    simp only [next] at h
    split at h
    · cases h; exact Nat.lt_succ_self _
    · split at h
      · obtain ⟨⟨ps, u⟩, hp, he⟩ := Option.map_eq_some_iff.1 h
        cases he
        exact Nat.lt_succ_of_lt (pieces_rest hp)
      · split at h
        · obtain ⟨⟨n, u⟩, hu, he⟩ := Option.map_eq_some_iff.1 h
          cases he
          exact Nat.lt_succ_of_lt (unsigned_rest hu)
        · split at h
          · obtain ⟨⟨n, u⟩, hu, he⟩ := Option.map_eq_some_iff.1 h
            cases he
            exact unsigned_rest hu
          · obtain ⟨⟨word, t'⟩, hw, he⟩ := Option.map_eq_some_iff.1 h
            cases he
            have : 0 < word.length := by
              have := List.mem_of_find?_eq_some hw
              simp only [keywords, List.mem_cons, Prod.mk.injEq, List.not_mem_nil, or_false] at this
              rcases this with ⟨rfl, _⟩ | ⟨rfl, _⟩ | ⟨rfl, _⟩ <;> simp
            simp only [List.length_drop, List.length_cons]
            omega

/-- The tokens of a document, with those before `s` in reverse. -/
def scan (done : List Token) (s : List UInt8) : Option (List Token) :=
  match s with
  | [] => some done.reverse
  | b :: rest =>
    if isSpace b then scan done rest
    else
      match _h : next (b :: rest) with
      | none => none
      | some (t, rest) => scan (t :: done) rest
termination_by s.length
decreasing_by
  · simp
  · exact next_rest _h

end Token

end FlatPath.Json
