import FlatPath.Text.Alphabetic

/-!
The parts of a regular expression below its groups and alternatives: blanks and comments in
extended mode, escapes, counted repetitions and the openings of groups. Each reader takes the
characters after the one that called for it and leaves a rest no longer than them.
-/

namespace FlatPath.Pattern

/-- The mistakes that are mistakes in every dialect. -/
inductive Flaw
  | unclosedGroup
  | unopenedGroup
  | unclosedClass
  | reversedRange
  | missingOperand
  | reversedCount
  | incompleteEscape
deriving DecidableEq, Inhabited

def Flaw.reason : Flaw → String
  | .unclosedGroup => "unclosed group"
  | .unopenedGroup => "unopened group"
  | .unclosedClass => "unclosed character class"
  | .reversedRange => "invalid character class range, the start must be <= the end"
  | .missingOperand => "repetition operator missing expression"
  | .reversedCount => "invalid repetition count range, the start must be <= the end"
  | .incompleteEscape => "incomplete escape sequence, reached end of pattern prematurely"

/-- Why reading stops before the end: a flaw, or something that is left to the matcher. -/
inductive Stop
  | flaw (f : Flaw)
  | foreign
deriving DecidableEq

abbrev refuse {α : Type} (f : Flaw) : Except Stop α :=
  .error (.flaw f)

abbrev foreign {α : Type} : Except Stop α :=
  .error .foreign

/-- Drops blanks and comments, which run from `#` to the end of the line. -/
def skipBlanks (inComment : Bool) : List Char → List Char
  | [] => []
  | c :: rest =>
    if inComment then skipBlanks (c != '\n') rest
    else if Text.isBlank c then skipBlanks false rest
    else if c = '#' then skipBlanks true rest
    else c :: rest

/-- Nothing is skipped outside extended mode. -/
def skip (extended : Bool) (s : List Char) : List Char :=
  if extended then skipBlanks false s else s

theorem length_skipBlanks_le (b : Bool) (s : List Char) : (skipBlanks b s).length ≤ s.length := by
  induction s generalizing b with
  | nil => simp [skipBlanks]
  | cons c rest ih =>
    simp only [skipBlanks]
    repeat' split
    all_goals first | exact Nat.le_refl _ | exact Nat.le_succ_of_le (ih _)

theorem length_skip_le (x : Bool) (s : List Char) : (skip x s).length ≤ s.length := by
  unfold skip; split
  · exact length_skipBlanks_le _ _
  · exact Nat.le_refl _

theorem length_dropWhile_le (p : Char → Bool) (s : List Char) :
    (s.dropWhile p).length ≤ s.length :=
  (List.dropWhile_suffix p).length_le

/-- What an escape stands for. -/
inductive Atom
  | literal (c : Char)
  | set
  | assertion
deriving DecidableEq

def hexValue? (c : Char) : Option Nat :=
  if '0' ≤ c ∧ c ≤ '9' then some (c.toNat - 48)
  else if 'a' ≤ c ∧ c ≤ 'f' then some (c.toNat - 87)
  else if 'A' ≤ c ∧ c ≤ 'F' then some (c.toNat - 55)
  else none

/-- The literal with this code point. -/
def codePoint (n : Nat) (rest : List Char) : Except Stop (Atom × List Char) :=
  if n.isValidChar then .ok (.literal (.ofNat n), rest) else foreign

/-- A fixed number of hexadecimal digits. -/
def hexDigits (x : Bool) : Nat → Nat → List Char → Except Stop (Atom × List Char)
  | 0, value, s => codePoint value s
  | _ + 1, _, [] => refuse .incompleteEscape
  | n + 1, value, c :: rest =>
    match hexValue? c with
    | none => foreign
    | some d => hexDigits x n (value * 16 + d) (skip x rest)

/-- Hexadecimal digits up to a closing brace. -/
def hexBrace (x : Bool) (value : Option Nat) (s : List Char) : Except Stop (Atom × List Char) :=
  match _h : skip x s with
  | [] => refuse .incompleteEscape
  | c :: rest =>
    if c = '}' then
      match value with
      | none => foreign
      | some n => codePoint n (skip x rest)
    else
      match hexValue? c with
      | none => foreign
      | some d => hexBrace x (some (value.getD 0 * 16 + d)) rest
termination_by s.length
decreasing_by
  have := length_skip_le x s
  rw [_h] at this
  exact this

def hex (x : Bool) (digits : Nat) (s : List Char) : Except Stop (Atom × List Char) :=
  match skip x s with
  | [] => refuse .incompleteEscape
  | '{' :: rest => hexBrace x none rest
  | s => hexDigits x digits 0 s

/-- What follows the next closing brace. -/
def afterBrace (x : Bool) (s : List Char) : Option (List Char) :=
  match _h : skip x s with
  | [] => none
  | c :: rest => if c = '}' then some rest else afterBrace x rest
termination_by s.length
decreasing_by
  have := length_skip_le x s
  rw [_h] at this
  exact this

/-- The name of a property, one letter or braced. -/
def property (x : Bool) (s : List Char) : Except Stop (Atom × List Char) :=
  match skip x s with
  | [] => refuse .incompleteEscape
  | '{' :: rest =>
    match afterBrace x rest with
    | none => refuse .incompleteEscape
    | some rest => .ok (.set, rest)
  | '\\' :: _ => foreign
  | _ :: rest => .ok (.set, skip x rest)

def isBoundaryLetter (c : Char) : Bool :=
  ('A' ≤ c && c ≤ 'Z') || ('a' ≤ c && c ≤ 'z') || c == '-'

/-- The letters of a boundary's name and what follows them. -/
def boundaryName (x : Bool) (s : List Char) : List Char × List Char :=
  match s with
  | [] => ([], [])
  | c :: rest =>
    if isBoundaryLetter c then
      let (name, rest) := boundaryName x (skip x rest)
      (c :: name, rest)
    else
      ([], c :: rest)
termination_by s.length
decreasing_by
  have := length_skip_le x rest
  simp only [List.length_cons]
  omega

def boundaryNames : List (List Char) :=
  ["start".toList, "end".toList, "start-half".toList, "end-half".toList]

/-- A word boundary may name its side in braces; any other brace is left to be a repetition. -/
def boundary (x : Bool) (s : List Char) : Except Stop (Atom × List Char) :=
  match s with
  | '{' :: inner =>
    match skip x inner with
    | [] => foreign
    | c :: rest =>
      if isBoundaryLetter c then
        match boundaryName x (c :: rest) with
        | (name, '}' :: rest) =>
          if name ∈ boundaryNames then .ok (.assertion, rest) else foreign
        | _ => foreign
      else
        .ok (.assertion, s)
  | s => .ok (.assertion, s)

/-- The control characters that have a letter. -/
def controlLetters : List (Char × Char) :=
  [('a', '\x07'), ('f', '\x0c'), ('t', '\t'), ('n', '\n'), ('r', '\r'), ('v', '\x0b')]

/-- What a backslash and one character come to, where nothing further is read. -/
def oneLetter? (c : Char) : Option Atom :=
  if c ∈ ['d', 's', 'w', 'D', 'S', 'W'] then some .set
  else if c ∈ ['A', 'z', 'B', '<', '>'] then some .assertion
  else if c.toNat < 128 ∧ ¬ c.isAlphanum then some (.literal c)
  else (controlLetters.lookup c).map .literal

/-- What follows a backslash. -/
def escape (x : Bool) : List Char → Except Stop (Atom × List Char)
  | [] => refuse .incompleteEscape
  | 'x' :: rest => hex x 2 rest
  | 'u' :: rest => hex x 4 rest
  | 'U' :: rest => hex x 8 rest
  | 'p' :: rest | 'P' :: rest => property x rest
  | 'b' :: rest => boundary x rest
  | c :: rest =>
    match oneLetter? c with
    | some a => .ok (a, rest)
    | none => foreign

/-- The digits of a count and what follows them. -/
def countDigits (x : Bool) (s : List Char) : List Char × List Char :=
  match s with
  | [] => ([], [])
  | c :: rest =>
    if c.isDigit then
      let (digits, rest) := countDigits x (skip x rest)
      (c :: digits, rest)
    else
      ([], c :: rest)
termination_by s.length
decreasing_by
  have := length_skip_le x rest
  simp only [List.length_cons]
  omega

def countValue (digits : List Char) : Option Nat :=
  let n := digits.foldl (fun n c => n * 10 + (c.toNat - 48)) 0
  if digits.isEmpty || n > 4294967295 then none else some n

/-- A count with the blanks around it, which are allowed in every mode. -/
def count (x : Bool) (s : List Char) : Option Nat × List Char :=
  let (digits, rest) := countDigits x (s.dropWhile Text.isBlank)
  (countValue digits, rest.dropWhile Text.isBlank)

/-- A mark that makes a repetition lazy. -/
def dropLazy : List Char → List Char
  | '?' :: rest => rest
  | s => s

/-- What follows the opening brace of a counted repetition. -/
def counted (x : Bool) (s : List Char) : Except Stop (List Char) :=
  match skip x s with
  | [] => foreign
  | s =>
    match count x s with
    | (lower, ',' :: rest) =>
      match skip x rest, lower with
      | '}' :: rest, some _ => .ok (dropLazy (skip x rest))
      | [], _ | _, none => foreign
      | rest, some lower =>
        match count x rest with
        | (some upper, '}' :: rest) =>
          if upper < lower then refuse .reversedCount else .ok (dropLazy (skip x rest))
        | _ => foreign
    | (some _, '}' :: rest) => .ok (dropLazy (skip x rest))
    | _ => foreign

/-- What a parenthesis opens. -/
inductive Opening
  /-- A group, with its name and the extended mode inside it. -/
  | group (name : Option (List Char)) (extended : Bool)
  /-- Flags for the rest of the group around. -/
  | flags (extended : Bool)
deriving DecidableEq

def isNameChar (first : Bool) (c : Char) : Bool :=
  if first then c == '_' || Text.isAlphabetic c
  else c == '_' || c == '.' || c == '[' || c == ']' || Text.isAlphanumeric c

/-- A name and what follows the angle bracket that closes it. -/
def groupName (first : Bool) : List Char → Except Stop (List Char × List Char)
  | [] => foreign
  | c :: rest =>
    if c = '>' then .ok ([], rest)
    else if isNameChar first c then do
      let (name, rest) ← groupName false rest
      return (c :: name, rest)
    else foreign

/-- The flags up to the colon or parenthesis that ends them, and which of the two it is. -/
def groupFlags (seen : List Char) : List Char → Except Stop (List Char × Bool × List Char)
  | [] => foreign
  | c :: rest =>
    if c = ':' ∨ c = ')' then
      if seen.getLast? = some '-' then foreign else .ok (seen, c == ':', rest)
    else if c ∈ seen then foreign
    else if c ∈ ['-', 'i', 'm', 's', 'u', 'U', 'R', 'x'] then groupFlags (seen ++ [c]) rest
    else foreign

/-- Flags after the dash are switched off. -/
def extendedAfter (x : Bool) (flags : List Char) : Bool :=
  if 'x' ∈ flags then 'x' ∈ flags.takeWhile (· != '-') else x

/-- The opening of a group that has a name, from its name on. -/
def namedOpening (x : Bool) (names : List (List Char)) (s : List Char) :
    Except Stop (Opening × List Char) := do
  let (name, rest) ← groupName true s
  if name.isEmpty || names.contains name then foreign
  else return (.group (some name) x, rest)

/-- What follows an opening parenthesis. -/
def opening (x : Bool) (names : List (List Char)) (s : List Char) :
    Except Stop (Opening × List Char) :=
  match skip x s with
  | '?' :: '=' :: _ | '?' :: '!' :: _ | '?' :: '<' :: '=' :: _ | '?' :: '<' :: '!' :: _ => foreign
  | '?' :: 'P' :: '<' :: rest | '?' :: '<' :: rest => namedOpening x names rest
  | ['?'] => refuse .unclosedGroup
  | '?' :: rest => do
    let (flags, opens, rest) ← groupFlags [] rest
    if opens then return (.group none (extendedAfter x flags), rest)
    else if flags.isEmpty then refuse .missingOperand
    else return (.flags (extendedAfter x flags), rest)
  | rest => .ok (.group none x, rest)

end FlatPath.Pattern
