import FlatPath.Pattern.Class
import FlatPath.Pattern.Flags

/-!
The check that a `like_regex` pattern gets before it is encoded. Matching belongs to another
dialect, so only mistakes that every dialect calls mistakes refuse a pattern; what this reader does
not know is passed on.
-/

namespace FlatPath.Pattern

/-- What stands last in the sequence being read, for a repetition to apply to. -/
inductive Piece
  | nothing
  | flags
  | operand
deriving DecidableEq

/-- Reads on with the extended mode of every open group on a stack, innermost first. -/
def scan (x : Bool) (groups : List Bool) (names : List (List Char)) (last : Piece)
    (s : List Char) : Except Stop Unit :=
  match _h : skip x s with
  | [] => if groups.isEmpty then .ok () else refuse .unclosedGroup
  | '(' :: rest =>
    match _ho : opening x names rest with
    | .error e => .error e
    | .ok (.flags y, rest) => scan y groups names .flags rest
    | .ok (.group name y, rest) => scan y (x :: groups) (name.toList ++ names) .nothing rest
  | ')' :: rest =>
    match groups with
    | [] => refuse .unopenedGroup
    | y :: groups => scan y groups names .operand rest
  | '|' :: rest => scan x groups names .nothing rest
  | '[' :: rest =>
    match _hb : bracket x rest with
    | .error e => .error e
    | .ok rest => scan x groups names .operand rest
  | '?' :: rest | '*' :: rest | '+' :: rest =>
    if last = .operand then scan x groups names .operand (dropLazy rest)
    else refuse .missingOperand
  | '{' :: rest =>
    if last = .operand then
      match _hc : counted x rest with
      | .error e => .error e
      | .ok rest => scan x groups names .operand rest
    else refuse .missingOperand
  | '\\' :: rest =>
    match _he : escape x rest with
    | .error e => .error e
    | .ok (_, rest) => scan x groups names .operand rest
  | _ :: rest => scan x groups names .operand rest
termination_by s.length
decreasing_by
  all_goals
    have hs := length_skip_le x s
    rw [_h] at hs
    simp only [List.length_cons] at hs
  · have := opening_rest _ho
    omega
  · have := opening_rest _ho
    omega
  · omega
  · omega
  · have := bracket_rest _hb
    omega
  · have := length_dropLazy_le rest
    omega
  · have := length_dropLazy_le rest
    omega
  · have := length_dropLazy_le rest
    omega
  · have := counted_rest _hc
    omega
  · have := escape_rest _he
    omega
  · omega

/-- The flaw of a pattern, if it has one. A quoted pattern is a literal string and has none. -/
def check (pattern : String) (flags : RegexFlags) : Option Flaw :=
  if flags.contains .quote then none
  else
    match scan (flags.contains .extended) [] [] .nothing pattern.toList with
    | .error (.flaw f) => some f
    | .error .foreign | .ok () => none

end FlatPath.Pattern
