import FlatPath.Pattern.Rest

/-!
Bracket expressions: members, ranges between members, classes by name, nested brackets and the
set operators between them.
-/

namespace FlatPath.Pattern

/-- The end of the pattern leaves a bracket open. -/
def inBracket (s : List Char) : Except Stop (List Char) :=
  match s with
  | [] => refuse .unclosedClass
  | s => .ok s

def dropDashes (x : Bool) (s : List Char) : List Char :=
  match s with
  | '-' :: rest => dropDashes x (skip x rest)
  | s => s
termination_by s.length
decreasing_by
  have := length_skip_le x rest
  simp only [List.length_cons]
  omega

def dropCaret (x : Bool) : List Char → List Char
  | '^' :: rest => skip x rest
  | s => s

/-- What follows an opening bracket, its caret and the members that only stand in front: dashes,
or a closing bracket. -/
def classOpening (x : Bool) (s : List Char) : Except Stop (List Char) :=
  match dropCaret x (skip x s) with
  | ']' :: rest => inBracket (skip x rest)
  | s => inBracket (dropDashes x s)

def classNames : List String :=
  ["alnum", "alpha", "ascii", "blank", "cntrl", "digit", "graph", "lower", "print", "punct",
    "space", "upper", "word", "xdigit"]

def afterCaret : List Char → List Char
  | '^' :: rest => rest
  | s => s

/-- A class by its name between colons, and what follows its closing bracket. -/
def namedClass? : List Char → Option (List Char)
  | ':' :: s =>
    let name := (afterCaret s).takeWhile (· != ':')
    match (afterCaret s).dropWhile (· != ':') with
    | ':' :: ']' :: rest => if String.ofList name ∈ classNames then some rest else none
    | _ => none
  | _ => none

def classMember (x : Bool) : List Char → Except Stop (Atom × List Char)
  | [] => refuse .unclosedClass
  | '\\' :: rest => escape x rest
  | c :: rest => .ok (.literal c, rest)

/-- The character that decides whether a dash is a member. In extended mode blanks before it are
passed over, and at most one comment sign. -/
def peekPastDash (x : Bool) (s : List Char) : Option Char :=
  if x then
    match s.dropWhile Text.isBlank with
    | '#' :: rest => (rest.dropWhile Text.isBlank).head?
    | rest => rest.head?
  else
    s.head?

def loneMember (a : Atom) (rest : List Char) : Except Stop (List Char) :=
  match a with
  | .assertion => foreign
  | .literal _ | .set => .ok rest

/-- One member, or a range from one member to another. -/
def classRange (x : Bool) (s : List Char) : Except Stop (List Char) := do
  let (a, rest) ← classMember x s
  match ← inBracket (skip x rest) with
  | '-' :: rest =>
    if peekPastDash x rest = some ']' ∨ peekPastDash x rest = some '-' then
      loneMember a ('-' :: rest)
    else
      let (b, rest) ← classMember x (skip x rest)
      match a, b with
      | .literal c, .literal d => if d < c then refuse .reversedRange else return rest
      | _, _ => foreign
  | rest => loneMember a rest

theorem inBracket_eq {s r : List Char} (h : inBracket s = .ok r) : r = s := by
  unfold inBracket at h
  split at h <;> cases h
  rfl

theorem dropDashes_rest (x : Bool) (s : List Char) : (dropDashes x s).length ≤ s.length := by
  fun_induction dropDashes x s with
  | case1 rest ih =>
    have := length_skip_le x rest
    simp only [List.length_cons]; omega
  | case2 => exact Nat.le_refl _

theorem dropCaret_rest (x : Bool) (s : List Char) : (dropCaret x s).length ≤ s.length := by
  unfold dropCaret
  split
  · exact Nat.le_succ_of_le (length_skip_le _ _)
  · exact Nat.le_refl _

theorem classOpening_rest {x : Bool} {s r : List Char} (h : classOpening x s = .ok r) :
    r.length ≤ s.length := by
  have h1 := length_skip_le x s
  have h2 := dropCaret_rest x (skip x s)
  unfold classOpening at h
  split at h
  · rename_i rest heq
    have h3 := length_skip_le x rest
    rw [inBracket_eq h]
    rw [heq] at h2
    simp only [List.length_cons] at h2; omega
  · have h3 := dropDashes_rest x (dropCaret x (skip x s))
    rw [inBracket_eq h]; omega

theorem afterCaret_rest (s : List Char) : (afterCaret s).length ≤ s.length := by
  unfold afterCaret; split <;> simp

theorem namedClass?_rest {s r : List Char} (h : namedClass? s = some r) :
    r.length ≤ s.length := by
  unfold namedClass? at h
  split at h
  · rename_i t
    have h1 := afterCaret_rest t
    have h2 := length_dropWhile_le (· != ':') (afterCaret t)
    simp only at h
    split at h
    · rename_i rest heq
      rw [heq] at h2
      split at h
      · cases h
        simp only [List.length_cons] at *; omega
      · cases h
    · cases h
  · cases h

theorem classMember_rest {x : Bool} {s r : List Char} {a : Atom}
    (h : classMember x s = .ok (a, r)) : r.length < s.length := by
  unfold classMember at h
  split at h
  · cases h
  · exact Nat.lt_succ_of_lt (escape_rest h)
  · cases h; exact Nat.lt_succ_self _

theorem loneMember_eq {a : Atom} {s r : List Char} (h : loneMember a s = .ok r) : r = s := by
  unfold loneMember at h
  split at h <;> cases h <;> rfl

theorem classRange_rest {x : Bool} {s r : List Char} (h : classRange x s = .ok r) :
    r.length < s.length := by
  unfold classRange at h
  cases hm : classMember x s with
  | error e => rw [hm] at h; cases h
  | ok p =>
    obtain ⟨a, rest⟩ := p
    have h1 := classMember_rest hm
    have h2 := length_skip_le x rest
    rw [hm] at h
    simp only [bind, Except.bind] at h
    cases hb : inBracket (skip x rest) with
    | error e => rw [hb] at h; cases h
    | ok rest' =>
      rw [hb] at h
      rw [← inBracket_eq hb] at h2
      simp only at h
      split at h
      · rename_i t
        simp only [List.length_cons] at h2
        split at h
        · rw [loneMember_eq h]
          simp only [List.length_cons]; omega
        · cases hn : classMember x (skip x t) with
          | error e => rw [hn] at h; cases h
          | ok q =>
            obtain ⟨b, u⟩ := q
            have h3 := classMember_rest hn
            have h4 := length_skip_le x t
            rw [hn] at h
            simp only at h
            split at h
            · split at h <;> cases h
              omega
            · cases h
      · rw [loneMember_eq h]; omega

/-- What follows the bracket that closes the outermost class, with `depth` classes open around. -/
def classBody (x : Bool) (depth : Nat) (s : List Char) : Except Stop (List Char) :=
  match _h : skip x s with
  | [] => refuse .unclosedClass
  | '[' :: rest =>
    match _hn : namedClass? rest with
    | some rest => classBody x depth rest
    | none =>
      match ho : classOpening x rest with
      | .error e => .error e
      | .ok rest => classBody x (depth + 1) rest
  | ']' :: rest =>
    match depth with
    | 0 => .ok rest
    | depth + 1 => classBody x depth rest
  | '&' :: '&' :: rest | '-' :: '-' :: rest | '~' :: '~' :: rest => classBody x depth rest
  | c :: rest =>
    match _hr : classRange x (c :: rest) with
    | .error e => .error e
    | .ok rest => classBody x depth rest
termination_by s.length
decreasing_by
  all_goals
    have hs := length_skip_le x s
    rw [_h] at hs
    simp only [List.length_cons] at hs
  · have := namedClass?_rest _hn
    omega
  · have := classOpening_rest ho
    omega
  · omega
  · omega
  · omega
  · omega
  · have := classRange_rest _hr
    simp only [List.length_cons] at this
    omega

/-- What follows a whole class, given what follows its opening bracket. -/
def bracket (x : Bool) (s : List Char) : Except Stop (List Char) := do
  let rest ← classOpening x s
  classBody x 0 rest

theorem classBody_rest {x : Bool} {depth : Nat} {s r : List Char}
    (h : classBody x depth s = .ok r) : r.length < s.length := by
  have hs := length_skip_le x s
  fun_induction classBody x depth s with
  | case1 | case3 | case10 => cases h
  | case2 depth s rest hk rest' hn ih =>
    have h1 := namedClass?_rest hn
    have h2 := ih h (length_skip_le _ _)
    rw [hk] at hs
    simp only [List.length_cons] at hs; omega
  | case4 depth s rest hk hn rest' ho ih =>
    have h1 := classOpening_rest ho
    have h2 := ih h (length_skip_le _ _)
    rw [hk] at hs
    simp only [List.length_cons] at hs; omega
  | case5 s rest hk =>
    cases h
    rw [hk] at hs
    simp only [List.length_cons] at hs; omega
  | case6 s rest hk depth ih | case7 depth s rest hk ih | case8 depth s rest hk ih
  | case9 depth s rest hk ih =>
    have h2 := ih h (length_skip_le _ _)
    rw [hk] at hs
    simp only [List.length_cons] at hs; omega
  | case11 depth s c rest _ _ _ _ _ hk rest' hr ih =>
    have h1 := classRange_rest hr
    have h2 := ih h (length_skip_le _ _)
    rw [hk] at hs
    omega

theorem bracket_rest {x : Bool} {s r : List Char} (h : bracket x s = .ok r) :
    r.length < s.length := by
  unfold bracket at h
  cases ho : classOpening x s with
  | error e => rw [ho] at h; cases h
  | ok rest =>
    rw [ho] at h
    have h1 := classOpening_rest ho
    have h2 := classBody_rest h
    omega

end FlatPath.Pattern
