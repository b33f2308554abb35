import FlatPath.Proofs.CanonicalText

/-!
Readers for the tokens of path text: quoted texts, numerals, descent levels, pattern flags and
binary operators. Each takes a token off the front of a text, and arrives at what the token was
written for whatever comes behind it, as long as that cannot be taken for more of the token.
-/

namespace FlatPath.Reading

/-- Takes something off the front of a text. -/
abbrev Reader (α : Type) : Type :=
  List Char → Option (α × List Char)

/-- What is behind a fixed token. -/
def strip (token s : List Char) : Option (List Char) :=
  token.isPrefixOf? s

@[simp] theorem strip_nil (s : List Char) : strip [] s = some s := by
  cases s <;> rfl

@[simp] theorem strip_cons_nil (c : Char) (token : List Char) : strip (c :: token) [] = none := rfl

@[simp] theorem strip_cons_cons (c d : Char) (token s : List Char) :
    strip (c :: token) (d :: s) = if c = d then strip token s else none := by
  by_cases h : c = d
  · simp [strip, List.isPrefixOf?, h]
  · simp [strip, List.isPrefixOf?, h]

theorem strip_append (token s : List Char) : strip token (token ++ s) = some s := by
  induction token with
  | nil => simp
  | cons c token ih => simp [ih]

theorem strip_eq_some {token s t : List Char} : strip token s = some t ↔ token ++ t = s := by
  induction token generalizing s with
  | nil => simp [eq_comm]
  | cons c token ih =>
      cases s with
      | nil => simp
      | cons d s => by_cases h : c = d <;> simp [h, ih]

/-- Two tokens neither of which begins with the other are never confused. -/
theorem strip_append_eq_none {token other : List Char} (longer : ¬ token <+: other)
    (shorter : ¬ other <+: token) (s : List Char) : strip token (other ++ s) = none := by
  rw [Option.eq_none_iff_forall_ne_some]
  intro t h
  have found : token <+: other ++ s := ⟨t, strip_eq_some.1 h⟩
  obtain h | h := List.prefix_or_prefix_of_prefix found (List.prefix_append other s)
  · exact longer h
  · exact shorter h

section Readers

variable {α : Type}

/-- Reads what stands behind a token. -/
def after (token : List Char) (r : Reader α) : Reader α := fun s =>
  (strip token s).bind r

@[simp] theorem after_nil (r : Reader α) (s : List Char) : after [] r s = r s := by
  simp [after]

@[simp] theorem after_cons_nil (c : Char) (token : List Char) (r : Reader α) :
    after (c :: token) r [] = none := rfl

@[simp] theorem after_cons_cons (c d : Char) (token : List Char) (r : Reader α) (s : List Char) :
    after (c :: token) r (d :: s) = if c = d then after token r s else none := by
  by_cases h : c = d
  · simp [after, h]
  · simp [after, h]

/-- The first of these readers that succeeds. -/
def oneOf : List (Reader α) → Reader α
  | [], _ => none
  | r :: rs, s => (r s).or (oneOf rs s)

@[simp] theorem oneOf_nil (s : List Char) : oneOf ([] : List (Reader α)) s = none := rfl

@[simp] theorem oneOf_cons (r : Reader α) (rs : List (Reader α)) (s : List Char) :
    oneOf (r :: rs) s = (r s).or (oneOf rs s) := rfl

end Readers

/-! Quoted texts. -/

/-- The value of a small hexadecimal digit. -/
def hexValue (c : Char) : Nat :=
  if c.isDigit then c.toNat - 48 else c.toNat - 87

/-- The character a backslash and a letter stand for. -/
def unescape : Char → Char
  | 'b' => '\x08'
  | 'f' => '\x0c'
  | 'n' => '\n'
  | 'r' => '\r'
  | 't' => '\t'
  | c => c

/-- Reads up to the closing quote and past it. -/
def unquote : Reader (List Char)
  | [] => none
  | '"' :: s => some ([], s)
  | '\\' :: 'u' :: '0' :: '0' :: a :: b :: s =>
    (unquote s).map fun (t, s) => (Char.ofNat (16 * hexValue a + hexValue b) :: t, s)
  | '\\' :: c :: s => (unquote s).map fun (t, s) => (unescape c :: t, s)
  | c :: s => (unquote s).map fun (t, s) => (c :: t, s)

theorem hexValue_hexDigit : ∀ n : Fin 16, hexValue (Quoted.hexDigit n) = n := by decide

theorem unquote_escape (c : Char) (s : List Char) :
    unquote (Quoted.escape c ++ s) = (unquote s).map fun (t, s) => (c :: t, s) := by
  obtain ⟨d, listed, escaped⟩ | ⟨control, escaped⟩ | ⟨⟨quote, backslash, _⟩, escaped⟩ :=
    Quoted.escape_cases c
  · have all : ∀ p ∈ Quoted.letters, p.2 ≠ 'u' ∧ unescape p.2 = p.1 := by decide
    obtain ⟨letter, value⟩ := all _ listed
    rw [escaped, List.cons_append, List.singleton_append, unquote, value]
    intro _ _ _ h
    exact absurd h letter
  · have high := hexValue_hexDigit ⟨c.toNat / 16, by omega⟩
    have low := hexValue_hexDigit ⟨c.toNat % 16, by omega⟩
    have value : 16 * (c.toNat / 16) + c.toNat % 16 = c.toNat := by omega
    simp only at high low
    simp only [escaped, List.cons_append, List.nil_append, unquote, high, low, value,
      Char.ofNat_toNat]
  · rw [escaped, List.singleton_append, unquote]
    · exact quote
    · intro _ _ _ h
      exact absurd h backslash
    · intro _ _ h
      exact absurd h backslash

theorem unquote_encode (t s : List Char) :
    unquote (t.flatMap Quoted.escape ++ '"' :: s) = some (t, s) := by
  induction t with
  | nil => rfl
  | cons c t ih => simp [unquote_escape, ih]

/-- A quoted text, from its opening quote on. -/
theorem encode_append (t s : List Char) :
    Quoted.encode t ++ s = '"' :: (t.flatMap Quoted.escape ++ '"' :: s) := by
  simp [Quoted.encode]

/-! Runs of characters of one sort. -/

theorem takeWhile_run {p : Char → Bool} {t s : List Char} (run : ∀ c ∈ t, p c)
    (stop : ∀ c ∈ s.head?, ¬ p c) :
    (t ++ s).takeWhile p = t ∧ (t ++ s).dropWhile p = s := by
  rw [List.takeWhile_append_of_pos run, List.dropWhile_append_of_pos run]
  cases s with
  | nil => simp
  | cons c s =>
      have := stop c rfl
      simp [this]

/-- A digit, or the point in front of a fraction. -/
def isNumeral (c : Char) : Bool :=
  c.isDigit || c == '.'

def numeral : Reader String := fun s =>
  if s.takeWhile isNumeral = [] then none
  else some (String.ofList (s.takeWhile isNumeral), s.dropWhile isNumeral)

theorem numeral_append {t s : List Char} (present : t ≠ []) (run : ∀ c ∈ t, isNumeral c)
    (stop : ∀ c ∈ s.head?, ¬ isNumeral c) : numeral (t ++ s) = some (String.ofList t, s) := by
  obtain ⟨taken, dropped⟩ := takeWhile_run run stop
  rw [numeral, taken, dropped, if_neg present]

/-! Levels of a descent. -/

/-- One bound of a descent. -/
def bound : Reader UInt32 := fun s =>
  match strip ['l', 'a', 's', 't'] s with
  | some s => some (Levels.deepest, s)
  | none =>
    some (.ofNat (Nat.ofDigitChars 10 (s.takeWhile Char.isDigit) 0), s.dropWhile Char.isDigit)

/-- What follows the two stars of a descent. -/
def levels : Reader Levels := fun s =>
  match strip ['\x7b'] s with
  | none => some (.unbounded, s)
  | some s => do
    let (first, s) ← bound s
    match strip [' ', 't', 'o', ' '] s with
    | none => return (⟨first, first⟩, ← strip ['\x7d'] s)
    | some s => do
      let (last, s) ← bound s
      return (⟨first, last⟩, ← strip ['\x7d'] s)

theorem bound_last (s : List Char) :
    bound ('l' :: 'a' :: 's' :: 't' :: s) = some (Levels.deepest, s) := by
  simp [bound]

theorem bound_digits (n : UInt32) {s : List Char} (stop : ∀ c ∈ s.head?, ¬ c.isDigit) :
    bound (Nat.toDigits 10 n.toNat ++ s) = some (n, s) := by
  have run : ∀ c ∈ Nat.toDigits 10 n.toNat, c.isDigit := fun c mem =>
    Nat.isDigit_of_mem_toDigits (by decide) (by decide) mem
  obtain ⟨taken, dropped⟩ := takeWhile_run run stop
  have number : strip ['l', 'a', 's', 't'] (Nat.toDigits 10 n.toNat ++ s) = none := by
    cases digits : Nat.toDigits 10 n.toNat with
    | nil => exact absurd digits Nat.toDigits_ne_nil
    | cons c cs =>
        have digit := run c (by simp [digits])
        have other : 'l' ≠ c := by
          rintro rfl
          cases digit
        simp [other]
  simp [bound, number, taken, dropped]

/-- The text of one bound. -/
def boundText (n : UInt32) : List Char :=
  if n = Levels.deepest then ['l', 'a', 's', 't'] else Nat.toDigits 10 n.toNat

theorem bound_boundText (n : UInt32) {s : List Char} (stop : ∀ c ∈ s.head?, ¬ c.isDigit) :
    bound (boundText n ++ s) = some (n, s) := by
  by_cases deepest : n = Levels.deepest
  · rw [boundText, if_pos deepest, deepest]
    exact bound_last s
  · rw [boundText, if_neg deepest]
    exact bound_digits n stop

theorem levels_text_toList (l : Levels) :
    l.text.toList = '*' :: '*' :: (if l = .unbounded then [] else
      '\x7b' :: (boundText l.first ++ if l.first = l.last then ['\x7d'] else
        ' ' :: 't' :: 'o' :: ' ' :: (boundText l.last ++ ['\x7d']))) := by
  obtain ⟨first, last⟩ := l
  rw [Levels.text]
  by_cases unbounded : (⟨first, last⟩ : Levels) = .unbounded
  · simp [unbounded]
  · rw [if_neg unbounded, if_neg unbounded]
    by_cases from_last : first = Levels.deepest
    · by_cases to_last : last = Levels.deepest
      · simp [from_last, to_last, boundText]
      · have different : Levels.deepest ≠ last := fun h => to_last h.symm
        simp [from_last, to_last, different, boundText]
    · by_cases to_last : last = Levels.deepest
      · simp [from_last, to_last, boundText]
      · by_cases same : first = last
        · simp [same, to_last, boundText]
        · simp [from_last, to_last, same, boundText]

theorem levels_text (l : Levels) {s : List Char} (stop : s.head? ≠ some '\x7b') :
    ∃ t, l.text.toList = '*' :: '*' :: t ∧ levels (t ++ s) = some (l, s) := by
  refine ⟨_, levels_text_toList l, ?_⟩
  obtain ⟨first, last⟩ := l
  by_cases unbounded : (⟨first, last⟩ : Levels) = .unbounded
  · have none : strip ['\x7b'] s = none := by
      cases s with
      | nil => rfl
      | cons c s =>
          have other : '\x7b' ≠ c := by
            intro same
            exact stop (congrArg some same.symm)
          simp [other]
    rw [if_pos unbounded, List.nil_append, unbounded, levels, none]
  · rw [if_neg unbounded]
    by_cases same : first = last
    · have bound := bound_boundText last (s := '\x7d' :: s) (by simp)
      simp only [levels, strip_cons_cons, strip_nil, same, if_true, List.cons_append,
        List.append_assoc, List.nil_append, bound, Option.bind_eq_bind, Option.bind_some]
      simp
    · have start := bound_boundText first
        (s := ' ' :: 't' :: 'o' :: ' ' :: (boundText last ++ '\x7d' :: s)) (by simp)
      have stop := bound_boundText last (s := '\x7d' :: s) (by simp)
      simp only [levels, strip_cons_cons, strip_nil, same, if_true, if_false, List.cons_append,
        List.append_assoc, List.nil_append, start, Option.bind_eq_bind, Option.bind_some]
      simp [stop]

/-! Flags of a pattern. -/

abbrev flagToken : List Char := [' ', 'f', 'l', 'a', 'g', ' ', '"']

/-- The flags behind a pattern, if there are any. -/
def flags : Reader RegexFlags := fun s =>
  match strip flagToken s with
  | none => some (⟨0⟩, s)
  | some s => do
    let f ← RegexFlags.ofLetters? (String.ofList (s.takeWhile (· != '"')))
    return (f, ← strip ['"'] (s.dropWhile (· != '"')))

theorem ofLetters?_letters {f : RegexFlags} (defined : f.bits < 32) :
    RegexFlags.ofLetters? f.letters = some f := by
  have all : ∀ n : Fin 32,
      ((RegexFlags.table.filter fun p => RegexFlags.contains ⟨.ofNat n⟩ p.1).map Prod.snd).foldlM
        (fun f c => (RegexFlags.ofLetter? c).map f.union) (⟨0⟩ : RegexFlags) =
          some ⟨.ofNat n⟩ := by decide +kernel
  have same : f = ⟨.ofNat f.bits.toNat⟩ := by simp
  rw [RegexFlags.ofLetters?, RegexFlags.letters, String.toList_ofList, same]
  exact all ⟨f.bits.toNat, defined⟩

theorem exists_of_mem_letters {f : RegexFlags} {c : Char} (mem : c ∈ f.letters.toList) :
    ∃ p ∈ RegexFlags.table, p.2 = c := by
  rw [RegexFlags.letters, String.toList_ofList] at mem
  obtain ⟨p, kept, rfl⟩ := List.mem_map.1 mem
  exact ⟨p, (List.mem_filter.1 kept).1, rfl⟩

theorem letters_ne_quote (f : RegexFlags) : ∀ c ∈ f.letters.toList, c != '"' := by
  have all : ∀ p ∈ RegexFlags.table, p.2 != '"' := by decide
  intro c mem
  obtain ⟨p, listed, rfl⟩ := exists_of_mem_letters mem
  exact all p listed

theorem flags_suffix {f : RegexFlags} (defined : f.bits < 32) {s : List Char}
    (stop : strip flagToken s = none) :
    flags (f.suffix.toList ++ s) = some (f, s) := by
  by_cases empty : f.isEmpty
  · have none : f = ⟨0⟩ := by
      obtain ⟨bits⟩ := f
      simpa [RegexFlags.isEmpty] using empty
    rw [RegexFlags.suffix, if_pos empty, none]
    simp [flags, stop]
  · obtain ⟨taken, dropped⟩ := takeWhile_run (letters_ne_quote f) (s := '"' :: s) (by simp)
    have text : f.suffix.toList ++ s =
        flagToken ++ (f.letters.toList ++ '"' :: s) := by
      simp [RegexFlags.suffix, empty]
    rw [flags, text, strip_append]
    simp only [taken, dropped, String.ofList_toList, ofLetters?_letters defined]
    rfl

/-! One token out of many, none of them the beginning of another. -/

section Pick

variable {α : Type} {all : List α} {token : α → List Char} {a : α}

/-- The first of these tokens that the text starts with. -/
def pick (all : List α) (token : α → List Char) : Reader α := fun s =>
  all.findSome? fun a => (strip (token a) s).map fun s => (a, s)

theorem pick_append (free : ∀ a ∈ all, ∀ b ∈ all, token a <+: token b → a = b) (mem : a ∈ all)
    (s : List Char) : pick all token (token a ++ s) = some (a, s) := by
  rw [pick]
  induction all with
  | nil => cases mem
  | cons b all ih =>
      rw [List.findSome?_cons]
      by_cases same : b = a
      · rw [same, strip_append]
        rfl
      · have other : strip (token b) (token a ++ s) = none :=
          strip_append_eq_none (fun h => same (free b (by simp) a mem h))
            (fun h => same (free a mem b (by simp) h).symm) s
        have rest : a ∈ all := by
          obtain rfl | rest := List.mem_cons.1 mem
          · exact absurd rfl same
          · exact rest
        rw [other]
        exact ih (fun c hc d hd => free c (by simp [hc]) d (by simp [hd])) rest

theorem pick_eq_none {s : List Char} (h : ∀ a ∈ all, strip (token a) s = none) :
    pick all token s = none := by
  rw [pick, List.findSome?_eq_none_iff]
  intro a mem
  rw [h a mem]
  rfl

end Pick

/-! Binary operators. -/

/-- An operator between blanks. -/
def spelling (op : BinaryOp) : List Char :=
  ' ' :: (op.symbol.toList ++ [' '])

theorem mem_all (op : BinaryOp) : op ∈ BinaryOp.all := by
  cases op <;> decide

theorem spelling_free : ∀ op ∈ BinaryOp.all, ∀ op' ∈ BinaryOp.all,
    spelling op <+: spelling op' → op = op' := by
  decide +kernel

theorem strip_spelling {op op' : BinaryOp} (other : op ≠ op') (s : List Char) :
    strip (spelling op) (spelling op' ++ s) = none :=
  strip_append_eq_none (fun h => other (spelling_free op (mem_all op) op' (mem_all op') h))
    (fun h => other (spelling_free op' (mem_all op') op (mem_all op) h).symm) s

/-- A binary operator of this priority. -/
def operator (priority : Nat) : Reader BinaryOp :=
  pick (BinaryOp.all.filter fun op => (Kind.binary op).priority = priority) spelling

theorem operator_spelling (op : BinaryOp) (s : List Char) :
    operator (Kind.binary op).priority (spelling op ++ s) = some (op, s) := by
  refine pick_append (fun a ha b hb => ?_) (by simp [mem_all]) s
  exact spelling_free a (mem_all a) b (mem_all b)

theorem operator_eq_none {priority : Nat} {s : List Char}
    (h : ∀ op, (Kind.binary op).priority = priority → strip (spelling op) s = none) :
    operator priority s = none :=
  pick_eq_none fun op mem => h op (by simpa using (List.mem_filter.1 mem).2)

/-! Methods. -/

def method : Reader Method :=
  pick Method.all fun m => m.symbol.toList ++ ['(', ')']

theorem method_symbol (m : Method) (s : List Char) :
    method (m.symbol.toList ++ '(' :: ')' :: s) = some (m, s) := by
  have free : ∀ a ∈ Method.all, ∀ b ∈ Method.all,
      a.symbol.toList ++ ['(', ')'] <+: b.symbol.toList ++ ['(', ')'] → a = b := by
    decide +kernel
  have mem : m ∈ Method.all := by cases m <;> decide
  have picked := pick_append free mem s
  rwa [List.append_assoc] at picked

end FlatPath.Reading
