/-!
Text between double quotes, in the form a JSON document gives it: quotes, backslashes and control
characters are escaped, all else stands for itself.
-/

namespace FlatPath.Quoted

def hexDigit (n : Nat) : Char :=
  if n < 10 then Char.ofNat (48 + n) else Char.ofNat (87 + n)

/-- The characters that stand for `c` between the quotes. -/
def escape (c : Char) : List Char :=
  if c = '"' then ['\\', '"']
  else if c = '\\' then ['\\', '\\']
  else if c = '\x08' then ['\\', 'b']
  else if c = '\x0c' then ['\\', 'f']
  else if c = '\n' then ['\\', 'n']
  else if c = '\r' then ['\\', 'r']
  else if c = '\t' then ['\\', 't']
  else if c.toNat < 32 then
    ['\\', 'u', '0', '0', hexDigit (c.toNat / 16), hexDigit (c.toNat % 16)]
  else [c]

def encode (text : List Char) : List Char :=
  '"' :: (text.flatMap escape ++ ['"'])

/-- The characters with a letter of their own, which stands behind a backslash. -/
def letters : List (Char × Char) :=
  [('"', '"'), ('\\', '\\'), ('\x08', 'b'), ('\x0c', 'f'), ('\n', 'n'), ('\r', 'r'), ('\t', 't')]

/-- A character is escaped by a letter or, if it is a control character, by its value; or it stands
for itself. -/
theorem escape_cases (c : Char) :
    (∃ d, (c, d) ∈ letters ∧ escape c = ['\\', d]) ∨
      (c.toNat < 32 ∧
        escape c = ['\\', 'u', '0', '0', hexDigit (c.toNat / 16), hexDigit (c.toNat % 16)]) ∨
      ((c ≠ '"' ∧ c ≠ '\\' ∧ ¬ c.toNat < 32) ∧ escape c = [c]) := by
  by_cases short : c ∈ letters.map Prod.fst
  · have all : ∀ c ∈ letters.map Prod.fst, ∃ d, (c, d) ∈ letters ∧ escape c = ['\\', d] := by
      simp [letters, escape]
    exact .inl (all c short)
  · simp only [letters, List.map_cons, List.map_nil, List.mem_cons, List.not_mem_nil, or_false,
      not_or] at short
    by_cases control : c.toNat < 32
    · exact .inr (.inl ⟨control, by simp only [escape, short, control, if_false, if_true]⟩)
    · exact .inr (.inr ⟨⟨short.1, short.2.1, control⟩, by
        simp only [escape, short, control, if_false]⟩)

theorem hexDigit_visible : ∀ n : Fin 16, ¬ (hexDigit n).toNat < 32 := by
  decide

/-- No control character is left where all are escaped. -/
theorem escape_visible {c d : Char} (mem : d ∈ escape c) : ¬ d.toNat < 32 := by
  obtain ⟨e, listed, escaped⟩ | ⟨control, escaped⟩ | ⟨⟨_, _, visible⟩, escaped⟩ := escape_cases c
  · have all : ∀ p ∈ letters, ∀ d ∈ ['\\', p.2], ¬ d.toNat < 32 := by simp [letters]
    rw [escaped] at mem
    exact all _ listed d mem
  · have high := hexDigit_visible ⟨c.toNat / 16, by omega⟩
    have low := hexDigit_visible ⟨c.toNat % 16, by omega⟩
    have lead : ∀ d ∈ ['\\', 'u', '0', '0'], ¬ d.toNat < 32 := by simp
    rw [escaped] at mem
    obtain mem | mem := List.mem_append.1 (show d ∈ ['\\', 'u', '0', '0'] ++ [_, _] from mem)
    · exact lead d mem
    · simp only [List.mem_cons, List.not_mem_nil, or_false] at mem
      obtain rfl | rfl := mem
      · exact high
      · exact low
  · rw [escaped, List.mem_singleton] at mem
    rwa [mem]

theorem encode_visible {text : List Char} {c : Char} (mem : c ∈ encode text) : ¬ c.toNat < 32 := by
  simp only [encode, List.mem_cons, List.mem_append, List.mem_flatMap, List.not_mem_nil,
    or_false] at mem
  obtain rfl | ⟨d, _, mem⟩ | rfl := mem
  · decide
  · exact escape_visible mem
  · decide

end FlatPath.Quoted

namespace FlatPath

/-- The text as a double-quoted literal. -/
def quoted (text : String) : String :=
  String.ofList (Quoted.encode text.toList)

end FlatPath
