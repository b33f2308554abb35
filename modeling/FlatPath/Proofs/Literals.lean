import FlatPath.Proofs.JsonText

/-!
Literals say themselves where they end. Whatever follows a literal, a reader takes exactly the
literal off the front and gets back the text that it was made of; so what begins with a literal can
be taken apart in one way only.
-/

namespace FlatPath

namespace Json

theorem toList_toUTF8 (s : String) : s.toUTF8.data.toList = utf8 s.toList := by
  rw [toUTF8_eq, List.data_toByteArray]

/-- A literal is read off the front of what follows it. -/
theorem Token.next_literal (s u : String) :
    next (quoted s ++ u).toUTF8.data.toList = some (.string (some s), u.toUTF8.data.toList) := by
  rw [toList_toUTF8, toList_toUTF8, String.toList_append, utf8_append, next_quoted]

/-- A literal is a document of its own. -/
theorem read?_quoted (s : String) : read? (quoted s).toUTF8 = some (.string s) := by
  have read := read?_compact (.string s)
  rwa [compact] at read

end Json

/-- Two readings of a literal off the same text are one. -/
theorem quoted_append_eq_iff {s t u v : String} :
    quoted s ++ u = quoted t ++ v ↔ s = t ∧ u = v := by
  constructor
  · intro same
    have read := Json.Token.next_literal s u
    rw [same, Json.Token.next_literal t v] at read
    obtain rfl : t = s := by simpa using congrArg (Option.map Prod.fst) read
    exact ⟨rfl, (String.append_right_inj _).1 same⟩
  · rintro ⟨rfl, rfl⟩
    rfl

/-- A literal that is appended to an output leaves what is there in front of it, begins and ends
with a quote and holds no control character. It is read back as the text that it was made of,
on its own and with anything behind it; and no other literal, with whatever behind it, gives the
same output. -/
theorem quoted_delimits (output s : String) :
    (∃ inside, (output ++ quoted s).toList = output.toList ++ '"' :: (inside ++ ['"'])) ∧
      (∀ c ∈ (quoted s).toList, 0x20 ≤ c.toNat) ∧
      Json.read? (quoted s).toUTF8 = some (.string s) ∧
      (∀ u, Json.Token.next (quoted s ++ u).toUTF8.data.toList =
        some (.string (some s), u.toUTF8.data.toList)) ∧
      ∀ t u v, output ++ quoted s ++ u = output ++ quoted t ++ v ↔ s = t ∧ u = v := by
  have characters : (quoted s).toList = Quoted.encode s.toList := String.toList_ofList
  refine ⟨⟨s.toList.flatMap Quoted.escape, ?_⟩, fun c mem => ?_, Json.read?_quoted s,
    Json.Token.next_literal s, fun t u v => ?_⟩
  · rw [String.toList_append, characters, Quoted.encode]
  · rw [characters] at mem
    exact Nat.le_of_not_lt (Quoted.encode_visible mem)
  · rw [String.append_assoc, String.append_assoc, String.append_right_inj, quoted_append_eq_iff]

/-- A text of quotes, backslashes, a control character and one beyond ASCII. -/
example : quoted "\"\\\u0001é" = "\"\\\"\\\\\\u0001é\"" := by
  decide

end FlatPath
