import FlatPath.Bytes

/-!
The scan of a datetime template for fields that give the value a time zone. It goes over the bytes
of the template: all that it looks for is ASCII, and no byte of another character is.
-/

namespace FlatPath.Template

/-- Where the scan stands: before a byte, inside or outside of double quotes. -/
structure Place where
  quoted : Bool := false
  index : Nat := 0
deriving DecidableEq

/-- Whether the characters of a word, all of them ASCII, begin at `i`. -/
def beginsAt (bytes : ByteArray) (i : Nat) : List Char → Bool
  | [] => true
  | c :: word => Bytes.byteAt? bytes i == some c.toUInt8 && beginsAt bytes (i + 1) word

/-- The fields for the hours and the minutes of a time zone. -/
def zoneFields : List (List Char) :=
  [['T', 'Z', 'H'], ['T', 'Z', 'M']]

/-- One turn of the scan at a byte: where it goes on, unless a field ends it. Text inside double
quotes is literal. Inside quotes a backslash takes the next byte with it, outside only a double
quote. -/
def turn (bytes : ByteArray) (p : Place) (inside : p.index < bytes.size) : Option Place :=
  let b := bytes[p.index]
  if b = '\\'.toUInt8 ∧
      (p.quoted ∨ Bytes.byteAt? bytes (p.index + 1) = some '"'.toUInt8) then
    some { p with index := p.index + 2 }
  else if b = '"'.toUInt8 then some { quoted := !p.quoted, index := p.index + 1 }
  else if ¬ p.quoted ∧ zoneFields.any (beginsAt bytes p.index) then none
  else some { p with index := p.index + 1 }

theorem index_lt_of_turn {bytes : ByteArray} {p p' : Place} {inside : p.index < bytes.size}
    (h : turn bytes p inside = some p') : p.index < p'.index := by
  simp only [turn] at h
  split at h
  · cases h; simp
  · split at h
    · cases h; simp
    · split at h
      · cases h
      · cases h; simp

/-- Whether the scan from a place on is ended by a field. -/
def scan (bytes : ByteArray) (p : Place) : Bool :=
  if inside : p.index < bytes.size then
    match _h : turn bytes p inside with
    | none => true
    | some p' => scan bytes p'
  else false
termination_by bytes.size - p.index
decreasing_by
  have := index_lt_of_turn _h
  omega

def isZoned (template : String) : Bool :=
  scan template.toUTF8 {}

end FlatPath.Template
