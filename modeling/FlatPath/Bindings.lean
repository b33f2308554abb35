import FlatPath.Text.Ranges

/-!
The types of the variables a path refers to. A name is declared once; a second declaration by
`insert` changes nothing, and a second one by `assign` changes the type but not the place.
-/

namespace FlatPath

/-- What matters of an SQL type: whether its values are dates or times, and whether they carry a
zone. -/
inductive VarType
  | date | time | timeTz | timestamp | timestampTz | other
deriving DecidableEq, Inhabited

namespace VarType

def all : List VarType :=
  [.date, .time, .timeTz, .timestamp, .timestampTz, .other]

def name : VarType → String
  | .date => "date"
  | .time => "time"
  | .timeTz => "timetz"
  | .timestamp => "timestamp"
  | .timestampTz => "timestamptz"
  | .other => "other"

def ofName? (s : String) : Option VarType :=
  all.find? (·.name == s)

/-- The words of a text with the characters of the word being read in front. -/
def words (word : List Char) : List Char → List (List Char)
  | [] => if word.isEmpty then [] else [word]
  | c :: rest =>
    if Text.isBlank c then
      if word.isEmpty then words [] rest else word :: words [] rest
    else
      words (word ++ [c]) rest

/-- Neither case nor the amount of white space between words matters. -/
def ofSqlName (s : String) : VarType :=
  let ws := (words [] s.toList).map fun w => String.ofList (w.map Char.toLower)
  if ws = ["date"] then .date
  else if ws = ["time"] ∨ ws = ["time", "without", "time", "zone"] then .time
  else if ws = ["timetz"] ∨ ws = ["time", "with", "time", "zone"] then .timeTz
  else if ws = ["timestamp"] ∨ ws = ["timestamp", "without", "time", "zone"] then .timestamp
  else if ws = ["timestamptz"] ∨ ws = ["timestamp", "with", "time", "zone"] then .timestampTz
  else .other

def isDatetime (t : VarType) : Bool :=
  t != .other

def isZoned : VarType → Bool
  | .timeTz | .timestampTz => true
  | .date | .time | .timestamp | .other => false

end VarType

structure Bindings where
  entries : List (String × VarType) := []
  distinct : (entries.map Prod.fst).Nodup := by simp

namespace Bindings

def empty : Bindings := {}

def get? (b : Bindings) (name : String) : Option VarType :=
  b.entries.lookup name

def length (b : Bindings) : Nat :=
  b.entries.length

def isEmpty (b : Bindings) : Bool :=
  b.entries.isEmpty

def declares (b : Bindings) (name : String) : Bool :=
  (b.entries.map Prod.fst).contains name

private theorem nodup_append_entry {entries : List (String × VarType)} {name : String}
    {type : VarType} (h : (entries.map Prod.fst).Nodup) (hn : name ∉ entries.map Prod.fst) :
    ((entries ++ [(name, type)]).map Prod.fst).Nodup := by
  rw [List.map_append, List.nodup_append]
  refine ⟨h, by simp, ?_⟩
  intro a ha b hb hab
  have hb : b = name := List.mem_singleton.1 hb
  rw [hab, hb] at ha
  exact hn ha

/-- Declares a name at the end; answers whether it was new. -/
def insert (b : Bindings) (name : String) (type : VarType) : Bool × Bindings :=
  if h : b.declares name then (false, b)
  else
    (true,
      { entries := b.entries ++ [(name, type)]
        distinct := nodup_append_entry b.distinct fun hm => h (List.contains_iff_mem.2 hm) })

def bind (b : Bindings) (name : String) (type : VarType) : Bindings :=
  (b.insert name type).2

def ofList (declarations : List (String × VarType)) : Bindings :=
  declarations.foldl (fun b (name, type) => b.bind name type) empty

/-- Declares a name at the end, or gives it another type where it stands. -/
def assign (b : Bindings) (name : String) (type : VarType) : Bindings :=
  if b.declares name then
    { entries := b.entries.map fun (n, t) => (n, if n = name then type else t)
      distinct := by simpa [Function.comp_def] using b.distinct }
  else
    b.bind name type

end Bindings

end FlatPath
