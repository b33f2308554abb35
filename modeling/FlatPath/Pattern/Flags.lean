/-!
The flag set of `like_regex`. The bits are part of the buffer format; bits outside the five defined
ones are kept but have no letter.
-/

namespace FlatPath

structure RegexFlags where
  bits : UInt32 := 0
deriving DecidableEq, Inhabited

namespace RegexFlags

/-- Case is ignored. -/
def icase : RegexFlags := ⟨1⟩

/-- A dot matches line ends. -/
def dotAll : RegexFlags := ⟨2⟩

/-- Anchors match at line ends. -/
def multiline : RegexFlags := ⟨4⟩

/-- White space and comments in the pattern are skipped. -/
def extended : RegexFlags := ⟨8⟩

/-- The pattern is a literal string. -/
def quote : RegexFlags := ⟨16⟩

/-- The flags with their letters, in the order they are written. -/
def table : List (RegexFlags × Char) :=
  [(icase, 'i'), (dotAll, 's'), (multiline, 'm'), (extended, 'x'), (quote, 'q')]

def isEmpty (f : RegexFlags) : Bool :=
  f.bits == 0

def contains (f g : RegexFlags) : Bool :=
  f.bits &&& g.bits == g.bits

def union (f g : RegexFlags) : RegexFlags :=
  ⟨f.bits ||| g.bits⟩

def letters (f : RegexFlags) : String :=
  String.ofList ((table.filter fun (g, _) => f.contains g).map Prod.snd)

def ofLetter? (c : Char) : Option RegexFlags :=
  (table.find? fun (_, d) => d == c).map Prod.fst

/-- Refuses a letter that names no flag. -/
def ofLetters? (letters : String) : Option RegexFlags :=
  letters.toList.foldlM (fun f c => (ofLetter? c).map f.union) ⟨0⟩

end RegexFlags

end FlatPath
