import FlatPath.CommandLine.Perform

/-!
Command lines on files that are data, as a function from the files before to the files after. A
command that is refused leaves every file alone.
-/

namespace FlatPath.CommandLine

/-- The files of a machine as they are called from the directory `home`: each file below it has its
shortest name from there, every other one its absolute name. The directories are those that lead to
`home` or to a file, and an entry whose name ends in a slash stands for a directory by itself. -/
structure Files (home : String := "/work") where
  entries : List (String × ByteArray) := []

namespace Files

/-- The parts of a name between its slashes. -/
def parts (name : String) : List String :=
  (name.toList.splitOn '/').map .ofList

/-- The parts of a name from the root on. A name that begins with a slash starts there itself. -/
def steps (home name : String) : List String :=
  match parts name with
  | "" :: part :: others => part :: others
  | relative => parts home ++ relative

/-- The way to the directory that a shortest name lies in, and to `home` for the empty name. -/
def around (home name : String) : List String :=
  (steps home name).dropLast.filter (· ≠ "")

/-- The shortest name of what is at the end of a way from the root. -/
def shortest (home : String) (way : List String) : String :=
  let base := around home ""
  "/".intercalate (if base.isPrefixOf way then way.drop base.length else "" :: way)

/-- Where a name leads. A name that ends in a slash asks for a directory. -/
inductive Place
  | directory
  | entry (name : String)
  | asDirectory (name : String)
deriving DecidableEq

variable {home : String}

def isDirectory (files : Files home) (way : List String) : Bool :=
  way.isPrefixOf (around home "") || files.entries.any fun e => way.isPrefixOf (around home e.1)

/-- Why there is no directory of that name to enter. -/
def obstacle (files : Files home) (name : String) : FileError :=
  if (files.entries.lookup name).isSome then .notDirectory else .notFound

/-- Goes on from the directory at the end of `way`. Only what is a directory can be entered, and the
root is its own parent. -/
def follow (files : Files home) (way : List String) : List String → Except FileError Place
  | [] => .ok .directory
  | part :: rest =>
    if part = "" ∨ part = "." then files.follow way rest
    else if part = ".." then files.follow way.dropLast rest
    else if 255 < part.utf8ByteSize then .error .nameTooLong
    else if files.isDirectory (way ++ [part]) then files.follow (way ++ [part]) rest
    else
      let name := shortest home (way ++ [part])
      if rest = [] then .ok (.entry name)
      else if rest.all (· = "") then .ok (.asDirectory name)
      else .error (files.obstacle name)

def locate (files : Files home) (name : String) : Except FileError Place :=
  if 4096 ≤ name.utf8ByteSize then .error .nameTooLong
  else files.follow [] (steps home name)

def read (files : Files home) (name : String) : Except FileError ByteArray := do
  match ← files.locate name with
  | .directory => throw .isDirectory
  | .asDirectory entry => throw (files.obstacle entry)
  | .entry entry =>
    match files.entries.lookup entry with
    | some contents => return contents
    | none => throw .notFound

/-- Replaces the entry of that name, or adds one. -/
def write (files : Files home) (name : String) (contents : ByteArray) :
    Except FileError (Files home) := do
  match ← files.locate name with
  | .directory | .asDirectory _ => throw .isDirectory
  | .entry entry => return ⟨(entry, contents) :: files.entries.filter (·.1 != entry)⟩

/-- What a command can do among these files. There is no terminal. -/
def surroundings (standardInput : ByteArray) : Surroundings (StateM (Files home)) where
  standardInput := return .ok standardInput
  terminal := return false
  read name := return (← get).read name
  write name contents := do
    match (← get).write name contents with
    | .error e => return .error e
    | .ok files =>
      set files
      return .ok ()

end Files

variable {home : String}

/-- Carries a command out where `standardInput` is what it may read under the name `-`. -/
def Command.run (c : Command) (files : Files home) (standardInput : ByteArray) :
    Reply × Files home :=
  Id.run ((c.perform (Files.surroundings standardInput)).run files)

/-- Carries out a whole command line. -/
def run (arguments : List String) (files : Files home) (standardInput : ByteArray) :
    Reply × Files home :=
  Id.run ((perform arguments (Files.surroundings standardInput)).run files)

end FlatPath.CommandLine
