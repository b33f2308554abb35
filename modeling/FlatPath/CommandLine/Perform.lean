import FlatPath.CommandLine.Arguments

/-!
Carrying commands out, whatever the files around them are made of: those of the machine, or data.
-/

namespace FlatPath.CommandLine

/-- What a command can do outside. -/
structure Surroundings (m : Type → Type) where
  standardInput : m (Except FileError ByteArray)
  /-- Whether the output is shown by a terminal. -/
  terminal : m Bool
  read (name : String) : m (Except FileError ByteArray)
  write (name : String) (contents : ByteArray) : m (Except FileError Unit)

variable {m : Type → Type} [Monad m]

namespace Command

/-- Reads the input; the name `-` stands for the standard input. -/
def fetch (c : Command) (s : Surroundings m) : m (Except FileError ByteArray) :=
  if c.input = "-" then s.standardInput else s.read c.input

/-- Nothing is written before the whole answer is there. -/
def perform (c : Command) (s : Surroundings m) : m Reply := do
  match ← c.fetch s with
  | .error e => return .refused (about c.input e.message)
  | .ok contents =>
    match c.respond (← s.terminal) contents with
    | .error reason => return .refused reason
    | .ok ⟨text, none⟩ => return { out := text }
    | .ok ⟨text, some (output, bytes)⟩ =>
      match ← s.write output bytes with
      | .error e => return .refused (about output e.message)
      | .ok () => return { out := text }

end Command

/-- Carries out a whole command line. -/
def perform (arguments : List String) (s : Surroundings m) : m Reply :=
  match parse arguments with
  | .error misuse => return .misused misuse.message
  | .ok none => return { out := help }
  | .ok (some c) => c.perform s

end FlatPath.CommandLine
