import FlatPath.Expr.Document
import FlatPath.Buffer.Encode
import FlatPath.Buffer.Outline
import FlatPath.Mutability
import FlatPath.Wire

/-!
The commands, once their arguments are understood: each reads one input and either gives a reason to
refuse it or has a text to print and, some of them, a file to save first.
-/

namespace FlatPath.CommandLine

inductive ColorChoice
  | auto | always | never
deriving DecidableEq, Inhabited

/-- `auto` colors what a terminal shows. -/
def ColorChoice.palette (choice : ColorChoice) (terminal : Bool) : Palette :=
  match choice with
  | .auto => .ofBool terminal
  | .always => .standard
  | .never => .plain

inductive Command
  | encode (document output : String) (limits : Limits)
  | print (file : String) (limits : Limits)
  | dump (file : String) (limits : Limits) (color : ColorChoice)
  | isMutable (file : String) (declared : List (String × VarType)) (limits : Limits)
  | send (file output : String)
  | receive (message output : String) (limits : Limits)

/-- What a command that was not refused leaves to do. -/
structure Outcome where
  text : String := ""
  saved : Option (String × ByteArray) := none

namespace Command

/-- The name of the input. -/
def input : Command → String
  | encode name _ _ | print name _ | dump name _ _ | isMutable name _ _ | send name _
  | receive name _ _ => name

/-- A reason with the name of the file it concerns. -/
def about (name reason : String) : String :=
  name ++ ": " ++ reason

def load (name : String) (contents : ByteArray) (limits : Limits) : Except String Buffer :=
  (Buffer.load contents limits).mapError fun e => about name e.message

/-- Saves a whole buffer and prints its path. -/
def save (output : String) (b : Buffer) : Except String Outcome := do
  let text ← (b.print .unbounded).mapError ReadError.message
  return { text := text ++ "\n", saved := some (output, b.bytes) }

def respond (terminal : Bool) (contents : ByteArray) : Command → Except String Outcome
  | encode _ output limits =>
    match Path.ofDocument? contents with
    | none => throw "invalid expression tree: not the document of a path"
    | some path => do save output (← (path.encode limits).mapError EncodeError.message)
  | print file limits => do
    let b ← load file contents limits
    return { text := (← (b.print limits).mapError ReadError.message) ++ "\n" }
  | dump file limits color => do
    let b ← load file contents limits
    return { text := ← (b.outline (color.palette terminal)).mapError Fault.message }
  | isMutable file declared limits => do
    let b ← load file contents limits
    let found ← (b.isMutable (.ofList declared) limits).mapError ReadError.message
    return { text := if found then "mutable\n" else "immutable\n" }
  | send file output => do
    let b ← load file contents {}
    return { saved := some (output, Wire.send b) }
  | receive message output limits => do
    save output (← (Wire.receive contents limits).mapError fun e => about message e.message)

end Command

/-- What is seen of a finished command. -/
structure Reply where
  exit : UInt32 := 0
  out : String := ""
  err : String := ""

namespace Reply

def refused (reason : String) : Reply :=
  { exit := 1, err := "error: " ++ reason ++ "\n" }

/-- A command line that makes no command. -/
def misused (reason : String) : Reply :=
  { exit := 2, err := "error: " ++ reason ++ "\n" }

end Reply

end FlatPath.CommandLine
