import FlatPath.CommandLine.Command

/-!
From the words of a command line to a command. Options and the one operand come in any order; an
option takes its value from the same word or from the next one, which then may not look like an
option itself. After `--` every word is an operand.
-/

namespace FlatPath.CommandLine

inductive Verb
  | encode | print | dump | isMutable | send | receive
deriving DecidableEq, Inhabited

/-- The options that take a value. -/
inductive Setting
  | output | recursionLimit | color | variable
deriving DecidableEq, Inhabited

namespace Verb

def all : List Verb :=
  [.encode, .print, .dump, .isMutable, .send, .receive]

def name : Verb → String
  | .encode => "encode"
  | .print => "print"
  | .dump => "dump"
  | .isMutable => "mutable"
  | .send => "send"
  | .receive => "recv"

def ofName? (name : String) : Option Verb :=
  all.find? (·.name == name)

def settings : Verb → List Setting
  | .encode | .receive => [.output, .recursionLimit]
  | .print => [.recursionLimit]
  | .dump => [.recursionLimit, .color]
  | .isMutable => [.variable, .recursionLimit]
  | .send => [.output]

/-- One line of the help text. -/
def usage : Verb → String
  | .encode => "encode DOCUMENT -o FILE [--recursion-limit N]"
  | .print => "print FILE [--recursion-limit N]"
  | .dump => "dump FILE [--recursion-limit N] [--color auto|always|never]"
  | .isMutable => "mutable FILE [--var NAME=TYPE]... [--recursion-limit N]"
  | .send => "send FILE -o MESSAGE"
  | .receive => "recv MESSAGE -o FILE [--recursion-limit N]"

end Verb

def Setting.name : Setting → String
  | .output => "output"
  | .recursionLimit => "recursion-limit"
  | .color => "color"
  | .variable => "var"

/-- Why a command line makes no command. -/
inductive Misuse
  | noVerb
  | unknownVerb (word : String)
  | unknownOption (word : String)
  | missingValue (setting : Setting)
  | invalidValue (setting : Setting) (value : String)
  | repeated (setting : Setting)
  | missing (setting : Setting)
  | noOperand
  | emptyOperand
  | unexpectedOperand (word : String)
deriving DecidableEq, Inhabited

def Misuse.message : Misuse → String
  | .noVerb => "a command is required"
  | .unknownVerb word => "unknown command " ++ word
  | .unknownOption word => "unknown option " ++ word
  | .missingValue setting => "--" ++ setting.name ++ " needs a value"
  | .invalidValue setting value => "invalid value " ++ quoted value ++ " for --" ++ setting.name
  | .repeated setting => "--" ++ setting.name ++ " is given twice"
  | .missing setting => "--" ++ setting.name ++ " is required"
  | .noOperand => "a file is required"
  | .emptyOperand => "a file needs a name"
  | .unexpectedOperand word => "unexpected argument " ++ word

/-- What a word says by its form. -/
inductive Word
  | operand (text : String)
  | separator
  | help
  | setting (s : Setting) (attached : Option String)
  | unknown (text : String)
deriving DecidableEq, Inhabited

namespace Word

/-- An option name, and the value after the first equals sign. -/
def long (text : String) (body : List Char) : Word :=
  let name := String.ofList (body.takeWhile (· != '='))
  let attached := match body.dropWhile (· != '=') with
    | [] => none
    | _ :: value => some (String.ofList value)
  match [Setting.output, .recursionLimit, .color, .variable].find? (·.name == name) with
  | some s => .setting s attached
  | none => if name = "help" ∧ attached = none then .help else .unknown text

/-- A lone dash is an operand. -/
def ofText (text : String) : Word :=
  match text.toList with
  | ['-', '-'] => .separator
  | '-' :: '-' :: body => long text body
  | ['-', 'o'] => .setting .output none
  | '-' :: 'o' :: '=' :: value => .setting .output (some (String.ofList value))
  | '-' :: 'o' :: value => .setting .output (some (String.ofList value))
  | '-' :: 'h' :: _ => .help
  | '-' :: _ :: _ => .unknown text
  | _ => .operand text

end Word

/-- The digits of a positive number below 2^32, with or without a plus sign. -/
def recursionLimit? (text : String) : Option UInt32 :=
  let digits := match text.toList with
    | '+' :: rest => rest
    | cs => cs
  let n := digits.foldl (fun n c => 10 * n + (c.toNat - '0'.toNat)) 0
  if digits.all Char.isDigit && 0 < n && n < UInt32.size then some (.ofNat n) else none

def ColorChoice.ofName? : String → Option ColorChoice
  | "auto" => some .auto
  | "always" => some .always
  | "never" => some .never
  | _ => none

/-- A name that is not empty and, after the first equals sign, the name of a type. -/
def declaration? (text : String) : Option (String × VarType) :=
  let cs := text.toList
  match cs.takeWhile (· != '='), cs.dropWhile (· != '=') with
  | c :: name, _ :: type => some (String.ofList (c :: name), .ofSqlName (String.ofList type))
  | _, _ => none

/-- What the words read so far have given. -/
structure Arguments where
  operand : Option String := none
  output : Option String := none
  recursionLimit : Option UInt32 := none
  color : Option ColorChoice := none
  declared : List (String × VarType) := []

namespace Arguments

def addOperand (a : Arguments) (text : String) : Except Misuse Arguments :=
  if a.operand.isSome then .error (.unexpectedOperand text)
  else if text.isEmpty then .error .emptyOperand
  else .ok { a with operand := some text }

/-- Only variables may be set more than once. -/
def set (a : Arguments) (s : Setting) (text : String) : Except Misuse Arguments :=
  match s with
  | .output =>
    if a.output.isSome then .error (.repeated s)
    else if text.isEmpty then .error (.invalidValue s text)
    else .ok { a with output := some text }
  | .recursionLimit =>
    if a.recursionLimit.isSome then .error (.repeated s)
    else match recursionLimit? text with
      | some n => .ok { a with recursionLimit := some n }
      | none => .error (.invalidValue s text)
  | .color =>
    if a.color.isSome then .error (.repeated s)
    else match ColorChoice.ofName? text with
      | some c => .ok { a with color := some c }
      | none => .error (.invalidValue s text)
  | .variable =>
    match declaration? text with
    | some d => .ok { a with declared := a.declared ++ [d] }
    | none => .error (.invalidValue s text)

/-- Reads the words after the verb; no arguments stand for a call for help. -/
def read (verb : Verb) (a : Arguments) : List String → Except Misuse (Option Arguments)
  | [] => return some a
  | text :: rest =>
    match Word.ofText text with
    | .operand text => do read verb (← a.addOperand text) rest
    | .separator => return some (← rest.foldlM addOperand a)
    | .help => return none
    | .unknown text => throw (.unknownOption text)
    | .setting s attached =>
      if s ∉ verb.settings then throw (.unknownOption text)
      else match attached, rest with
        | some value, rest => do read verb (← a.set s value) rest
        | none, [] => throw (.missingValue s)
        | none, value :: rest =>
          match Word.ofText value with
          | .operand value => do read verb (← a.set s value) rest
          | _ => throw (.missingValue s)

def limits (a : Arguments) : Limits :=
  match a.recursionLimit with
  | some n => { recursionLimit := n }
  | none => {}

def command (verb : Verb) (a : Arguments) : Except Misuse Command := do
  let some file := a.operand | throw .noOperand
  let output : Except Misuse String :=
    match a.output with
    | some name => .ok name
    | none => .error (.missing .output)
  match verb with
  | .encode => return .encode file (← output) a.limits
  | .print => return .print file a.limits
  | .dump => return .dump file a.limits (a.color.getD .auto)
  | .isMutable => return .isMutable file a.declared a.limits
  | .send => return .send file (← output)
  | .receive => return .receive file (← output) a.limits

end Arguments

/-- Reads the words after `help`: at most one, which is a verb or `help` itself. -/
def readTopic : List String → Except Misuse Unit
  | [] => return
  | topic :: rest =>
    if topic ≠ "help" ∧ Verb.ofName? topic = none then throw (.unknownVerb topic)
    else match rest with
      | [] => return
      | word :: _ => throw (.unexpectedOperand word)

/-- The command of a command line, or nothing where help was asked for. -/
def parse : List String → Except Misuse (Option Command)
  | [] => throw .noVerb
  | "help" :: topics => do
    readTopic topics
    return none
  | word :: rest =>
    match Word.ofText word with
    | .help => return none
    | _ => do
      let some verb := Verb.ofName? word | throw (.unknownVerb word)
      let some arguments ← Arguments.read verb {} rest | return none
      return some (← arguments.command verb)

/-- The answer to a call for help. -/
def help : String :=
  "Encode, print and inspect binary path expressions\n\n"
    ++ String.join (Verb.all.map fun v => "  " ++ v.usage ++ "\n")
    ++ "\nThe input - is the standard input.\n"

end FlatPath.CommandLine
