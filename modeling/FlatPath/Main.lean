import FlatPath.CommandLine.Perform

/-!
The program: carries out its command line among the files of the machine.
-/

namespace FlatPath.CommandLine

def fileError : IO.Error → FileError
  | .noFileOrDirectory .. => .notFound
  | .inappropriateType _ _ "Not a directory" | .inappropriateType _ _ "not a directory" =>
    .notDirectory
  | .inappropriateType .. => .isDirectory
  | .invalidArgument _ _ "File name too long" | .invalidArgument _ _ "name too long" =>
    .nameTooLong
  | e => .refused (toString e)

def attempt {α : Type} (action : IO α) : IO (Except FileError α) :=
  try return .ok (← action)
  catch e => return .error (fileError e)

partial def readStandardInput (stream : IO.FS.Stream) (contents : ByteArray) : IO ByteArray := do
  let chunk ← stream.read 65536
  if chunk.isEmpty then return contents
  readStandardInput stream (contents ++ chunk)

/-- The machine that the program runs on. -/
def machine : Surroundings IO where
  standardInput := attempt do readStandardInput (← IO.getStdin) .empty
  terminal := do (← IO.getStdout).isTty
  read name := attempt (IO.FS.readBinFile name)
  write name contents := attempt (IO.FS.writeBinFile name contents)

end FlatPath.CommandLine

open FlatPath.CommandLine in
def main (arguments : List String) : IO UInt32 := do
  let reply ← perform arguments machine
  IO.print reply.out
  IO.eprint reply.err
  return reply.exit
