import Mathlib
import FlatPath.Proofs.Files
import FlatPath.Proofs.Framing
import FlatPath.Proofs.Parentheses
import FlatPath.Proofs.UniqueReading

/-!
What commands do to files. A command that saves a file first makes all of it and then writes it, so
its run ends in one of four ways, and only the last of them changes a file.
-/

namespace FlatPath

namespace CommandLine

variable {home : String} {files files' : Files home} {input contents bytes : ByteArray}
  {text : String}

namespace Command

variable {c : Command} {output : String}

/-- The contents of the input. -/
def given (c : Command) (files : Files home) (standardInput : ByteArray) :
    Except FileError ByteArray :=
  if c.input = "-" then .ok standardInput else files.read c.input

section Surroundings

variable {e : FileError} {name : String}

@[simp] theorem run_fetch (c : Command) (files : Files home) (input : ByteArray) :
    (c.fetch (Files.surroundings input)).run files = pure (c.given files input, files) := by
  rw [fetch, given]
  split <;> rfl

@[simp] theorem run_terminal (files : Files home) (input : ByteArray) :
    (Files.surroundings input).terminal.run files = pure (false, files) := rfl

theorem run_write_of_error (failed : files.write name bytes = .error e) (input : ByteArray) :
    ((Files.surroundings input).write name bytes).run files = pure (.error e, files) := by
  simp [Files.surroundings, failed]

theorem run_write_of_ok (written : files.write name bytes = .ok files') (input : ByteArray) :
    ((Files.surroundings input).write name bytes).run files = pure (.ok (), files') := by
  simp [Files.surroundings, written]

end Surroundings

section Endings

theorem run_of_unreadable {e : FileError} (missing : c.given files input = .error e) :
    c.run files input = (.refused (about c.input e.message), files) := by
  simp [run, perform, missing]

theorem run_of_refused {reason : String} (given : c.given files input = .ok contents)
    (answered : c.respond false contents = .error reason) :
    c.run files input = (.refused reason, files) := by
  simp [run, perform, given, answered]

theorem run_of_printed (given : c.given files input = .ok contents)
    (answered : c.respond false contents = .ok { text := text }) :
    c.run files input = ({ out := text }, files) := by
  simp [run, perform, given, answered]

theorem run_of_unwritable {e : FileError} (given : c.given files input = .ok contents)
    (answered : c.respond false contents = .ok { text := text, saved := some (output, bytes) })
    (failed : files.write output bytes = .error e) :
    c.run files input = (.refused (about output e.message), files) := by
  simp [run, perform, given, answered, run_write_of_error failed]

theorem run_of_written (given : c.given files input = .ok contents)
    (answered : c.respond false contents = .ok { text := text, saved := some (output, bytes) })
    (written : files.write output bytes = .ok files') :
    c.run files input = ({ out := text }, files') := by
  simp [run, perform, given, answered, run_write_of_ok written]

end Endings

end Command

section Run

variable {c : Command} {words : List String} {output entry : String}

theorem run_of_parse (asked : parse words = .ok (some c)) (files : Files home)
    (input : ByteArray) : run words files input = c.run files input := by
  rw [run, perform, asked]
  rfl

theorem run_of_respond (asked : parse words = .ok (some c)) (named : c.input ≠ "-")
    (found : files.read c.input = .ok contents)
    (answered : c.respond false contents = .ok { text := text }) (input : ByteArray) :
    run words files input = ({ out := text }, files) := by
  rw [run_of_parse asked]
  exact Command.run_of_printed ((if_neg named).trans found) answered

theorem run_of_save (asked : parse words = .ok (some c)) (named : c.input ≠ "-")
    (found : files.read c.input = .ok contents)
    (answered : c.respond false contents = .ok { text := text, saved := some (output, bytes) })
    (located : files.locate output = .ok (.entry entry)) (input : ByteArray) :
    run words files input = ({ out := text }, files.put entry bytes) := by
  rw [run_of_parse asked]
  exact Command.run_of_written ((if_neg named).trans found) answered
    (Files.write_of_locate located bytes)

end Run

namespace Command

variable {path : Path} {limits : Limits} {b : Buffer} {document output : String}

/-- What is printed for a path, a line. -/
def line (path : Path) : String :=
  String.ofList path.text ++ "\n"

theorem save_of_encode (h : path.encode limits = .ok b) (output : String) :
    save output b = .ok { text := line path, saved := some (output, b.bytes) } := by
  rw [save, mapError_eq_ok.2 (Path.print_of_encode h)]
  rfl

theorem respond_encode (parsed : Path.ofDocument? contents = some path)
    (h : path.encode limits = .ok b) :
    (encode document output limits).respond false contents =
      .ok { text := line path, saved := some (output, b.bytes) } := by
  simp only [respond, parsed, mapError_eq_ok.2 h, ok_bind, save_of_encode h]

theorem save_of_load (h : Buffer.load bytes limits = .ok b) (output : String) :
    ∃ text, save output b = .ok { text, saved := some (output, b.bytes) } := by
  obtain ⟨_, _, text, _, _, printed, _⟩ := Buffer.print_of_load h
  refine ⟨text ++ "\n", ?_⟩
  rw [save, mapError_eq_ok.2 printed]
  rfl

section Saving

variable {c : Command} {reply : Reply}

/-- The name of the file that a command saves. -/
def output? : Command → Option String
  | encode _ output _ | send _ output | receive _ output _ => some output
  | print .. | dump .. | isMutable .. => none

/-- What a command makes of the contents of its input, to be saved: the whole buffer of the path
that the document describes or that the message carries, or the whole message for a buffer. -/
inductive Makes : Command → ByteArray → ByteArray → Prop
  | encode {document output : String} {limits : Limits} {contents : ByteArray} {path : Path}
      {b : Buffer} (parsed : Path.ofDocument? contents = some path)
      (encoded : path.encode limits = .ok b) :
      Makes (.encode document output limits) contents b.bytes
  | send {file output : String} {contents : ByteArray} {b : Buffer}
      (loaded : Buffer.load contents {} = .ok b) :
      Makes (.send file output) contents (Wire.send b)
  | receive {message output : String} {limits : Limits} {contents : ByteArray} {b : Buffer}
      (received : Wire.receive contents limits = .ok b) :
      Makes (.receive message output limits) contents b.bytes

/-- What can be made of the input is saved. -/
theorem Makes.answered (made : c.Makes contents bytes) (saving : c.output? = some output) :
    ∃ text, c.respond false contents = .ok { text, saved := some (output, bytes) } := by
  cases made with
  | encode parsed encoded =>
      cases saving
      exact ⟨_, respond_encode parsed encoded⟩
  | send loaded =>
      cases saving
      refine ⟨"", ?_⟩
      rw [respond, load, loaded]
      rfl
  | receive received =>
      cases saving
      obtain ⟨_, _, loaded⟩ := Wire.receive_eq_ok.1 received
      obtain ⟨text, saved⟩ := save_of_load loaded output
      refine ⟨text, ?_⟩
      rw [respond, mapError_eq_ok.2 received, ok_bind, saved]

/-- A command that is not refused has made what it saves. -/
theorem exists_makes {outcome : Outcome} (saving : c.output? = some output)
    (answered : c.respond false contents = .ok outcome) : ∃ bytes, c.Makes contents bytes := by
  cases c with
  | print | dump | isMutable => cases saving
  | encode document _ limits =>
      rw [respond] at answered
      cases parsed : Path.ofDocument? contents with
      | none =>
          rw [parsed] at answered
          cases answered
      | some path =>
          rw [parsed] at answered
          obtain ⟨b, encoded, _⟩ := bind_eq_ok.1 answered
          exact ⟨_, .encode parsed (mapError_eq_ok.1 encoded)⟩
  | send file _ =>
      obtain ⟨b, loaded, _⟩ := bind_eq_ok.1 answered
      exact ⟨_, .send (mapError_eq_ok.1 loaded)⟩
  | receive message _ limits =>
      obtain ⟨b, received, _⟩ := bind_eq_ok.1 answered
      exact ⟨_, .receive (mapError_eq_ok.1 received)⟩

/-- How the run of a command that saves a file can end. -/
inductive Ending (c : Command) (output : String) (files : Files home) (input : ByteArray) :
    Reply → Files home → Prop
  | unreadable {e : FileError} (missing : c.given files input = .error e) :
      Ending c output files input (.refused (about c.input e.message)) files
  | refused {contents : ByteArray} {reason : String} (given : c.given files input = .ok contents)
      (nothing : ∀ bytes, ¬ c.Makes contents bytes) :
      Ending c output files input (.refused reason) files
  | unwritable {contents bytes : ByteArray} {e : FileError}
      (given : c.given files input = .ok contents) (made : c.Makes contents bytes)
      (failed : files.write output bytes = .error e) :
      Ending c output files input (.refused (about output e.message)) files
  | saved {contents bytes : ByteArray} {text entry : String}
      (given : c.given files input = .ok contents) (made : c.Makes contents bytes)
      (answered : c.respond false contents = .ok { text, saved := some (output, bytes) })
      (located : files.locate output = .ok (.entry entry)) :
      Ending c output files input { out := text } (files.put entry bytes)

theorem ending (saving : c.output? = some output)
    (done : c.run files input = (reply, files')) : c.Ending output files input reply files' := by
  cases given : c.given files input with
  | error e =>
      cases (run_of_unreadable given).symm.trans done
      exact .unreadable given
  | ok contents =>
      cases answered : c.respond false contents with
      | error reason =>
          cases (run_of_refused given answered).symm.trans done
          refine .refused given fun bytes made => ?_
          obtain ⟨text, succeeded⟩ := made.answered saving
          cases answered.symm.trans succeeded
      | ok outcome =>
          obtain ⟨bytes, made⟩ := exists_makes saving answered
          obtain ⟨text, saved⟩ := made.answered saving
          cases written : files.write output bytes with
          | error e =>
              cases (run_of_unwritable given saved written).symm.trans done
              exact .unwritable given made written
          | ok files'' =>
              cases (run_of_written given saved written).symm.trans done
              obtain ⟨entry, located, rfl⟩ := Files.write_eq_ok written
              exact .saved given made saved located

end Saving

end Command

end CommandLine

end FlatPath
