import FlatPath.Proofs.Composition
import FlatPath.Proofs.DocumentNesting

/-!
Commands that save a file save all of it or change nothing. What they save is one whole buffer or
message, which is accepted where it is read next.
-/

namespace FlatPath

/-- What was opened is opened again from its own bytes. -/
theorem Buffer.reload_of_load {bytes : ByteArray} {limits : Limits} {b : Buffer}
    (h : load bytes limits = .ok b) : load b.bytes limits = .ok b := by
  rwa [bytes_of_load h]

namespace CommandLine

namespace Command

variable {c : Command} {contents bytes : ByteArray}

/-- Who reads the saved file next accepts it, under the limits that the command kept to, and finds
nothing else in it: a loader of buffers or a receiver of messages. -/
def Accepts : Command → ByteArray → Prop
  | encode _ _ limits, bytes | receive _ _ limits, bytes =>
    ∃ b, Buffer.load bytes limits = .ok b ∧ b.bytes = bytes
  | send _ _, bytes => ∃ b, Wire.receive bytes {} = .ok b ∧ Wire.send b = bytes
  | print .., _ | dump .., _ | isMutable .., _ => False

theorem Makes.accepts (made : c.Makes contents bytes) : c.Accepts bytes := by
  cases made with
  | encode parsed encoded => exact ⟨_, Path.reload_of_encode encoded, rfl⟩
  | @send _ _ _ b loaded =>
      have received := Wire.receive_eq_ok.2 ⟨b.bytes, Wire.send_eq b, Buffer.reload_of_load loaded⟩
      exact ⟨b, received, rfl⟩
  | receive received =>
      obtain ⟨_, _, loaded⟩ := Wire.receive_eq_ok.1 received
      exact ⟨_, Buffer.reload_of_load loaded, rfl⟩

end Command

variable {home : String} {files files' : Files home} {input : ByteArray}

/-- A command that saves a file either exits with 0: then the file holds all that the command makes
of its input, who reads it next accepts it, and no other file has changed. Or it exits with 1: then
all files are as they were, and the input could not be read, or nothing could be made of it, or the
file could not be written. -/
theorem run_saves_whole_or_nothing {c : Command} {output : String} {words : List String}
    {reply : Reply} (asked : parse words = .ok (some c)) (saving : c.output? = some output)
    (done : run words files input = (reply, files')) :
    (reply.exit = 0 ∧ ∃ contents bytes, c.given files input = .ok contents ∧
        c.Makes contents bytes ∧ files'.read output = .ok bytes ∧ c.Accepts bytes ∧
        ∀ name, files.Apart name output → files'.read name = files.read name) ∨
      (reply.exit = 1 ∧ files' = files ∧
        ((∃ e, c.given files input = .error e) ∨
          ∃ contents, c.given files input = .ok contents ∧
            ((∀ bytes, ¬ c.Makes contents bytes) ∨
              ∃ bytes e, c.Makes contents bytes ∧ files.write output bytes = .error e ∧
                reply = .refused (Command.about output e.message)))) := by
  cases Command.ending saving ((run_of_parse asked files input).symm.trans done) with
  | unreadable missing => exact .inr ⟨rfl, rfl, .inl ⟨_, missing⟩⟩
  | refused given nothing => exact .inr ⟨rfl, rfl, .inr ⟨_, given, .inl nothing⟩⟩
  | unwritable given made failed =>
      exact .inr ⟨rfl, rfl, .inr ⟨_, given, .inr ⟨_, _, made, failed, rfl⟩⟩⟩
  | saved given made _ located =>
      refine .inl ⟨rfl, _, _, given, made, Files.read_put located _, made.accepts,
        fun name apart => ?_⟩
      obtain ⟨own, other, here, there, differs⟩ := apart
      cases located.symm.trans there
      exact Files.read_put_other here located differs _

/-- The specimen is encoded over a file that is there already; a message of three bytes is refused
and leaves that file alone. -/
theorem run_saves_whole_or_nothing_replaced :
    let files := ((({} : Files).put "tree.json" Path.specimen.toJson.compact.toUTF8).put
      "short.bin" ⟨#[1, 2, 3]⟩).put "path.bin" ⟨#[7]⟩
    (∃ text files' bytes b,
      run ["encode", "tree.json", "-o", "path.bin", "--recursion-limit", "4"] files .empty =
        ({ out := text }, files') ∧
      files'.read "path.bin" = .ok bytes ∧
      Buffer.load bytes { recursionLimit := 4 } = .ok b ∧ b.bytes = bytes ∧
      files'.read "short.bin" = files.read "short.bin") ∧
    ∃ reply, run ["recv", "short.bin", "-o", "path.bin"] files .empty = (reply, files) ∧
      reply.exit = 1 := by
  intro files
  refine ⟨?_, ?_⟩
  · obtain ⟨b, encoded⟩ := exists_ok (x := Path.specimen.encode { recursionLimit := 4 })
      (by decide +kernel)
    have parsed := (Path.read_document Path.specimen).trans (if_pos (by decide +kernel))
    have asked : parse ["encode", "tree.json", "-o", "path.bin", "--recursion-limit", "4"] =
        .ok (some (.encode "tree.json" "path.bin" { recursionLimit := 4 })) := rfl
    have found : files.read "tree.json" = .ok Path.specimen.toJson.compact.toUTF8 := rfl
    have located : files.locate "path.bin" = .ok (.entry "path.bin") := rfl
    have done := run_of_save asked (by decide) found (Command.respond_encode parsed encoded)
      located .empty
    obtain ⟨_, _, bytes, _, _, saved, ⟨b, loaded, whole⟩, others⟩ | ⟨failed, _⟩ :=
      run_saves_whole_or_nothing asked rfl done
    · exact ⟨_, _, bytes, b, done, saved, loaded, whole,
        others "short.bin" ⟨"short.bin", "path.bin", rfl, rfl, by decide⟩⟩
    · cases failed
  · have asked : parse ["recv", "short.bin", "-o", "path.bin"] =
        .ok (some (.receive "short.bin" "path.bin" {})) := rfl
    have cut : (Wire.receive ⟨#[1, 2, 3]⟩ {}).isOk = false := by decide +kernel
    generalize done : run ["recv", "short.bin", "-o", "path.bin"] files .empty = result
    obtain ⟨reply, files'⟩ := result
    obtain ⟨_, _, _, given, made, _⟩ | ⟨failed, rfl, _⟩ :=
      run_saves_whole_or_nothing asked rfl done
    · cases given
      cases made with
      | receive received =>
          rw [received] at cut
          cases cut
    · exact ⟨reply, rfl, failed⟩

end CommandLine

end FlatPath
