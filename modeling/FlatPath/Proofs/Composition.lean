import FlatPath.Proofs.Commands
import FlatPath.Proofs.Interchange
import FlatPath.Proofs.ReadingLimits

/-!
Command lines one after another. What one command saves the next one reads; and what was encoded
under a recursion limit is printed, laid out, classified, sent and received under the same one.
-/

namespace FlatPath

/-- A buffer that was opened can be laid out. -/
theorem Buffer.outline_of_load {bytes : ByteArray} {limits : Limits} {b : Buffer}
    (h : load bytes limits = .ok b) (palette : Palette) : ∃ s, b.outline palette = .ok s := by
  have passes := (Verify.passes_of_ok (load_eq_ok h)).1
  obtain ⟨root, decoded⟩ := passes.decoded
  exact outline_ok (items_ok (passes.preorder decoded) (root_eq_ok.2 decoded)) palette

namespace Path

variable {path : Path} {limits : Limits} {b : Buffer}

theorem depth_of_encode (h : path.encode limits = .ok b) :
    path.expr.depth ≤ limits.recursionLimit.toNat := by
  obtain ⟨_, _, _, _, depth⟩ := encode_ok h
  exact depth

/-- A buffer is opened under the limits that its path was encoded under. -/
theorem reload_of_encode (h : path.encode limits = .ok b) : Buffer.load b.bytes limits = .ok b :=
  load_of_room h (running_of_encode h) (depth_of_encode h)

/-- It is also printed under them. -/
theorem print_of_room (h : path.encode limits = .ok b) :
    b.print limits = .ok (String.ofList path.text) := by
  obtain ⟨root, first, read⟩ := root_of_encode h
  have same := ((Expr.curtailed_print (running_of_encode h) path.expr).before fun body =>
    .ok ((if b.header.hasExtensions then "pg " else "") ++
      (if b.header.isLax then "" else "strict ") ++ body)).ample (depth_of_encode h)
  have printed := print_of_encode h
  rw [Buffer.print_of_expr? first read] at printed ⊢
  exact same.trans printed

theorem isMutable_of_room (h : path.encode limits = .ok b) (bindings : Bindings) :
    ∃ found, b.isMutable bindings limits = .ok found := by
  obtain ⟨root, first, read⟩ := root_of_encode h
  obtain ⟨found, decided, _⟩ := Mutability.isMutable_node_of_room (running_of_encode h)
    (depth_of_encode h) ⟨bindings, b.header.isLax⟩
  exact ⟨found, (Buffer.isMutable_of_expr? first read bindings limits).trans decided⟩

end Path

namespace CommandLine

variable {home : String} {files files' : Files home} {input : ByteArray}

namespace Command

variable {path : Path} {limits : Limits} {b : Buffer} {document output : String}

/-- A path was encoded and saved if `encode` is not refused. -/
theorem exists_of_run_encode {reply : Reply}
    (done : (encode document output limits).run files input = (reply, files'))
    (accepted : reply.exit = 0) :
    ∃ path b entry, path.encode limits = .ok b ∧ files.locate output = .ok (.entry entry) ∧
      files' = files.put entry b.bytes ∧ reply.out = line path := by
  cases ending rfl done with
  | unreadable | refused | unwritable => cases accepted
  | saved _ made answered located =>
      cases made with
      | encode parsed encoded =>
          cases (respond_encode parsed encoded).symm.trans answered
          exact ⟨_, _, _, encoded, located, rfl, rfl⟩

section Respond

variable (h : path.encode limits = .ok b)

include h

theorem load_of_encode (name : String) : load name b.bytes limits = .ok b :=
  mapError_eq_ok.2 (Path.reload_of_encode h)

theorem respond_print (file : String) :
    (print file limits).respond false b.bytes = .ok { text := line path } := by
  rw [respond, load_of_encode h, ok_bind, mapError_eq_ok.2 (Path.print_of_room h)]
  rfl

theorem respond_dump (file : String) (color : ColorChoice) :
    ∃ s, (dump file limits color).respond false b.bytes = .ok { text := s } := by
  obtain ⟨s, shown⟩ := Buffer.outline_of_load (Path.reload_of_encode h) (color.palette false)
  refine ⟨s, ?_⟩
  rw [respond, load_of_encode h, ok_bind, mapError_eq_ok.2 shown]
  rfl

theorem respond_isMutable (file : String) (declared : List (String × VarType)) :
    ∃ found : Bool, (isMutable file declared limits).respond false b.bytes =
      .ok { text := if found then "mutable\n" else "immutable\n" } := by
  obtain ⟨found, decided⟩ := Path.isMutable_of_room h (.ofList declared)
  refine ⟨found, ?_⟩
  rw [respond, load_of_encode h, ok_bind, mapError_eq_ok.2 decided]
  rfl

theorem respond_send (room : path.expr.depth ≤ 1024) (file output : String) :
    (send file output).respond false b.bytes = .ok { saved := some (output, Wire.send b) } := by
  have loaded : load file b.bytes {} = .ok b := mapError_eq_ok.2 (Path.load_of_room h rfl room)
  rw [respond, loaded]
  rfl

theorem respond_receive (message output : String) :
    (receive message output limits).respond false (Wire.send b) =
      .ok { text := line path, saved := some (output, b.bytes) } := by
  have received : Wire.receive (Wire.send b) limits = .ok b :=
    Wire.receive_eq_ok.2 ⟨b.bytes, Wire.send_eq b, Path.reload_of_encode h⟩
  rw [respond, mapError_eq_ok.2 received, ok_bind, save_of_encode h]

end Respond

end Command

/-- Commands under one recursion limit compose. If `encode` has saved a path and printed its text,
`print` gives this text, `dump` and `mutable` are not refused, and, within the default limit that
`send` keeps to, `send` and then `recv` print the text again and save a copy of the buffer. -/
theorem run_encode_composes {n : UInt32} {document file : String} {words : List String}
    {reply : Reply}
    (asked : parse words = .ok (some (.encode document file { recursionLimit := n })))
    (done : run words files input = (reply, files')) (accepted : reply.exit = 0)
    (named : file ≠ "-") :
    (∀ words input, parse words = .ok (some (.print file { recursionLimit := n })) →
      run words files' input = ({ out := reply.out }, files')) ∧
    (∀ words input color, parse words = .ok (some (.dump file { recursionLimit := n } color)) →
      ∃ s, run words files' input = ({ out := s }, files')) ∧
    (∀ words input declared,
      parse words = .ok (some (.isMutable file declared { recursionLimit := n })) →
        ∃ found : Bool, run words files' input =
          ({ out := if found then "mutable\n" else "immutable\n" }, files')) ∧
    (n ≤ 1024 → ∀ message copy, message ≠ "-" → files'.Apart file message →
      files'.Apart file copy → ∀ words words' input input',
        parse words = .ok (some (.send file message)) →
        parse words' = .ok (some (.receive message copy { recursionLimit := n })) →
          ∃ files₁ files₂ contents, files'.read file = .ok contents ∧
            run words files' input = ({}, files₁) ∧
            run words' files₁ input' = ({ out := reply.out }, files₂) ∧
            files₂.read file = .ok contents ∧ files₂.read copy = .ok contents) := by
  rw [run_of_parse asked] at done
  obtain ⟨path, b, entry, encoded, located, rfl, out⟩ :=
    Command.exists_of_run_encode done accepted
  have found := Files.read_put located b.bytes
  rw [out]
  refine ⟨fun words input asked => ?_, fun words input color asked => ?_,
    fun words input declared asked => ?_, fun small message copy named' apart apart' words words'
      input input' asked asked' => ?_⟩
  · exact run_of_respond asked named found (Command.respond_print encoded file) input
  · obtain ⟨s, answered⟩ := Command.respond_dump encoded file color
    exact ⟨s, run_of_respond asked named found answered input⟩
  · obtain ⟨found', answered⟩ := Command.respond_isMutable encoded file declared
    exact ⟨found', run_of_respond asked named found answered input⟩
  · obtain ⟨own, sent, here, there, differs⟩ := apart
    obtain ⟨own', received, here', there', differs'⟩ := apart'
    have room : path.expr.depth ≤ 1024 := (Path.depth_of_encode encoded).trans small
    have sending := run_of_save asked named found
      (Command.respond_send encoded room file message) there input
    have carried := Files.read_put there (Wire.send b)
    have there' := Files.locate_put there (Wire.send b) there'
    have receiving := run_of_save asked' named' carried
      (Command.respond_receive encoded message copy) there' input'
    refine ⟨_, _, b.bytes, found, sending, receiving, ?_, Files.read_put there' b.bytes⟩
    rw [Files.read_put_other (Files.locate_put there _ here') there' differs',
      Files.read_put_other here there differs, found]

/-- The specimen, under the limit that it needs, through all six commands. -/
theorem run_encode_composes_specimen :
    let files := ({} : Files).put "tree.json" Path.specimen.toJson.compact.toUTF8
    ∃ text files₁ files₂ files₃ contents,
      run ["encode", "tree.json", "-o", "path.bin", "--recursion-limit", "4"] files .empty =
        ({ out := text }, files₁) ∧
      run ["print", "path.bin", "--recursion-limit=4"] files₁ .empty = ({ out := text }, files₁) ∧
      (∃ s, run ["dump", "--color", "always", "path.bin", "--recursion-limit", "4"] files₁ .empty =
        ({ out := s }, files₁)) ∧
      (∃ found : Bool, run ["mutable", "path.bin", "--var", "t=timestamp", "--recursion-limit=4"]
        files₁ .empty = ({ out := if found then "mutable\n" else "immutable\n" }, files₁)) ∧
      files₁.read "path.bin" = .ok contents ∧
      run ["send", "path.bin", "-o", "message.bin"] files₁ .empty = ({}, files₂) ∧
      run ["recv", "message.bin", "-o", "copy.bin", "--recursion-limit", "4"] files₂ .empty =
        ({ out := text }, files₃) ∧
      files₃.read "path.bin" = .ok contents ∧ files₃.read "copy.bin" = .ok contents := by
  intro files
  obtain ⟨b, encoded⟩ := exists_ok (x := Path.specimen.encode { recursionLimit := 4 })
    (by decide +kernel)
  have parsed : Path.ofDocument? Path.specimen.toJson.compact.toUTF8 = some Path.specimen := by
    rw [Path.ofDocument?, Json.read?_compact (Path.plain_toJson _), Option.bind_eq_bind,
      Option.bind_some, Path.ofJson?_toJson, if_pos (by decide)]
  have asked : parse ["encode", "tree.json", "-o", "path.bin", "--recursion-limit", "4"] =
      .ok (some (.encode "tree.json" "path.bin" { recursionLimit := 4 })) := rfl
  have found : files.read "tree.json" = .ok Path.specimen.toJson.compact.toUTF8 :=
    Files.read_put rfl _
  have located : files.locate "path.bin" = .ok (.entry "path.bin") := rfl
  have done := run_of_save asked (by decide) found (Command.respond_encode parsed encoded) located
    .empty
  obtain ⟨print, dump, decide, onward⟩ := run_encode_composes asked done rfl (by decide)
  have leads {name : String} {place : Files.Place} (h : files.locate name = .ok place) :=
    Files.locate_put located b.bytes h
  obtain ⟨files₂, files₃, contents, saved, sent, received, kept, copied⟩ :=
    onward (by decide) "message.bin" "copy.bin" (by decide)
      ⟨_, "message.bin", leads located, leads rfl, by decide⟩
      ⟨_, "copy.bin", leads located, leads rfl, by decide⟩
      ["send", "path.bin", "-o", "message.bin"]
      ["recv", "message.bin", "-o", "copy.bin", "--recursion-limit", "4"] .empty .empty rfl rfl
  exact ⟨_, _, files₂, files₃, contents, done, print _ .empty rfl, dump _ .empty .always rfl,
    decide _ .empty [("t", .timestamp)] rfl, saved, sent, received, kept, copied⟩

end CommandLine

end FlatPath
