import FlatPath.Proofs.Spans
import FlatPath.Proofs.Reencoding
import FlatPath.Wire

/-!
Messages and the paths they carry. Nothing that is read is changed on the way: a buffer that was
opened is made of the bytes it was opened from, and a message that was received is the one that is
sent for what was received.
-/

namespace FlatPath

open Bytes

namespace Bytes

variable {b : ByteArray} {i : Nat}

/-- A word that is written again gives the bytes that it was read from. -/
theorem ofWord_wordAt (h : i + 4 ≤ b.size) : ofWord (wordAt b i) = b.extract i (i + 4) := by
  rw [ByteArray.extract_add_four h, ofWord, wordAt]
  simp only [byteAt, show i < b.size by omega, show i + 1 < b.size by omega,
    show i + 2 < b.size by omega, show i + 3 < b.size by omega, dif_pos]
  have := b[i].toNat_lt
  have := b[i + 1].toNat_lt
  have := b[i + 2].toNat_lt
  have := b[i + 3].toNat_lt
  refine congrArg List.toByteArray ?_
  simp only [List.cons.injEq, and_true, ← UInt8.toNat_inj, UInt8.toNat_ofNat',
    UInt32.toNat_ofNat']
  omega

theorem byteAt?_eq_some {v : UInt8} :
    byteAt? b i = some v ↔ i + 1 ≤ b.size ∧ b.extract i (i + 1) = [v].toByteArray := by
  rw [byteAt?]
  by_cases inside : i < b.size
  · rw [dif_pos inside, ByteArray.extract_add_one inside]
    simp [Nat.succ_le_of_lt inside]
  · rw [dif_neg inside]
    simp [inside]

/-- A byte string is what stands before a position and what stands from there on. -/
theorem extract_append_extract {j : Nat} (le : i ≤ j) (inside : j ≤ b.size) :
    b.extract i j ++ b.extract j b.size = b.extract i b.size :=
  (ByteArray.extract_eq_extract_append_extract j le inside).symm

end Bytes

namespace Header

variable {b : ByteArray} {h : Header}

theorem bytes_of_ofBytes? (found : ofBytes? b = some h) :
    4 ≤ b.size ∧ h.bytes = b.extract 0 4 := by
  rw [ofBytes?] at found
  split at found
  · next enough =>
      have enough : 0 + 4 ≤ b.size := enough
      cases found
      refine ⟨enough, ?_⟩
      rw [← Nat.zero_add 4, ByteArray.extract_add_four enough]
      have := b[2].toNat_lt
      have := b[3].toNat_lt
      refine congrArg List.toByteArray ?_
      simp only [List.cons.injEq, true_and, and_true, ← UInt8.toNat_inj, UInt8.toNat_ofNat',
        UInt16.toNat_ofNat', Nat.zero_add]
      omega
  · cases found

/-- A header that is read is of the current version, and is made of the bytes it was read from. -/
theorem bytes_of_read (found : read b = .ok h) :
    h.isCurrent ∧ h.bytes ++ b.extract size b.size = b := by
  rw [read] at found
  split at found
  · cases found
  · next h' front =>
      split at found
      · next current =>
          cases found
          obtain ⟨enough, same⟩ := bytes_of_ofBytes? front
          refine ⟨current, ?_⟩
          rw [same]
          exact (extract_append_extract (Nat.zero_le _) enough).trans ByteArray.extract_zero_size
      · cases found

end Header

/-- A buffer that was opened is made of the bytes it was opened from. -/
theorem Buffer.bytes_of_load {bytes : ByteArray} {limits : Limits} {b : Buffer}
    (h : load bytes limits = .ok b) : b.bytes = bytes := by
  obtain ⟨header, found, h⟩ := bind_eq_ok.1 h
  obtain ⟨_, _, h⟩ := bind_eq_ok.1 h
  cases h
  exact (Header.bytes_of_read found).2

namespace Wire

variable {message bytes : ByteArray} {limits : Limits} {b : Buffer}

/-- The message that carries these bytes. -/
def frame (bytes : ByteArray) : ByteArray :=
  [version].toByteArray ++ ofWord (Checksum.crc32 bytes) ++ bytes

theorem send_eq (b : Buffer) : send b = frame b.bytes := rfl

/-- What is looked at in a message says all of it. -/
theorem eq_frame_iff :
    message = frame bytes ↔
      byteAt? message 0 = some version ∧ frameSize ≤ message.size ∧
        wordAt message 1 = Checksum.crc32 bytes ∧
        message.extract frameSize message.size = bytes := by
  constructor
  · rintro rfl
    have held : HoldsAt (frame bytes) 0
        ([version].toByteArray ++ (ofWord (Checksum.crc32 bytes) ++ bytes)) :=
      ⟨.empty, .empty, by simp [frame, ByteArray.append_assoc], rfl⟩
    have size : (frame bytes).size = frameSize + bytes.size := by
      simp only [frame, ByteArray.size_append, size_ofWord]
      rfl
    refine ⟨held.left.byteAt?, by omega, held.right.left.wordAt, ?_⟩
    rw [size]
    exact ByteArray.extract_append_eq_right rfl rfl
  · rintro ⟨first, long, checksum, rfl⟩
    have long : 1 + 4 ≤ message.size := long
    obtain ⟨_, first⟩ := byteAt?_eq_some.1 first
    symm
    calc frame (message.extract frameSize message.size)
        = message.extract 0 1 ++
            (message.extract 1 (1 + 4) ++ message.extract (1 + 4) message.size) := by
          rw [frame, ← checksum, ofWord_wordAt long, ← first, ByteArray.append_assoc]
          rfl
      _ = message.extract 0 1 ++ message.extract 1 message.size := by
          rw [extract_append_extract (by omega) long]
      _ = message := by
          rw [extract_append_extract (Nat.zero_le _) (by omega), ByteArray.extract_zero_size]

/-- The bytes of the buffer that a message carries, which are not looked at themselves. -/
def unframe (message : ByteArray) : Except WireError ByteArray := do
  match byteAt? message 0 with
  | none => throw (.tooShort 0)
  | some v => if v ≠ version then throw (.version v)
  if message.size < frameSize then throw (.tooShort message.size)
  let bytes := message.extract frameSize message.size
  if wordAt message 1 ≠ Checksum.crc32 bytes then
    throw (.checksum (wordAt message 1) (Checksum.crc32 bytes))
  return bytes

/-- The buffer is opened once the message around it was accepted. -/
theorem receive_eq (message : ByteArray) (limits : Limits) :
    receive message limits = unframe message >>= fun bytes =>
      (Buffer.load bytes limits).mapError .format := by
  rw [receive, unframe]
  cases byteAt? message 0 with
  | none => rfl
  | some v =>
      by_cases other : v ≠ version
      · simp [other]
      · by_cases short : message.size < frameSize
        · simp [other, short]
        · by_cases differs :
              wordAt message 1 ≠ Checksum.crc32 (message.extract frameSize message.size)
          · simp [other, short, differs]
          · simp only [other, short, differs, if_false, except_pure, ok_bind]
            cases Buffer.load (message.extract frameSize message.size) limits <;> rfl

theorem unframe_eq_ok : unframe message = .ok bytes ↔ message = frame bytes := by
  rw [eq_frame_iff]
  cases first : byteAt? message 0 with
  | none => simp [unframe, first]
  | some v =>
      by_cases other : v ≠ version
      · simp [unframe, first, other]
      · by_cases short : message.size < frameSize
        · simp [unframe, first, other, short]
        · have long : frameSize ≤ message.size := Nat.le_of_not_lt short
          by_cases same : wordAt message 1 = Checksum.crc32 (message.extract frameSize message.size)
          · have accepted : unframe message = .ok (message.extract frameSize message.size) := by
              simp [unframe, first, other, short, same]
            rw [accepted, Except.ok.injEq, not_not.1 other]
            constructor
            · rintro rfl
              exact ⟨rfl, long, same, rfl⟩
            · exact fun parts => parts.2.2.2
          · refine iff_of_false (by simp [unframe, first, other, short, same]) ?_
            rintro ⟨-, -, checksum, rfl⟩
            exact same checksum

/-- A message is received if it carries the bytes of a buffer that can be opened. -/
theorem receive_eq_ok :
    receive message limits = .ok b ↔
      ∃ bytes, message = frame bytes ∧ Buffer.load bytes limits = .ok b := by
  simp only [receive_eq, bind_eq_ok, unframe_eq_ok, mapError_eq_ok]

/-- Under any limits a message is received as a buffer exactly if it is the one that is sent for it
and the bytes of the buffer can be opened. So whatever was encoded or opened under these limits is
received, byte for byte, from its message and from no other one. -/
theorem receive_iff_send (limits : Limits) :
    (∀ message b, receive message limits = .ok b ↔
      message = send b ∧ Buffer.load b.bytes limits = .ok b) ∧
    (∀ path b, Path.encode path limits = .ok b → receive (send b) limits = .ok b) ∧
    ∀ bytes b, Buffer.load bytes limits = .ok b →
      b.bytes = bytes ∧ receive (send b) limits = .ok b := by
  have received (message : ByteArray) (b : Buffer) : receive message limits = .ok b ↔
      message = send b ∧ Buffer.load b.bytes limits = .ok b := by
    rw [receive_eq_ok]
    constructor
    · rintro ⟨bytes, rfl, loaded⟩
      have same := Buffer.bytes_of_load loaded
      exact ⟨by rw [send_eq, same], by rwa [same]⟩
    · rintro ⟨rfl, loaded⟩
      exact ⟨b.bytes, send_eq b, loaded⟩
  refine ⟨received, fun path b encoded => ?_, fun bytes b loaded => ?_⟩
  · obtain ⟨_, _, _, _, depth⟩ := Path.encode_ok encoded
    have loaded := Path.load_of_room encoded (Path.running_of_encode encoded) depth
    exact (received _ b).2 ⟨rfl, loaded⟩
  · have same := Buffer.bytes_of_load loaded
    exact ⟨same, (received _ b).2 ⟨rfl, by rwa [same]⟩⟩

/-- A path as it is encoded, and one with unknown flags, a reserved word and gaps, are received as
they are sent. -/
theorem receive_iff_send_gapped :
    (∃ b, Path.specimen.encode {} = .ok b ∧ receive (send b) {} = .ok b) ∧
      Buffer.load Buffer.gapped.bytes {} = .ok Buffer.gapped ∧
      receive (send Buffer.gapped) {} = .ok Buffer.gapped := by
  obtain ⟨_, ofEncode, ofLoad⟩ := receive_iff_send {}
  obtain ⟨b, encoded⟩ := exists_ok (x := Path.specimen.encode {}) (by decide +kernel)
  have loaded : Buffer.load Buffer.gapped.bytes {} = .ok Buffer.gapped :=
    Buffer.load_bytes_of_isOk rfl (by decide +kernel)
  exact ⟨⟨b, encoded, ofEncode _ b encoded⟩, loaded, (ofLoad _ _ loaded).2⟩

end Wire

end FlatPath
