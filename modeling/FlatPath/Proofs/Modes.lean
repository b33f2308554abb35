import FlatPath.Proofs.Damage

/-!
The modes of a path. Only the header tells them: the payload is the layout of the expression in
every mode. Whether the constructors are allowed is asked twice, of the items of an expression when
they are written and of the items of a payload when it is opened, and both times it is the same
question.
-/

namespace FlatPath

theorem Bytes.set!_eq_set {b : ByteArray} {i : Nat} {v : UInt8} (inside : i < b.size) :
    b.set! i v = b.set i v inside :=
  ByteArray.ext (dif_pos inside)

/-- The bytes of a buffer with the flag of the extensions mode cleared. -/
def Buffer.clearExtensions (bytes : ByteArray) : ByteArray :=
  bytes.set! 1 (Bytes.byteAt bytes 1 &&& ~~~Header.extensionsFlag)

theorem Header.clearExtensions_bytes (h : Header) (payload : ByteArray) :
    Buffer.clearExtensions (h.bytes ++ payload) = (h.setExtensions false).bytes ++ payload := by
  have front : 1 < h.bytes.size := by
    rw [size_bytes]
    decide
  have inside : 1 < (h.bytes ++ payload).size := by
    rw [ByteArray.size_append]
    omega
  have flags : Bytes.byteAt (h.bytes ++ payload) 1 = h.flags := by
    rw [Bytes.byteAt, dif_pos inside]
    exact ByteArray.getElem_append_left front
  rw [Buffer.clearExtensions, flags, Bytes.set!_eq_set inside, Bytes.set_append_left front]
  rfl

/-- Without the extensions mode a buffer differs in one flag. -/
theorem Buffer.clearExtensions_bytes (b : Buffer) :
    clearExtensions b.bytes = (⟨b.header.setExtensions false, b.payload⟩ : Buffer).bytes :=
  b.header.clearExtensions_bytes b.payload

theorem Header.setExtensions_ofModes (lax extensions enabled : Bool) :
    (ofModes lax extensions).setExtensions enabled = ofModes lax enabled := by
  cases lax <;> cases extensions <;> cases enabled <;> rfl

namespace Path

variable {e : Expr} {lax : Bool} {limits : Limits} {b b' : Buffer}

/-- In lax and in strict mode the same payload is written, or the same is refused. -/
theorem payload_encode (e : Expr) (lax lax' extensions : Bool) (limits : Limits) :
    (encode ⟨e, lax, extensions⟩ limits).map Buffer.payload =
      (encode ⟨e, lax', extensions⟩ limits).map Buffer.payload := by
  let write : Encoder Nat := do
    e.encode extensions .top (← Encoder.enter limits.descent)
  have payload (lax : Bool) : (encode ⟨e, lax, extensions⟩ limits).map Buffer.payload =
      (write.run {}).map fun r => r.2.payload := by
    simp only [encode]
    cases write.run {} <;> rfl
  rw [payload lax, payload lax']

/-- A path encoded without the extensions mode is the one encoded with it, with the flag cleared. -/
theorem eq_clearExtensions (h : encode ⟨e, lax, true⟩ limits = .ok b)
    (h' : encode ⟨e, lax, false⟩ limits = .ok b') :
    b' = ⟨b.header.setExtensions false, b.payload⟩ := by
  obtain ⟨header, payload, _⟩ := encode_ok h
  obtain ⟨header', payload', _⟩ := encode_ok h'
  rw [header, payload, Header.setExtensions_ofModes]
  obtain ⟨_, _⟩ := b'
  simp only at header' payload'
  rw [header', payload']

/-- Where the check accepts the payload of an expression without the extensions mode, the expression
is encoded without it. -/
theorem encode_of_verify (h : encode ⟨e, lax, true⟩ limits = .ok b) (small : b.size ≤ maxSize)
    (accepted : verify b.payload false limits = .ok ()) :
    ∃ b', encode ⟨e, lax, false⟩ limits = .ok b' := by
  obtain ⟨_, payload, _, rules, depth⟩ := encode_ok h
  obtain ⟨root, first, read⟩ := root_of_encode h
  have passes := ((Verify.ok_iff (running_of_encode h)).1 accepted).1
  have kept := (passes.keeps (Buffer.root_eq_ok.1 first) read).1
  refine encode_succeeds ⟨e, lax, false⟩ (running_of_encode h) ?_ depth ?_
  · exact (kept.and rules).mono fun _ _ h => ⟨h.1, h.2.pattern⟩
  · rw [Buffer.size, payload] at small
    exact small

/-- Clearing the extensions flag of an encoded path leaves a buffer that is opened exactly if the
expression is encoded without the extensions mode, and then it is what is encoded. The other one of
lax and strict mode changes nothing in the payload. -/
theorem load_clearExtensions_iff (h : encode ⟨e, lax, true⟩ limits = .ok b)
    (small : b.size ≤ maxSize) :
    (∀ b', Buffer.load (Buffer.clearExtensions b.bytes) limits = .ok b' ↔
      encode ⟨e, lax, false⟩ limits = .ok b') ∧
    (∀ b', encode ⟨e, lax, false⟩ limits = .ok b' →
      b'.bytes = Buffer.clearExtensions b.bytes) ∧
    (encode ⟨e, !lax, true⟩ limits).map Buffer.payload = .ok b.payload := by
  let cleared : Buffer := ⟨b.header.setExtensions false, b.payload⟩
  have header : cleared.header = .ofModes lax false := by
    obtain ⟨header, _⟩ := encode_ok h
    simp only [cleared, header, Header.setExtensions_ofModes]
  have current : cleared.header.isCurrent := by
    rw [header]
    exact Header.isCurrent_ofModes ..
  have loaded : Buffer.load cleared.bytes limits =
      verify b.payload false limits >>= fun _ => .ok cleared := by
    rw [Buffer.load_bytes_eq current, header, (Header.modes_ofModes _ _).2]
  rw [Buffer.clearExtensions_bytes]
  refine ⟨fun b' => ⟨fun opened => ?_, fun encoded => ?_⟩, fun b' encoded => ?_, ?_⟩
  · rw [loaded] at opened
    obtain ⟨_, accepted, same⟩ := bind_eq_ok.1 opened
    obtain ⟨b'', encoded⟩ := encode_of_verify h small accepted
    cases same
    rwa [eq_clearExtensions h encoded] at encoded
  · obtain rfl := eq_clearExtensions h encoded
    refine load_of_encode encoded ?_
    rw [Buffer.size] at small
    simp only
    omega
  · rw [eq_clearExtensions h encoded]
  · rw [payload_encode e (!lax) lax true limits, h]
    rfl

/-- `{"k": ...}` is refused once the flag is cleared, as it is not encoded without the mode, and
`strict $[last]?(@ == 1)` is opened as it is encoded without the mode. -/
theorem load_clearExtensions_iff_specimen :
    let chosen : Item String Expr (Option Expr) :=
      .unary .filter (.single (.binary .equal (.single .current) (.int 1)))
    let plain : Expr :=
      .mk .root (some (.mk (.indexArray [(.single .last, none)]) (some (.single chosen))))
    (∃ b, specimen.encode {} = .ok b ∧
      ¬ ∃ b', Buffer.load (Buffer.clearExtensions b.bytes) {} = .ok b') ∧
    ∃ b b', encode ⟨plain, false, true⟩ {} = .ok b ∧ encode ⟨plain, false, false⟩ {} = .ok b' ∧
      Buffer.load (Buffer.clearExtensions b.bytes) {} = .ok b' ∧
      b'.bytes = Buffer.clearExtensions b.bytes ∧
      (encode ⟨plain, true, true⟩ {}).map Buffer.payload = .ok b.payload := by
  intro chosen plain
  have small {p : Path} {b : Buffer} (h : p.encode {} = .ok b)
      (fits : (p.encode {}).toOption.all (·.size ≤ maxSize) = true) : b.size ≤ maxSize := by
    simpa [h, Except.toOption] using fits
  refine ⟨?_, ?_⟩
  · obtain ⟨b, h⟩ := exists_ok (x := specimen.encode {}) (by decide +kernel)
    refine ⟨b, h, ?_⟩
    rintro ⟨b', opened⟩
    have gate := @load_clearExtensions_iff specimen.expr false _ _ h
      (small h (by decide +kernel))
    have encoded := (gate.1 b').1 opened
    have refused : (encode ⟨specimen.expr, false, false⟩ {}).isOk = false := by decide +kernel
    rw [encoded] at refused
    cases refused
  · obtain ⟨b, h⟩ := exists_ok (x := encode ⟨plain, false, true⟩ {}) (by decide +kernel)
    obtain ⟨b', h'⟩ := exists_ok (x := encode ⟨plain, false, false⟩ {}) (by decide +kernel)
    have gate := load_clearExtensions_iff h (small h (by decide +kernel))
    exact ⟨b, b', h, h', (gate.1 b').2 h', gate.2.1 b' h', gate.2.2⟩

end Path

end FlatPath
