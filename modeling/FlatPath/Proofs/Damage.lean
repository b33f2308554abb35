import FlatPath.Proofs.Framing

/-!
Messages with one wrong byte. The checksum takes each byte into a register from which it can be told
again, so two byte strings that differ in one byte have different checksums, whatever follows it.
A message in which one byte was replaced is refused before its buffer is looked at.
-/

namespace FlatPath

namespace Checksum

/-- A register is its low bit and the bits above. -/
private theorem eq_of_low_of_high {a b : UInt32} (low : a &&& 1 = b &&& 1)
    (high : a >>> 1 = b >>> 1) : a = b := by
  have low := congrArg UInt32.toNat low
  have high := congrArg UInt32.toNat high
  simp at low high
  apply UInt32.toNat_inj.1
  omega

/-- The top bit, which is free after a shift, shows whether the polynomial was added. -/
private theorem shifted_ne (a b : UInt32) : (a >>> 1) ^^^ polynomial ≠ b >>> 1 := by
  intro h
  have added : polynomial = (a >>> 1) ^^^ (b >>> 1) := by
    rw [← h, ← UInt32.xor_assoc, UInt32.xor_self, UInt32.zero_xor]
  have half (r : UInt32) : (r >>> 1).toNat < 2 ^ 31 := by
    have := r.toNat_lt
    simp
    omega
  have small := Nat.xor_lt_two_pow (half a) (half b)
  rw [← UInt32.toNat_xor, ← added] at small
  exact absurd small (by decide)

private theorem low_bit (a : UInt32) : a &&& 1 = 0 ∨ a &&& 1 = 1 := by
  have : (a &&& 1).toNat < 2 := by
    simp
    omega
  obtain zero | one : (a &&& 1).toNat = 0 ∨ (a &&& 1).toNat = 1 := by omega
  · exact .inl (UInt32.toNat_inj.1 zero)
  · exact .inr (UInt32.toNat_inj.1 one)

theorem shift_injective : Function.Injective shift := by
  intro a b h
  obtain even | odd := low_bit a
  · obtain even' | odd' := low_bit b
    · simp only [shift, even, even'] at h
      exact eq_of_low_of_high (even.trans even'.symm) h
    · simp only [shift, even, odd'] at h
      exact absurd h.symm (shifted_ne b a)
  · obtain even' | odd' := low_bit b
    · simp only [shift, odd, even'] at h
      exact absurd h (shifted_ne a b)
    · simp only [shift, odd, odd'] at h
      exact eq_of_low_of_high (odd.trans odd'.symm) ((UInt32.xor_left_inj _).1 h)

theorem shifts_injective (n : Nat) : Function.Injective (shifts n) := by
  induction n with
  | zero => exact Function.injective_id
  | succ n ih => exact ih.comp shift_injective

/-- From the register after a step, and the byte that was taken in, the register before it can be
told. -/
theorem update_left_injective (byte : UInt8) :
    Function.Injective fun register => update register byte := by
  intro a b h
  exact (UInt32.xor_left_inj _).1 (shifts_injective 8 h)

/-- From the registers before and after a step the byte can be told that was taken in. -/
theorem update_right_injective (register : UInt32) : Function.Injective (update register) := by
  intro x y h
  have same := (UInt32.xor_right_inj _).1 (shifts_injective 8 h)
  exact UInt8.toUInt32_inj.1 same

theorem foldl_update_injective (bytes : List UInt8) :
    Function.Injective fun register => bytes.foldl update register := by
  induction bytes with
  | nil => exact Function.injective_id
  | cons byte bytes ih => exact ih.comp (update_left_injective byte)

/-- A register that differs once differs ever after, so another byte in one place is never made
up for by what follows it. -/
theorem foldl_update_set_ne {bytes : List UInt8} {i : Nat} {v : UInt8} (inside : i < bytes.length)
    (other : v ≠ bytes[i]) (register : UInt32) :
    (bytes.set i v).foldl update register ≠ bytes.foldl update register := by
  induction bytes generalizing i register with
  | nil => cases inside
  | cons byte bytes ih =>
      cases i with
      | zero =>
          intro same
          exact other (update_right_injective register (foldl_update_injective bytes same))
      | succ i => exact ih (Nat.lt_of_succ_lt_succ inside) other (update register byte)

theorem crc32_set_ne {bytes : ByteArray} {i : Nat} {v : UInt8} (inside : i < bytes.size)
    (other : v ≠ bytes[i]) : crc32 (bytes.set i v) ≠ crc32 bytes := by
  intro same
  have same := (UInt32.xor_left_inj _).1 same
  rw [← Array.foldl_toList, ← Array.foldl_toList] at same
  have set : (bytes.set i v).data.toList = bytes.data.toList.set i v :=
    Array.toList_set bytes.data i v inside
  rw [set] at same
  exact foldl_update_set_ne inside other 0xFFFFFFFF same

end Checksum

namespace Bytes

variable {a b : ByteArray} {i : Nat} {v : UInt8}

theorem size_set (inside : i < a.size) : (a.set i v).size = a.size :=
  Array.size_set inside

theorem getElem_set (inside : i < a.size) (h : i < (a.set i v).size) : (a.set i v)[i] = v :=
  Array.getElem_set_self inside

theorem byteAt?_set (inside : i < a.size) (j : Nat) :
    byteAt? (a.set i v) j = if j = i then some v else byteAt? a j := by
  have size : (a.set i v).size = a.size := size_set inside
  by_cases here : j = i
  · subst here
    rw [byteAt?, dif_pos (by rwa [size]), getElem_set inside, if_pos rfl]
  · rw [if_neg here, byteAt?, byteAt?]
    by_cases within : j < a.size
    · rw [dif_pos (by rwa [size]), dif_pos within]
      exact congrArg some (Array.getElem_set_ne inside within (Ne.symm here))
    · rw [dif_neg (by rwa [size]), dif_neg within]

theorem set_append_left (inside : i < a.size) :
    (a ++ b).set i v (by rw [ByteArray.size_append]; omega) = a.set i v ++ b := by
  apply ByteArray.ext
  simp only [ByteArray.set, ByteArray.data_append]
  exact Array.set_append_left inside

theorem set_append_right (inside : i < b.size) :
    (a ++ b).set (a.size + i) v (by rw [ByteArray.size_append]; omega) = a ++ b.set i v := by
  apply ByteArray.ext
  simp only [ByteArray.set, ByteArray.data_append]
  rw [Array.set_append_right _ (by simp)]
  simp

theorem ofWord_injective : Function.Injective ofWord := by
  intro v u h
  have read (w : UInt32) : wordAt (ofWord w) 0 = w :=
    HoldsAt.wordAt ⟨.empty, .empty, by simp, rfl⟩
  rw [← read v, h, read u]

end Bytes

namespace Wire

open Bytes

variable {message bytes : ByteArray}

/-- What stands in front of the buffer in a message. -/
def lead (bytes : ByteArray) : ByteArray :=
  [version].toByteArray ++ ofWord (Checksum.crc32 bytes)

theorem frame_eq (bytes : ByteArray) : frame bytes = lead bytes ++ bytes := rfl

theorem crc32_of_lead {bytes bytes' : ByteArray} (h : lead bytes = lead bytes') :
    Checksum.crc32 bytes = Checksum.crc32 bytes' :=
  ofWord_injective ((ByteArray.append_right_inj _).1 h)

/-- What stands in front of a buffer in a message says that it is this buffer. -/
theorem eq_lead {front bytes bytes' : ByteArray} (size : front.size = frameSize)
    (h : front ++ bytes = frame bytes') : front = lead bytes := by
  have same : front = lead bytes' := ByteArray.append_inj_left h size
  rw [same, frame_eq] at h
  rw [same, (ByteArray.append_right_inj _).1 h]

/-- With another byte in one place a message is none any more. -/
theorem frame_set_ne {i : Nat} {v : UInt8} (inside : i < (frame bytes).size)
    (other : v ≠ (frame bytes)[i]) (bytes' : ByteArray) : (frame bytes).set i v ≠ frame bytes' := by
  intro h
  by_cases early : i < (lead bytes).size
  · -- The buffer is unchanged, and it determines what stands in front of it.
    have set : (frame bytes).set i v = (lead bytes).set i v ++ bytes := set_append_left early
    rw [set] at h
    rw [eq_lead (size_set early) h, ← frame_eq] at set
    have here := getElem_set (v := v) inside (by rwa [size_set])
    simp only [set] at here
    exact other here.symm
  · -- The lead is unchanged, and it holds a checksum that is not that of the buffer.
    obtain ⟨k, rfl⟩ : ∃ k, i = (lead bytes).size + k := ⟨i - (lead bytes).size, by omega⟩
    have late : k < bytes.size := by
      rw [frame_eq, ByteArray.size_append] at inside
      omega
    have set : (frame bytes).set _ v = lead bytes ++ bytes.set k v := set_append_right late
    rw [set] at h
    have same : lead bytes = lead (bytes.set k v) := eq_lead rfl h
    refine Checksum.crc32_set_ne late ?_ (crc32_of_lead same).symm
    have here : (frame bytes)[(lead bytes).size + k] = bytes[k] := by
      simp only [frame_eq, ByteArray.getElem_append_right (Nat.le_add_right ..),
        Nat.add_sub_cancel_left]
    rwa [here] at other

theorem unframe_of_version (first : byteAt? message 0 = some version)
    (long : frameSize ≤ message.size) :
    (∃ bytes, message = frame bytes) ∨
      ∃ expected actual, expected ≠ actual ∧
        unframe message = .error (.checksum expected actual) := by
  by_cases same : wordAt message 1 = Checksum.crc32 (message.extract frameSize message.size)
  · exact .inl ⟨_, eq_frame_iff.2 ⟨first, long, same, rfl⟩⟩
  · refine .inr ⟨_, _, same, ?_⟩
    simp [unframe, first, Nat.not_lt_of_le long, same]

/-- A message in which one byte was replaced is refused before its buffer is opened: for its version
if that is the byte, and else for its checksum. -/
theorem receive_of_damage (b : Buffer) {i : Nat} {v : UInt8} (inside : i < (send b).size)
    (other : v ≠ (send b)[i]) :
    ∃ error, unframe ((send b).set i v) = .error error ∧
      (∀ limits, receive ((send b).set i v) limits = .error error) ∧
      (i = 0 → error = .version v) ∧
      (1 ≤ i → ∃ expected actual, expected ≠ actual ∧ error = .checksum expected actual) := by
  obtain ⟨first, long, -⟩ := eq_frame_iff.1 (send_eq b)
  obtain ⟨error, refused, cause⟩ : ∃ error, unframe ((send b).set i v) = .error error ∧
      (i = 0 → error = .version v) ∧
      (1 ≤ i → ∃ expected actual, expected ≠ actual ∧ error = .checksum expected actual) := by
    obtain rfl | behind := Nat.eq_zero_or_pos i
    · have unknown : v ≠ version := other
      refine ⟨.version v, ?_, fun _ => rfl, fun behind => absurd behind (by decide)⟩
      simp [unframe, byteAt?_set inside, unknown]
    · have current : byteAt? ((send b).set i v) 0 = some version := by
        rw [byteAt?_set inside, if_neg (Nat.ne_of_lt behind), first]
      obtain ⟨bytes, same⟩ | ⟨expected, actual, differ, refused⟩ :=
        unframe_of_version current (by rwa [size_set])
      · exact absurd same (frame_set_ne inside other bytes)
      · exact ⟨_, refused, fun front => absurd front (Nat.ne_of_gt behind),
          fun _ => ⟨_, _, differ, rfl⟩⟩
  exact ⟨error, refused, fun limits => by rw [receive_eq, refused, error_bind], cause⟩

/-- The tag of the first item is lost on the way. -/
theorem receive_of_damage_gapped :
    ∃ inside : 9 < (send Buffer.gapped).size, (send Buffer.gapped)[9] ≠ 0 ∧
      ∃ expected actual, expected ≠ actual ∧ ∀ limits,
        receive ((send Buffer.gapped).set 9 0) limits = .error (.checksum expected actual) := by
  obtain ⟨inside, other⟩ : ∃ inside : 9 < (send Buffer.gapped).size, (send Buffer.gapped)[9] ≠ 0 :=
    ⟨by decide +kernel, by decide +kernel⟩
  obtain ⟨_, -, received, -, checksum⟩ := receive_of_damage Buffer.gapped inside (Ne.symm other)
  obtain ⟨expected, actual, differ, rfl⟩ := checksum (by decide)
  exact ⟨inside, other, expected, actual, differ, received⟩

end Wire

end FlatPath
