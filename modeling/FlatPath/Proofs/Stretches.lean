import Mathlib
import FlatPath.Bytes

/-!
Stretches of bytes inside a byte string: what is read at the position of a stretch is what the
stretch was written from, whatever stands before and behind it.
-/

namespace FlatPath.Bytes

@[simp] theorem size_ofWord (v : UInt32) : (ofWord v).size = 4 := rfl

@[simp] theorem size_zeros (n : Nat) : (zeros n).size = n := by
  simp [zeros]

/-- Words one after the other. -/
def words : List UInt32 → ByteArray
  | [] => .empty
  | v :: vs => ofWord v ++ words vs

@[simp] theorem words_nil : words [] = .empty := rfl

@[simp] theorem words_cons (v : UInt32) (vs : List UInt32) :
    words (v :: vs) = ofWord v ++ words vs := rfl

@[simp] theorem size_words (vs : List UInt32) : (words vs).size = 4 * vs.length := by
  induction vs with
  | nil => rfl
  | cons v vs ih => simp [ih]; omega

theorem words_append (vs us : List UInt32) : words (vs ++ us) = words vs ++ words us := by
  induction vs with
  | nil => simp
  | cons v vs ih => simp [ih, ByteArray.append_assoc]

/-- The bytes of `s` stand in `b` from position `i` on. -/
def HoldsAt (b : ByteArray) (i : Nat) (s : ByteArray) : Prop :=
  ∃ front back, b = front ++ s ++ back ∧ front.size = i

namespace HoldsAt

variable {b s t : ByteArray} {i : Nat}

theorem left (h : HoldsAt b i (s ++ t)) : HoldsAt b i s := by
  obtain ⟨front, back, rfl, size⟩ := h
  exact ⟨front, t ++ back, by simp [ByteArray.append_assoc], size⟩

theorem right (h : HoldsAt b i (s ++ t)) : HoldsAt b (i + s.size) t := by
  obtain ⟨front, back, rfl, rfl⟩ := h
  exact ⟨front ++ s, back, by simp [ByteArray.append_assoc], by simp⟩

/-- What follows a word. -/
theorem afterWord {v : UInt32} (h : HoldsAt b i (ofWord v ++ t)) : HoldsAt b (i + 4) t :=
  h.right

theorem le_size (h : HoldsAt b i s) : i + s.size ≤ b.size := by
  obtain ⟨front, back, rfl, rfl⟩ := h
  simp

theorem behind (h : HoldsAt b i s) (a : ByteArray) : HoldsAt (a ++ b) (a.size + i) s := by
  obtain ⟨front, back, rfl, rfl⟩ := h
  exact ⟨a ++ front, back, by simp [ByteArray.append_assoc], by simp⟩

theorem sliceAt? (h : HoldsAt b i s) : sliceAt? b i s.size = some s := by
  have bound := h.le_size
  obtain ⟨front, back, rfl, rfl⟩ := h
  have middle := ByteArray.extract_append_size_add (i := 0) (j := s.size) (a := front)
    (b := s ++ back)
  rw [Bytes.sliceAt?, if_pos bound, ByteArray.append_assoc]
  rw [Nat.add_zero, ByteArray.extract_append_eq_left rfl] at middle
  rw [middle]

theorem byteAt (h : HoldsAt b i s) (k : Nat) (hk : k < s.size) : byteAt b (i + k) = s[k] := by
  have bound := h.le_size
  obtain ⟨front, back, rfl, rfl⟩ := h
  rw [Bytes.byteAt, dif_pos (by omega), ByteArray.getElem_append_left (by simpa using hk),
    ByteArray.getElem_append_right (by omega)]
  simp

theorem byteAt? {v : UInt8} (h : HoldsAt b i [v].toByteArray) : byteAt? b i = some v := by
  have bound : i + 1 ≤ b.size := h.le_size
  have value := h.byteAt 0 (by simp)
  rw [Bytes.byteAt, dif_pos (by omega)] at value
  rw [Bytes.byteAt?, dif_pos (by omega)]
  simpa using value

theorem byteAt?_zeros {n k : Nat} (h : HoldsAt b i (zeros n)) (hk : k < n) :
    Bytes.byteAt? b (i + k) = some 0 := by
  have bound := h.le_size
  rw [size_zeros] at bound
  have value := h.byteAt k (by simpa using hk)
  rw [Bytes.byteAt, dif_pos (by omega)] at value
  rw [Bytes.byteAt?, dif_pos (by omega), value]
  simp [zeros]

theorem wordAt {v : UInt32} (h : HoldsAt b i (ofWord v)) : wordAt b i = v := by
  have hb (k : Nat) (hk : k < 4) := h.byteAt k hk
  have h0 := hb 0 (by decide)
  have h1 := hb 1 (by decide)
  have h2 := hb 2 (by decide)
  have h3 := hb 3 (by decide)
  simp only [ofWord, List.getElem_toByteArray, Nat.add_zero] at h0 h1 h2 h3
  apply UInt32.toNat_inj.1
  rw [Bytes.wordAt, h0, h1, h2, h3]
  have := v.toNat_lt
  simp
  omega

theorem wordAt? {v : UInt32} (h : HoldsAt b i (ofWord v)) : wordAt? b i = some v := by
  have bound : i + 4 ≤ b.size := h.le_size
  rw [Bytes.wordAt?, if_pos bound, h.wordAt]

theorem wordAt?_words {vs : List UInt32} (h : HoldsAt b i (words vs)) {k : Nat} {v : UInt32}
    (hk : vs[k]? = some v) : Bytes.wordAt? b (i + 4 * k) = some v := by
  induction vs generalizing i k with
  | nil => cases hk
  | cons u vs ih =>
      cases k with
      | zero =>
          cases hk
          exact h.left.wordAt?
      | succ k =>
          have position : i + 4 * (k + 1) = i + 4 + 4 * k := by omega
          rw [position]
          exact ih h.right hk

theorem wordsAt {vs : List UInt32} (h : HoldsAt b i (words vs)) : wordsAt b i vs.length = vs := by
  induction vs generalizing i with
  | nil => rfl
  | cons v vs ih =>
      have rest := ih h.right
      simp only [Bytes.wordsAt, size_ofWord] at rest
      simp only [Bytes.wordsAt, List.length_cons, List.range_succ_eq_map, List.map_cons,
        List.map_map, Function.comp_def, Nat.mul_zero, Nat.add_zero, h.left.wordAt, List.cons.injEq,
        true_and]
      simpa [Nat.mul_add, Nat.add_assoc, Nat.add_comm, Nat.add_left_comm] using rest

theorem wordPairsAt {ps : List (UInt32 × UInt32)}
    (h : HoldsAt b i (words (ps.flatMap fun (v, u) => [v, u]))) :
    wordPairsAt b i ps.length = ps := by
  induction ps generalizing i with
  | nil => rfl
  | cons p ps ih =>
      obtain ⟨v, u⟩ := p
      have h : HoldsAt b i (ofWord v ++ (ofWord u ++ words (ps.flatMap fun (v, u) => [v, u]))) := by
        simpa using h
      have rest := ih h.right.right
      have second : Bytes.wordAt b (i + 4) = u := h.right.left.wordAt
      simp only [Bytes.wordPairsAt, size_ofWord] at rest
      simp only [Bytes.wordPairsAt, List.length_cons, List.range_succ_eq_map, List.map_cons,
        List.map_map, Function.comp_def, Nat.mul_zero, Nat.add_zero, h.left.wordAt, second,
        List.cons.injEq, true_and]
      simpa [Nat.mul_add, Nat.add_assoc, Nat.add_comm, Nat.add_left_comm] using rest

end HoldsAt

private theorem set!_append (a c : ByteArray) (bytes : List UInt8) (k : Nat) (v : UInt8)
    (hk : k < bytes.length) :
    (a ++ bytes.toByteArray ++ c).set! (a.size + k) v = a ++ (bytes.set k v).toByteArray ++ c := by
  apply ByteArray.ext
  apply Array.toList_inj.1
  simp only [ByteArray.set!, ByteArray.data_append, List.data_toByteArray,
    Array.set!_eq_setIfInBounds, Array.toList_setIfInBounds, Array.toList_append,
    ← ByteArray.size_data]
  rw [List.append_assoc, List.set_append_right _ _ (by simp), List.set_append_left _ _ (by simpa)]
  simp

theorem size_setWord (b : ByteArray) (i : Nat) (v : UInt32) :
    (setWord b i v).size = b.size := by
  have size_set! (b : ByteArray) (i : Nat) (v : UInt8) : (b.set! i v).size = b.size := by
    simp [ByteArray.set!, ← ByteArray.size_data]
  simp only [setWord, size_set!]

/-- A word written over another one leaves everything around it alone. -/
theorem setWord_append (a c : ByteArray) (u v : UInt32) :
    setWord (a ++ ofWord u ++ c) a.size v = a ++ ofWord v ++ c := by
  have first (bytes : List UInt8) (x : UInt8) (hk : 0 < bytes.length) :=
    set!_append a c bytes 0 x hk
  simp only [Nat.add_zero] at first
  simp only [setWord, ofWord]
  rw [first _ _ (by simp), set!_append _ _ _ _ _ (by simp), set!_append _ _ _ _ _ (by simp),
    set!_append _ _ _ _ _ (by simp)]
  rfl

private theorem set!_behind (a b : ByteArray) (i : Nat) (v : UInt8) :
    (a ++ b).set! (a.size + i) v = a ++ b.set! i v := by
  apply ByteArray.ext
  apply Array.toList_inj.1
  simp only [ByteArray.set!, ByteArray.data_append, Array.set!_eq_setIfInBounds,
    Array.toList_setIfInBounds, Array.toList_append, ← ByteArray.size_data]
  rw [List.set_append_right _ _ (by simp)]
  simp

/-- Positions behind a prefix are counted from its end. -/
theorem setWord_behind (a b : ByteArray) (i : Nat) (v : UInt32) :
    setWord (a ++ b) (a.size + i) v = a ++ setWord b i v := by
  simp only [setWord, Nat.add_assoc, set!_behind]

end FlatPath.Bytes
