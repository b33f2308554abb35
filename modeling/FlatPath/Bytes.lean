/-!
Four-byte words in byte strings, low byte first, and the four-byte boundaries they stand on.
-/

namespace FlatPath.Bytes

/-- The next multiple of four. -/
def alignUp (n : Nat) : Nat :=
  (n + 3) / 4 * 4

theorem le_alignUp (n : Nat) : n ≤ alignUp n := by
  unfold alignUp; omega

theorem alignUp_mod (n : Nat) : alignUp n % 4 = 0 := by
  unfold alignUp; omega

theorem alignUp_lt (n : Nat) : alignUp n < n + 4 := by
  unfold alignUp; omega

/-- The next multiple of four as a 64-bit machine counts it: past the last one comes zero. -/
def alignUp64 (n : UInt64) : UInt64 :=
  (n + 3) / 4 * 4

theorem toNat_alignUp64 (n : UInt64) (h : n.toNat + 3 < 0x10000000000000000) :
    (alignUp64 n).toNat = alignUp n.toNat := by
  simp only [alignUp64, alignUp, UInt64.toNat_mul, UInt64.toNat_div, UInt64.toNat_add,
    UInt64.reduceToNat]
  omega

theorem toNat_pos {v : UInt32} (h : v ≠ 0) : 0 < v.toNat :=
  Nat.pos_of_ne_zero fun h0 => h (UInt32.toNat_inj.1 h0)

def zeros (n : Nat) : ByteArray :=
  (List.replicate n 0).toByteArray

/-- The bytes of a word. -/
def ofWord (v : UInt32) : ByteArray :=
  let n := v.toNat
  [.ofNat n, .ofNat (n / 0x100), .ofNat (n / 0x10000), .ofNat (n / 0x1000000)].toByteArray

/-- The byte at `i`, zero beyond the end. -/
def byteAt (b : ByteArray) (i : Nat) : UInt8 :=
  if h : i < b.size then b[i] else 0

def byteAt? (b : ByteArray) (i : Nat) : Option UInt8 :=
  if h : i < b.size then some b[i] else none

/-- The word at `i`, read as if zeros followed the end. -/
def wordAt (b : ByteArray) (i : Nat) : UInt32 :=
  .ofNat ((byteAt b i).toNat + (byteAt b (i + 1)).toNat * 0x100 + (byteAt b (i + 2)).toNat * 0x10000
    + (byteAt b (i + 3)).toNat * 0x1000000)

def wordAt? (b : ByteArray) (i : Nat) : Option UInt32 :=
  if i + 4 ≤ b.size then some (wordAt b i) else none

/-- The `n` bytes from `i` on, if there are so many. -/
def sliceAt? (b : ByteArray) (i n : Nat) : Option ByteArray :=
  if i + n ≤ b.size then some (b.extract i (i + n)) else none

/-- The `n` words from `i` on. -/
def wordsAt (b : ByteArray) (i n : Nat) : List UInt32 :=
  (List.range n).map fun k => wordAt b (i + 4 * k)

/-- The `n` pairs of words from `i` on. -/
def wordPairsAt (b : ByteArray) (i n : Nat) : List (UInt32 × UInt32) :=
  (List.range n).map fun k => (wordAt b (i + 8 * k), wordAt b (i + 8 * k + 4))

/-- Writes a word over the four bytes at `i`. -/
def setWord (b : ByteArray) (i : Nat) (v : UInt32) : ByteArray :=
  let n := v.toNat
  (((b.set! i (.ofNat n)).set! (i + 1) (.ofNat (n / 0x100))).set! (i + 2) (.ofNat (n / 0x10000))).set!
    (i + 3) (.ofNat (n / 0x1000000))

end FlatPath.Bytes
