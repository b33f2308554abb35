import Mathlib
import FlatPath.Json.Reader
import FlatPath.Proofs.ReadBack

/-!
Values and their compact text. What a value is written as is cut into tokens again wherever it
stands, and the tokens are put together to the value; so a document whose strings are texts and
whose numbers are natural is read back from its text.
-/

namespace FlatPath.Json

/-- The bytes of a text. -/
def utf8 (cs : List Char) : List UInt8 :=
  cs.flatMap String.utf8EncodeChar

theorem utf8_append (cs ds : List Char) : utf8 (cs ++ ds) = utf8 cs ++ utf8 ds :=
  List.flatMap_append

theorem utf8_cons (c : Char) (cs : List Char) :
    utf8 (c :: cs) = String.utf8EncodeChar c ++ utf8 cs :=
  List.flatMap_cons

theorem toUTF8_eq (s : String) : s.toUTF8 = (utf8 s.toList).toByteArray := by
  rw [String.toUTF8_eq_toByteArray, ← String.utf8Encode_toList]
  rfl

theorem encodeChar_ascii {c : Char} (small : c.toNat < 128) :
    String.utf8EncodeChar c = [Token.ascii c] :=
  if_pos (Nat.le_of_lt_succ small)

theorem utf8_ascii {cs : List Char} (small : ∀ c ∈ cs, c.toNat < 128) :
    utf8 cs = cs.map Token.ascii := by
  induction cs with
  | nil => rfl
  | cons c cs ih =>
      rw [utf8_cons, encodeChar_ascii (small c (by simp)), ih fun c mem => small c (by simp [mem])]
      rfl

theorem toNat_ascii {c : Char} (small : c.toNat < 128) : (Token.ascii c).toNat = c.toNat := by
  rw [Token.ascii, UInt8.toNat_ofNat']
  omega

theorem ascii_inj {c d : Char} (small : c.toNat < 128) (small' : d.toNat < 128)
    (h : Token.ascii c = Token.ascii d) : c = d := by
  apply Char.toNat_inj.1
  rw [← toNat_ascii small, h, toNat_ascii small']

/-- Beyond ASCII no byte of a character is one of ASCII. -/
theorem encodeChar_large {c : Char} (large : 128 ≤ c.toNat) :
    ∀ b ∈ String.utf8EncodeChar c, 128 ≤ b.toNat := by
  intro b mem
  have large : 128 ≤ c.val.toNat := large
  have := c.val.toNat_lt
  simp only [String.utf8EncodeChar] at mem
  split at mem
  · omega
  · split at mem
    · simp at mem
      obtain rfl | rfl := mem <;> simp <;> omega
    · split at mem
      · simp at mem
        obtain rfl | rfl | rfl := mem <;> simp <;> omega
      · simp at mem
        obtain rfl | rfl | rfl | rfl := mem <;> simp <;> omega

namespace Token

/-! Strings. -/

/-- The pieces are cut out of the bytes `s` inside of a string, and spell the bytes `t`. -/
structure Spelled (s : List UInt8) (ps : List Piece) (t : List UInt8) : Prop where
  cut : ∀ done rest, pieces done (s ++ rest) = pieces (ps.reverse ++ done) rest
  spells : ∀ done rest, spell done (ps ++ rest) = spell (t.reverse ++ done) rest

namespace Spelled

theorem nil : Spelled [] [] [] :=
  ⟨fun _ _ => rfl, fun _ _ => rfl⟩

theorem append {s s' t t' : List UInt8} {ps ps' : List Piece} (h : Spelled s ps t)
    (h' : Spelled s' ps' t') : Spelled (s ++ s') (ps ++ ps') (t ++ t') := by
  refine ⟨fun done rest => ?_, fun done rest => ?_⟩
  · rw [List.append_assoc, h.cut, h'.cut, List.reverse_append, List.append_assoc]
  · rw [List.append_assoc, h.spells, h'.spells, List.reverse_append, List.append_assoc]

/-- Most bytes stand for themselves. -/
theorem byte {b : UInt8} (quote : b ≠ ascii '"') (backslash : b ≠ ascii '\\')
    (visible : ¬ b < 32) : Spelled [b] [.byte b] [b] := by
  refine ⟨fun done rest => ?_, fun done rest => rfl⟩
  rw [List.singleton_append, pieces.eq_def]
  simp only [if_neg quote, if_neg backslash, if_neg visible]
  rfl

theorem bytes {s : List UInt8} (plain : ∀ b ∈ s, 128 ≤ b.toNat) :
    ∃ ps, Spelled s ps s := by
  induction s with
  | nil => exact ⟨[], nil⟩
  | cons b s ih =>
      obtain ⟨ps, rest⟩ := ih fun b mem => plain b (by simp [mem])
      have large := plain b (by simp)
      have other (b' : UInt8) (small : b'.toNat < 128) : b ≠ b' := by
        rintro rfl
        omega
      have visible : ¬ b < 32 := by
        rw [UInt8.lt_iff_toNat_lt]
        simp
        omega
      exact ⟨_, (byte (other _ (by decide)) (other _ (by decide)) visible).append rest⟩

/-- A character that is escaped by the letter `d`. -/
theorem letter {c d : Char} (escaped : Quoted.escape c = ['\\', d])
    (small : c.toNat < 128 ∧ d.toNat < 128) (other : ascii d ≠ ascii 'u')
    (value : letterEscape? (ascii d) = some (ascii c)) :
    Spelled (utf8 (Quoted.escape c)) [.byte (ascii c)] (String.utf8EncodeChar c) := by
  have bytes : utf8 ['\\', d] = [ascii '\\', ascii d] := by
    rw [utf8_cons, utf8_cons, encodeChar_ascii small.2]
    rfl
  rw [escaped, bytes, encodeChar_ascii small.1]
  refine ⟨fun done rest => ?_, fun done rest => rfl⟩
  have step : pieces done (ascii '\\' :: ascii d :: rest) =
      (letterEscape? (ascii d)).elim none fun b => pieces (.byte b :: done) rest := by
    rw [pieces.eq_def]
    simp only [other, if_false]
    cases letterEscape? (ascii d) <;> rfl
  rw [value] at step
  exact step

/-- The character whose value a small escape gives. -/
theorem code {n : Nat} {a b : UInt8} (small : n < 32)
    (value : hexEscape? (ascii '0') (ascii '0') a b = some n) :
    Spelled [ascii '\\', ascii 'u', ascii '0', ascii '0', a, b] [.code n]
      (String.utf8EncodeChar (Char.ofNat n)) := by
  refine ⟨fun done rest => ?_, fun done rest => ?_⟩
  · have unquoted : ascii '\\' ≠ ascii '"' := by decide
    show pieces done (ascii '\\' :: ascii 'u' :: ascii '0' :: ascii '0' :: a :: b :: rest) = _
    rw [pieces.eq_def]
    simp only [unquoted, if_false, if_true, value]
    rfl
  · have lead : isLead n = false := by
      simp [isLead]
      omega
    have trail : isTrail n = false := by
      simp [isTrail]
      omega
    rw [List.singleton_append, spell.eq_def]
    simp only [lead, trail]
    rfl

theorem hexEscape?_hexDigit : ∀ n : Fin 32, hexEscape? (ascii '0') (ascii '0')
    (ascii (Quoted.hexDigit (n.1 / 16))) (ascii (Quoted.hexDigit (n.1 % 16))) = some n.1 := by
  decide

theorem hexDigit_small : ∀ n : Fin 16, (Quoted.hexDigit n).toNat < 128 := by
  decide

/-- A control character without a letter of its own. -/
theorem control {c : Char} (control : c.toNat < 32)
    (escaped : Quoted.escape c = ['\\', 'u', '0', '0', Quoted.hexDigit (c.toNat / 16),
      Quoted.hexDigit (c.toNat % 16)]) :
    Spelled (utf8 (Quoted.escape c)) [.code c.toNat] (String.utf8EncodeChar c) := by
  have value := hexEscape?_hexDigit ⟨c.toNat, control⟩
  have high := hexDigit_small ⟨c.toNat / 16, by omega⟩
  have low := hexDigit_small ⟨c.toNat % 16, by omega⟩
  have bytes : utf8 (Quoted.escape c) = [ascii '\\', ascii 'u', ascii '0', ascii '0',
      ascii (Quoted.hexDigit (c.toNat / 16)), ascii (Quoted.hexDigit (c.toNat % 16))] := by
    rw [escaped, utf8_ascii]
    · rfl
    · intro d mem
      simp only [List.mem_cons, List.not_mem_nil, or_false] at mem
      obtain rfl | rfl | rfl | rfl | rfl | rfl := mem
      exacts [by decide, by decide, by decide, by decide, high, low]
  have spelled := code control value
  rwa [← bytes, Char.ofNat_toNat] at spelled

/-- A character that is not escaped. -/
theorem verbatim {c : Char} (quote : c ≠ '"') (backslash : c ≠ '\\') (visible : ¬ c.toNat < 32) :
    ∃ ps, Spelled (String.utf8EncodeChar c) ps (String.utf8EncodeChar c) := by
  by_cases small : c.toNat < 128
  · rw [encodeChar_ascii small]
    have other (d : Char) (small' : d.toNat < 128) (h : c ≠ d) : ascii c ≠ ascii d :=
      fun same => h (ascii_inj small small' same)
    have visible : ¬ ascii c < 32 := by
      rw [UInt8.lt_iff_toNat_lt, toNat_ascii small]
      exact visible
    exact ⟨_, byte (other _ (by decide) quote) (other _ (by decide) backslash) visible⟩
  · exact bytes (encodeChar_large (Nat.le_of_not_lt small))

/-- A character as it is escaped. -/
theorem escape (c : Char) :
    ∃ ps, Spelled (utf8 (Quoted.escape c)) ps (String.utf8EncodeChar c) := by
  obtain ⟨d, listed, escaped⟩ | ⟨low, escaped⟩ | ⟨⟨quote, backslash, visible⟩, escaped⟩ :=
    Quoted.escape_cases c
  · have all : ∀ p ∈ Quoted.letters, (p.1.toNat < 128 ∧ p.2.toNat < 128) ∧
        ascii p.2 ≠ ascii 'u' ∧ letterEscape? (ascii p.2) = some (ascii p.1) := by decide
    obtain ⟨small, other, value⟩ := all _ listed
    exact ⟨_, letter escaped small other value⟩
  · exact ⟨_, control low escaped⟩
  · rw [escaped, utf8_cons, utf8, List.flatMap_nil, List.append_nil]
    exact verbatim quote backslash visible

theorem text (cs : List Char) : ∃ ps, Spelled (utf8 (cs.flatMap Quoted.escape)) ps (utf8 cs) := by
  induction cs with
  | nil => exact ⟨[], nil⟩
  | cons c cs ih =>
      obtain ⟨ps, first⟩ := escape c
      obtain ⟨ps', rest⟩ := ih
      refine ⟨ps ++ ps', ?_⟩
      rw [List.flatMap_cons, utf8_append, utf8_cons]
      exact first.append rest

end Spelled

theorem next_quoted (t : String) (rest : List UInt8) :
    next (utf8 (quoted t).toList ++ rest) = some (.string (some t), rest) := by
  obtain ⟨ps, spelled⟩ := Spelled.text t.toList
  have bytes : utf8 (quoted t).toList ++ rest =
      ascii '"' :: (utf8 (t.toList.flatMap Quoted.escape) ++ ascii '"' :: rest) := by
    simp only [quoted, Quoted.encode, String.toList_ofList, utf8_cons, utf8_append]
    rw [encodeChar_ascii (by decide)]
    simp [utf8]
  have cut : pieces [] (utf8 (t.toList.flatMap Quoted.escape) ++ ascii '"' :: rest) =
      some (ps, rest) := by
    rw [spelled.cut, List.append_nil, pieces.eq_def]
    simp
  have text : textOf ps = some t := by
    have spells := spelled.spells [] []
    rw [List.append_nil, List.append_nil] at spells
    rw [textOf, spells, spell, List.reverse_reverse]
    exact (congrArg String.fromUTF8? (toUTF8_eq t)).symm.trans (fromUTF8?_toUTF8 t)
  rw [bytes, next]
  have mark : marks.lookup (ascii '"') = none := by decide
  simp only [mark, if_true, cut, Option.map_some, text]

/-! Numbers. -/

/-- What may follow a value: a comma, a closing mark or nothing. -/
def Clear (rest : List UInt8) : Prop :=
  ∀ b ∈ rest.head?, b ∈ [ascii ',', ascii ']', ascii '\x7d']

theorem Clear.stops {rest : List UInt8} (clear : Clear rest) :
    ∀ b ∈ rest.head?, isDigit b = false ∧ b ≠ ascii '.' ∧ b ≠ ascii 'e' ∧ b ≠ ascii 'E' := by
  intro b mem
  have := clear b mem
  fin_cases this <;> decide

/-- The digits of a number, as bytes. -/
def digitsOf (n : Nat) : List UInt8 :=
  (Nat.toDigits 10 n).map ascii

theorem small_of_isDigit {c : Char} (digit : c.isDigit) : c.toNat < 128 := by
  have := Char.isDigit_iff_toNat.1 digit
  have : '9'.toNat = 57 := rfl
  omega

theorem isDigit_ascii {c : Char} (digit : c.isDigit) : isDigit (ascii c) := by
  have range := Char.isDigit_iff_toNat.1 digit
  simp only [isDigit, Bool.and_eq_true, decide_eq_true_eq, UInt8.le_iff_toNat_le,
    toNat_ascii (small_of_isDigit digit)]
  exact range

theorem isDigit_of_mem_digitsOf (n : Nat) : ∀ b ∈ digitsOf n, isDigit b := by
  intro b mem
  obtain ⟨c, inside, rfl⟩ := List.mem_map.1 mem
  exact isDigit_ascii (Nat.isDigit_of_mem_toDigits (by decide) (by decide) inside)

theorem utf8_toString (n : Nat) : utf8 (toString n).toList = digitsOf n := by
  rw [Nat.toString_eq_repr, Nat.toList_repr, digitsOf]
  exact utf8_ascii fun c mem =>
    small_of_isDigit (Nat.isDigit_of_mem_toDigits (by decide) (by decide) mem)

/-- Only zero has a leading zero. -/
theorem eq_zero_of_head?_toDigits (n : Nat) (h : (Nat.toDigits 10 n).head? = some '0') : n = 0 := by
  induction n using Nat.strongRecOn with
  | ind n ih =>
      by_cases small : n < 10
      · rw [Nat.toDigits_of_lt_base small, List.head?_cons, Option.some.injEq] at h
        have value := Nat.toNat_digitChar_sub_48_of_lt_ten small
        rw [h] at value
        exact value.symm
      · rw [Nat.toDigits_of_base_le (by decide) (Nat.le_of_not_lt small),
          List.head?_append_of_ne_nil _ Nat.toDigits_ne_nil] at h
        have := ih (n / 10) (by omega) h
        omega

theorem digits_append {ds rest : List UInt8} (all : ∀ b ∈ ds, isDigit b)
    (stop : ∀ b ∈ rest.head?, isDigit b = false) : digits (ds ++ rest) = (ds, rest) := by
  have none_left : rest.takeWhile isDigit = [] ∧ rest.dropWhile isDigit = rest := by
    cases rest with
    | nil => exact ⟨rfl, rfl⟩
    | cons b rest => simp [stop b rfl]
  rw [digits, List.takeWhile_append_of_pos all, List.dropWhile_append_of_pos all, none_left.1,
    none_left.2, List.append_nil]

theorem unsigned_digitsOf (n : Nat) {rest : List UInt8} (clear : Clear rest) :
    unsigned (digitsOf n ++ rest) = some (digitsOf n, rest) := by
  have cut := digits_append (isDigit_of_mem_digitsOf n) fun b mem => (clear.stops b mem).1
  have some_digit : (digitsOf n).isEmpty = false := by
    simp [digitsOf, Nat.toDigits_ne_nil]
  have no_zero : (decide (1 < (digitsOf n).length) && (digitsOf n).head? == some (ascii '0')) =
      false := by
    rw [Bool.and_eq_false_iff, or_iff_not_imp_right, Bool.not_eq_false, beq_iff_eq]
    intro zero
    obtain ⟨c, head, same⟩ := Option.map_eq_some_iff.1 (List.head?_map.symm.trans zero)
    have digit := Nat.isDigit_of_mem_toDigits (by decide) (by decide) (List.mem_of_head? head)
    rw [ascii_inj (small_of_isDigit digit) (by decide) same] at head
    rw [eq_zero_of_head?_toDigits n head]
    rfl
  have no_fraction : fraction rest = some ([], rest) := by
    cases rest with
    | nil => rfl
    | cons b rest => rw [fraction, if_neg (clear.stops b rfl).2.1]
  have no_exponent : exponent rest = some ([], rest) := by
    cases rest with
    | nil => rfl
    | cons b rest =>
        obtain ⟨-, -, lower, upper⟩ := clear.stops b rfl
        simp only [exponent, lower, upper, decide_false, Bool.or_self, Bool.false_eq_true, if_false]
  rw [unsigned, cut]
  simp only [some_digit, no_zero, Bool.or_self, Bool.false_eq_true, if_false, no_fraction,
    no_exponent, Option.bind_eq_bind, Option.bind_some, Option.pure_def, List.append_nil]

theorem literal_digitsOf (n : Nat) : literal (digitsOf n) = .number (toString n) := by
  have same : (Nat.toDigits 10 n).map (fun c => Char.ofNat (ascii c).toNat) =
      Nat.toDigits 10 n := by
    refine (List.map_congr_left fun c mem => ?_).trans (List.map_id _)
    have digit := Nat.isDigit_of_mem_toDigits (by decide) (by decide) mem
    rw [toNat_ascii (small_of_isDigit digit), Char.ofNat_toNat, id]
  rw [literal, digitsOf, List.map_map, Nat.toString_eq_repr, Nat.repr_eq_ofList_toDigits]
  exact congrArg (fun cs => number (String.ofList cs)) same

theorem next_digit {d : UInt8} (digit : isDigit d) (ds : List UInt8) :
    next (d :: ds) = (unsigned (d :: ds)).map fun (n, rest) => (literal n, rest) := by
  have range : 48 ≤ d.toNat ∧ d.toNat ≤ 57 := by
    simpa [isDigit, UInt8.le_iff_toNat_le] using digit
  have other (b : UInt8) (outside : b.toNat < 48 ∨ 57 < b.toNat) : d ≠ b := by
    rintro rfl
    omega
  have mark : marks.lookup d = none := by
    refine List.lookup_eq_none_iff.2 fun p mem => ?_
    fin_cases mem <;>
    · refine bne_iff_ne.2 (other _ ?_)
      decide
  simp only [next, mark, digit, other (ascii '"') (by decide), other (ascii '-') (by decide),
    if_true, if_false]

theorem next_natural (n : Nat) {rest : List UInt8} (clear : Clear rest) :
    next (utf8 (toString n).toList ++ rest) = some (.number (toString n), rest) := by
  obtain ⟨d, ds, eq⟩ := List.exists_cons_of_ne_nil (l := digitsOf n)
    (by simp [digitsOf, Nat.toDigits_ne_nil])
  have digit : isDigit d := isDigit_of_mem_digitsOf n d (by simp [eq])
  have read := unsigned_digitsOf n clear
  rw [eq] at read
  rw [utf8_toString, eq, List.cons_append, next_digit digit, ← List.cons_append, read,
    Option.map_some, ← eq]
  exact congrArg (fun t => some (t, rest)) (literal_digitsOf n)

/-- White space is no token. -/
theorem next_space {b : UInt8} (space : isSpace b) (rest : List UInt8) :
    next (b :: rest) = none := by
  simp only [isSpace, Bool.or_eq_true, beq_iff_eq] at space
  obtain ((rfl | rfl) | rfl) | rfl := space <;> rfl

theorem scan_next {s rest : List UInt8} {t : Token} (h : next s = some (t, rest))
    (done : List Token) : scan done s = scan (t :: done) rest := by
  cases s with
  | nil => cases h
  | cons b s =>
      have visible : ¬ isSpace b := by
        intro space
        rw [next_space space] at h
        cases h
      rw [scan, if_neg visible]
      split
      · next other => rw [h] at other; cases other
      · next other => rw [h] at other; cases other; rfl

theorem scan_mark {b : UInt8} {t : Token} (mark : marks.lookup b = some t) (done : List Token)
    (rest : List UInt8) : scan done (b :: rest) = scan (t :: done) rest :=
  scan_next (by simp only [next, mark]) done

end Token

open Token

/-- Values whose strings are texts and whose numbers are natural. -/
inductive Plain : Json → Prop
  | null : Plain .null
  | bool (b : Bool) : Plain (.bool b)
  | nat (n : Nat) : Plain (.nat n)
  | string (s : String) : Plain (.string s)
  | array {es : List Json} (plain : ∀ e ∈ es, Plain e) : Plain (.array es)
  | object {ms : List (String × Json)} (plain : ∀ m ∈ ms, Plain m.2) : Plain (.object ms)

/-- The bytes of the compact text. -/
def bytes (j : Json) : List UInt8 :=
  utf8 j.compact.toList

/-- Before anything that may follow a value, the bytes are cut into the tokens; and wherever a
value is due, the tokens build this one. -/
structure Parsed (s : List UInt8) (ts : List Token) (j : Json) : Prop where
  cut : ∀ done rest, Clear rest → scan done (s ++ rest) = scan (ts.reverse ++ done) rest
  built : ∀ stack rest, build none stack (ts ++ rest) = build (some j) stack rest

namespace Parsed

theorem token {s : List UInt8} {t : Token} {j : Json}
    (first : ∀ rest, Clear rest → next (s ++ rest) = some (t, rest))
    (built : ∀ stack rest, build none stack (t :: rest) = build (some j) stack rest) :
    Parsed s [t] j :=
  ⟨fun done rest clear => scan_next (first rest clear) done, built⟩

/-- No value starts with a closing mark. -/
theorem head_ne {s : List UInt8} {ts : List Token} {j : Json} (h : Parsed s ts j) {t : Token}
    (closing : t = .closeBracket ∨ t = .closeBrace) (rest rest' : List Token) :
    ts ++ rest ≠ t :: rest' := by
  have built := h.built [] []
  cases ts with
  | nil => cases built
  | cons t' ts =>
      rintro ⟨⟩
      obtain rfl | rfl := closing <;> cases built

end Parsed

theorem build_openBracket {ts : List Token} (inside : ∀ rest, ts ≠ .closeBracket :: rest)
    (stack : List Frame) :
    build none stack (.openBracket :: ts) = build none (.array [] :: stack) ts := by
  cases ts with
  | nil => rfl
  | cons t ts =>
      cases t with
      | closeBracket => exact absurd rfl (inside ts)
      | _ => rfl

/-- What stands before the commas and the closing mark of a container may be a value. -/
theorem clear_tail {α : Type} (f : α → List UInt8) (cs : List α) {b : UInt8}
    (closing : b ∈ [ascii ']', ascii '\x7d']) (rest : List UInt8) :
    Clear (cs.flatMap (fun c => ascii ',' :: f c) ++ b :: rest) := by
  intro b' mem
  cases cs with
  | nil =>
      obtain rfl : b = b' := Option.some.inj mem
      exact List.mem_cons_of_mem _ closing
  | cons c cs =>
      obtain rfl : ascii ',' = b' := Option.some.inj mem
      exact List.mem_cons_self

theorem bytes_elements (e : Json) (es : List Json) : utf8 (compactElements (e :: es)).toList =
    e.bytes ++ es.flatMap fun e => ascii ',' :: e.bytes := by
  induction es generalizing e with
  | nil => simp [compactElements, bytes]
  | cons e' es ih =>
      have comma : utf8 ",".toList = [ascii ','] := rfl
      rw [compactElements, String.toList_append, String.toList_append, utf8_append, utf8_append,
        ih, comma, List.flatMap_cons]
      · simp [bytes]
      · simp

def memberBytes (m : String × Json) : List UInt8 :=
  utf8 (quoted m.1).toList ++ ascii ':' :: m.2.bytes

theorem bytes_member (m : String × Json) :
    utf8 (quoted m.1 ++ ":" ++ m.2.compact).toList = memberBytes m := by
  have colon : utf8 ":".toList = [ascii ':'] := rfl
  rw [String.toList_append, String.toList_append, utf8_append, utf8_append, colon,
    List.append_assoc]
  rfl

theorem bytes_members (m : String × Json) (ms : List (String × Json)) :
    utf8 (compactMembers (m :: ms)).toList =
      memberBytes m ++ ms.flatMap fun m => ascii ',' :: memberBytes m := by
  induction ms generalizing m with
  | nil =>
      rw [compactMembers, bytes_member, List.flatMap_nil, List.append_nil]
  | cons m' ms ih =>
      have comma : utf8 ",".toList = [ascii ','] := rfl
      rw [compactMembers, String.toList_append, String.toList_append, utf8_append, utf8_append,
        bytes_member, ih, comma, List.flatMap_cons, List.append_assoc, List.singleton_append,
        List.cons_append]
      simp

/-- The elements after the first, and the end of their array. -/
theorem exists_elements {es : List Json} (parsed : ∀ e ∈ es, ∃ ts, Parsed e.bytes ts e) :
    ∃ ts, (∀ done rest, scan done (es.flatMap (fun e => ascii ',' :: e.bytes) ++
        ascii ']' :: rest) = scan (ts.reverse ++ done) rest) ∧
      ∀ v done stack rest, build (some v) (.array done :: stack) (ts ++ rest) =
        build (some (.array ((v :: done).reverse ++ es))) stack rest := by
  induction es with
  | nil =>
      refine ⟨[.closeBracket], fun _ _ => scan_mark rfl _ _, fun v done stack rest => ?_⟩
      rw [List.append_nil]
      rfl
  | cons e es ih =>
      obtain ⟨ts, first⟩ := parsed e (by simp)
      obtain ⟨ts', cut, built⟩ := ih fun e mem => parsed e (by simp [mem])
      refine ⟨.comma :: (ts ++ ts'), fun done rest => ?_, fun v done stack rest => ?_⟩
      · rw [List.flatMap_cons, List.cons_append, List.cons_append, List.append_assoc,
          scan_mark rfl, first.cut _ _ (clear_tail bytes es (by simp) rest), cut]
        simp
      · calc build (some v) (.array done :: stack) (.comma :: (ts ++ ts') ++ rest)
          _ = build none (.array (v :: done) :: stack) (ts ++ (ts' ++ rest)) := by
            rw [← List.append_assoc]
            rfl
          _ = build (some e) (.array (v :: done) :: stack) (ts' ++ rest) := first.built _ _
          _ = build (some (.array ((v :: done).reverse ++ e :: es))) stack rest := by
            rw [built, @List.reverse_cons _ _ (v :: done), List.append_assoc]
            rfl

theorem ofMembers_some (ms : List (String × Json)) :
    ofMembers (ms.map fun m => (some m.1, m.2)) = .object ms := by
  have all : (ms.map fun m => (some m.1, m.2)).mapM (fun m => m.1.map fun k => (k, m.2)) =
      some ms := by
    induction ms with
    | nil => rfl
    | cons m ms ih => rw [List.map_cons, List.mapM_cons, ih]; rfl
  unfold ofMembers
  exact all ▸ rfl

/-- The members after a key, and the end of their object. -/
theorem exists_members {ms : List (String × Json)}
    (parsed : ∀ m ∈ ms, ∃ ts, Parsed m.2.bytes ts m.2) :
    ∃ ts, (∀ done rest, scan done (ms.flatMap (fun m => ascii ',' :: memberBytes m) ++
        ascii '\x7d' :: rest) = scan (ts.reverse ++ done) rest) ∧
      ∀ k v done stack rest, build (some v) (.object (done.map fun m => (some m.1, m.2)) (some k) ::
          stack) (ts ++ rest) =
        build (some (.object (((k, v) :: done).reverse ++ ms))) stack rest := by
  induction ms with
  | nil =>
      refine ⟨[.closeBrace], fun _ _ => scan_mark rfl _ _, fun k v done stack rest => ?_⟩
      rw [List.append_nil, ← ofMembers_some, List.map_reverse]
      rfl
  | cons m ms ih =>
      obtain ⟨ts, first⟩ := parsed m (by simp)
      obtain ⟨ts', cut, built⟩ := ih fun m mem => parsed m (by simp [mem])
      refine ⟨.comma :: .string (some m.1) :: .colon :: (ts ++ ts'), fun done rest => ?_,
        fun k v done stack rest => ?_⟩
      · rw [List.flatMap_cons, List.cons_append, List.cons_append, List.append_assoc,
          scan_mark rfl, memberBytes, List.append_assoc, scan_next (next_quoted _ _),
          List.cons_append, scan_mark rfl, first.cut _ _ (clear_tail memberBytes ms (by simp) rest),
          cut]
        simp
      · calc build (some v) (.object (done.map fun m => (some m.1, m.2)) (some k) :: stack)
              (.comma :: .string (some m.1) :: .colon :: (ts ++ ts') ++ rest)
          _ = build none (.object (((k, v) :: done).map fun m => (some m.1, m.2)) (some m.1) ::
              stack) (ts ++ (ts' ++ rest)) := by
            rw [← List.append_assoc]
            rfl
          _ = build (some m.2) (.object (((k, v) :: done).map fun m => (some m.1, m.2))
              (some m.1) :: stack) (ts' ++ rest) := first.built _ _
          _ = build (some (.object (((k, v) :: done).reverse ++ m :: ms))) stack rest := by
            rw [built, @List.reverse_cons _ _ ((k, v) :: done), List.append_assoc]
            rfl

theorem bytes_array (es : List Json) :
    (array es).bytes = ascii '[' :: (utf8 (compactElements es).toList ++ [ascii ']']) := by
  rw [bytes, compact, String.toList_append, String.toList_append, utf8_append, utf8_append,
    List.append_assoc]
  rfl

theorem bytes_object (ms : List (String × Json)) : (object ms).bytes =
    ascii '\x7b' :: (utf8 (compactMembers ms).toList ++ [ascii '\x7d']) := by
  rw [bytes, compact, String.toList_append, String.toList_append, utf8_append, utf8_append,
    List.append_assoc]
  rfl

theorem Plain.parsed {j : Json} (plain : j.Plain) : ∃ ts, Parsed j.bytes ts j := by
  induction plain with
  | null => exact ⟨_, .token (t := .null) (fun _ _ => rfl) fun _ _ => rfl⟩
  | bool b => cases b <;> exact ⟨_, .token (t := .bool _) (fun _ _ => rfl) fun _ _ => rfl⟩
  | nat n => exact ⟨_, .token (fun _ clear => next_natural n clear) fun _ _ => rfl⟩
  | string s => exact ⟨_, .token (fun _ _ => next_quoted s _) fun _ _ => rfl⟩
  | @array es _ ih =>
      cases es with
      | nil =>
          refine ⟨[.openBracket, .closeBracket], fun done rest _ => ?_, fun stack rest => rfl⟩
          exact (scan_mark rfl _ _).trans (scan_mark rfl _ _)
      | cons e es =>
          obtain ⟨ts, first⟩ := ih e (by simp)
          have others : ∀ e ∈ es, ∃ ts, Parsed e.bytes ts e :=
            fun e mem => ih e (List.mem_cons_of_mem _ mem)
          obtain ⟨ts', cut, built⟩ := exists_elements others
          refine ⟨.openBracket :: (ts ++ ts'), fun done rest _ => ?_, fun stack rest => ?_⟩
          · rw [bytes_array, bytes_elements, List.cons_append, List.append_assoc,
              List.append_assoc, scan_mark rfl, List.singleton_append,
              first.cut _ _ (clear_tail bytes es (by simp) rest), cut]
            simp
          · rw [List.cons_append, List.append_assoc, build_openBracket (first.head_ne (.inl rfl) _),
              first.built, built]
            rfl
  | @object ms _ ih =>
      cases ms with
      | nil =>
          refine ⟨[.openBrace, .closeBrace], fun done rest _ => ?_, fun stack rest => rfl⟩
          exact (scan_mark rfl _ _).trans (scan_mark rfl _ _)
      | cons m ms =>
          obtain ⟨ts, first⟩ := ih m (by simp)
          have others : ∀ m ∈ ms, ∃ ts, Parsed m.2.bytes ts m.2 :=
            fun m mem => ih m (List.mem_cons_of_mem _ mem)
          obtain ⟨ts', cut, built⟩ := exists_members others
          refine ⟨.openBrace :: .string (some m.1) :: .colon :: (ts ++ ts'),
            fun done rest _ => ?_, fun stack rest => ?_⟩
          · rw [bytes_object, bytes_members, memberBytes]
            simp only [List.cons_append, List.append_assoc, List.nil_append]
            rw [scan_mark rfl, scan_next (next_quoted _ _), scan_mark rfl,
              first.cut _ _ (clear_tail memberBytes ms (by simp) rest), cut]
            simp
          · calc build none stack
                  (.openBrace :: .string (some m.1) :: .colon :: (ts ++ ts') ++ rest)
              _ = build none (.object [] (some m.1) :: stack) (ts ++ (ts' ++ rest)) := by
                rw [← List.append_assoc]
                rfl
              _ = build (some m.2) (.object [] (some m.1) :: stack) (ts' ++ rest) :=
                first.built _ _
              _ = build (some (.object (m :: ms))) stack rest := built m.1 m.2 [] stack rest

/-- A document is read back from its compact text. -/
theorem read?_compact {j : Json} (plain : j.Plain) : read? j.compact.toUTF8 = some j := by
  obtain ⟨ts, parsed⟩ := plain.parsed
  have cut : scan [] j.bytes = some ts := by
    have cut := parsed.cut [] [] (by simp [Clear])
    rw [List.append_nil, List.append_nil, scan] at cut
    rw [cut, List.reverse_reverse]
  have built := parsed.built [] []
  rw [List.append_nil] at built
  rw [read?, toUTF8_eq, List.data_toByteArray]
  exact (congrArg (· >>= build none []) cut).trans built

end FlatPath.Json
