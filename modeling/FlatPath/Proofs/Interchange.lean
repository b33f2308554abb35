import Mathlib
import FlatPath.Expr.Document
import FlatPath.Proofs.JsonText

/-!
The document of a path. Every reader of a part undoes its writer exactly where it may go as deep as
the part nests; so a path is read back from its document, in the compact text, if that nests no
deeper than a reader goes, and is refused otherwise.
-/

namespace FlatPath

namespace Json

mutual

/-- How deep arrays and objects nest. -/
def nesting : Json → Nat
  | null | bool _ | number _ | string _ | garbled => 0
  | array es => nestingOfElements es + 1
  | object ms => nestingOfMembers ms + 1

def nestingOfElements : List Json → Nat
  | [] => 0
  | e :: rest => max e.nesting (nestingOfElements rest)

def nestingOfMembers : List (String × Json) → Nat
  | [] => 0
  | (_, v) :: rest => max v.nesting (nestingOfMembers rest)

end

theorem nestingOfElements_le {es : List Json} {d : Nat} :
    nestingOfElements es ≤ d ↔ ∀ e ∈ es, e.nesting ≤ d := by
  induction es with
  | nil => simp [nestingOfElements]
  | cons e es ih => simp [nestingOfElements, ih]

theorem nestingOfMembers_le {ms : List (String × Json)} {d : Nat} :
    nestingOfMembers ms ≤ d ↔ ∀ m ∈ ms, m.2.nesting ≤ d := by
  induction ms with
  | nil => simp [nestingOfMembers]
  | cons m ms ih => simp [nestingOfMembers, ih]

@[simp] theorem nesting_string (s : String) : (string s).nesting = 0 := by
  rw [nesting]

@[simp] theorem nesting_bool (b : Bool) : (bool b).nesting = 0 := by
  rw [nesting]

@[simp] theorem nesting_nat (n : Nat) : (nat n).nesting = 0 := by
  rw [nat, nesting]

@[simp] theorem nesting_array (es : List Json) (d : Nat) :
    (array es).nesting ≤ d + 1 ↔ ∀ e ∈ es, e.nesting ≤ d := by
  rw [nesting, Nat.add_le_add_iff_right, nestingOfElements_le]

@[simp] theorem nesting_object (ms : List (String × Json)) (d : Nat) :
    (object ms).nesting ≤ d + 1 ↔ ∀ m ∈ ms, m.2.nesting ≤ d := by
  rw [nesting, Nat.add_le_add_iff_right, nestingOfMembers_le]

@[simp] theorem nesting_array_ne_zero (es : List Json) : (array es).nesting ≠ 0 := by
  rw [nesting]
  exact Nat.succ_ne_zero _

@[simp] theorem nesting_object_ne_zero (ms : List (String × Json)) : (object ms).nesting ≠ 0 := by
  rw [nesting]
  exact Nat.succ_ne_zero _

theorem natural?_nat (n : Nat) : (nat n).natural? = some n := by
  have digits : (Nat.toDigits 10 n).all Char.isDigit := by
    simp
    exact fun c mem => Nat.isDigit_of_mem_toDigits (by decide) (by decide) mem
  have value : (Nat.toDigits 10 n).foldl (fun n c => n * 10 + (c.toNat - 48)) 0 = n := by
    have value := Nat.ofDigitChars_toDigits (b := 10) (n := n) (by decide) (by decide)
    simp only [Nat.ofDigitChars_eq_foldl, Nat.mul_comm 10] at value
    exact value
  simp [nat, natural?, Nat.toDigits_ne_nil, digits, value]

theorem word?_nat (n : UInt32) : (nat n.toNat).word? = some n := by
  simp [word?, natural?_nat, UInt32.toNat_lt n]

end Json

namespace Document

open Json

/-- What the reader makes of `a` as it is written, however deep it may go. -/
def ReadBack {α : Type} (read : Nat → Json → Option α) (write : α → Json) (a : α) : Prop :=
  ∀ depth, read depth (write a) = if (write a).nesting ≤ depth then some a else none

theorem bind_ite {α β : Type} {p : Prop} [Decidable p] (a : α) (f : α → Option β) :
    (if p then some a else none).bind f = if p then f a else none := by
  split <;> rfl

variable {α : Type} {read : Nat → Json → Option α} {write : α → Json}

theorem mapM_of_readBack {as : List α} (h : ∀ a ∈ as, ReadBack read write a) (depth : Nat) :
    (as.map write).mapM (read depth) =
      if ∀ a ∈ as, (write a).nesting ≤ depth then some as else none := by
  induction as with
  | nil => rfl
  | cons a as ih =>
      have one : read depth (write a) = _ := h a (by simp) depth
      simp only [List.map_cons, List.mapM_cons, one, ih fun a mem => h a (by simp [mem]),
        List.forall_mem_cons]
      by_cases first : (write a).nesting ≤ depth
      · by_cases rest : ∀ a ∈ as, (write a).nesting ≤ depth
        · rw [if_pos first, if_pos rest, if_pos ⟨first, rest⟩]
          rfl
        · rw [if_pos first, if_neg rest, if_neg fun all => rest all.2]
          rfl
      · simp only [first, false_and, if_false]
        rfl

theorem readOptional_of_readBack {o : Option α} (h : ∀ a ∈ o, ReadBack read write a)
    (object : ∀ a ∈ o, write a ≠ .null) (depth : Nat) :
    readOptional (read depth) (some (optional (o.map write))) =
      if (optional (o.map write)).nesting ≤ depth then some o else none := by
  cases o with
  | none => simp [optional, readOptional, nesting]
  | some a =>
      have present : readOptional (read depth) (some (write a)) =
          (read depth (write a)).map some := by
        rw [readOptional]
        exact object a rfl
      show readOptional (read depth) (some (write a)) = if (write a).nesting ≤ depth then _ else _
      rw [present, h a rfl]
      split <;> rfl

def kindJson (x : Item String Expr (Option Expr)) : Json :=
  ofItem (x.map id Expr.toJson (Option.map Expr.toJson))

theorem toJson_mk (x : Item String Expr (Option Expr)) (next : Option Expr) :
    (Expr.mk x next).toJson =
      .object (("kind", kindJson x) :: (next.map fun e => ("next", e.toJson)).toList) := by
  rw [Expr.toJson, Expr.fold_mk, Option.map_map]
  rfl

theorem toJson_ne_null (e : Expr) : e.toJson ≠ .null := by
  obtain ⟨x, next⟩ := e
  rw [toJson_mk]
  simp

theorem nesting_named (name : String) (j : Json) (d : Nat) :
    (named name j).nesting ≤ d + 1 ↔ j.nesting ≤ d := by
  simp [named]

theorem readMethod?_name (depth : Nat) (m : Method) :
    readMethod? depth (.string m.name) = some m := by
  cases m <;> rfl

theorem readBinaryOp?_name (depth : Nat) (op : BinaryOp) :
    readBinaryOp? depth (.string op.name) = some op := by
  cases op <;> rfl

theorem readUnaryOp?_name (depth : Nat) (op : UnaryOp) :
    readUnaryOp? depth (.string op.name) = some op := by
  cases op <;> rfl

def ofSubscript (s : Expr × Option Expr) : Json :=
  .object (("from", s.1.toJson) :: ((s.2.map Expr.toJson).map fun b => ("to", b)).toList)

def ofField (f : Expr × Expr) : Json :=
  .object [("key", f.1.toJson), ("value", f.2.toJson)]

theorem readBack_subscript {a : Expr} {b : Option Expr} (start : ReadBack readExpr? Expr.toJson a)
    (stop : ∀ e ∈ b, ReadBack readExpr? Expr.toJson e) :
    ReadBack readSubscript? ofSubscript (a, b) := by
  intro depth
  cases depth with
  | zero => simp [ofSubscript, readSubscript?]
  | succ depth =>
      have first : readExpr? depth a.toJson = _ := start depth
      cases b with
      | none =>
          simp [ofSubscript, readSubscript?, members?, List.lookup, readOptional, first, bind_ite]
      | some b =>
          have second : readOptional (readExpr? depth) (some b.toJson) =
              if b.toJson.nesting ≤ depth then some (some b) else none :=
            readOptional_of_readBack stop (fun e _ => toJson_ne_null e) depth
          simp [ofSubscript, readSubscript?, members?, List.lookup, first, second, bind_ite,
            ite_and]

theorem readBack_field {k v : Expr} (key : ReadBack readExpr? Expr.toJson k)
    (value : ReadBack readExpr? Expr.toJson v) : ReadBack readField? ofField (k, v) := by
  intro depth
  cases depth with
  | zero => simp [ofField, readField?]
  | succ depth =>
      have first : readExpr? depth k.toJson = _ := key depth
      have second : readExpr? depth v.toJson = _ := value depth
      simp [ofField, readField?, members?, List.lookup, first, second, bind_ite, ite_and]

/-- The name of an item is one level, and what it names is read below. -/
theorem readBack_named {name : String} {j : Json} {x : Item String Expr (Option Expr)}
    (shape : kindJson x = named name j)
    (below : ∀ depth, readItem? (depth + 1) (named name j) =
      if j.nesting ≤ depth then some x else none) : ReadBack readItem? kindJson x := by
  intro depth
  rw [shape]
  cases depth with
  | zero => simp [named, readItem?]
  | succ depth => rw [below, if_congr (nesting_named name j depth) rfl rfl]

/-- What is named is an array or an object, which is one more level. -/
theorem readBack_container {name : String} {j : Json} {x : Item String Expr (Option Expr)}
    (shape : kindJson x = named name j) (deep : j.nesting ≠ 0)
    (shallow : readItem? 1 (named name j) = none)
    (below : ∀ depth, readItem? (depth + 2) (named name j) =
      if j.nesting ≤ depth + 1 then some x else none) : ReadBack readItem? kindJson x := by
  refine readBack_named shape fun depth => ?_
  cases depth with
  | zero => rw [shallow, if_neg (by omega)]
  | succ depth => exact below depth

theorem readBack_item {x : Item String Expr (Option Expr)}
    (operands : ∀ e ∈ x.operands, ReadBack readExpr? Expr.toJson e) :
    ReadBack readItem? kindJson x := by
  cases x with
  | null | root | current | last | anyArray | anyKey =>
      intro depth
      simp [kindJson, Item.map, ofItem, readItem?, readUnit?]
  | string s | numeric s | var s | key s =>
      exact readBack_named rfl fun depth => by simp [named, readItem?, string?]
  | bool b => exact readBack_named rfl fun depth => by simp [named, readItem?, bool?]
  | method m => exact readBack_named rfl fun depth => by simp [named, readItem?, readMethod?_name]
  | any l =>
      refine readBack_container rfl (by simp) (by simp [named, readItem?, readLevels?])
        fun depth => ?_
      simp [named, readItem?, readLevels?, members?, List.lookup, word?_nat]
  | binary op l r =>
      refine readBack_container rfl (by simp) (by simp [named, readItem?]) fun depth => ?_
      have left : readExpr? depth l.toJson = _ := operands l (by simp) depth
      have right : readExpr? depth r.toJson = _ := operands r (by simp) depth
      simp [named, readItem?, members?, List.lookup, readBinaryOp?_name, left, right, bind_ite,
        ite_and]
  | unary op a =>
      refine readBack_container rfl (by simp) (by simp [named, readItem?]) fun depth => ?_
      have argument : readExpr? depth a.toJson = _ := operands a (by simp) depth
      simp [named, readItem?, members?, List.lookup, readUnaryOp?_name, argument, bind_ite]
  | likeRegex e p f =>
      refine readBack_container rfl (by simp) (by simp [named, readItem?]) fun depth => ?_
      have operand : readExpr? depth e.toJson = _ := operands e (by simp) depth
      simp [named, readItem?, members?, List.lookup, word?_nat, string?, operand, bind_ite]
  | datetime o | array o =>
      refine readBack_named rfl fun depth => ?_
      have operand := readOptional_of_readBack (fun e mem => operands e (by simpa using mem))
        (fun e _ => toJson_ne_null e) depth
      simp [named, readItem?, operand, bind_ite]
  | sequence es =>
      refine readBack_container rfl (by simp) (by simp [named, readItem?]) fun depth => ?_
      have elements := mapM_of_readBack (fun e mem => operands e (by simpa using mem)) depth
      simp [named, readItem?, elements, bind_ite]
  | indexArray ss =>
      have items := Item.forall_operands_indexArray operands
      have shape : kindJson (.indexArray ss) =
          named "index_array" (.array (ss.map ofSubscript)) := by
        rw [kindJson, Item.map, ofItem, List.map_map]
        rfl
      refine readBack_container shape (by simp) (by simp [named, readItem?]) fun depth => ?_
      have subscripts := mapM_of_readBack
        (fun s mem => readBack_subscript (items s mem).1 (items s mem).2) depth
      simp only [named, readItem?, subscripts, nesting_array, List.forall_mem_map]
      exact bind_ite ss _
  | object fs =>
      have items := Item.forall_operands_object operands
      have shape : kindJson (.object fs) = named "object" (.array (fs.map ofField)) := by
        rw [kindJson, Item.map, ofItem, List.map_map]
        rfl
      refine readBack_container shape (by simp) (by simp [named, readItem?]) fun depth => ?_
      have fields := mapM_of_readBack
        (fun f mem => readBack_field (items f mem).1 (items f mem).2) depth
      simp only [named, readItem?, fields, nesting_array, List.forall_mem_map]
      exact bind_ite fs _

theorem readBack_expr (e : Expr) : ReadBack readExpr? Expr.toJson e := by
  induction e using Expr.operandInduction with
  | mk x next operands rest =>
      intro depth
      rw [toJson_mk]
      cases depth with
      | zero => simp [readExpr?]
      | succ depth =>
          have item : readItem? depth (kindJson x) = _ := readBack_item operands depth
          cases next with
          | none =>
              simp [readExpr?, members?, List.lookup, readOptional, item, bind_ite]
          | some e =>
              have tail : readOptional (readExpr? depth) (some e.toJson) =
                  if e.toJson.nesting ≤ depth then some (some e) else none :=
                readOptional_of_readBack rest (fun e _ => toJson_ne_null e) depth
              simp [readExpr?, members?, List.lookup, item, tail, bind_ite, ite_and]

theorem plain_named {j : Json} (name : String) (plain : j.Plain) : (named name j).Plain :=
  .object (by simpa using plain)

theorem plain_optional {o : Option Json} (plain : ∀ j ∈ o, j.Plain) : (optional o).Plain := by
  cases o with
  | none => exact .null
  | some j => exact plain j rfl

theorem plain_item {x : Item String Json (Option Json)} (operands : ∀ j ∈ x.operands, j.Plain) :
    (ofItem x).Plain := by
  cases x with
  | null | root | current | last | anyArray | anyKey => exact .string _
  | string s | numeric s | var s | key s => exact plain_named _ (.string s)
  | bool b => exact plain_named _ (.bool b)
  | method m => exact plain_named _ (.string _)
  | any l => exact plain_named _ (.object (by simp [Plain.nat]))
  | binary op l r => exact plain_named _ (.object (by simpa [Plain.string] using operands))
  | unary op a => exact plain_named _ (.object (by simpa [Plain.string] using operands))
  | likeRegex e p f =>
      exact plain_named _ (.object (by simpa [Plain.string, Plain.nat] using operands))
  | datetime o | array o => exact plain_named _ (plain_optional (by simpa using operands))
  | sequence es => exact plain_named _ (.array (by simpa using operands))
  | indexArray ss =>
      refine plain_named _ (.array (List.forall_mem_map.2 fun (a, b) mem => .object ?_))
      obtain ⟨start, stop⟩ := Item.forall_operands_indexArray operands _ mem
      cases b with
      | none => simpa using start
      | some b => simpa using ⟨start, stop b rfl⟩
  | object fs =>
      refine plain_named _ (.array (List.forall_mem_map.2 fun (k, v) mem => .object ?_))
      simpa using Item.forall_operands_object operands _ mem

theorem plain_expr (e : Expr) : e.toJson.Plain := by
  induction e using Expr.operandInduction with
  | mk x next operands rest =>
      rw [toJson_mk]
      have item : (kindJson x).Plain := by
        refine plain_item ?_
        rw [Item.operands_map]
        simpa using operands
      cases next with
      | none => exact .object (by simpa using item)
      | some e => exact .object (by simpa using ⟨item, rest e rfl⟩)

end Document

namespace Path

theorem ofJson?_toJson (p : Path) (depth : Nat) :
    ofJson? depth p.toJson = if p.toJson.nesting ≤ depth then some p else none := by
  cases depth with
  | zero => simp [toJson, ofJson?]
  | succ depth =>
      have expr : Document.readExpr? depth p.expr.toJson = _ := Document.readBack_expr p.expr depth
      simp [toJson, ofJson?, Json.members?, List.lookup, Document.readFlag?, Json.bool?, expr,
        Document.bind_ite]

theorem plain_toJson (p : Path) : p.toJson.Plain :=
  .object (by simp [Document.plain_expr, Json.Plain.bool])

/-- A path is read back from the text of its document, whatever its items and texts, exactly if
the document nests as a reader allows: 127 levels, the last of its 128 being refused. -/
theorem ofDocument?_compact (p : Path) :
    ofDocument? p.toJson.compact.toUTF8 =
      if p.toJson.nesting ≤ Document.depthLimit then some p else none := by
  rw [ofDocument?, Json.read?_compact p.plain_toJson, Option.bind_eq_bind, Option.bind_some,
    ofJson?_toJson]

end Path

end FlatPath
