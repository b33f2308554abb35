import Mathlib
import FlatPath.Proofs.Composition
import FlatPath.Proofs.Interchange

/-!
How deep the document of an expression nests. An operand lies one to three levels below the item it
belongs to, and every next item lies one level below the one before it. So a document may run out of
levels over a long chain, which costs the encoder no nesting at all, or over operands that nest far
less deep than the encoder goes.
-/

namespace FlatPath

theorem Json.nestingOfElements_add_le {es : List Json} {k n : Nat} :
    nestingOfElements es + k ≤ n ↔ k ≤ n ∧ ∀ e ∈ es, e.nesting + k ≤ n := by
  induction es with
  | nil => simp [nestingOfElements]
  | cons e es ih =>
      have first : max e.nesting (nestingOfElements es) + k ≤ n ↔
          e.nesting + k ≤ n ∧ nestingOfElements es + k ≤ n := by
        omega
      rw [nestingOfElements, List.forall_mem_cons, first, ih, and_left_comm]

theorem Document.nesting_named_array (name : String) (es : List Json) :
    (named name (.array es)).nesting = Json.nestingOfElements es + 2 := by
  simp [named, Json.nesting, Json.nestingOfMembers]

namespace Item

variable {τ ρ ο : Type}

/-- The levels of its document that an item takes up itself: one for its name, and one where a
record or a list is named. -/
def ownNesting : Item τ ρ ο → Nat
  | .null | .root | .current | .last | .anyArray | .anyKey => 0
  | .string _ | .numeric _ | .bool _ | .var _ | .key _ | .method _ | .datetime _ | .array _ => 1
  | .any _ | .binary _ _ _ | .unary _ _ | .likeRegex _ _ _ | .sequence _ | .indexArray _
  | .object _ => 2

/-- The levels around the documents of its operands. Subscripts and fields are records of their
own. -/
def operandNesting : Item τ ρ ο → Nat
  | .indexArray _ | .object _ => 3
  | x => x.ownNesting

open Json Document in
theorem nesting_ofItem_le (y : Item String Json (Option Json)) (n : Nat) :
    (ofItem y).nesting ≤ n ↔
      y.ownNesting ≤ n ∧ ∀ j ∈ y.operands, j.nesting + y.operandNesting ≤ n := by
  cases y with
  | null | root | current | last | anyArray | anyKey =>
      simp [ofItem, ownNesting, operands, operandSlots, map, slots]
  | string _ | numeric _ | var _ | key _ | bool _ | method _ =>
      simp [ofItem, named, nesting, nestingOfMembers, ownNesting, operands, operandSlots, map,
        slots]
  | any l =>
      simp [ofItem, named, nesting, nestingOfMembers, Json.nat, ownNesting, operands, operandSlots,
        map, slots]
  | binary op l r =>
      have shape : (ofItem (.binary op l r)).nesting = max l.nesting r.nesting + 2 := by
        simp [ofItem, named, nesting, nestingOfMembers]
      rw [shape, operands_binary, List.forall_mem_cons, List.forall_mem_singleton]
      simp only [ownNesting, operandNesting]
      omega
  | unary op a =>
      have shape : (ofItem (.unary op a)).nesting = a.nesting + 2 := by
        simp [ofItem, named, nesting, nestingOfMembers]
      simp only [shape, operands_unary, List.forall_mem_singleton, ownNesting, operandNesting]
      omega
  | likeRegex e p f =>
      have shape : (ofItem (.likeRegex e p f)).nesting = e.nesting + 2 := by
        simp [ofItem, named, nesting, nestingOfMembers, Json.nat]
      simp only [shape, operands_likeRegex, List.forall_mem_singleton, ownNesting, operandNesting]
      omega
  | datetime o | array o =>
      cases o with
      | none => simp [ofItem, named, Document.optional, nesting, nestingOfMembers, ownNesting]
      | some j =>
          simp [ofItem, named, Document.optional, nesting, nestingOfMembers, ownNesting,
            operandNesting]
          omega
  | sequence es =>
      rw [ofItem, nesting_named_array, nestingOfElements_add_le, operands_sequence]
      rfl
  | indexArray ss =>
      have shape : ofItem (.indexArray ss) = named "index_array" (.array (ss.map fun s =>
          .object (("from", s.1) :: (s.2.map fun b => ("to", b)).toList))) := rfl
      have entry (s : Json × Option Json) :
          (Json.object (("from", s.1) :: (s.2.map fun b => ("to", b)).toList)).nesting + 2 ≤ n ↔
            s.1.nesting + 3 ≤ n ∧ ∀ b ∈ s.2, b.nesting + 3 ≤ n := by
        obtain ⟨a, _ | b⟩ := s <;> simp [nesting, nestingOfMembers]
        omega
      rw [shape, nesting_named_array, nestingOfElements_add_le, operands_indexArray]
      refine and_congr_right fun _ => ?_
      rw [List.forall_mem_map]
      simp only [entry, List.forall_mem_flatMap, List.forall_mem_cons, Option.mem_toList]
      rfl
  | object fs =>
      have shape : ofItem (.object fs) = named "object" (.array (fs.map fun f =>
          .object [("key", f.1), ("value", f.2)])) := rfl
      have entry (f : Json × Json) :
          (Json.object [("key", f.1), ("value", f.2)]).nesting + 2 ≤ n ↔
            f.1.nesting + 3 ≤ n ∧ f.2.nesting + 3 ≤ n := by
        simp only [nesting, nestingOfMembers]
        omega
      rw [shape, nesting_named_array, nestingOfElements_add_le, operands_object]
      refine and_congr_right fun _ => ?_
      rw [List.forall_mem_map]
      simp only [entry, List.forall_mem_flatMap, List.forall_mem_cons]
      simp [operandNesting]

variable {σ : Type} (x : Item String Expr (Option Expr)) (f : Expr → σ)

theorem ownNesting_map : (x.map id f (Option.map f)).ownNesting = x.ownNesting := by
  cases x <;> rfl

theorem operandNesting_map : (x.map id f (Option.map f)).operandNesting = x.operandNesting := by
  cases x <;> rfl

theorem operandNesting_pos {x : Item String Expr (Option Expr)} {e : Expr}
    (mem : e ∈ x.operands) : 0 < x.operandNesting := by
  cases x <;> first | exact Nat.succ_pos _ | simp [operands, operandSlots, map, slots] at mem

end Item

namespace Expr

variable {x : Item String Expr (Option Expr)} {next : Option Expr}

/-- How deep the document of an expression nests. -/
def documentNesting (e : Expr) : Nat :=
  e.fold fun x next =>
    max (max x.ownNesting ((x.operands.map (· + x.operandNesting)).foldr max 0)) (next.getD 0) + 1

theorem documentNesting_mk_le {n : Nat} :
    (mk x next).documentNesting ≤ n + 1 ↔ x.ownNesting ≤ n ∧
      (∀ e ∈ x.operands, e.documentNesting + x.operandNesting ≤ n) ∧
      ∀ e ∈ next, e.documentNesting ≤ n := by
  have rest : (next.map documentNesting).getD 0 ≤ n ↔ ∀ e ∈ next, e.documentNesting ≤ n := by
    cases next <;> simp
  have shape : (mk x next).documentNesting =
      max (max x.ownNesting
        ((x.operands.map fun e => e.documentNesting + x.operandNesting).foldr max 0))
        ((next.map documentNesting).getD 0) + 1 := by
    rw [documentNesting, fold_mk, Item.operands_map, Item.ownNesting_map, Item.operandNesting_map,
      List.map_map]
    rfl
  rw [shape, Nat.add_le_add_iff_right, Nat.max_le, Nat.max_le, foldr_max_le, List.forall_mem_map,
    rest, and_assoc]

theorem exists_documentNesting (x : Item String Expr (Option Expr)) (next : Option Expr) :
    ∃ n, (mk x next).documentNesting = n + 1 := by
  rw [documentNesting, fold_mk]
  exact ⟨_, rfl⟩

theorem documentNesting_operand_lt {e : Expr} (next : Option Expr) (mem : e ∈ x.operands) :
    e.documentNesting + x.operandNesting < (mk x next).documentNesting := by
  obtain ⟨n, eq⟩ := exists_documentNesting x next
  rw [eq]
  exact Nat.lt_succ_of_le ((documentNesting_mk_le.1 eq.le).2.1 e mem)

theorem documentNesting_next_lt {e : Expr} :
    e.documentNesting < (mk x (some e)).documentNesting := by
  obtain ⟨n, eq⟩ := exists_documentNesting x (some e)
  rw [eq]
  exact Nat.lt_succ_of_le ((documentNesting_mk_le.1 eq.le).2.2 e rfl)

theorem nesting_toJson (e : Expr) : e.toJson.nesting = e.documentNesting := by
  induction e using operandInduction with
  | mk x next operands rest =>
      -- Both nestings are known by their upper bounds only.
      refine eq_of_forall_ge_iff fun n => ?_
      cases n with
      | zero =>
          obtain ⟨m, eq⟩ := exists_documentNesting x next
          rw [Document.toJson_mk, eq]
          simp
      | succ n =>
          have item : (Document.kindJson x).nesting ≤ n ↔ x.ownNesting ≤ n ∧
              ∀ e ∈ x.operands, e.documentNesting + x.operandNesting ≤ n := by
            rw [Document.kindJson, Item.nesting_ofItem_le, Item.ownNesting_map,
              Item.operandNesting_map, Item.operands_map, List.forall_mem_map]
            refine and_congr_right fun _ => forall₂_congr fun e mem => ?_
            rw [operands e mem]
          have tail : (∀ m ∈ (next.map fun e => ("next", e.toJson)).toList, m.2.nesting ≤ n) ↔
              ∀ e ∈ next, e.documentNesting ≤ n := by
            cases next with
            | none => simp
            | some e => simp [rest e rfl]
          rw [Document.toJson_mk, Json.nesting_object, List.forall_mem_cons, item, tail,
            documentNesting_mk_le, and_assoc]

/-- Every item of a chain is a level of its document. -/
theorem chainLength_le_documentNesting (e : Expr) : e.chainLength ≤ e.documentNesting := by
  induction e using operandInduction with
  | mk x next _ rest =>
      cases next with
      | none =>
          obtain ⟨n, eq⟩ := exists_documentNesting x none
          rw [eq]
          exact Nat.succ_le_succ (Nat.zero_le n)
      | some e => exact (Nat.succ_le_succ (rest e rfl)).trans documentNesting_next_lt

/-- Every operand lies at least two levels below the chain it belongs to. -/
theorem depth_le_documentNesting (e : Expr) : 2 * e.depth ≤ e.documentNesting + 1 := by
  induction e using operandInduction with
  | mk x next operands rest =>
      have depth : (mk x next).depth ≤ ((mk x next).documentNesting + 1) / 2 := by
        refine depth_mk_le.2 ⟨?_, fun e mem => ?_, fun e mem => ?_⟩
        · obtain ⟨n, eq⟩ := exists_documentNesting x next
          omega
        · have shallow := operands e mem
          have below := documentNesting_operand_lt next mem
          have apart := Item.operandNesting_pos mem
          omega
        · obtain rfl := mem
          have shallow := rest e rfl
          have below := documentNesting_next_lt (x := x) (e := e)
          omega
      omega

end Expr

namespace Path

open CommandLine

theorem nesting_toJson_le (path : Path) :
    path.toJson.nesting ≤ Document.depthLimit ↔
      path.expr.documentNesting < Document.depthLimit := by
  have shape : path.toJson.nesting ≤ 126 + 1 ↔ path.expr.documentNesting ≤ 126 := by
    rw [toJson, Json.nesting_object]
    simp [Expr.nesting_toJson]
  exact shape.trans Nat.lt_succ_iff.symm

theorem read_document (path : Path) : ofDocument? path.toJson.compact.toUTF8 =
    if path.expr.documentNesting < Document.depthLimit then some path else none := by
  rw [ofDocument?, Json.read?_compact path.plain_toJson, Option.bind_eq_bind, Option.bind_some,
    ofJson?_toJson, if_congr path.nesting_toJson_le rfl rfl]

/-- The document of a path that can be encoded is read, and encoded by the command, exactly where
the document of its expression stays below the depth of a reader. It is at least as deep as the
chain is long, and nearly twice as deep as operands nest. -/
theorem document_of_encode {path : Path} {limits : Limits} {b : Buffer}
    (h : path.encode limits = .ok b) :
    (ofDocument? path.toJson.compact.toUTF8 =
        if path.expr.documentNesting < Document.depthLimit then some path else none) ∧
      (∀ document output,
        (Command.encode document output limits).respond false path.toJson.compact.toUTF8 =
          if path.expr.documentNesting < Document.depthLimit then
            .ok { text := Command.line path, saved := some (output, b.bytes) }
          else .error "invalid expression tree: not the document of a path") ∧
      path.expr.chainLength ≤ path.expr.documentNesting ∧
      2 * path.expr.depth ≤ path.expr.documentNesting + 1 := by
  have read := read_document path
  refine ⟨read, fun document output => ?_, path.expr.chainLength_le_documentNesting,
    path.expr.depth_le_documentNesting⟩
  split
  · next near =>
      rw [if_pos near] at read
      exact Command.respond_encode read h
  · next far =>
      rw [if_neg far] at read
      rw [Command.respond, read]
      rfl

theorem document_of_encode_specimen :
    ∃ b, specimen.encode {} = .ok b ∧ specimen.expr.documentNesting = 14 ∧
      ofDocument? specimen.toJson.compact.toUTF8 = some specimen ∧
      (Command.encode "-" "path.bin" {}).respond false specimen.toJson.compact.toUTF8 =
        .ok { text := Command.line specimen, saved := some ("path.bin", b.bytes) } := by
  obtain ⟨b, encoded⟩ := exists_ok (x := specimen.encode {}) (by decide +kernel)
  have nesting : specimen.expr.documentNesting = 14 := by cbv
  obtain ⟨read, respond, _⟩ := document_of_encode encoded
  refine ⟨b, encoded, nesting, ?_, ?_⟩
  · rw [read, nesting]
    rfl
  · rw [respond, nesting]
    rfl

/-- The elements of the elements, and so on. -/
def elements : Nat → Option Expr
  | 0 => none
  | n + 1 => some (.mk .anyArray (elements n))

/-- A chain of 127 items nests no operands and is encoded, but its document is not read. -/
theorem not_document_of_elements :
    let path : Path := { expr := .mk .root (elements 126) }
    path.expr.depth = 1 ∧ path.expr.chainLength = 127 ∧ (∃ b, path.encode {} = .ok b) ∧
      ofDocument? path.toJson.compact.toUTF8 = none := by
  intro path
  have length : path.expr.chainLength = 127 := by decide +kernel
  have far : ¬ path.expr.documentNesting < Document.depthLimit := by
    have := path.expr.chainLength_le_documentNesting
    rw [length] at this
    exact Nat.not_lt.2 this
  have allowed : path.violations {} = [] := by decide +kernel
  have fits : Header.size + (path.expr.layout 0).size ≤ maxSize := by decide +kernel
  obtain ⟨rules, depth⟩ := violations_eq_nil.1 allowed
  refine ⟨by decide +kernel, length, encode_succeeds path rfl rules depth fits, ?_⟩
  rw [read_document, if_neg far]

end Path

end FlatPath
