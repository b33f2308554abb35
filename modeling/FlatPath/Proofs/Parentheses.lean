import Mathlib
import FlatPath.Proofs.Brackets
import FlatPath.Proofs.Readers
import FlatPath.Proofs.Reencoding
import FlatPath.Proofs.Spans
import FlatPath.Proofs.UniqueReading

/-!
Operators and the parentheses around them. Whether an operator is printed in parentheses is up to
the site where it stands, whatever follows it in its chain. So an accessor behind an operator is
printed behind the closing parenthesis at the sites that ask for one, and at the others next to
the last operand.
-/

namespace FlatPath

/-- Items whose text is put together from operands and an operator sign. -/
def Kind.isOperator : Kind → Bool
  | .binary _ | .unary .plus | .unary .minus | .likeRegex => true
  | _ => false

/-- Where a chain starts: at the beginning of a path, behind another item, or as an operand. -/
inductive Site
  | first
  | chained
  | operand (owner : Kind) (role : Role)

namespace Site

def inKey : Site → Bool
  | .chained => true
  | _ => false

/-- Whether an item of this kind is printed in parentheses at the site. -/
def asks (kind : Kind) : Site → Bool
  | .first => kind != .sequence
  | .chained => true
  | .operand owner role =>
    if owner.isOperator then kind.priority ≤ owner.priority
    else match owner, role with
      | .indexArray, _ | .sequence, _ | .object, .value _ => kind == .sequence
      | _, _ => false

end Site

namespace Expr

/-- The text of the chain at a site. -/
def textAt (site : Site) (e : Expr) : List Char :=
  e.text site.inKey (site.asks e.item.kind)

/-- The chains that an expression is made of, each at its site. -/
inductive Occurs (e : Expr) : Site → Expr → Prop
  | first : Occurs e .first e
  | next {site : Site} {x : Item String Expr (Option Expr)} {rest : Expr} :
      Occurs e site (.mk x (some rest)) → Occurs e .chained rest
  | operand {site : Site} {x : Item String Expr (Option Expr)} {next : Option Expr}
      {s : Slot (Option Expr)} {child : Expr} : Occurs e site (.mk x next) →
      s ∈ x.operandSlots → s.content = some child → Occurs e (.operand x.kind s.role) child

theorem textAt_mk (site : Site) (x : Item String Expr (Option Expr)) (next : Option Expr) :
    (mk x next).textAt site =
      (x.map id piece (Option.map piece)).text site.inKey (site.asks x.kind) next.isSome ++
        Piece.rest (next.map piece) :=
  text_mk x next _ _

theorem infix_next (site : Site) (x : Item String Expr (Option Expr)) (rest : Expr) :
    rest.textAt .chained <:+: (mk x (some rest)).textAt site := by
  rw [textAt_mk]
  exact (List.suffix_append _ _).isInfix

theorem operand_eq (e : Expr) (owner : Kind) (role : Role) :
    e.piece.operand (fun kind => (Site.operand owner role).asks kind) =
      e.textAt (.operand owner role) := by
  rw [Piece.operand, piece_kind]
  rfl

/-- In a list only a sequence is asked for in parentheses. -/
theorem element_eq (e : Expr) {owner : Kind} {role : Role}
    (listed : ∀ kind, (Site.operand owner role).asks kind = (kind == .sequence)) :
    e.piece.element = e.textAt (.operand owner role) := by
  rw [Piece.element, ← operand_eq]
  simp only [listed]

theorem infix_enclosed {t u : List Char} (h : t <:+: u) (wanted : Bool) :
    t <:+: enclosed wanted u := by
  cases wanted with
  | false => exact h
  | true => exact List.infix_cons (List.infix_append_of_infix_left h)

theorem infix_separated {separator t : List Char} {ts : List (List Char)} (mem : t ∈ ts) :
    t <:+: separated separator ts := by
  cases ts with
  | nil => cases mem
  | cons t' ts =>
      obtain rfl | mem := List.mem_cons.1 mem
      · exact (List.prefix_append _ _).isInfix
      · have part : separator ++ t <:+: ts.flatMap (separator ++ ·) :=
          List.infix_of_mem_flatten (List.mem_map_of_mem mem)
        exact List.infix_append_of_infix_right ((List.suffix_append _ _).isInfix.trans part)

theorem infix_unary (op : UnaryOp) (a : Expr) (brackets : Bool) :
    a.textAt (.operand (.unary op) .argument) <:+: op.text brackets a.piece := by
  have followed (t : List Char) : a.textAt (.operand (.unary op) .argument) <:+:
      a.textAt (.operand (.unary op) .argument) ++ t := (List.prefix_append _ _).isInfix
  rw [← operand_eq] at followed ⊢
  cases op with
  | plus | minus => exact infix_enclosed (List.infix_cons (List.infix_rfl)) brackets
  | filter | not => exact List.infix_cons (List.infix_cons (followed _))
  | isUnknown => exact List.infix_cons (followed _)
  | «exists» => exact List.infix_append_of_infix_right (followed _)

theorem infix_optional {o : Option Expr} {child : Expr} (content : o = some child) :
    child.piece.operand (fun _ => false) <:+: Piece.optional (o.map piece) := by
  rw [content]
  exact List.infix_rfl

/-- What stands in a subscript stands in the list of subscripts. -/
theorem infix_subscripts {ss : List (Expr × Option Expr)} {a : Expr} {b : Option Expr}
    (listed : (a, b) ∈ ss) {t : List Char}
    (part : t <:+: Piece.subscript (a.piece, b.map piece)) (inKey brackets hasNext : Bool) :
    t <:+: ((Item.indexArray ss).map id piece (Option.map piece)).text inKey brackets hasNext := by
  refine List.infix_cons (List.infix_append_of_infix_left (part.trans (infix_separated ?_)))
  exact List.mem_map_of_mem (List.mem_map_of_mem listed)

theorem infix_start (a : Expr) (b : Option Expr) :
    a.piece.element <:+: Piece.subscript (a.piece, b.map piece) := by
  cases b with
  | none => exact List.infix_rfl
  | some b => exact (List.prefix_append _ _).isInfix

theorem infix_stop (a b : Expr) :
    b.piece.element <:+: Piece.subscript (a.piece, some b.piece) :=
  List.infix_append_of_infix_right (List.infix_append_of_infix_right List.infix_rfl)

/-- What stands in a field stands in the list of fields. -/
theorem infix_fields {fs : List (Expr × Expr)} {key value : Expr} (listed : (key, value) ∈ fs)
    {t : List Char} (part : t <:+: Piece.field (key.piece, value.piece))
    (inKey brackets hasNext : Bool) :
    t <:+: ((Item.object fs).map id piece (Option.map piece)).text inKey brackets hasNext := by
  refine List.infix_cons (List.infix_append_of_infix_left (part.trans (infix_separated ?_)))
  exact List.mem_map_of_mem (List.mem_map_of_mem listed)

/-- An operand stands in the text of its item as it is printed at its site. -/
theorem infix_operand {x : Item String Expr (Option Expr)} {s : Slot (Option Expr)}
    {child : Expr} (mem : s ∈ x.operandSlots) (content : s.content = some child)
    (inKey brackets hasNext : Bool) :
    child.textAt (.operand x.kind s.role) <:+:
      (x.map id piece (Option.map piece)).text inKey brackets hasNext := by
  cases x with
  | null | string | numeric | bool | var | key | root | current | last | anyArray | anyKey | any
  | method => cases mem
  | binary op l r =>
      obtain rfl | rfl : s = ⟨.left, true, some l⟩ ∨ s = ⟨.right, true, some r⟩ := by
        simpa using mem
      all_goals
        cases content
        rw [← operand_eq]
        refine infix_enclosed ?_ brackets
      · exact (List.prefix_append _ _).isInfix
      · exact List.infix_append_of_infix_right (List.infix_cons
          (List.infix_append_of_infix_right (List.infix_cons List.infix_rfl)))
  | unary op a =>
      obtain rfl : s = ⟨.argument, true, some a⟩ := by simpa using mem
      cases content
      exact infix_unary op _ brackets
  | likeRegex e p f =>
      obtain rfl : s = ⟨.operand, true, some e⟩ := by simpa using mem
      cases content
      rw [← operand_eq]
      exact infix_enclosed (List.prefix_append _ _).isInfix brackets
  | datetime o =>
      obtain rfl : s = ⟨.argument, false, o⟩ := by simpa using mem
      rw [← operand_eq]
      exact List.infix_append_of_infix_right
        (List.infix_append_of_infix_left (infix_optional content))
  | array o =>
      obtain rfl : s = ⟨.argument, false, o⟩ := by simpa using mem
      rw [← operand_eq]
      exact List.infix_cons (List.infix_append_of_infix_left (infix_optional content))
  | sequence es =>
      obtain ⟨k, e, found, rfl⟩ := Item.mem_operandSlots_sequence.1 mem
      cases content
      rw [← element_eq child fun _ => rfl]
      refine infix_enclosed (infix_separated ?_) _
      exact List.mem_map_of_mem (List.mem_map_of_mem (List.mem_of_getElem? found))
  | indexArray ss =>
      obtain ⟨k, a, b, found, rfl | rfl⟩ := Item.mem_operandSlots_indexArray.1 mem
      · cases content
        rw [← element_eq _ fun _ => rfl]
        exact infix_subscripts (List.mem_of_getElem? found) (infix_start _ b) _ _ _
      · cases content
        rw [← element_eq _ fun _ => rfl]
        exact infix_subscripts (List.mem_of_getElem? found) (infix_stop a _) _ _ _
  | object fs =>
      obtain ⟨k, key, value, found, rfl | rfl⟩ := Item.mem_operandSlots_object.1 mem
      · cases content
        rw [← operand_eq]
        exact infix_fields (List.mem_of_getElem? found) (List.prefix_append _ _).isInfix _ _ _
      · cases content
        rw [← element_eq _ fun _ => rfl]
        refine infix_fields (List.mem_of_getElem? found) ?_ _ _ _
        exact List.infix_append_of_infix_right (List.infix_append_of_infix_right List.infix_rfl)

variable {P : Scope → Item String Expr (Option Expr) → Prop} {e child : Expr} {site : Site}

/-- What is printed for a chain stands in what is printed for the whole. -/
theorem Occurs.isInfix (h : e.Occurs site child) : child.textAt site <:+: e.textAt .first := by
  induction h with
  | first => exact List.infix_rfl
  | @next site x rest _ ih => exact (infix_next site x rest).trans ih
  | @operand site x next s child _ mem content ih =>
      have part := infix_operand mem content site.inKey (site.asks x.kind) next.isSome
      refine List.IsInfix.trans ?_ ih
      rw [textAt_mk]
      exact List.infix_append_of_infix_left part

theorem Occurs.everywhere (h : e.Occurs site child) {scope : Scope} (all : e.Everywhere P scope) :
    ∃ scope, child.Everywhere P scope := by
  induction h with
  | first => exact ⟨scope, all⟩
  | next _ ih =>
      obtain ⟨_, here, operands, rest⟩ := ih
      exact ⟨_, rest _ rfl⟩
  | operand _ mem content ih =>
      obtain ⟨_, here, operands, rest⟩ := ih
      exact ⟨_, operands _ mem _ content⟩

theorem Occurs.right {op : BinaryOp} {l r : Expr} {next : Option Expr}
    (h : e.Occurs site (.mk (.binary op l r) next)) : e.Occurs (.operand (.binary op) .right) r :=
  .operand (s := ⟨.right, true, some r⟩) h
    (by simp) rfl

theorem Everywhere.binary {scope : Scope} {op : BinaryOp} {l r next : Expr}
    (here : P scope (.binary op l r))
    (left : l.Everywhere P (scope.operand (.binary op) .left))
    (right : r.Everywhere P (scope.operand (.binary op) .right))
    (rest : next.Everywhere P scope) :
    (Expr.mk (.binary op l r) (some next)).Everywhere P scope := by
  refine .mk here (fun s mem e content => ?_) fun e same => Option.some.inj same ▸ rest
  obtain rfl | rfl : s = ⟨.left, true, some l⟩ ∨ s = ⟨.right, true, some r⟩ := by
    simpa using mem
  · cases content
    exact left
  · cases content
    exact right

end Expr

/-- The text of an operator with its operands, without parentheses around it. -/
def Item.operation (x : Item String Expr (Option Expr)) : List Char :=
  (x.map id Expr.piece (Option.map Expr.piece)).text false false false

theorem Item.text_operator {x : Item String Expr (Option Expr)} (operator : x.kind.isOperator)
    (inKey brackets hasNext : Bool) :
    (x.map id Expr.piece (Option.map Expr.piece)).text inKey brackets hasNext =
      enclosed brackets x.operation := by
  cases x with
  | binary | likeRegex => rfl
  | unary op a =>
      cases op with
      | plus | minus => rfl
      | _ => cases operator
  | _ => cases operator

/-- An operator with something behind it. -/
theorem Expr.textAt_operator {x : Item String Expr (Option Expr)} (operator : x.kind.isOperator)
    (site : Site) (rest : Expr) : (mk x (some rest)).textAt site =
      enclosed (site.asks x.kind) x.operation ++ rest.textAt .chained := by
  rw [textAt_mk, Item.text_operator operator]
  rfl

theorem Brackets.paired_operation {x : Item String Expr (Option Expr)} {next : Option Expr}
    {scope : Scope} (plain : (Expr.mk x next).Everywhere (fun _ y => y.NumberPlain) scope) :
    Paired x.operation := by
  have numbers := plain.mono fun _ _ => Item.numbers_of_numberPlain
  exact (Expr.composed_head numbers false false false).paired

namespace Buffer

variable {bytes : ByteArray} {limits : Limits} {b : Buffer}

/-- The text of a buffer that was opened is that of its expression, behind the modifiers. -/
theorem print_of_load (h : load bytes limits = .ok b) :
    ∃ root e s, b.root = .ok root ∧ root.expr? = some e ∧ b.print .unbounded = .ok s ∧
      e.textAt .first <:+: s.toList := by
  obtain ⟨root, e, first, read, _, depth⟩ := expr?_of_load h
  have printed := print_of_expr? first read .unbounded
  rw [Expr.print_node (Limits.le_unbounded depth), ok_bind] at printed
  refine ⟨root, e, _, first, read, printed, ?_⟩
  rw [String.toList_append, String.toList_ofList]
  exact (List.suffix_append _ _).isInfix

/-- In the text of a buffer that was opened, an operator with an accessor behind it stands in
parentheses, the closing one right before the accessor, at every site that asks for them: at the
beginning of the path, behind another item and as an operand of an operator that binds at least as
tight. This is the partner of the opening one unless a number is spelled with brackets or quotes.
At all other sites there are no parentheses, and the accessor follows the last operand. -/
theorem print_operator_of_load (h : load bytes limits = .ok b) :
    ∃ root e s, b.root = .ok root ∧ root.expr? = some e ∧ b.print .unbounded = .ok s ∧
      ∀ site x rest, e.Occurs site (.mk x (some rest)) → x.kind.isOperator →
        (Expr.mk x (some rest)).textAt site <:+: s.toList ∧
          if site.asks x.kind then
            (Expr.mk x (some rest)).textAt site =
                '(' :: (x.operation ++ ')' :: rest.textAt .chained) ∧
              (e.Everywhere (fun _ y => y.NumberPlain) .top →
                Brackets.partner .text 0 (x.operation ++ ')' :: rest.textAt .chained) =
                  some (rest.textAt .chained))
          else (Expr.mk x (some rest)).textAt site = x.operation ++ rest.textAt .chained := by
  obtain ⟨root, e, s, first, read, printed, whole⟩ := print_of_load h
  refine ⟨root, e, s, first, read, printed, fun site x rest occurs operator => ?_⟩
  refine ⟨occurs.isInfix.trans whole, ?_⟩
  rw [Expr.textAt_operator operator]
  split
  · next asked =>
      rw [asked]
      refine ⟨by simp [enclosed], fun plain => ?_⟩
      obtain ⟨_, plain⟩ := occurs.everywhere plain
      exact (Brackets.paired_operation plain).partner_eq _
  · next unasked =>
      rw [Bool.eq_false_of_not_eq_true unasked]
      rfl

end Buffer

namespace Specimen

/-- `2 * $` -/
def product : Item String Expr (Option Expr) :=
  .binary .mul (.int 2) (.single .root)

/-- `.type()` -/
def typed : Expr :=
  .single (.method .type)

/-- `1 + (2 * $).type()` -/
def total : Item String Expr (Option Expr) :=
  .binary .add (.int 1) (.mk product (some typed))

end Specimen

open Specimen

/-- In `(1 + (2 * $).type()).abs()` the sum stands in parentheses, the product does not. -/
theorem Buffer.print_operator_of_load_sum :
    let abs : Expr := .single (.method .abs)
    let path : Path := { expr := .mk total (some abs) }
    ∃ b s, path.encode {} = .ok b ∧ load b.bytes {} = .ok b ∧ b.print .unbounded = .ok s ∧
      path.expr.textAt .first <:+: s.toList ∧
      path.expr.textAt .first = '(' :: (total.operation ++ ')' :: abs.textAt .chained) ∧
      Brackets.partner .text 0 (total.operation ++ ')' :: abs.textAt .chained) =
        some (abs.textAt .chained) ∧
      (Expr.mk product (some typed)).textAt (.operand total.kind .right) =
        product.operation ++ typed.textAt .chained := by
  intro abs path
  obtain ⟨b, encoded⟩ := exists_ok (x := path.encode {}) (by decide +kernel)
  have depth : path.expr.depth = 3 := by cbv
  have loaded : load b.bytes {} = .ok b :=
    Path.load_of_room encoded rfl (by rw [depth]; decide)
  obtain ⟨root', first', read'⟩ := Path.root_of_encode encoded
  obtain ⟨root, e, s, first, read, printed, operators⟩ := print_operator_of_load loaded
  obtain rfl : root = root' := Except.ok.inj (first.symm.trans first')
  obtain rfl : e = path.expr := Option.some.inj (read.symm.trans read')
  have outer : path.expr.Occurs .first (.mk total (some abs)) := .first
  have inner : path.expr.Occurs (.operand total.kind .right) (.mk product (some typed)) :=
    .right outer
  have digit (i : Int) (c : Char) (spelled : (toString i).toList = [c]) (plain : Brackets.Plain [c])
      (scope : Scope) : (Expr.int i).Everywhere (fun _ y => y.NumberPlain) scope := by
    refine .single ?_ rfl
    rwa [← spelled] at plain
  have one := digit 1 '1' (by decide +kernel) (by simp [Brackets.Plain])
  have two := digit 2 '2' (by decide +kernel) (by simp [Brackets.Plain])
  have plain : path.expr.Everywhere (fun _ y => y.NumberPlain) .top := by
    refine .binary trivial (one _) (.binary trivial (two _) ?_ ?_) ?_
    all_goals exact .single (x := _) trivial rfl
  obtain ⟨shown, enclosed, partner⟩ := operators _ _ _ outer rfl
  obtain ⟨_, bare⟩ := operators _ _ _ inner rfl
  exact ⟨b, s, encoded, loaded, printed, shown, enclosed, partner plain, bare⟩

/-- `1 + (2 * $).type()` has no parenthesis in its text, which is that of `1 + 2 * ($.type())`. -/
theorem Buffer.print_operator_product :
    let path : Path := { expr := .single total }
    let other : Path :=
      { expr := .single (.binary .add (.int 1)
          (.single (.binary .mul (.int 2) (.mk .root (some typed))))) }
    path ≠ other ∧ path.expr.Occurs (.operand total.kind .right) (.mk product (some typed)) ∧
      product.kind.isOperator ∧ product.operation = "2 * $".toList ∧
      (Expr.mk product (some typed)).textAt (.operand total.kind .right) = "2 * $.type()".toList ∧
      ∃ a b, path.encode {} = .ok a ∧ load a.bytes {} = .ok a ∧ other.encode {} = .ok b ∧
        a.print .unbounded = .ok "(1 + 2 * $.type())" ∧
        b.print .unbounded = .ok "(1 + 2 * $.type())" := by
  intro path other
  obtain ⟨a, encoded⟩ := exists_ok (x := path.encode {}) (by decide +kernel)
  obtain ⟨b, encoded'⟩ := exists_ok (x := other.encode {}) (by decide +kernel)
  have depth : path.expr.depth = 3 := by cbv
  have loaded : load a.bytes {} = .ok a :=
    Path.load_of_room encoded rfl (by rw [depth]; decide)
  have text : String.ofList path.text = "(1 + 2 * $.type())" := by decide +kernel
  have text' : String.ofList other.text = "(1 + 2 * $.type())" := by decide +kernel
  refine ⟨?_, .right .first, rfl, by decide +kernel, by decide +kernel, a, b, encoded, loaded,
    encoded', ?_, ?_⟩
  · simp [path, other, total, product, Expr.single]
  · rw [Path.print_of_encode encoded, text]
  · rw [Path.print_of_encode encoded', text']

end FlatPath
