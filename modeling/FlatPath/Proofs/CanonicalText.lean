import FlatPath.Print
import FlatPath.Proofs.ReadBack
import FlatPath.Proofs.Success

/-!
The canonical text of an expression, put together from the expression alone. The printer arrives at
it on the tree of every expression that nests within its limit.
-/

namespace FlatPath

/-- An expression as its text is put together: the kind of its first item, and its text in key
context or not, in parentheses or not. -/
structure Piece where
  kind : Kind
  text : Bool → Bool → List Char

namespace Piece

/-- An operand, in parentheses if its kind asks for them. -/
def operand (brackets : Kind → Bool) (p : Piece) : List Char :=
  p.text false (brackets p.kind)

/-- An operand that may be absent. -/
def optional : Option Piece → List Char
  | none => []
  | some p => p.operand fun _ => false

/-- An operand in a list, where only a sequence needs parentheses. -/
def element (p : Piece) : List Char :=
  p.operand (· == .sequence)

def subscript : Piece × Option Piece → List Char
  | (a, none) => a.element
  | (a, some b) => a.element ++ ([' ', 't', 'o', ' '] ++ b.element)

def field : Piece × Piece → List Char
  | (k, v) => k.operand (fun _ => false) ++ ([':', ' '] ++ v.element)

/-- The rest of a chain. -/
def rest : Option Piece → List Char
  | none => []
  | some p => p.text true true

end Piece

def enclosed (wanted : Bool) (s : List Char) : List Char :=
  if wanted then '(' :: (s ++ [')']) else s

def afterDot (inKey : Bool) (s : List Char) : List Char :=
  if inKey then '.' :: s else s

/-- Texts with a separator in front of each but the first. -/
def separated (separator : List Char) : List (List Char) → List Char
  | [] => []
  | t :: ts => t ++ ts.flatMap (separator ++ ·)

def UnaryOp.text (brackets : Bool) (a : Piece) : UnaryOp → List Char
  | .plus => enclosed brackets ('+' :: a.operand (·.priority ≤ (Kind.unary .plus).priority))
  | .minus => enclosed brackets ('-' :: a.operand (·.priority ≤ (Kind.unary .minus).priority))
  | .filter => ['?', '('] ++ (a.operand (fun _ => false) ++ [')'])
  | .not => ['!', '('] ++ (a.operand (fun _ => false) ++ [')'])
  | .isUnknown =>
    '(' :: (a.operand (fun _ => false) ++
      [')', ' ', 'i', 's', ' ', 'u', 'n', 'k', 'n', 'o', 'w', 'n'])
  | .exists => ['e', 'x', 'i', 's', 't', 's', ' ', '('] ++ (a.operand (fun _ => false) ++ [')'])

namespace Item

def text (inKey brackets hasNext : Bool) : Item String Piece (Option Piece) → List Char
  | .null => ['n', 'u', 'l', 'l']
  | .key s => afterDot inKey (Quoted.encode s.toList)
  | .string s => Quoted.encode s.toList
  | .var s => '$' :: Quoted.encode s.toList
  | .numeric s => enclosed hasNext s.toList
  | .bool b => if b then ['t', 'r', 'u', 'e'] else ['f', 'a', 'l', 's', 'e']
  | .binary op l r =>
    enclosed brackets (l.operand (·.priority ≤ (Kind.binary op).priority) ++
      ' ' :: (op.symbol.toList ++ ' ' :: r.operand (·.priority ≤ (Kind.binary op).priority)))
  | .likeRegex e p f =>
    enclosed brackets (e.operand (·.priority ≤ Kind.likeRegex.priority) ++
      ([' ', 'l', 'i', 'k', 'e', '_', 'r', 'e', 'g', 'e', 'x', ' '] ++
        (Quoted.encode p.toList ++ f.suffix.toList)))
  | .unary op a => op.text brackets a
  | .current => ['@']
  | .root => ['$']
  | .last => ['l', 'a', 's', 't']
  | .anyArray => ['[', '*', ']']
  | .anyKey => afterDot inKey ['*']
  | .any l => afterDot inKey l.text.toList
  | .indexArray ss => '[' :: (separated [','] (ss.map Piece.subscript) ++ [']'])
  | .method m => '.' :: (m.symbol.toList ++ ['(', ')'])
  | .datetime t => ['.', 'd', 'a', 't', 'e', 't', 'i', 'm', 'e', '('] ++ (Piece.optional t ++ [')'])
  | .sequence es =>
    enclosed (brackets || hasNext) (separated [',', ' '] (es.map Piece.element))
  | .array e => '[' :: (Piece.optional e ++ [']'])
  | .object fs => '\x7b' :: (separated [',', ' '] (fs.map Piece.field) ++ ['\x7d'])

end Item

namespace Expr

def piece (e : Expr) : Piece :=
  e.fold fun x next =>
    ⟨x.kind, fun inKey brackets => x.text inKey brackets next.isSome ++ Piece.rest next⟩

/-- The text of a chain. -/
def text (e : Expr) (inKey brackets : Bool) : List Char :=
  e.piece.text inKey brackets

theorem piece_mk (x : Item String Expr (Option Expr)) (next : Option Expr) :
    (mk x next).piece = ⟨x.kind, fun inKey brackets =>
      (x.map id piece (Option.map piece)).text inKey brackets next.isSome ++
        Piece.rest (next.map piece)⟩ := by
  rw [piece, fold_mk, Item.kind_map, Option.isSome_map]
  rfl

theorem text_mk (x : Item String Expr (Option Expr)) (next : Option Expr)
    (inKey brackets : Bool) :
    (mk x next).text inKey brackets =
      (x.map id piece (Option.map piece)).text inKey brackets next.isSome ++
        Piece.rest (next.map piece) := by
  rw [text, piece_mk]

theorem piece_kind (e : Expr) : e.piece.kind = e.item.kind := by
  obtain ⟨x, next⟩ := e
  rw [piece_mk, item]

end Expr

namespace Print

theorem enter_eq_ok {d d' : Descent} (h : d.enter = .ok d') : enter d = .ok d' := by
  rw [enter, h]

theorem legible_toUTF8 (script : Script) (s : String) : legible script s.toUTF8 = .ok s := by
  rw [legible, decodeText, fromUTF8?_toUTF8]

/-- An item whose kind is written as a word or a sign is printed with it between two texts, in front
of one, or as a method. -/
theorem item_of_symbol {d : Descent} {inKey brackets hasNext : Bool} {x : Item ByteArray Link Link}
    {symbol text : String} (spelled : x.kind.symbol? = some symbol)
    (printed : item d inKey brackets hasNext x = .ok text) :
    (∃ left right, text = parens brackets (left ++ (" " ++ symbol ++ " ") ++ right)) ∨
      (∃ operand, text = parens brackets (symbol ++ operand)) ∨
      ∃ argument, text = "." ++ symbol ++ "(" ++ argument ++ ")" := by
  cases x with
  | binary op l r =>
      cases spelled
      obtain ⟨left, _, printed⟩ := bind_eq_ok.1 printed
      obtain ⟨right, _, printed⟩ := bind_eq_ok.1 printed
      cases printed
      exact .inl ⟨left, right, by simp only [String.append_assoc]⟩
  | likeRegex e p f =>
      cases spelled
      obtain ⟨left, _, printed⟩ := bind_eq_ok.1 printed
      obtain ⟨pattern, _, printed⟩ := bind_eq_ok.1 printed
      cases printed
      exact .inl ⟨left, quoted pattern ++ f.suffix, by rw [← String.append_assoc]; rfl⟩
  | unary op a =>
      cases op with
      | plus | minus =>
          cases spelled
          obtain ⟨operand, _, printed⟩ := bind_eq_ok.1 printed
          cases printed
          exact .inr (.inl ⟨operand, rfl⟩)
      | _ => cases spelled
  | method m =>
      cases spelled
      cases printed
      exact .inr (.inr ⟨"", by simp only [String.append_assoc]; rfl⟩)
  | datetime t =>
      cases spelled
      obtain ⟨argument, _, printed⟩ := bind_eq_ok.1 printed
      cases printed
      exact .inr (.inr ⟨argument, rfl⟩)
  | _ => cases spelled

/-- The printer finds the text of this operand. -/
def Prints (d : Descent) (e : Expr) : Prop :=
  ∀ brackets missing, operand d brackets missing (.found fun _ => e.node) =
    .ok (String.ofList (e.piece.operand brackets))

private theorem ok_eq {s : String} {t : List Char} (h : s.toList = t) :
    (Except.ok s : Printed) = .ok (String.ofList t) := by
  rw [← h, String.ofList_toList]

theorem parens_eq (wanted : Bool) (s : String) :
    (parens wanted s).toList = enclosed wanted s.toList := by
  cases wanted <;> simp [parens, enclosed]

theorem dotted_eq (inKey : Bool) (s : String) :
    (dotted inKey s).toList = afterDot inKey s.toList := by
  cases inKey <;> simp [dotted, afterDot]

theorem quoted_eq (s : String) : (quoted s).toList = Quoted.encode s.toList := by
  simp [quoted]

theorem optional_eq {d : Descent} {o : Option Expr} (prints : ∀ e ∈ o, Prints d e) :
    operand d (fun _ => false) (.ok "") (Link.ofOption (o.map Expr.node)) =
      .ok (String.ofList (Piece.optional (o.map Expr.piece))) := by
  cases o with
  | none => rfl
  | some e => exact prints e rfl _ _

/-- The entries of a list from number `i` on. -/
private def listed (separator : List Char) (i : Nat) (ts : List (List Char)) : List Char :=
  if i = 0 then separated separator ts else ts.flatMap (separator ++ ·)

private theorem listed_cons (separator : List Char) (i : Nat) (t : List Char)
    (ts : List (List Char)) :
    listed separator i (t :: ts) =
      (if i = 0 then [] else separator) ++ (t ++ listed separator (i + 1) ts) := by
  by_cases first : i = 0
  · simp [listed, separated, first]
  · simp [listed, first]

private theorem subscripts_eq {d : Descent} {ss : List (Expr × Option Expr)}
    (prints : ∀ s ∈ ss, Prints d s.1 ∧ ∀ e ∈ s.2, Prints d e) (i : Nat) :
    subscripts d i (ss.map fun s =>
        (.found fun _ => s.1.node, Link.ofOption (s.2.map Expr.node))) =
      .ok (String.ofList (listed [','] i (ss.map fun s =>
        Piece.subscript (s.1.piece, s.2.map Expr.piece)))) := by
  induction ss generalizing i with
  | nil => exact ok_eq (by simp [listed, separated])
  | cons s ss ih =>
      obtain ⟨a, b⟩ := s
      have rest := ih (fun s hs => prints s (by simp [hs])) (i + 1)
      have first : Prints d a := (prints _ List.mem_cons_self).1
      rw [List.map_cons, List.map_cons, listed_cons]
      cases b with
      | none =>
          have absent : operand d (· == .sequence) (.ok "") .absent = .ok "" := rfl
          simp only [subscripts, Option.map_none, Link.ofOption_none, Link.require,
            Link.probe, Link.isAbsent, first _ _, absent, ok_bind, except_pure, rest]
          by_cases zero : i = 0
          · exact ok_eq (by simp [zero, Piece.subscript, Piece.element])
          · exact ok_eq (by simp [zero, Piece.subscript, Piece.element])
      | some b =>
          have second : Prints d b := (prints _ List.mem_cons_self).2 b rfl
          simp only [subscripts, Option.map_some, Link.ofOption_some, Link.require,
            Link.probe, Link.isAbsent, first _ _, second _ _, ok_bind, except_pure, rest]
          by_cases zero : i = 0
          · exact ok_eq (by simp [zero, Piece.subscript, Piece.element])
          · exact ok_eq (by simp [zero, Piece.subscript, Piece.element])

private theorem elements_eq {d : Descent} {es : List Expr} (prints : ∀ e ∈ es, Prints d e)
    (i : Nat) :
    elements d i (es.map fun e => .found fun _ => e.node) =
      .ok (String.ofList (listed [',', ' '] i (es.map fun e => e.piece.element))) := by
  induction es generalizing i with
  | nil => exact ok_eq (by simp [listed, separated])
  | cons e es ih =>
      have rest := ih (fun e he => prints e (by simp [he])) (i + 1)
      have first : Prints d e := prints e List.mem_cons_self
      rw [List.map_cons, List.map_cons, listed_cons]
      simp only [elements, first _ _, ok_bind, except_pure, rest]
      by_cases zero : i = 0
      · exact ok_eq (by simp [zero, Piece.element])
      · exact ok_eq (by simp [zero, Piece.element])

private theorem fields_eq {d : Descent} {fs : List (Expr × Expr)}
    (prints : ∀ f ∈ fs, Prints d f.1 ∧ Prints d f.2) (i : Nat) :
    fields d i (fs.map fun f => (.found fun _ => f.1.node, .found fun _ => f.2.node)) =
      .ok (String.ofList (listed [',', ' '] i (fs.map fun f =>
        Piece.field (f.1.piece, f.2.piece)))) := by
  induction fs generalizing i with
  | nil => exact ok_eq (by simp [listed, separated])
  | cons f fs ih =>
      have rest := ih (fun f hf => prints f (by simp [hf])) (i + 1)
      have key : Prints d f.1 := (prints f List.mem_cons_self).1
      have value : Prints d f.2 := (prints f List.mem_cons_self).2
      rw [List.map_cons, List.map_cons, listed_cons]
      simp only [fields, Link.require, key _ _, value _ _, ok_bind, except_pure, rest]
      by_cases zero : i = 0
      · exact ok_eq (by simp [zero, Piece.field, Piece.element])
      · exact ok_eq (by simp [zero, Piece.field, Piece.element])

theorem item_eq {d : Descent} {x : Item String Expr (Option Expr)}
    (prints : ∀ e ∈ x.operands, Prints d e) (inKey brackets hasNext : Bool) :
    item d inKey brackets hasNext (x.map String.toUTF8 (fun e => .found fun _ => e.node)
        fun o => Link.ofOption (o.map Expr.node)) =
      .ok (String.ofList ((x.map id Expr.piece (Option.map Expr.piece)).text inKey brackets
        hasNext)) := by
  cases x with
  | null | root | current | last | anyArray =>
      simp only [Item.map, item, except_pure]
      exact ok_eq (by simp [Item.text])
  | anyKey | any l =>
      simp only [Item.map, item, except_pure]
      exact ok_eq (by simp [Item.text, dotted_eq])
  | method m =>
      simp only [Item.map, item, except_pure]
      exact ok_eq (by simp [Item.text])
  | bool b =>
      simp only [Item.map, item, except_pure]
      cases b with
      | false => exact ok_eq (by simp [Item.text])
      | true => exact ok_eq (by simp [Item.text])
  | string s | numeric s | var s | key s =>
      simp only [Item.map, item, legible_toUTF8, ok_bind, except_pure]
      exact ok_eq (by simp [parens_eq, dotted_eq, quoted_eq, Item.text])
  | binary op l r =>
      have left := prints l (by simp)
      have right := prints r (by simp)
      simp only [Item.map, item, left _ _, right _ _, ok_bind, except_pure]
      exact ok_eq (by simp [parens_eq, Item.text])
  | unary op a =>
      have argument := prints a (by simp)
      cases op with
      | _ =>
          simp only [Item.map, item, argument _ _, ok_bind, except_pure]
          exact ok_eq (by simp [parens_eq, Item.text, UnaryOp.text])
  | likeRegex e p f =>
      have operand := prints e (by simp)
      simp only [Item.map, item, legible_toUTF8, operand _ _, ok_bind, except_pure]
      exact ok_eq (by simp [parens_eq, quoted_eq, Item.text])
  | datetime o | array o =>
      have argument := optional_eq fun e he => prints e (by simpa using he)
      simp only [Item.map, item, argument, ok_bind, except_pure]
      exact ok_eq (by simp [Item.text])
  | indexArray ss =>
      have inside := subscripts_eq (Item.forall_operands_indexArray prints) 0
      simp only [Item.map, item, inside, ok_bind, except_pure]
      exact ok_eq (by simp [Item.text, listed, Function.comp_def])
  | sequence es =>
      have inside := elements_eq (fun e he => prints e (by simpa using he)) 0
      simp only [Item.map, item, inside, ok_bind, except_pure]
      exact ok_eq (by simp [parens_eq, Item.text, listed, Function.comp_def])
  | object fs =>
      have inside := fields_eq (Item.forall_operands_object prints) 0
      simp only [Item.map, item, inside, ok_bind, except_pure]
      exact ok_eq (by simp [Item.text, listed, Function.comp_def])

theorem items_eq (e : Expr) {d : Descent} (h : d.Holds e) (inKey brackets : Bool) :
    items d inKey brackets e.node = .ok (String.ofList (e.text inKey brackets)) := by
  induction e using Expr.operandInduction generalizing d inKey brackets with
  | mk x next operands rest =>
      have prints (e : Expr) (he : e ∈ x.operands) : Prints d e := by
        intro brackets missing
        obtain ⟨d', entered, held⟩ := h.operand he
        have kind : e.node.kind = e.piece.kind := by
          obtain ⟨x, next⟩ := e
          simp [Expr.node_mk, Expr.piece_kind, Expr.item, Node.kind, Node.item]
        rw [operand]
        simp only [enter_eq_ok entered, ok_bind, operands e he held]
        rw [kind]
        rfl
      rw [Expr.node_mk, items, item_eq prints]
      have text := Expr.text_mk x next inKey brackets
      cases next with
      | none =>
          simp only [Option.map_none, Link.ofOption_none, Print.rest, ok_bind, except_pure]
          exact ok_eq (by simpa [Piece.rest, Link.isAbsent] using text.symm)
      | some e =>
          have later := rest e rfl h.next true true
          simp only [Option.map_some, Link.ofOption_some, Print.rest, later, ok_bind, except_pure]
          exact ok_eq (by simpa [Piece.rest, Link.isAbsent, Expr.text] using text.symm)

end Print

/-- An expression that nests no deeper than a buffer can is printed as its text. -/
theorem Expr.print_node {e : Expr} (h : e.depth ≤ Limits.unbounded.recursionLimit.toNat) :
    e.node.print .unbounded = .ok (String.ofList (e.text false (e.item.kind != .sequence))) := by
  have kind : e.node.kind = e.item.kind := by
    obtain ⟨x, next⟩ := e
    simp [Expr.node_mk, Node.kind, Node.item, Expr.item]
  obtain ⟨d, entered, held⟩ := Limits.exists_holds rfl h
  rw [Node.print, Print.enter_eq_ok entered, ok_bind, Print.items_eq e held, kind]

end FlatPath
