import FlatPath.Proofs.EncodingSucceeds
import FlatPath.Proofs.Loading
import FlatPath.Proofs.Readers

/-!
Encoding again what was read back from a buffer. Whatever the layout of a buffer that was opened,
its readers see no more than the expression that it holds and its modes; so a buffer that is encoded
from these is read in the same way.
-/

namespace FlatPath

namespace Buffer

variable {b b' : Buffer} {root root' : Cursor} {e : Expr}

theorem print_of_expr? (first : b.root = .ok root) (read : root.expr? = some e) (limits : Limits) :
    b.print limits = (do
      let body ← e.node.print limits
      return (if b.header.hasExtensions then "pg " else "") ++
        (if b.header.isLax then "" else "strict ") ++ body) := by
  rw [print, first]
  simp only [Cursor.node_of_expr? read]

theorem isMutable_of_expr? (first : b.root = .ok root) (read : root.expr? = some e)
    (bindings : Bindings) (limits : Limits) :
    b.isMutable bindings limits = e.node.isMutable ⟨bindings, b.header.isLax⟩ limits := by
  rw [isMutable, first]
  simp only [Cursor.node_of_expr? read]

/-- What is read back from a buffer that was opened can be encoded under the same limits, provided
that its patterns pass the check and that its layout fits into a buffer. The new buffer holds the
same expression, has the same text and is classified in the same way. -/
theorem reencode_of_load {bytes : ByteArray} {limits : Limits} (h : load bytes limits = .ok b) :
    ∃ root e, b.root = .ok root ∧ root.expr? = some e ∧
      (e.Everywhere (fun _ x => x.PatternPasses) .top →
        Header.size + (e.layout 0).size ≤ maxSize →
          ∃ b', Path.encode ⟨e, b.header.isLax, b.header.hasExtensions⟩ limits = .ok b' ∧
            (∃ root', b'.root = .ok root' ∧ root'.expr? = some e) ∧
            b'.header.isLax = b.header.isLax ∧
            b'.header.hasExtensions = b.header.hasExtensions ∧
            (∃ s, b.print .unbounded = .ok s ∧ b'.print .unbounded = .ok s) ∧
            ∀ bindings, ∃ r, b.isMutable bindings .unbounded = .ok r ∧
              b'.isMutable bindings .unbounded = .ok r) := by
  obtain ⟨root, e, first, read, rules, depth⟩ := expr?_of_load h
  refine ⟨root, e, first, read, fun patterns fits => ?_⟩
  let path : Path := ⟨e, b.header.isLax, b.header.hasExtensions⟩
  have encodable : e.Everywhere (Item.Encodable b.header.hasExtensions) .top :=
    (rules.and patterns).mono fun _ _ ⟨admissible, pattern⟩ => ⟨admissible, pattern⟩
  have running := Verify.running_of_ok (load_eq_ok h)
  obtain ⟨b', encoded⟩ := Path.encode_succeeds path running encodable depth fits
  obtain ⟨root', first', read'⟩ := Path.root_of_encode encoded
  obtain ⟨header, _⟩ := Path.encode_ok encoded
  obtain ⟨lax, extensions⟩ : b'.header.isLax = b.header.isLax ∧
      b'.header.hasExtensions = b.header.hasExtensions := by
    rw [header]
    exact Header.modes_ofModes ..
  have depth := Limits.le_unbounded depth
  refine ⟨b', encoded, ⟨root', first', read'⟩, lax, extensions, ?_, fun bindings => ?_⟩
  · rw [print_of_expr? first read, print_of_expr? first' read', lax, extensions,
      Expr.print_node depth]
    exact ⟨_, rfl, rfl⟩
  · obtain ⟨r, decided, _⟩ := Mutability.isMutable_node_ok depth ⟨bindings, b.header.isLax⟩
    refine ⟨r, ?_, ?_⟩
    · rw [isMutable_of_expr? first read, decided]
    · rw [isMutable_of_expr? first' read', lax, decided]

/-- `$.a` with padding that is not zero, a gap, a byte behind the last item and unknown flags. -/
def gapped : Buffer where
  header := ⟨1, 252, 52651⟩
  payload := ⟨#[27, 7, 7, 7, 9, 0, 0, 0, 255, 25, 1, 2, 0, 0, 0, 0, 1, 0, 0, 0, 97, 0, 9]⟩

theorem reencode_of_load_gapped :
    let e : Expr := .mk .root (some (.single (.key "a")))
    load gapped.bytes {} = .ok gapped ∧ (∃ root, gapped.root = .ok root ∧ root.expr? = some e) ∧
      ∃ b', Path.encode ⟨e, true, false⟩ {} = .ok b' ∧
        (∃ root, b'.root = .ok root ∧ root.expr? = some e) ∧
        (∃ s, gapped.print .unbounded = .ok s ∧ b'.print .unbounded = .ok s) ∧
        ∃ r, gapped.isMutable .empty .unbounded = .ok r ∧
          b'.isMutable .empty .unbounded = .ok r := by
  intro e
  have loaded : load gapped.bytes {} = .ok gapped := load_bytes_of_isOk rfl (by decide +kernel)
  have held : gapped.root.toOption.bind Cursor.expr? =
      some (.mk .root (some (.single (.key "a")))) := by cbv
  have patterns : e.Everywhere (fun _ x => x.PatternPasses) .top := by
    refine .leaf trivial rfl fun key h => ?_
    cases h
    exact .single trivial rfl
  have fits : Header.size + (e.layout 0).size ≤ maxSize := by decide +kernel
  obtain ⟨root, e', first, read, reencoded⟩ := reencode_of_load loaded
  obtain rfl : e' = e := by
    rw [first] at held
    exact Option.some.inj (read.symm.trans held)
  obtain ⟨b', encoded, back, _, _, text, mutability⟩ := reencoded patterns fits
  exact ⟨loaded, ⟨root, first, read⟩, b', encoded, back, text, mutability .empty⟩

end Buffer

end FlatPath
