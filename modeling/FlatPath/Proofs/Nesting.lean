import FlatPath.Proofs.EncodingLimits
import FlatPath.Proofs.ReadingLimits
import FlatPath.Proofs.Reencoding
import FlatPath.Proofs.Spans
import FlatPath.Proofs.UniqueReading

/-!
One count of nesting. Encoding an expression, checking its buffer and printing it each need a limit
that is as high as the expression nests; the walk that decides mutability needs no higher one, and
whatever it comes to under a limit is the answer.
-/

namespace FlatPath

variable {limits : Limits} {b : Buffer}

namespace Buffer

theorem load_of_cancelled (current : b.header.isCurrent) (raised : limits.isCancelled = true) :
    load b.bytes limits = .error (.limit .cancelled) := by
  rw [load_bytes_eq current, Verify.refused_of_cancelled raised, error_bind]

theorem print_of_cancelled {root : Cursor} (first : b.root = .ok root)
    (raised : limits.isCancelled = true) : b.print limits = .error (.limit .cancelled) := by
  rw [print, first]
  simp only [Node.print, Print.enter_of_cancelled raised, error_bind]

end Buffer

namespace Path

variable {path : Path}

/-- Under a limit an encoded buffer is opened, or its expression nests deeper. -/
theorem curtailed_load (h : path.encode .unbounded = .ok b)
    (running : limits.isCancelled = false) :
    Curtailed (path.expr.depth ≤ limits.recursionLimit.toNat)
      (.limit (.tooDeep limits.recursionLimit)) (.ok b) (Buffer.load b.bytes limits) := by
  refine ⟨load_of_room h running, fun deep _ => ?_⟩
  have current := isCurrent_of_encode h
  obtain ⟨_, _, _, _, depth⟩ := encode_ok h
  obtain ⟨root, first, read⟩ := root_of_encode h
  have opened := load_of_room h rfl depth
  obtain same | stopped := cut_verify (Limits.under_unbounded running) b.payload
    b.header.hasExtensions
  · -- If the check went through, the nesting would be within the limit.
    have accepted : Buffer.load b.bytes limits = .ok b := by
      rw [Buffer.load_bytes_eq current, same, ← Buffer.load_bytes_eq current, opened]
    obtain ⟨root', e, first', read', _, room⟩ := Buffer.expr?_of_load accepted
    cases first.symm.trans first'
    cases read.symm.trans read'
    exact absurd room deep
  · rw [Buffer.load_bytes_eq current, stopped, error_bind]

/-- Under a limit an encoded buffer is printed as it is without, or its expression nests deeper. -/
theorem curtailed_print (h : path.encode .unbounded = .ok b)
    (running : limits.isCancelled = false) :
    Curtailed (path.expr.depth ≤ limits.recursionLimit.toNat)
      (.limit (.tooDeep limits.recursionLimit)) (b.print .unbounded) (b.print limits) := by
  obtain ⟨root, first, read⟩ := root_of_encode h
  rw [Buffer.print_of_expr? first read, Buffer.print_of_expr? first read]
  exact (Expr.curtailed_print running path.expr).before _

/-- The walks that a path takes count nesting alike. What is encoded without limits is encoded,
opened, printed and classified in the same way under every limit that is as high as its expression
nests; a lower limit stops all of them but the walk that decides mutability, which stops or comes to
the same answer. Once the token is raised all of them are refused. -/
theorem nesting_alike :
    (∀ (path : Path) (b : Buffer), path.encode .unbounded = .ok b →
      ∃ root, b.root = .ok root ∧ ∀ limits : Limits, limits.isCancelled = false →
        (path.expr.depth ≤ limits.recursionLimit.toNat →
          path.encode limits = .ok b ∧ Buffer.load b.bytes limits = .ok b ∧
            (∃ s, b.print limits = .ok s ∧ b.print .unbounded = .ok s) ∧
            ∀ ctx, ∃ r, root.node.isMutable ctx limits = .ok r) ∧
        (limits.recursionLimit.toNat < path.expr.depth →
          path.encode limits = .error (.limit (.tooDeep limits.recursionLimit)) ∧
            Buffer.load b.bytes limits = .error (.limit (.tooDeep limits.recursionLimit)) ∧
            b.print limits = .error (.limit (.tooDeep limits.recursionLimit))) ∧
        ∀ ctx r, root.node.isMutable ctx limits = .ok r →
          root.node.isMutable ctx .unbounded = .ok r) ∧
      ∀ limits : Limits, limits.isCancelled = true →
        (∀ path : Path, path.encode limits = .error (.limit .cancelled)) ∧
          (∀ b : Buffer, b.header.isCurrent →
            Buffer.load b.bytes limits = .error (.limit .cancelled)) ∧
          ∀ (b : Buffer) (root : Cursor), b.root = .ok root →
            b.print limits = .error (.limit .cancelled) ∧
              ∀ ctx, root.node.isMutable ctx limits = .error (.limit .cancelled) := by
  refine ⟨fun path b h => ?_, fun limits raised => ⟨fun path => refused_of_cancelled path raised,
    fun b current => Buffer.load_of_cancelled current raised, fun b root first =>
      ⟨Buffer.print_of_cancelled first raised, fun ctx => Node.refused_of_cancelled _ ctx raised⟩⟩⟩
  obtain ⟨root, first, read⟩ := root_of_encode h
  have printed := print_of_encode h
  refine ⟨root, first, fun limits running => ?_⟩
  have encode := curtailed_encode running path
  have load := curtailed_load h running
  have print := curtailed_print h running
  rw [Cursor.node_of_expr? read]
  refine ⟨fun room => ⟨?_, load.ample room, ⟨_, ?_, printed⟩, fun ctx => ?_⟩, fun deep => ?_,
    fun ctx r answer => ?_⟩
  · rw [encode.ample room, h]
  · rw [print.ample room, printed]
  · obtain ⟨r, decided, _⟩ := Mutability.isMutable_node_of_room running room ctx
    exact ⟨r, decided⟩
  · have deep := Nat.not_le_of_lt deep
    exact ⟨encode.scarce deep ⟨b, h⟩, load.scarce deep ⟨b, rfl⟩, print.scarce deep ⟨_, printed⟩⟩
  · exact (Expr.cut_isMutable running path.expr ctx).of_ok answer

/-- The specimen nests four deep: through a range, a filter and a pattern match. -/
theorem nesting_alike_specimen :
    let near : Limits := { recursionLimit := 4, token := some {} }
    let far : Limits := { recursionLimit := 3 }
    ∃ b root, specimen.encode .unbounded = .ok b ∧ b.root = .ok root ∧
      (specimen.encode near = .ok b ∧ Buffer.load b.bytes near = .ok b ∧
        (∃ s, b.print near = .ok s ∧ b.print .unbounded = .ok s) ∧
        ∃ r, root.node.isMutable ⟨.empty, false⟩ near = .ok r ∧
          root.node.isMutable ⟨.empty, false⟩ .unbounded = .ok r) ∧
      (specimen.encode far = .error (.limit (.tooDeep 3)) ∧
        Buffer.load b.bytes far = .error (.limit (.tooDeep 3)) ∧
        b.print far = .error (.limit (.tooDeep 3))) ∧
      specimen.encode near.cancel = .error (.limit .cancelled) ∧
        Buffer.load b.bytes near.cancel = .error (.limit .cancelled) ∧
        b.print near.cancel = .error (.limit .cancelled) ∧
        root.node.isMutable ⟨.empty, false⟩ near.cancel = .error (.limit .cancelled) := by
  intro near far
  obtain ⟨b, h⟩ := exists_ok (x := specimen.encode .unbounded) (by decide +kernel)
  have depth : specimen.expr.depth = 4 := by cbv
  obtain ⟨root, first, alike⟩ := nesting_alike.1 specimen b h
  obtain ⟨within, _, answers⟩ := alike near rfl
  obtain ⟨encoded, loaded, printed, decided⟩ := within (by rw [depth]; decide)
  obtain ⟨r, decided⟩ := decided ⟨.empty, false⟩
  obtain ⟨_, deeper, _⟩ := alike far rfl
  obtain ⟨cancelled, unopened, unread⟩ := nesting_alike.2 near.cancel rfl
  obtain ⟨unprinted, undecided⟩ := unread b root first
  exact ⟨b, root, h, first, ⟨encoded, loaded, printed, r, decided, answers _ r decided⟩,
    deeper (by rw [depth]; decide), cancelled specimen, unopened b (isCurrent_of_encode h),
    unprinted, undecided _⟩

end Path

end FlatPath
