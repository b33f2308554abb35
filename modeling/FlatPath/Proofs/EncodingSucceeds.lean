import FlatPath.Proofs.Curtailment
import FlatPath.Proofs.Encoding
import FlatPath.Proofs.Violations

/-!
When the encoder succeeds, and what it stops with where it does not. Step by step it comes to the
violations of a path in their order, and stops with the first; a path without any is written as long
as the whole stays within the size of a buffer.
-/

namespace FlatPath

open Bytes Layout

namespace Encoder

theorem enter_eq_ok {d d' : Descent} (h : d.enter = .ok d') (w : Writer) :
    (enter d).run w = .ok (d', w) := by
  rw [enter, h]
  rfl

theorem length_offsetSlots (base n : Nat) : (offsetSlots base n).length = n := by
  induction n generalizing base with
  | zero => rfl
  | succ n ih => simp [offsetSlots, ih]

/-- Behind its tag and its next offset an item is written up to where its first operand goes. -/
theorem content_position {ρ : Type} {x : Item String ρ (Option ρ)} {w w₁ : Writer}
    {slots : List OffsetSlot}
    (h : (content x).run ⟨tagged x.kind w ++ ofWord 0⟩ = .ok (slots, w₁)) :
    slots.length = x.operandSlots.length ∧ w₁.position = stop x w.position := by
  obtain ⟨rfl, payload, _⟩ := content_ok h
  refine ⟨length_offsetSlots .., ?_⟩
  rw [stop, Writer.position, payload]
  simp only [ByteArray.size_append, size_tagged, size_ofWord, size_words, List.length_replicate]
  omega

variable {α β : Type} {limit : UInt32} {bound : Nat} {vs us : List Violation}

/-- A step stops with the first of these violations, and without any it succeeds. Before that it may
stop for a size that no buffer may have, up to `bound`. -/
def Reports (limit : UInt32) (bound : Nat) (x : Encoder α) (w : Writer) (vs : List Violation) :
    Prop :=
  match x.run w with
  | .ok _ => vs = []
  | .error e => (∃ v, vs.head? = some v ∧ e = v.error limit) ∨
      ∃ size, e = .tooLarge size ∧ maxSize < size ∧ size ≤ bound

namespace Reports

theorem of_ok {x : Encoder α} {w : Writer} {r : α × Writer} (h : x.run w = .ok r) :
    Reports limit bound x w [] := by
  rw [Reports, h]

theorem outcome {x : Encoder α} {w : Writer} (h : Reports limit bound x w vs) :
    (∃ r, x.run w = .ok r ∧ vs = []) ∨
      ∃ e, x.run w = .error e ∧ ((∃ v, vs.head? = some v ∧ e = v.error limit) ∨
        ∃ size, e = .tooLarge size ∧ maxSize < size ∧ size ≤ bound) := by
  rw [Reports] at h
  cases run : x.run w with
  | ok r =>
      rw [run] at h
      exact .inl ⟨r, rfl, h⟩
  | error e =>
      rw [run] at h
      exact .inr ⟨e, rfl, h⟩

theorem of_error {x : Encoder α} {w : Writer} (v : Violation)
    (h : x.run w = .error (v.error limit)) : Reports limit bound x w [v] := by
  rw [Reports, h]
  exact .inl ⟨v, rfl, rfl⟩

theorem bind {x : Encoder α} {f : α → Encoder β} {w : Writer}
    (first : Reports limit bound x w vs)
    (rest : ∀ a w', x.run w = .ok (a, w') → Reports limit bound (f a) w' us) :
    Reports limit bound (x >>= f) w (vs ++ us) := by
  rw [Reports] at first ⊢
  rw [StateT.run_bind]
  cases h : x.run w with
  | ok r =>
      rw [h] at first
      subst first
      exact rest r.1 r.2 h
  | error e =>
      rw [h] at first
      refine first.imp ?_ id
      rintro ⟨v, head, rfl⟩
      exact ⟨v, by rw [List.head?_append, head]; rfl, rfl⟩

/-- A step without violations leaves the report to what follows. -/
theorem silent {x : Encoder α} {f : α → Encoder β} {w : Writer} (first : Reports limit bound x w [])
    (rest : ∀ a w', x.run w = .ok (a, w') → Reports limit bound (f a) w' vs) :
    Reports limit bound (x >>= f) w vs :=
  bind first rest

theorem after {x : Encoder α} {f : α → Encoder β} {w w' : Writer} {a : α}
    (h : x.run w = .ok (a, w')) (rest : Reports limit bound (f a) w' vs) :
    Reports limit bound (x >>= f) w vs := by
  refine silent (of_ok h) fun a' w'' h' => ?_
  cases h.symm.trans h'
  exact rest

end Reports

theorem reports_ensureRoom {extra : Nat} {w : Writer} (room : w.size + extra ≤ bound) :
    Reports limit bound (ensureRoom extra) w [] := by
  by_cases fits : w.size + extra ≤ maxSize
  · exact .of_ok (ensureRoom_eq_ok.2 ⟨fits, rfl⟩)
  · have refused : (ensureRoom extra).run w = .error (.tooLarge (w.size + extra)) := by
      simp only [ensureRoom, StateT.run_bind, StateT.run_get, except_pure, ok_bind]
      rw [if_pos (by omega)]
      rfl
    rw [Reports, refused]
    exact .inr ⟨_, rfl, by omega, room⟩

theorem reports_text {s : String} {w : Writer} (room : w.size + s.utf8ByteSize ≤ bound) :
    Reports limit bound (text s) w [] :=
  .silent (reports_ensureRoom room) fun _ _ _ => .of_ok (run_modify_eq_ok.2 rfl)

theorem reports_entries {count perEntry : Nat} {w : Writer}
    (room : w.size + count * (perEntry * 4) ≤ bound) :
    Reports limit bound (entries count perEntry) w [] := by
  refine .silent (reports_ensureRoom room) fun _ w' _ => ?_
  exact .after (a := ()) (run_modify_eq_ok.2 rfl) (.of_ok (run_reserveMany _ _))

/-- The literal of an item is checked before it is written. -/
theorem reports_content {ρ : Type} {x : Item String ρ (Option ρ)} {w : Writer}
    (room : w.size + ((lead x).size + 4 * x.operandSlots.length + (trail x).size) ≤ bound) :
    Reports limit bound (content x) w x.violations := by
  cases x with
  | null | root | current | last | anyArray | anyKey | method | bool | any => exact .of_ok rfl
  | binary | unary | datetime | array => exact .of_ok (run_reserveMany _ w)
  | string s | key s | var s =>
      have fits : w.size + s.utf8ByteSize ≤ bound := by
        simp [trail, Layout.text] at room
        omega
      exact .silent (reports_text fits) fun _ _ _ => .of_ok rfl
  | numeric s =>
      have fits : w.size + s.utf8ByteSize ≤ bound := by
        simp [trail] at room
        omega
      rw [content, Item.violations]
      by_cases empty : s = ""
      · rw [if_pos empty, if_pos (by simpa using empty)]
        exact .of_error .emptyNumeric rfl
      · rw [if_neg empty, if_neg (by simpa using empty)]
        exact .silent (reports_ensureRoom fits) fun _ _ _ => .of_ok rfl
  | likeRegex e p f =>
      have fits : w.size + p.utf8ByteSize ≤ bound := by
        simp [trail, Layout.text] at room
        omega
      simp only [content, Item.violations]
      cases Pattern.check p f with
      | some flaw => exact .of_error (.invalidPattern p flaw) rfl
      | none => exact .silent (reports_ensureRoom fits) fun _ _ _ => .of_ok rfl
  | indexArray es | sequence es | object es =>
      refine reports_entries ?_
      simp [lead] at room
      omega

/-- A walk through operands of items of these kinds. -/
structure Inside (owners : List Kind) (scope : Scope) (d : Descent) : Prop extends
    scope.Within owners where
  depth : d.depth = owners.length + 1
  within : d.depth ≤ d.limits.recursionLimit.toNat
  running : d.limits.isCancelled = false

variable {owners : List Kind} {scope : Scope} {d : Descent}

theorem reports_enter {f : Descent → Encoder α} {w : Writer}
    (depth : d.depth = owners.length) (running : d.limits.isCancelled = false)
    (inside : d.deeper.depth ≤ d.limits.recursionLimit.toNat →
      Reports d.limits.recursionLimit bound (f d.deeper) w vs) :
    Reports d.limits.recursionLimit bound (enter d >>= f) w
      (nestingViolations d.limits.recursionLimit owners ++ vs) := by
  by_cases near : owners.length < d.limits.recursionLimit.toNat
  · have entered : d.enter = .ok d.deeper := by
      simp [Descent.enter, Descent.deeper, running, depth, near]
    rw [nestingViolations, if_pos near, List.nil_append]
    refine .after (enter_eq_ok entered w) (inside ?_)
    simp only [Descent.deeper]
    omega
  · have refused : (enter d).run w = .error (.limit (.tooDeep d.limits.recursionLimit)) := by
      have deep : d.limits.recursionLimit.toNat ≤ d.depth := by omega
      simp only [enter, Descent.enter, running, deep, if_true, Bool.false_eq_true, if_false]
      rfl
    rw [nestingViolations, if_neg near]
    refine .bind (.of_error .tooDeep refused) fun a w' entered => ?_
    cases refused.symm.trans entered

theorem reports_checkContext (h : scope.Within owners) (extensions : Bool) (kind : Kind)
    (w : Writer) :
    Reports limit bound (checkContext extensions kind scope) w
      (kind.violations extensions owners) := by
  by_cases none : kind.violations extensions owners = []
  · rw [none]
    exact .of_ok (checkContext_eq_ok.2 ⟨(Kind.violations_eq_nil h).1 none, rfl⟩)
  · cases kind with
    | current =>
        have outside : .unary .filter ∉ owners := by simpa [Kind.violations] using none
        have filters : scope.filters = 0 := by simpa [outside] using h.filters
        rw [Kind.violations, if_neg outside]
        refine .of_error .currentOutsideFilter ?_
        simp [checkContext, filters, Violation.error]
    | last =>
        have outside : .indexArray ∉ owners := by simpa [Kind.violations] using none
        have subscript : scope.subscript = false := by simpa [outside] using h.subscript
        rw [Kind.violations, if_neg outside]
        refine .of_error .lastOutsideSubscript ?_
        simp [checkContext, subscript, Violation.error]
    | sequence | array | object =>
        have disabled : extensions = false := by simpa [Kind.violations] using none
        rw [Kind.violations, if_neg (by simp [disabled])]
        refine .of_error (.constructorDisabled _) ?_
        simp [checkContext, disabled, Violation.error, Kind.isExtension]
    | _ => exact absurd rfl none

/-- A chain that was written began where a buffer may still grow. -/
theorem room_of_encode {extensions : Bool} {e : Expr} {w w' : Writer} {start : Nat}
    (h : (e.encode extensions scope d).run w = .ok (start, w')) : w.size ≤ maxSize := by
  obtain ⟨x, next⟩ := e
  rw [Expr.encode_mk] at h
  exact (item_eq_ok.1 h).2.1

/-- The encoder reports the violations of the chain. -/
def ReportsChain (extensions : Bool) (e : Expr) : Prop :=
  ∀ {owners scope d w bound}, Inside owners scope d →
    w.size + (e.layout w.position).size ≤ bound →
      Reports d.limits.recursionLimit bound (e.encode extensions scope d) w
        (e.violations extensions d.limits.recursionLimit owners)

/-- Patching an operand leaves the payload as long as the operand made it. -/
theorem position_of_operand {extensions : Bool} {e : Expr} {w w₁ w₂ : Writer} {child owner : Nat}
    {slot : OffsetSlot} (within : d.depth ≤ d.limits.recursionLimit.toNat)
    (encoded : (e.encode extensions scope d).run w = .ok (child, w₁))
    (patched : (patch slot child owner).run w₁ = .ok ((), w₂)) :
    w₂.position = w.position + (e.layout w.position).size := by
  obtain ⟨_, payload, _⟩ := appends extensions e _ _ _ _ _ within encoded
  rw [Writer.position, (patch_eq_ok.1 patched).2.2, size_setWord, payload, ByteArray.size_append,
    Writer.position]

/-- An operand that was written is patched into its slot. -/
theorem patch_operand {extensions : Bool} {e : Expr} {w w₁ : Writer} {owner child : Nat}
    (within : d.depth ≤ d.limits.recursionLimit.toNat)
    (encoded : (e.encode extensions scope d).run w = .ok (child, w₁)) (slot : OffsetSlot)
    (behind : owner < w.position) : ∃ w₂, (patch slot child owner).run w₁ = .ok ((), w₂) := by
  have room := room_of_encode encoded
  obtain ⟨rfl, _⟩ := appends extensions e _ _ _ _ _ within encoded
  rw [Writer.size, ← Writer.position] at room
  exact ⟨⟨_⟩, patch_eq_ok.2 ⟨behind, by omega, rfl⟩⟩

theorem operands_cons (owner : Kind) (start : Nat) (scope : Scope) (d : Descent) (role : Role)
    (required : Bool) (chain : Chain) (slot : OffsetSlot)
    (rest : List (Slot (Option Chain) × OffsetSlot)) :
    operands owner start scope d ((⟨role, required, some chain⟩, slot) :: rest) =
      (enter d >>= chain (scope.operand owner role)) >>= fun child =>
        patch slot child start >>= fun _ => operands owner start scope d rest := by
  rw [operands, bind_assoc]

theorem reports_operands {extensions : Bool} {x : Item String Expr (Option Expr)}
    (inside : Inside owners scope d) {p : Nat} {os : List (Slot (Option Expr))}
    (mem : ∀ s ∈ os, s ∈ x.operandSlots)
    (reports : ∀ e, some e ∈ os.map Slot.content → ReportsChain extensions e)
    {slots : List OffsetSlot} (count : slots.length = os.length) {w : Writer}
    (behind : p < w.position)
    (room : w.size + (operandBytes w.position
      ((os.map Slot.content).map (Option.map Expr.layout))).size ≤ bound) :
    Reports d.limits.recursionLimit bound
      (operands x.kind p scope d ((os.map (Slot.map (Option.map (Expr.encode extensions)))).zip
        slots)) w
      ((os.filterMap Slot.content).flatMap fun e =>
        nestingViolations d.limits.recursionLimit (x.kind :: owners) ++
          e.violations extensions d.limits.recursionLimit (x.kind :: owners)) := by
  induction os generalizing slots w with
  | nil => exact .of_ok rfl
  | cons o os ih =>
      obtain _ | ⟨slot, slots⟩ := slots
      · cases count
      have rest {w : Writer} := @ih (fun s hs => mem s (by simp [hs]))
        (fun e he => reports e (by simp [he])) slots (by simpa using count) w
      have below := inside.toWithin.operand (mem o List.mem_cons_self)
      obtain ⟨role, required, _ | e⟩ := o
      · exact rest behind room
      · simp only [List.map_cons, Option.map_some, operandBytes, ByteArray.size_append] at room
        simp only [List.map_cons, Slot.map, Option.map_some, List.zip_cons_cons, operands_cons]
        have written : Reports d.limits.recursionLimit bound
            (enter d >>= e.encode extensions (scope.operand x.kind role)) w
            (nestingViolations d.limits.recursionLimit (x.kind :: owners) ++
              e.violations extensions d.limits.recursionLimit (x.kind :: owners)) :=
          reports_enter (by simp [inside.depth]) inside.running fun within =>
            reports e (by simp) ⟨below, by simp [Descent.deeper, inside.depth], within,
              inside.running⟩ (by omega)
        refine .bind written fun child w₁ chain => ?_
        obtain ⟨d', w₀, entered, encoded⟩ := run_bind_eq_ok.1 chain
        obtain ⟨rfl, within, rfl⟩ := enter_ok entered
        obtain ⟨w₂, patched⟩ := patch_operand within encoded slot behind
        have position := position_of_operand within encoded patched
        refine .after patched (rest (by omega) ?_)
        rw [position]
        rw [Writer.size, ← Writer.position] at room ⊢
        omega

theorem position_of_operands {extensions : Bool} {owner : Kind} {p : Nat}
    {os : List (Slot (Option Expr))} {slots : List OffsetSlot} (count : slots.length = os.length)
    {w w' : Writer}
    (h : (operands owner p scope d ((os.map (Slot.map (Option.map (Expr.encode extensions)))).zip
      slots)).run w = .ok ((), w')) :
    w'.position = w.position + (operandBytes w.position
      ((os.map Slot.content).map (Option.map Expr.layout))).size := by
  induction os generalizing slots w with
  | nil =>
      cases h
      rfl
  | cons o os ih =>
      obtain _ | ⟨slot, slots⟩ := slots
      · cases count
      have rest {w : Writer} := @ih slots (by simpa using count) w
      obtain ⟨role, required, _ | e⟩ := o
      · exact rest h
      · simp only [List.map_cons, Slot.map, Option.map_some, List.zip_cons_cons, operands] at h
        obtain ⟨d', w₀, entered, chain⟩ := run_bind_eq_ok.1 h
        obtain ⟨rfl, within, rfl⟩ := enter_ok entered
        obtain ⟨child, w₁, encoded, patches⟩ := run_bind_eq_ok.1 chain
        obtain ⟨_, w₂, patched, others⟩ := run_bind_eq_ok.1 patches
        rw [rest others, position_of_operand within encoded patched]
        simp only [List.map_cons, Option.map_some, operandBytes, ByteArray.size_append,
          Nat.add_assoc]

/-- An item is checked and written up to its operands; they and the rest of the chain follow. -/
theorem reports_head {extensions : Bool} {x : Item String Chain (Option Chain)}
    {next : Option Chain} (placed : scope.Within owners) {w : Writer}
    (room : Header.size + stop x w.position ≤ bound)
    (body : ∀ slots w₁, slots.length = x.operandSlots.length →
      w₁.position = stop x w.position →
        Reports limit bound (do
          operands x.kind w.position scope d (x.operandSlots.zip slots)
          if let some rest := next then
            patch ⟨(tagged x.kind w).size⟩ (← rest scope d) w.position
          return w.position) w₁ vs) :
    Reports limit bound (item extensions x next scope d) w
      (x.kind.violations extensions owners ++ (x.violations ++ vs)) := by
  have behind := lt_stop x w.position
  rw [item]
  refine .bind (reports_checkContext placed extensions x.kind w) fun _ w' checked => ?_
  obtain ⟨_, checked⟩ := checkContext_eq_ok.1 checked
  cases checked
  have start : w.size + 0 ≤ bound := by
    rw [Writer.size, ← Writer.position]
    omega
  refine .silent (reports_ensureRoom start) fun _ w' unchanged => ?_
  obtain ⟨_, unchanged⟩ := ensureRoom_eq_ok.1 unchanged
  cases unchanged
  refine .after rfl (.after rfl (.after (run_reserve_tagged ..) ?_))
  have contents : Reports limit bound (content x) ⟨tagged x.kind w ++ ofWord 0⟩ x.violations := by
    refine reports_content ?_
    rw [stop] at room
    simp only [Writer.size, ByteArray.size_append, size_tagged, size_ofWord]
    omega
  refine .bind contents fun slots w₁ written => ?_
  obtain ⟨count, position⟩ := content_position written
  exact body slots w₁ count position

/-- The rest of a chain is written and patched into its slot. -/
theorem reports_rest {extensions : Bool} {next : Option Expr} (inside : Inside owners scope d)
    (reports : ∀ e ∈ next, ReportsChain extensions e) {start : Nat} {slot : OffsetSlot} {w : Writer}
    (behind : start < w.position)
    (room : w.size + next.elim 0 (fun e => (e.layout w.position).size) ≤ bound) :
    Reports d.limits.recursionLimit bound (do
      if let some rest := next.map (Expr.encode extensions) then
        patch slot (← rest scope d) start
      return start) w
      (next.elim [] (·.violations extensions d.limits.recursionLimit owners)) := by
  cases next with
  | none => exact .of_ok rfl
  | some e =>
      simp only [Option.map_some, Option.elim_some] at room ⊢
      rw [← List.append_nil (Expr.violations ..)]
      refine .bind (reports e rfl inside room) fun child w₁ encoded => ?_
      obtain ⟨w', patched⟩ := patch_operand inside.within encoded slot behind
      exact .after patched (.of_ok rfl)

/-- The encoder reports the first violation of a chain, wherever it stands. -/
theorem reportsChain (extensions : Bool) (e : Expr) : ReportsChain extensions e := by
  induction e using Expr.operandInduction with
  | mk x next operands rest =>
      intro owners scope d w bound inside room
      let body := operandBytes (stop x w.position) (Expr.operandLayouts x)
      have room : Header.size + (stop x w.position + body.size +
          next.elim 0 fun e => (e.layout (stop x w.position + body.size)).size) ≤ bound := by
        rw [Writer.size, ← Writer.position, Nat.add_assoc] at room
        cases next with
        | none => rwa [Expr.size_layout_last] at room
        | some e => rwa [Expr.size_layout_next] at room
      have behind := lt_stop x w.position
      let y := x.map id (Expr.encode extensions) (Option.map (Expr.encode extensions))
      have kind : y.kind = x.kind := Item.kind_map ..
      have literal : y.violations = x.violations := Item.violations_map ..
      have slotsOf : y.operandSlots = x.operandSlots.map (Slot.map (Option.map
        (Expr.encode extensions))) := Item.operandSlots_map ..
      have stops : stop y w.position = stop x w.position := stop_map ..
      rw [Expr.encode_mk, Expr.violations_mk, ← literal, ← kind]
      refine reports_head (x := y) inside.toWithin (by omega) fun slots w₁ count position => ?_
      rw [slotsOf, List.length_map] at count
      rw [stops] at position
      rw [slotsOf, kind]
      have fits : w₁.size + (operandBytes w₁.position (Expr.operandLayouts x)).size ≤ bound := by
        rw [Writer.size, ← Writer.position, position]
        change _ + body.size ≤ bound
        omega
      have operated := reports_operands inside (fun _ mem => mem)
        (fun e he => operands e (Item.mem_operands.2 he)) count (p := w.position) (by omega) fits
      refine .bind operated fun _ w₂ walked => ?_
      have walked : w₂.position = stop x w.position + body.size := by
        rw [position_of_operands count walked, position]
        rfl
      refine reports_rest inside rest (by omega) ?_
      rw [Writer.size, ← Writer.position, walked]
      omega

end Encoder

namespace Path

variable {path : Path} {limits : Limits}

theorem reports_encode (path : Path) (running : limits.isCancelled = false) :
    Encoder.Reports limits.recursionLimit (Header.size + (path.expr.layout 0).size)
      (do path.expr.encode path.extensions .top (← Encoder.enter limits.descent)) {}
      (path.violations limits) := by
  refine Encoder.reports_enter (d := limits.descent) rfl running fun within => ?_
  exact Encoder.reportsChain path.extensions path.expr
    ⟨Scope.within_top, rfl, within, running⟩ (Nat.le_refl _)

/-- Encoding stops with the first violation of the path, or where a buffer may not grow further. -/
theorem encode_reports (path : Path) {limits : Limits} (running : limits.isCancelled = false) :
    (∀ b, path.encode limits = .ok b → path.violations limits = []) ∧
      ∀ e, path.encode limits = .error e →
        (∃ v, (path.violations limits).head? = some v ∧ e = v.error limits.recursionLimit) ∨
          ∃ size, e = .tooLarge size ∧ maxSize < size ∧
            size ≤ Header.size + (path.expr.layout 0).size := by
  rw [encode]
  obtain ⟨_, ok, none⟩ | ⟨e, error, reported⟩ := (reports_encode path running).outcome
  · simp only [ok, ok_bind]
    refine ⟨fun _ _ => none, fun e refused => ?_⟩
    cases refused
  · simp only [error, error_bind]
    refine ⟨fun b written => ?_, fun e' refused => ?_⟩
    · cases written
    · cases refused
      exact reported

/-- An expression that keeps the rules and nests within the limit is encoded, as long as its layout
fits into a buffer. -/
theorem encode_succeeds (path : Path) {limits : Limits} (running : limits.isCancelled = false)
    (rules : path.expr.Everywhere (Item.Encodable path.extensions) .top)
    (depth : path.expr.depth ≤ limits.recursionLimit.toNat)
    (fits : Header.size + (path.expr.layout 0).size ≤ maxSize) :
    ∃ b, path.encode limits = .ok b := by
  have none : path.violations limits = [] := violations_eq_nil.2 ⟨rules, depth⟩
  cases outcome : path.encode limits with
  | ok b => exact ⟨b, rfl⟩
  | error e =>
      obtain ⟨v, first, _⟩ | ⟨size, _, large, near⟩ := (encode_reports path running).2 e outcome
      · simp [none] at first
      · omega

/-- Where the layout of a path fits into a buffer, encoding fails exactly where the path has a
violation, and reports the first. -/
theorem encode_reports_first (path : Path) {limits : Limits}
    (running : limits.isCancelled = false)
    (fits : Header.size + (path.expr.layout 0).size ≤ maxSize) :
    ((∃ b, path.encode limits = .ok b) ↔ path.violations limits = []) ∧
      ∀ e, path.encode limits = .error e ↔
        ∃ v, (path.violations limits).head? = some v ∧ e = v.error limits.recursionLimit := by
  obtain ⟨clean, reported⟩ := encode_reports path running
  cases outcome : path.encode limits with
  | ok b =>
      rw [clean b outcome]
      exact ⟨⟨fun _ => rfl, fun _ => ⟨b, rfl⟩⟩, by simp⟩
  | error e =>
      obtain ⟨v, first, rfl⟩ | ⟨size, _, large, near⟩ := reported e outcome
      · obtain ⟨rest, listed⟩ : ∃ rest, path.violations limits = v :: rest := by
          simpa [List.head?_eq_some_iff] using first
        simp [listed, eq_comm]
      · omega

/-- In `$ ? (@.last like_regex "(").@` the pattern comes before its operand, and that before what
follows the filter, where `@` is not allowed any more. -/
theorem encode_reports_first_filter :
    let operand : Expr := .mk .current (some (.single .last))
    let filter : Item String Expr (Option Expr) :=
      .unary .filter (.single (.likeRegex operand "(" {}))
    let path : Path := ⟨.mk .root (some (.mk filter (some (.single .current)))), true, false⟩
    path.violations {} =
        [.invalidPattern "(" .unclosedGroup, .lastOutsideSubscript, .currentOutsideFilter] ∧
      path.encode {} = .error (.invalidPattern "(" .unclosedGroup) := by
  intro operand filter path
  have violations : path.violations {} =
      [.invalidPattern "(" .unclosedGroup, .lastOutsideSubscript, .currentOutsideFilter] := by
    decide +kernel
  have fits : Header.size + (path.expr.layout 0).size ≤ maxSize := by decide +kernel
  have running : ({} : Limits).isCancelled = false := rfl
  have reports := (encode_reports_first path running fits).2
  exact ⟨violations, (reports _).2 ⟨_, by rw [violations]; rfl, rfl⟩⟩

end Path

end FlatPath
