import FlatPath.Proofs.Curtailment
import FlatPath.Proofs.Verification
import FlatPath.Proofs.MutabilityWalk

/-!
The readers of a buffer under a limit: the printer, the mutability walk and the check of a payload.
-/

namespace FlatPath

variable {d d₀ : Descent}

namespace Print

/-- What the printer and the mutability walk stop with. -/
def tooDeep (d : Descent) : ReadError :=
  .limit (.tooDeep d.limits.recursionLimit)

/-- The lower limit stops a reader, or both readers go one chain deeper. -/
theorem enter_under (h : d.Under d₀) :
    enter d = .error (tooDeep d) ∧ d.limits.recursionLimit.toNat < d.deeper.depth ∨
      enter d = .ok d.deeper ∧ enter d₀ = .ok d₀.deeper ∧ d.deeper.Under d₀.deeper := by
  obtain ⟨stopped, deep⟩ | ⟨entered, entered₀, under⟩ := h.enter
  · exact .inl ⟨by rw [enter, stopped]; rfl, deep⟩
  · exact .inr ⟨enter_eq_ok entered, enter_eq_ok entered₀, under⟩

section Enter

variable {α : Type} {f f₀ : Descent → Except ReadError α}

theorem curtailed_enter (h : d.Under d₀) {e : Expr}
    (inside : d.deeper.Under d₀.deeper →
      Curtailed (d.deeper.Holds e) (tooDeep d) (f d₀.deeper) (f d.deeper)) :
    Curtailed (d.deeper.Holds e) (tooDeep d) (enter d₀ >>= f) (enter d >>= f) := by
  obtain ⟨stopped, deep⟩ | ⟨entered, entered₀, under⟩ := enter_under h
  · rw [stopped]
    exact .stops _ (Descent.not_holds_of_lt deep)
  · rw [entered, entered₀]
    exact inside under

theorem cut_enter (h : d.Under d₀)
    (inside : d.deeper.Under d₀.deeper → Cut (tooDeep d) (f₀ d₀.deeper) (f d.deeper)) :
    Cut (tooDeep d) (enter d₀ >>= f₀) (enter d >>= f) := by
  obtain ⟨stopped, _⟩ | ⟨entered, entered₀, under⟩ := enter_under h
  · rw [stopped]
    exact .inr rfl
  · rw [entered, entered₀]
    exact inside under

end Enter

/-- Both printers come to the same text of this operand, or the one with the lower limit has no room
for it. -/
def PrintsUnder (d d₀ : Descent) (e : Expr) : Prop :=
  ∀ brackets missing, Curtailed (d.deeper.Holds e) (tooDeep d)
    (operand d₀ brackets missing (.found fun _ => e.node))
    (operand d brackets missing (.found fun _ => e.node))

theorem curtailed_optional {brackets : Kind → Bool} {missing : Printed} {o : Option Expr}
    (prints : ∀ e ∈ o, PrintsUnder d d₀ e) :
    Curtailed (∀ e ∈ o, d.deeper.Holds e) (tooDeep d)
      (operand d₀ brackets missing (Link.ofOption (o.map Expr.node)))
      (operand d brackets missing (Link.ofOption (o.map Expr.node))) := by
  cases o with
  | none => exact .same _ (by simp)
  | some e => exact (prints e rfl _ _).congr (by simp)

theorem curtailed_subscripts {ss : List (Expr × Option Expr)}
    (prints : ∀ s ∈ ss, PrintsUnder d d₀ s.1 ∧ ∀ e ∈ s.2, PrintsUnder d d₀ e) (i : Nat) :
    let links := ss.map fun s =>
      (Link.found fun _ => s.1.node, Link.ofOption (s.2.map Expr.node))
    Curtailed (∀ s ∈ ss, d.deeper.Holds s.1 ∧ ∀ e ∈ s.2, d.deeper.Holds e) (tooDeep d)
      (subscripts d₀ i links) (subscripts d i links) := by
  intro links
  induction ss generalizing i with
  | nil => exact .same _ (by simp)
  | cons s ss ih =>
      obtain ⟨start, stop⟩ := prints s List.mem_cons_self
      have rest := ih (fun s mem => prints s (by simp [mem])) (i + 1)
      refine .congr (.after _ fun _ _ => .after _ fun _ _ => (start _ _).bind fun _ =>
        (curtailed_optional stop).bind fun _ => rest.before _) ?_
      simp only [List.forall_mem_cons, and_assoc]

theorem curtailed_elements {es : List Expr} (prints : ∀ e ∈ es, PrintsUnder d d₀ e) (i : Nat) :
    let links := es.map fun e => Link.found fun _ => e.node
    Curtailed (∀ e ∈ es, d.deeper.Holds e) (tooDeep d) (elements d₀ i links)
      (elements d i links) := by
  intro links
  induction es generalizing i with
  | nil => exact .same _ (by simp)
  | cons e es ih =>
      have first := prints e List.mem_cons_self
      have rest := ih (fun e mem => prints e (by simp [mem])) (i + 1)
      refine .congr ((first _ _).bind fun _ => rest.before _) ?_
      simp only [List.forall_mem_cons]

theorem curtailed_fields {fs : List (Expr × Expr)}
    (prints : ∀ f ∈ fs, PrintsUnder d d₀ f.1 ∧ PrintsUnder d d₀ f.2) (i : Nat) :
    let links := fs.map fun f => (Link.found fun _ => f.1.node, Link.found fun _ => f.2.node)
    Curtailed (∀ f ∈ fs, d.deeper.Holds f.1 ∧ d.deeper.Holds f.2) (tooDeep d)
      (fields d₀ i links) (fields d i links) := by
  intro links
  induction fs generalizing i with
  | nil => exact .same _ (by simp)
  | cons f fs ih =>
      obtain ⟨key, value⟩ := prints f List.mem_cons_self
      have rest := ih (fun f mem => prints f (by simp [mem])) (i + 1)
      refine .congr (.after _ fun _ _ => .after _ fun _ _ => (key _ _).bind fun _ =>
        (value _ _).bind fun _ => rest.before _) ?_
      simp only [List.forall_mem_cons, and_assoc]

theorem curtailed_item {x : Item String Expr (Option Expr)}
    (prints : ∀ e ∈ x.operands, PrintsUnder d d₀ e) (inKey brackets hasNext : Bool) :
    let y := x.map String.toUTF8 (fun e => Link.found fun _ => e.node)
      fun o => Link.ofOption (o.map Expr.node)
    Curtailed (∀ e ∈ x.operands, d.deeper.Holds e) (tooDeep d)
      (item d₀ inKey brackets hasNext y)
      (item d inKey brackets hasNext y) := by
  intro y
  cases x with
  | null | root | current | last | anyArray | anyKey | any | method | bool | string | numeric | var
  | key => exact .same _ nofun
  | binary op l r =>
      refine .congr ((prints l (by simp) _ _).bind fun _ => (prints r (by simp) _ _).before _) ?_
      simp
  | unary op a =>
      have argument := prints a (by simp)
      cases op with
      | _ => exact .congr ((argument _ _).before _) (by simp)
  | likeRegex e p f => exact .congr ((prints e (by simp) _ _).before _) (by simp)
  | datetime o | array o =>
      refine .congr (.before (curtailed_optional fun e he => prints e (by simpa using he)) _) ?_
      simp
  | indexArray ss =>
      have inside := curtailed_subscripts (Item.forall_operands_indexArray prints) 0
      refine .congr (inside.before _) ⟨fun h e mem => ?_, Item.forall_operands_indexArray⟩
      simp only [Item.operands_indexArray, List.mem_flatMap, List.mem_cons,
        Option.mem_toList] at mem
      obtain ⟨s, mem, rfl | he⟩ := mem
      · exact (h s mem).1
      · exact (h s mem).2 e he
  | sequence es =>
      have inside := curtailed_elements (fun e he => prints e (by simpa using he)) 0
      exact .congr (inside.before _) (by simp)
  | object fs =>
      have inside := curtailed_fields (Item.forall_operands_object prints) 0
      refine .congr (inside.before _) ⟨fun h e mem => ?_, Item.forall_operands_object⟩
      simp only [Item.operands_object, List.mem_flatMap, List.mem_cons, List.not_mem_nil,
        or_false] at mem
      obtain ⟨f, mem, rfl | rfl⟩ := mem
      · exact (h f mem).1
      · exact (h f mem).2

/-- Both printers come to the same text of a chain, or the one with the lower limit has no room for
it. -/
theorem curtailed_items (h : d.Under d₀) (e : Expr) (inKey brackets : Bool) :
    Curtailed (d.Holds e) (tooDeep d) (items d₀ inKey brackets e.node)
      (items d inKey brackets e.node) := by
  induction e using Expr.operandInduction generalizing d d₀ inKey brackets with
  | mk x next operands rest =>
      have prints (e : Expr) (mem : e ∈ x.operands) : PrintsUnder d d₀ e := by
        intro brackets missing
        exact curtailed_enter h fun under => operands e mem under false _
      rw [Expr.node_mk]
      refine .congr ((curtailed_item prints inKey brackets _).bind fun _ => .before ?_ _)
        h.holds_mk.symm
      cases next with
      | none => exact .same _ (by simp)
      | some e => exact (rest e rfl h true true).congr (by simp)

end Print

namespace Mutability

variable {ctx ctx₀ : Context} {current status : DatetimeStatus}

/-- Both walks come to the same on this operand, or the one with the lower limit stops. -/
def WalksUnder (ctx ctx₀ : Context) (d d₀ : Descent) (e : Expr) : Prop :=
  ∀ current found missing, Cut (Print.tooDeep d)
    (operand ctx₀ d₀ current found missing (.found fun _ => e.node))
    (operand ctx d current found missing (.found fun _ => e.node))

theorem cut_optional {found : Bool} {missing : Walked} {o : Option Expr}
    (walks : ∀ e ∈ o, WalksUnder ctx ctx₀ d d₀ e) :
    Cut (Print.tooDeep d)
      (operand ctx₀ d₀ current found missing (Link.ofOption (o.map Expr.node)))
      (operand ctx d current found missing (Link.ofOption (o.map Expr.node))) := by
  cases o with
  | none => exact .refl _
  | some e => exact walks e rfl _ _ _

theorem cut_subscripts {ss : List (Expr × Option Expr)}
    (walks : ∀ s ∈ ss, WalksUnder ctx ctx₀ d d₀ s.1 ∧ ∀ e ∈ s.2, WalksUnder ctx ctx₀ d d₀ e)
    (found : Bool) (i : Nat) :
    let links := ss.map fun s =>
      (Link.found fun _ => s.1.node, Link.ofOption (s.2.map Expr.node))
    Cut (Print.tooDeep d) (subscripts ctx₀ d₀ current found i links)
      (subscripts ctx d current found i links) := by
  intro links
  induction ss generalizing found i with
  | nil => exact .refl _
  | cons s ss ih =>
      obtain ⟨start, stop⟩ := walks s List.mem_cons_self
      exact .bind (.refl _) fun _ => (cut_optional stop).bind fun _ => (start _ _ _).bind fun _ =>
        ih (fun s mem => walks s (by simp [mem])) _ _

theorem cut_elements {es : List Expr} (walks : ∀ e ∈ es, WalksUnder ctx ctx₀ d d₀ e)
    (found : Bool) :
    let links := es.map fun e => Link.found fun _ => e.node
    Cut (Print.tooDeep d) (elements ctx₀ d₀ current found links)
      (elements ctx d current found links) := by
  intro links
  induction es generalizing found with
  | nil => exact .refl _
  | cons e es ih =>
      exact (walks e List.mem_cons_self _ _ _).bind fun _ =>
        ih (fun e mem => walks e (by simp [mem])) _

theorem cut_fields {fs : List (Expr × Expr)}
    (walks : ∀ f ∈ fs, WalksUnder ctx ctx₀ d d₀ f.1 ∧ WalksUnder ctx ctx₀ d d₀ f.2) (found : Bool) :
    let links := fs.map fun f => (Link.found fun _ => f.1.node, Link.found fun _ => f.2.node)
    Cut (Print.tooDeep d) (fields ctx₀ d₀ current found links)
      (fields ctx d current found links) := by
  intro links
  induction fs generalizing found with
  | nil => exact .refl _
  | cons f fs ih =>
      obtain ⟨key, value⟩ := walks f List.mem_cons_self
      exact (key _ _ _).bind fun _ => (value _ _ _).bind fun _ =>
        ih (fun f mem => walks f (by simp [mem])) _

theorem cut_item {x : Item String Expr (Option Expr)} (alike : ctx.Alike x.vars ctx₀)
    (walks : ∀ e ∈ x.operands, WalksUnder ctx ctx₀ d d₀ e) :
    let y := x.map String.toUTF8 (fun e => Link.found fun _ => e.node)
      fun o => Link.ofOption (o.map Expr.node)
    Cut (Print.tooDeep d) (item ctx₀ d₀ current status y) (item ctx d current status y) := by
  intro y
  cases x with
  | null | root | current | last | anyKey | any | method | bool | string | numeric | key
  | datetime => exact .refl _
  | var name =>
      have same := alike.statuses name (List.mem_singleton_self name)
      simp only [y, Item.map, item, Print.legible_toUTF8, ok_bind, same]
      exact .refl _
  | anyArray =>
      simp only [y, Item.map, item, alike.arrayStep]
      exact .refl _
  | binary op l r =>
      exact (walks l (by simp) _ _ _).bind fun _ =>
        (walks r (by simp) _ _ _).bind fun _ => .refl _
  | unary op a =>
      have argument := walks a (by simp)
      cases op with
      | _ => exact (argument _ _ _).bind fun _ => .refl _
  | likeRegex e p f => exact (walks e (by simp) _ _ _).bind fun _ => .refl _
  | array o =>
      exact .bind (cut_optional fun e he => walks e (by simpa using he)) fun _ => .refl _
  | indexArray ss =>
      simp only [y, Item.map, item, alike.arrayStep]
      exact .bind (cut_subscripts (Item.forall_operands_indexArray walks) _ _) fun _ => .refl _
  | sequence es =>
      exact .bind (cut_elements (fun e he => walks e (by simpa using he)) _) fun _ => .refl _
  | object fs =>
      exact .bind (cut_fields (Item.forall_operands_object walks) _) fun _ => .refl _

/-- Both walks come to the same on a chain, or the one with the lower limit stops. -/
theorem cut_items (h : d.Under d₀) {e : Expr} (alike : ctx.Alike e.vars ctx₀) (found : Bool) :
    Cut (Print.tooDeep d) (items ctx₀ d₀ current status found e.node)
      (items ctx d current status found e.node) := by
  induction e using Expr.operandInduction generalizing d d₀ current status found with
  | mk x next operands rest =>
      have walks (e : Expr) (mem : e ∈ x.operands) : WalksUnder ctx ctx₀ d d₀ e := by
        intro current found missing
        exact Print.cut_enter h fun under =>
          operands e mem under (alike.mono fun _ => Expr.vars_of_operand mem) _
      rw [Expr.node_mk, items, items]
      split
      · exact .refl _
      · refine (cut_item (alike.mono fun _ => Expr.vars_of_item) walks).bind fun r => ?_
        cases next with
        | none => exact .refl _
        | some e => exact rest e rfl h (alike.mono fun _ => Expr.vars_of_next) _

end Mutability

namespace Verify

variable {α β σ : Type} {e : FormatError}

/-- What a step comes to on these marks, and the marks that it leaves if it succeeds. -/
def outcome (x : Verifier α) (m : Marks) : Except FormatError (α × Marks) :=
  match (x.run.run m).run with
  | (.ok a, m') => .ok (a, m')
  | (.error e, _) => .error e

theorem outcome_bind (x : Verifier α) (f : α → Verifier β) (m : Marks) :
    outcome (x >>= f) m = outcome x m >>= fun r => outcome (f r.1) r.2 := by
  simp only [outcome]
  rw [run_bind]
  rcases (x.run.run m).run with ⟨_ | a, m₁⟩ <;> rfl

theorem verify_eq (payload : ByteArray) (extensions : Bool) (limits : Limits) :
    verify payload extensions limits =
      outcome (do items payload extensions (← enter limits.descent) .top 0)
        { seen := .replicate payload.size false } >>= fun r => .ok r.1 := by
  rw [verify, run, outcome]
  rcases StateT.run _ _ with ⟨_ | _, _⟩ <;> rfl

/-- On any marks the part comes to what the whole comes to, or stops with `e`. -/
def CutStep (e : FormatError) (whole part : Verifier α) : Prop :=
  ∀ m, Cut e (outcome whole m) (outcome part m)

namespace CutStep

variable {x x' : Verifier α} {f f' : α → Verifier β}

theorem refl (x : Verifier α) : CutStep e x x :=
  fun _ => .refl _

theorem bind (first : CutStep e x x') (rest : ∀ a, CutStep e (f a) (f' a)) :
    CutStep e (x >>= f) (x' >>= f') := by
  intro m
  rw [outcome_bind, outcome_bind]
  exact (first m).bind fun r => rest r.1 r.2

theorem forM {f f' : σ → Verifier Unit} {ss : List σ} (each : ∀ s, CutStep e (f s) (f' s)) :
    CutStep e (ss.forM f) (ss.forM f') := by
  induction ss with
  | nil => exact refl _
  | cons s ss ih => exact (each s).bind fun _ => ih

end CutStep

/-- What the check stops with. -/
def tooDeep (d : Descent) : FormatError :=
  .limit (.tooDeep d.limits.recursionLimit)

theorem cut_enter (h : d.Under d₀) {f : Descent → Verifier α}
    (inside : d.deeper.Under d₀.deeper → CutStep (tooDeep d) (f d₀.deeper) (f d.deeper)) :
    CutStep (tooDeep d) (enter d₀ >>= f) (enter d >>= f) := by
  obtain ⟨stopped, _⟩ | ⟨entered, entered₀, under⟩ := h.enter
  · have stopped : enter d = throw (tooDeep d) := by rw [enter, stopped]; rfl
    rw [stopped]
    exact fun _ => .inr rfl
  · have entered : enter d = pure d.deeper := by rw [enter, entered]
    have entered₀ : enter d₀ = pure d₀.deeper := by rw [enter, entered₀]
    rw [entered, entered₀, pure_bind, pure_bind]
    exact inside under

/-- Both walks come to the same on a chain, or the one with the lower limit stops. -/
theorem cut_items (h : d.Under d₀) (payload : ByteArray) (extensions : Bool) (scope : Scope)
    (i : Nat) :
    CutStep (tooDeep d) (items payload extensions d₀ scope i)
      (items payload extensions d scope i) := by
  -- Links lead forward, so what is left of the payload gets shorter at each of them.
  induction size : payload.size - i using Nat.strongRecOn generalizing d d₀ scope i with
  | _ n ih =>
      rw [items, items]
      by_cases inside : i < payload.size
      · rw [dif_pos inside, dif_pos inside]
        have further {d d₀ : Descent} (h : d.Under d₀) (scope : Scope) {offset : UInt32}
            (present : offset ≠ 0) : CutStep (tooDeep d)
              (items payload extensions d₀ scope (i + offset.toNat))
              (items payload extensions d scope (i + offset.toNat)) := by
          have := Bytes.toNat_pos present
          exact ih _ (by omega) h scope _ rfl
        refine .bind (.refl _) fun item => .bind (.refl _) fun _ => .bind ?_ fun _ => ?_
        · refine .forM fun slot => ?_
          by_cases present : slot.content = 0
          · rw [dif_pos present, dif_pos present]
            exact .refl _
          · rw [dif_neg present, dif_neg present]
            exact .bind (.refl _) fun _ => cut_enter h fun under => further under _ present
        · by_cases present : item.nextOffset = 0
          · rw [dif_pos present, dif_pos present]
            exact .refl _
          · rw [dif_neg present, dif_neg present]
            exact .bind (.refl _) fun _ => further h _ present
      · rw [dif_neg inside, dif_neg inside]
        exact .refl _

end Verify

variable {limits : Limits}

/-- Under a limit the printer comes to the text that it comes to without, or the expression nests
deeper. -/
theorem Expr.curtailed_print (running : limits.isCancelled = false) (e : Expr) :
    Curtailed (e.depth ≤ limits.recursionLimit.toNat) (.limit (.tooDeep limits.recursionLimit))
      (e.node.print .unbounded) (e.node.print limits) :=
  (Print.curtailed_enter (Limits.under_unbounded running) fun under =>
    Print.curtailed_items under e _ _).congr (Limits.holds_descent running)

/-- Under the lower of two limits the mutability walk comes to the answer that it comes to under the
higher one, or stops; the bindings may differ where they say the same of the variables. -/
theorem Expr.cut_isMutable_of_alike {limits' : Limits}
    (under : limits.descent.Under limits'.descent) {e : Expr} {ctx ctx' : Mutability.Context}
    (alike : ctx.Alike e.vars ctx') :
    Cut (.limit (.tooDeep limits.recursionLimit)) (e.node.isMutable ctx' limits')
      (e.node.isMutable ctx limits) := by
  rw [Node.isMutable, Node.isMutable]
  exact Print.cut_enter under fun under =>
    (Mutability.cut_items under alike false).bind fun _ => .refl _

/-- Under a limit the mutability walk comes to the answer that it comes to without, or stops. -/
theorem Expr.cut_isMutable (running : limits.isCancelled = false) (e : Expr)
    (ctx : Mutability.Context) :
    Cut (.limit (.tooDeep limits.recursionLimit)) (e.node.isMutable ctx .unbounded)
      (e.node.isMutable ctx limits) :=
  cut_isMutable_of_alike (Limits.under_unbounded running) (.refl _ ctx)

theorem Print.enter_of_cancelled (raised : limits.isCancelled = true) :
    enter limits.descent = .error (.limit .cancelled) := by
  rw [enter, Limits.enter_of_cancelled raised]

theorem Node.refused_of_cancelled (n : Node) (ctx : Mutability.Context)
    (raised : limits.isCancelled = true) :
    n.isMutable ctx limits = .error (.limit .cancelled) := by
  rw [isMutable, Print.enter_of_cancelled raised, error_bind]

/-- Under the lower of two limits the check comes to what it comes to under the higher one, or
stops. -/
theorem cut_verify {limits' : Limits} (under : limits.descent.Under limits'.descent)
    (payload : ByteArray) (extensions : Bool) :
    Cut (.limit (.tooDeep limits.recursionLimit)) (verify payload extensions limits')
      (verify payload extensions limits) := by
  have walked := Verify.cut_enter under (f := fun d => Verify.items payload extensions d .top 0)
    (fun under => Verify.cut_items under payload extensions .top 0)
    { seen := .replicate payload.size false }
  rw [Verify.verify_eq, Verify.verify_eq]
  exact walked.bind fun _ => .refl _

end FlatPath
