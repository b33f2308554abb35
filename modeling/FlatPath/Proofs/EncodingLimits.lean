import FlatPath.Proofs.Curtailment
import FlatPath.Proofs.EncodingSucceeds

/-!
The encoder under a limit. It writes what it writes without one, or stops where the expression nests
deeper.
-/

namespace FlatPath

namespace Encoder

variable {α β : Type} {d d₀ : Descent} {p q : Prop} {e : EncodeError}

/-- Onto any payload the part writes what the whole writes where there is room for it, and stops
with `e` where there is none. -/
def CurtailedStep (room : Prop) (e : EncodeError) (whole part : Encoder α) : Prop :=
  ∀ w, Curtailed room e (whole.run w) (part.run w)

namespace CurtailedStep

variable {x x' : Encoder α} {f f' : α → Encoder β}

theorem congr (h : CurtailedStep p e x x') (iff : p ↔ q) : CurtailedStep q e x x' :=
  fun w => (h w).congr iff

theorem bind (first : CurtailedStep p e x x') (rest : ∀ a, CurtailedStep q e (f a) (f' a)) :
    CurtailedStep (p ∧ q) e (x >>= f) (x' >>= f') := by
  intro w
  rw [StateT.run_bind, StateT.run_bind]
  exact (first w).bind fun r => rest r.1 r.2

theorem same (x : Encoder α) (room : p) : CurtailedStep p e x x :=
  fun _ => .same _ room

/-- A step that both take in the same way needs no room. -/
theorem after (x : Encoder α)
    (rest : ∀ a, (∃ w w', x.run w = .ok (a, w')) → CurtailedStep p e (f a) (f' a)) :
    CurtailedStep p e (x >>= f) (x >>= f') := by
  intro w
  rw [StateT.run_bind, StateT.run_bind]
  refine .after _ fun r ok => ?_
  exact rest r.1 ⟨w, r.2, ok⟩ r.2

theorem before (first : CurtailedStep p e x x') (f : α → Encoder β) :
    CurtailedStep p e (x >>= f) (x' >>= f) :=
  (first.bind fun a => same (f a) trivial).congr (iff_of_eq (and_true p))

end CurtailedStep

/-- What the encoder stops with. -/
def tooDeep (d : Descent) : EncodeError :=
  .limit (.tooDeep d.limits.recursionLimit)

theorem curtailed_enter (h : d.Under d₀) {e : Expr} {f : Descent → Encoder α}
    (inside : d.deeper.Under d₀.deeper →
      CurtailedStep (d.deeper.Holds e) (tooDeep d) (f d₀.deeper) (f d.deeper)) :
    CurtailedStep (d.deeper.Holds e) (tooDeep d) (enter d₀ >>= f) (enter d >>= f) := by
  obtain ⟨stopped, deep⟩ | ⟨entered, entered₀, under⟩ := h.enter
  · have stopped : enter d = throw (tooDeep d) := by rw [enter, stopped]; rfl
    rw [stopped]
    exact fun _ => .stops _ (Descent.not_holds_of_lt deep)
  · have entered : enter d = pure d.deeper := by rw [enter, entered]
    have entered₀ : enter d₀ = pure d₀.deeper := by rw [enter, entered₀]
    rw [entered, entered₀, pure_bind, pure_bind]
    exact inside under

/-- Both encoders write the same for a chain, or the one with the lower limit has no room for it. -/
def EncodesUnder (extensions : Bool) (d d₀ : Descent) (e : Expr) : Prop :=
  ∀ scope, CurtailedStep (d.Holds e) (tooDeep d) (e.encode extensions scope d₀)
    (e.encode extensions scope d)

theorem curtailed_operands (h : d.Under d₀) {extensions : Bool} {owner : Kind} {start : Nat}
    {scope : Scope} {os : List (Slot (Option Expr))}
    (encodes : ∀ e, some e ∈ os.map Slot.content → d.deeper.Under d₀.deeper →
      EncodesUnder extensions d.deeper d₀.deeper e)
    {slots : List OffsetSlot} (count : slots.length = os.length) :
    let chains := (os.map (Slot.map (Option.map (Expr.encode extensions)))).zip slots
    CurtailedStep (∀ e, some e ∈ os.map Slot.content → d.deeper.Holds e) (tooDeep d)
      (operands owner start scope d₀ chains) (operands owner start scope d chains) := by
  intro chains
  induction os generalizing slots with
  | nil => exact .same _ (by simp)
  | cons o os ih =>
      obtain _ | ⟨slot, slots⟩ := slots
      · cases count
      have same : slots.length = os.length := by simpa using count
      have rest := ih (fun e mem => encodes e (by simp [mem])) same
      obtain ⟨role, required, _ | e⟩ := o
      · exact rest.congr (by simp)
      · have first := curtailed_enter h fun under =>
          encodes e (by simp) under (scope.operand owner role)
        simp only [chains, List.map_cons, Slot.map, Option.map_some, List.zip_cons_cons,
          operands_cons]
        refine .congr (first.bind fun _ => .after _ fun _ _ => rest) ?_
        simp

theorem encodesUnder (h : d.Under d₀) (extensions : Bool) (e : Expr) :
    EncodesUnder extensions d d₀ e := by
  induction e using Expr.operandInduction generalizing d d₀ with
  | mk x next operands rest =>
      intro scope
      rw [Expr.encode_mk]
      have encodes (e : Expr) (mem : some e ∈ x.operandSlots.map Slot.content)
          (under : d.deeper.Under d₀.deeper) : EncodesUnder extensions d.deeper d₀.deeper e :=
        operands e (Item.mem_operands.2 mem) under
      have slots := Item.operandSlots_map id (Expr.encode extensions) x
      rw [Item.operandSlots] at slots
      unfold item
      rw [slots]
      -- Up to the operands both encoders write the same, and as many slots as there are operands.
      refine .congr (.after _ fun _ _ => .after _ fun _ _ => .after _ fun _ _ => .after _ fun _ _ =>
        .after _ fun _ _ => .after _ fun slots reserved =>
          .bind (q := ∀ e ∈ next, d.Holds e) (curtailed_operands h encodes ?_) fun _ => ?_) ?_
      · obtain ⟨w, w', contents⟩ := reserved
        obtain ⟨rfl, _⟩ := content_ok contents
        rw [length_offsetSlots, Item.operandSlots_map, List.length_map]
      · cases next with
        | none => exact .same _ (by simp)
        | some e => exact .congr (.before (rest e rfl h scope) _) (by simp)
      · simp only [← Item.mem_operands]
        exact h.holds_mk.symm

end Encoder

/-- Under a limit a path is encoded to the buffer that it is encoded to without, or its expression
nests deeper. -/
theorem Path.curtailed_encode {limits : Limits} (running : limits.isCancelled = false)
    (path : Path) :
    Curtailed (path.expr.depth ≤ limits.recursionLimit.toNat)
      (.limit (.tooDeep limits.recursionLimit)) (path.encode .unbounded) (path.encode limits) := by
  have written := Encoder.curtailed_enter (Limits.under_unbounded running)
    (f := path.expr.encode path.extensions .top)
    fun under => Encoder.encodesUnder under path.extensions path.expr .top
  exact ((written {}).before _).congr (Limits.holds_descent running)

end FlatPath
