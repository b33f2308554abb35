import FlatPath.Proofs.Operands
import FlatPath.Proofs.Success

/-!
A walk under a limit beside the same walk under a higher one. Step by step they come to the same, up
to the point where the one with the lower limit stops; where it has room it does not stop, and where
it has none it does not come to an end.
-/

namespace FlatPath

section

variable {ε α β σ : Type} {e : ε} {p q : Prop}

/-- The part comes to what the whole comes to, or stops with `e`. -/
def Cut (e : ε) (whole part : Except ε α) : Prop :=
  part = whole ∨ part = .error e

namespace Cut

variable {x x' : Except ε α} {f f' : α → Except ε β}

theorem refl (x : Except ε α) : Cut e x x :=
  .inl rfl

theorem bind (first : Cut e x x') (rest : ∀ a, Cut e (f a) (f' a)) :
    Cut e (x >>= f) (x' >>= f') := by
  obtain rfl | rfl := first
  · cases x' with
    | error => exact .inl rfl
    | ok a => exact rest a
  · exact .inr rfl

/-- Where the part does not stop the whole comes to the same. -/
theorem of_ne (h : Cut e x x') (goes : x' ≠ .error e) : x = x' :=
  (h.resolve_right goes).symm

theorem of_ok (h : Cut e x x') {a : α} (ok : x' = .ok a) : x = .ok a := by
  rw [h.of_ne (by simp [ok]), ok]

/-- Each is a part of the other only if they are the same. -/
theorem antisymm (h : Cut e x x') (h' : Cut e x' x) : x = x' := by
  obtain rfl | stopped := h
  · rfl
  · obtain rfl | stopped' := h'
    · rfl
    · rw [stopped, stopped']

end Cut

/-- Where there is room the part comes to what the whole comes to; where there is none it stops with
`e`, unless the whole fails for another reason. -/
structure Curtailed (room : Prop) (e : ε) (whole part : Except ε α) : Prop where
  ample : room → part = whole
  scarce : ¬ room → (∃ a, whole = .ok a) → part = .error e

namespace Curtailed

variable {x x' : Except ε α} {f f' : α → Except ε β}

theorem same (x : Except ε α) (room : p) : Curtailed p e x x :=
  ⟨fun _ => rfl, fun none => absurd room none⟩

theorem stops (x : Except ε α) (none : ¬ p) : Curtailed p e x (.error e) :=
  ⟨fun room => absurd room none, fun _ _ => rfl⟩

theorem congr (h : Curtailed p e x x') (iff : p ↔ q) : Curtailed q e x x' := by
  rwa [← propext iff]

theorem bind (first : Curtailed p e x x') (rest : ∀ a, Curtailed q e (f a) (f' a)) :
    Curtailed (p ∧ q) e (x >>= f) (x' >>= f') := by
  constructor
  · rintro ⟨hp, hq⟩
    rw [first.ample hp]
    exact congrArg (x >>= ·) (funext fun a => (rest a).ample hq)
  · rintro none ⟨b, ok⟩
    obtain ⟨a, found, ok⟩ := bind_eq_ok.1 ok
    by_cases hp : p
    · rw [first.ample hp, found]
      exact (rest a).scarce (fun hq => none ⟨hp, hq⟩) ⟨b, ok⟩
    · rw [first.scarce hp ⟨a, found⟩]
      rfl

/-- A step that both take in the same way needs no room. -/
theorem after (x : Except ε α) (rest : ∀ a, x = .ok a → Curtailed p e (f a) (f' a)) :
    Curtailed p e (x >>= f) (x >>= f') := by
  cases x with
  | error e' => exact ⟨fun _ => rfl, fun _ ⟨_, ok⟩ => nomatch ok⟩
  | ok a => exact rest a rfl

theorem before (first : Curtailed p e x x') (f : α → Except ε β) :
    Curtailed p e (x >>= f) (x' >>= f) :=
  (first.bind fun a => same (f a) trivial).congr (iff_of_eq (and_true p))

end Curtailed

end

namespace Descent

variable {d d₀ : Descent}

/-- One chain deeper. -/
def deeper (d : Descent) : Descent :=
  { d with depth := d.depth + 1 }

/-- A walk is at the same nesting as another one, with a limit that is no higher. -/
structure Under (d d₀ : Descent) : Prop where
  running : d.limits.isCancelled = false
  running₀ : d₀.limits.isCancelled = false
  same : d.depth = d₀.depth
  within : d.depth ≤ d.limits.recursionLimit.toNat
  lower : d.limits.recursionLimit.toNat ≤ d₀.limits.recursionLimit.toNat

/-- The lower limit stops a walk, or both walks go one chain deeper. -/
theorem Under.enter (h : d.Under d₀) :
    d.enter = .error (.tooDeep d.limits.recursionLimit) ∧
        d.limits.recursionLimit.toNat < d.deeper.depth ∨
      d.enter = .ok d.deeper ∧ d₀.enter = .ok d₀.deeper ∧ d.deeper.Under d₀.deeper := by
  have lower := h.lower
  have same := h.same
  by_cases deep : d.limits.recursionLimit.toNat ≤ d.depth
  · exact .inl ⟨by simp [Descent.enter, h.running, deep], Nat.lt_succ_of_le deep⟩
  · have deep₀ : ¬ d₀.limits.recursionLimit.toNat ≤ d₀.depth := by omega
    refine .inr ⟨by simp [Descent.enter, h.running, deep, deeper],
      by simp [Descent.enter, h.running₀, deep₀, deeper], h.running, h.running₀, ?_, ?_, lower⟩
    · simp only [deeper, same]
    · simp only [deeper]
      omega

theorem not_holds_of_lt {e : Expr} (deep : d.limits.recursionLimit.toNat < d.depth) :
    ¬ d.Holds e := fun h => by
  have := h.deep
  omega

/-- There is room for an expression if there is for its operands, one chain deeper, and for the
rest of its chain. -/
theorem Under.holds_mk (h : d.Under d₀) {x : Item String Expr (Option Expr)}
    {next : Option Expr} :
    d.Holds (.mk x next) ↔ (∀ e ∈ x.operands, d.deeper.Holds e) ∧ ∀ e ∈ next, d.Holds e := by
  have within := h.within
  constructor
  · intro held
    obtain ⟨_, operands, rest⟩ := Expr.add_depth_mk_le.1 held.room
    exact ⟨fun e mem => ⟨h.running, operands e mem⟩, fun e he => ⟨h.running, rest e he⟩⟩
  · rintro ⟨operands, rest⟩
    refine ⟨h.running, Expr.add_depth_mk_le.2 ⟨by omega, fun e mem => ?_, fun e he => ?_⟩⟩
    · exact (operands e mem).room
    · exact (rest e he).room

end Descent

namespace Limits

variable {limits : Limits}

theorem under_of_le {limits' : Limits} (running : limits.isCancelled = false)
    (running' : limits'.isCancelled = false)
    (lower : limits.recursionLimit ≤ limits'.recursionLimit) :
    limits.descent.Under limits'.descent :=
  ⟨running, running', rfl, Nat.zero_le _, lower⟩

theorem under_unbounded (running : limits.isCancelled = false) :
    limits.descent.Under unbounded.descent :=
  under_of_le running rfl (le_unbounded (Nat.le_refl _))

/-- A walk has room for the expressions that nest no deeper than its limit. -/
theorem holds_descent (running : limits.isCancelled = false) {e : Expr} :
    limits.descent.deeper.Holds e ↔ e.depth ≤ limits.recursionLimit.toNat := by
  constructor
  · intro held
    have room := held.room
    simp only [descent, Descent.deeper] at room
    omega
  · intro room
    refine ⟨running, ?_⟩
    simp only [descent, Descent.deeper]
    omega

end Limits

end FlatPath
