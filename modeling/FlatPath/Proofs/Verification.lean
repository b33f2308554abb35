import FlatPath.Proofs.Success
import FlatPath.Proofs.WellFormed

/-!
What the check of an untrusted buffer accepts. Each part of the walk covers a list of positions: it
succeeds where some condition holds and none of the positions is marked yet, and leaves them marked.
The whole walk covers the tour of the first item, so it accepts the well-formed payloads.
-/

namespace FlatPath

open Relation

namespace Verify

def Marks.mark (m : Marks) (position : Nat) : Marks :=
  ⟨m.seen.set! position true, m.decoded + 1⟩

def Marks.after (m : Marks) : List Nat → Marks
  | [] => m
  | i :: rest => (m.mark i).after rest

/-- The positions can be marked one after the other. -/
def Marks.Fresh (m : Marks) : List Nat → Prop
  | [] => True
  | i :: rest => m.seen[i]? = some false ∧ (m.mark i).Fresh rest

theorem Marks.after_append (m : Marks) (is js : List Nat) :
    m.after (is ++ js) = (m.after is).after js := by
  induction is generalizing m with
  | nil => rfl
  | cons i is ih => exact ih (m.mark i)

theorem Marks.fresh_append (m : Marks) (is js : List Nat) :
    m.Fresh (is ++ js) ↔ m.Fresh is ∧ (m.after is).Fresh js := by
  induction is generalizing m with
  | nil => simp [Fresh, after]
  | cons i is ih => simp only [List.cons_append, Fresh, after, ih, and_assoc]

theorem Marks.fresh_iff (m : Marks) (is : List Nat) :
    m.Fresh is ↔ is.Nodup ∧ ∀ i ∈ is, m.seen[i]? = some false := by
  induction is generalizing m with
  | nil => simp [Fresh]
  | cons i is ih =>
      have marked (j : Nat) : (m.mark i).seen[j]? = some false ↔
          j ≠ i ∧ m.seen[j]? = some false := by
        simp only [mark, Array.set!_eq_setIfInBounds, Array.getElem?_setIfInBounds]
        by_cases same : i = j
        · subst same
          simp
        · simp [same, eq_comm]
      simp only [Fresh, ih, marked, List.nodup_cons, List.forall_mem_cons]
      constructor
      · rintro ⟨fresh, nodup, others⟩
        exact ⟨⟨fun mem => (others i mem).1 rfl, nodup⟩, fresh, fun j mem => (others j mem).2⟩
      · rintro ⟨⟨new, nodup⟩, fresh, others⟩
        exact ⟨fresh, nodup, fun j mem => ⟨fun same => new (same ▸ mem), others j mem⟩⟩

variable {α β σ : Type} {P Q : Prop} {is js : List Nat}

/-- On these marks the step succeeds and leaves those. -/
def Succeeds (x : Verifier α) (m : Marks) (a : α) (m' : Marks) : Prop :=
  (x.run.run m).run = (.ok a, m')

theorem succeeds_pure {a b : α} {m m' : Marks} :
    Succeeds (pure a) m b m' ↔ b = a ∧ m' = m := by
  simp [Succeeds, eq_comm]

theorem not_succeeds_throw {e : FormatError} {m m' : Marks} {a : α} :
    ¬ Succeeds (throw e) m a m' := by
  intro h
  cases h

theorem run_bind (x : Verifier α) (f : α → Verifier β) (m : Marks) :
    ((x >>= f).run.run m).run = match (x.run.run m).run with
      | (.ok a, m₁) => ((f a).run.run m₁).run
      | (.error e, m₁) => (.error e, m₁) := by
  rw [ExceptT.run_bind, StateT.run_bind, Id.run_bind]
  rcases (StateT.run x.run m).run with ⟨_ | a, m₁⟩ <;> rfl

theorem succeeds_bind {x : Verifier α} {f : α → Verifier β} {m m' : Marks} {b : β} :
    Succeeds (x >>= f) m b m' ↔ ∃ a m₁, Succeeds x m a m₁ ∧ Succeeds (f a) m₁ b m' := by
  simp only [Succeeds]
  rw [run_bind]
  rcases (x.run.run m).run with ⟨_ | a, m₁⟩
  · simp
  · simp

/-- The step succeeds exactly where `P` holds and the positions are fresh, and it marks them. -/
def Covers (x : Verifier Unit) (P : Prop) (is : List Nat) : Prop :=
  ∀ m m', Succeeds x m () m' ↔ P ∧ m.Fresh is ∧ m' = m.after is

theorem Covers.congr {x : Verifier Unit} (h : Covers x P is) (same : P ↔ Q) : Covers x Q is :=
  fun m m' => by rw [h m m', same]

theorem covers_pure : Covers (pure ()) True [] := by
  intro m m'
  simp [succeeds_pure, Marks.Fresh, Marks.after]

theorem covers_throw {e : FormatError} : Covers (throw e) False is := by
  intro m m'
  simp [not_succeeds_throw]

theorem covers_refuse (position : Nat) (d : Option Defect) :
    Covers (refuse position d) (d = none) [] := by
  cases d with
  | none => exact covers_pure.congr (by simp)
  | some d => exact covers_throw.congr (by simp)

theorem run_mark (position : Nat) (m : Marks) :
    ((mark position).run.run m).run = match m.seen[position]? with
      | none => (.error (.corrupt position .itemOutOfBounds), m)
      | some true => (.error (.corrupt position .repeatedItem), m)
      | some false => (.ok (), m.mark position) := by
  have get : ((mark position).run.run m).run = ((match m.seen[position]? with
      | none => throw (.corrupt position .itemOutOfBounds)
      | some true => throw (.corrupt position .repeatedItem)
      | some false => modify fun m => m.mark position : Verifier Unit).run.run m).run := rfl
  rw [get]
  rcases m.seen[position]? with _ | _ | _ <;> rfl

theorem covers_mark (position : Nat) : Covers (mark position) True [position] := by
  intro m m'
  rw [Succeeds, run_mark]
  rcases seen : m.seen[position]? with _ | _ | _
  · simp [Marks.Fresh, seen]
  · simp [Marks.Fresh, Marks.after, seen, eq_comm]
  · simp [Marks.Fresh, seen]

theorem Covers.seq {x y : Verifier Unit} (hx : Covers x P is) (hy : P → Covers y Q js) :
    Covers (x >>= fun _ => y) (P ∧ Q) (is ++ js) := by
  intro m m'
  rw [succeeds_bind, Marks.fresh_append, Marks.after_append]
  constructor
  · rintro ⟨_, m₁, first, second⟩
    obtain ⟨p, fresh, rfl⟩ := (hx m m₁).1 first
    obtain ⟨q, fresh', rfl⟩ := (hy p _ _).1 second
    exact ⟨⟨p, q⟩, ⟨fresh, fresh'⟩, rfl⟩
  · rintro ⟨⟨p, q⟩, ⟨fresh, fresh'⟩, rfl⟩
    exact ⟨(), _, (hx m _).2 ⟨p, fresh, rfl⟩, (hy p _ _).2 ⟨q, fresh', rfl⟩⟩

theorem covers_forM {f : σ → Verifier Unit} {P : σ → Prop} {t : σ → List Nat} {ss : List σ}
    (h : ∀ s ∈ ss, Covers (f s) (P s) (t s)) :
    Covers (ss.forM f) (∀ s ∈ ss, P s) (ss.flatMap t) := by
  induction ss with
  | nil => exact covers_pure.congr (by simp)
  | cons s ss ih =>
      have rest := ih fun s' mem => h s' (by simp [mem])
      exact ((h s (by simp)).seq fun _ => rest).congr (by simp)

theorem covers_enter {d : Descent} {f : Descent → Verifier Unit}
    (running : d.limits.isCancelled = false)
    (h : d.depth + 1 ≤ d.limits.recursionLimit.toNat →
      Covers (f { d with depth := d.depth + 1 }) P is) :
    Covers (enter d >>= f) (d.depth + 1 ≤ d.limits.recursionLimit.toNat ∧ P) is := by
  by_cases deep : d.limits.recursionLimit.toNat ≤ d.depth
  · have refused : enter d = throw (.limit (.tooDeep d.limits.recursionLimit)) := by
      simp [enter, Descent.enter, running, deep]
    rw [refused]
    exact covers_throw.congr (by simp; omega)
  · have entered : enter d = pure { d with depth := d.depth + 1 } := by
      simp [enter, Descent.enter, running, deep]
    rw [entered, pure_bind]
    exact (h (by omega)).congr ⟨fun p => ⟨by omega, p⟩, And.right⟩

theorem offsetDefect_eq_none {payload : ByteArray} {position : Nat} {offset : UInt32} :
    offsetDefect payload position offset = none ↔
      offset.toNat ≤ maxSize ∧ position + offset.toNat < payload.size := by
  rw [offsetDefect]
  split
  · simp
    omega
  · split
    · simp
      omega
    · simp
      omega

theorem visit_bind {payload : ByteArray} {i : Nat} {c : Cursor} {f : Cursor → Verifier Unit}
    (decoded : Cursor.decode payload i = .ok c) :
    (visit payload i >>= f) =
      (mark i >>= fun _ => refuse i (textDefect c.record) >>= fun _ => f c) := by
  have lifted : (liftM (Cursor.decode payload i) : Verifier Cursor) = pure c := by
    rw [decoded]
    rfl
  simp only [visit, lifted, pure_bind, bind_assoc]

theorem not_succeeds_visit {payload : ByteArray} {i : Nat} {e : FormatError} {c : Cursor}
    {m m' : Marks} (failed : Cursor.decode payload i = .error e) :
    ¬ Succeeds (visit payload i) m c m' := by
  have lifted : (liftM (Cursor.decode payload i) : Verifier Cursor) = throw e := by
    rw [failed]
    rfl
  intro h
  rw [visit, lifted, succeeds_bind] at h
  obtain ⟨_, m₁, _, h⟩ := h
  obtain ⟨_, _, h, _⟩ := succeeds_bind.1 h
  exact not_succeeds_throw h

section Walk

variable {payload : ByteArray} {extensions : Bool} {d : Descent} {scope : Scope} {i : Nat}
  {c : Cursor}

/-- The walk from an item on succeeds where all that it comes to passes and no position of its tour
is marked yet. -/
def CoversTour (payload : ByteArray) (extensions : Bool) (i : Nat) : Prop :=
  ∀ (d : Descent) (scope : Scope), d.limits.isCancelled = false →
    d.depth ≤ d.limits.recursionLimit.toNat →
      Covers (items payload extensions d scope i)
        (Visit.Passes payload extensions d.limits.recursionLimit.toNat ⟨i, scope, d.depth⟩)
        (tour payload i)

theorem covers_operand (c : Cursor) (scope : Scope) (running : d.limits.isCancelled = false)
    {s : Slot UInt32}
    (below : s.content ≠ 0 → CoversTour payload extensions (i + s.content.toNat)) :
    Covers (if _present : s.content = 0 then
        refuse i (if s.required then some .missingOperand else none)
      else do
        refuse i (offsetDefect payload i s.content)
        items payload extensions (← enter d) (scope.operand c.kind s.role)
          (i + s.content.toNat))
      (Visit.OperandPasses payload extensions d.limits.recursionLimit.toNat
        ⟨i, scope, d.depth⟩ c s)
      (if s.content = 0 then [] else tour payload (i + s.content.toNat)) := by
  rw [Visit.OperandPasses]
  by_cases absent : s.content = 0
  · simp only [absent, dif_pos, if_pos]
    exact (covers_refuse _ _).congr (by simp)
  · simp only [absent, dif_neg, if_neg, not_false_eq_true]
    have entered : Covers (do
          items payload extensions (← enter d) (scope.operand c.kind s.role)
            (i + s.content.toNat))
        (d.depth + 1 ≤ d.limits.recursionLimit.toNat ∧
          Visit.Passes payload extensions d.limits.recursionLimit.toNat
            ⟨i + s.content.toNat, scope.operand c.kind s.role, d.depth + 1⟩)
        (tour payload (i + s.content.toNat)) :=
      covers_enter running fun deep => below absent _ _ running deep
    refine ((covers_refuse _ _).seq fun _ => entered).congr ?_
    rw [offsetDefect_eq_none]
    exact and_congr_right fun _ => ⟨And.right, fun h => ⟨h.nesting, h⟩⟩

theorem covers_next (scope : Scope) (running : d.limits.isCancelled = false)
    (deep : d.depth ≤ d.limits.recursionLimit.toNat)
    (below : c.nextOffset ≠ 0 → CoversTour payload extensions (i + c.nextOffset.toNat)) :
    Covers (if _present : c.nextOffset = 0 then pure ()
      else do
        refuse i (offsetDefect payload i c.nextOffset)
        items payload extensions d scope (i + c.nextOffset.toNat))
      (Visit.NextPasses payload extensions d.limits.recursionLimit.toNat ⟨i, scope, d.depth⟩ c)
      (if c.nextOffset = 0 then [] else tour payload (i + c.nextOffset.toNat)) := by
  rw [Visit.NextPasses]
  by_cases absent : c.nextOffset = 0
  · simp only [absent, dif_pos, if_pos]
    exact covers_pure
  · simp only [absent, dif_neg, if_neg, not_false_eq_true]
    refine ((covers_refuse _ _).seq fun _ => below absent _ _ running deep).congr ?_
    rw [offsetDefect_eq_none]

/-- Where nothing is decoded the walk does not succeed. -/
theorem covers_of_decode_error {e : FormatError} (failed : Cursor.decode payload i = .error e) :
    Covers (items payload extensions d scope i) False (tour payload i) := by
  intro m m'
  refine ⟨fun h => ?_, fun h => h.1.elim⟩
  rw [items] at h
  split at h
  · obtain ⟨_, _, h, _⟩ := succeeds_bind.1 h
    exact (not_succeeds_visit failed h).elim
  · exact (not_succeeds_throw h).elim

theorem covers_items (payload : ByteArray) (extensions : Bool) (i : Nat) :
    CoversTour payload extensions i := by
  induction i using @linkInduction payload with
  | owner i ih =>
      intro d scope running deep
      cases decoded : Cursor.decode payload i with
      | error e =>
          refine (covers_of_decode_error decoded).congr ⟨False.elim, fun h => ?_⟩
          obtain ⟨c, sound⟩ := h _ .refl
          cases decoded.symm.trans sound.decoded
      | ok c =>
          have below {place : Place} {offset : UInt32} (link : (place, offset) ∈ c.links) :
              CoversTour payload extensions (i + offset.toNat) :=
            ih _ (linked_of_mem_links decoded link)
          have operand (s : Slot UInt32) (mem : s ∈ c.slots) :=
            covers_operand c scope running fun present =>
              below (Cursor.mem_links.2 ⟨present, .inl ⟨s, mem, rfl⟩⟩)
          have next := covers_next scope running deep fun present =>
            below (Cursor.mem_links.2 ⟨present, .inr rfl⟩)
          rw [items, dif_pos (Cursor.lt_size_of_decode decoded), visit_bind decoded,
            tour_eq decoded, c.flatMap_links fun o => tour payload (i + o.toNat)]
          have whole := (covers_mark i).seq fun _ =>
            (covers_refuse i (textDefect c.record)).seq fun _ =>
            (covers_refuse i (scopeDefect extensions scope c.kind)).seq fun _ =>
            (covers_forM operand).seq fun _ => next
          apply whole.congr
          rw [Visit.passes_iff (v := ⟨i, scope, d.depth⟩) decoded, true_and, and_iff_right deep]

end Walk

theorem refused_of_cancelled {payload : ByteArray} {extensions : Bool} {limits : Limits}
    (raised : limits.isCancelled = true) :
    verify payload extensions limits = .error (.limit .cancelled) := by
  have refused : enter limits.descent = throw (.limit .cancelled) := by
    rw [enter, Limits.enter_of_cancelled raised]
  rw [verify, run, refused]
  rfl

theorem running_of_ok {payload : ByteArray} {extensions : Bool} {limits : Limits}
    (h : verify payload extensions limits = .ok ()) : limits.isCancelled = false := by
  rw [← Bool.not_eq_true]
  intro raised
  rw [refused_of_cancelled raised] at h
  cases h

/-- The check succeeds where the walk passes and nothing is shared. -/
theorem ok_iff {payload : ByteArray} {extensions : Bool} {limits : Limits}
    (running : limits.isCancelled = false) :
    verify payload extensions limits = .ok () ↔
      Visit.first.Passes payload extensions limits.recursionLimit.toNat ∧
        Unshared payload 0 := by
  let marks : Marks := { seen := .replicate payload.size false }
  let walk : Verifier Unit := do items payload extensions (← enter limits.descent) .top 0
  have succeeds : verify payload extensions limits = .ok () ↔ ∃ m, Succeeds walk marks () m := by
    have outcome (r : Except FormatError Unit × Marks) : r.1 = .ok () ↔ ∃ m, r = (.ok (), m) := by
      simp [Prod.ext_iff]
    exact outcome _
  have covers : Covers walk (0 + 1 ≤ limits.recursionLimit.toNat ∧
      Visit.first.Passes payload extensions limits.recursionLimit.toNat) (tour payload 0) :=
    covers_enter running fun deep => covers_items payload extensions 0 _ _ running deep
  have fresh (h : Visit.first.Passes payload extensions limits.recursionLimit.toNat) :
      marks.Fresh (tour payload 0) ↔ Unshared payload 0 := by
    have decodes : Decodes payload 0 := h.decodes
    rw [Marks.fresh_iff, ← nodup_tour decodes, and_iff_left]
    intro j mem
    obtain ⟨c, decoded⟩ := decodes j ((mem_tour decodes).1 mem)
    have inside := Cursor.lt_size_of_decode decoded
    simp [marks, inside]
  rw [succeeds]
  constructor
  · rintro ⟨m, h⟩
    obtain ⟨⟨_, passes⟩, unmarked, _⟩ := (covers _ _).1 h
    exact ⟨passes, (fresh passes).1 unmarked⟩
  · rintro ⟨passes, unshared⟩
    exact ⟨_, (covers _ _).2 ⟨⟨passes.nesting, passes⟩, (fresh passes).2 unshared, rfl⟩⟩

theorem passes_of_ok {payload : ByteArray} {extensions : Bool} {limits : Limits}
    (h : verify payload extensions limits = .ok ()) :
    Visit.first.Passes payload extensions limits.recursionLimit.toNat ∧ Unshared payload 0 :=
  (ok_iff (running_of_ok h)).1 h

end Verify

/-- The check accepts exactly the well-formed payloads. -/
theorem verify_accepts_iff {payload : ByteArray} {extensions : Bool} {limits : Limits}
    (running : limits.isCancelled = false) :
    verify payload extensions limits = .ok () ↔
      WellFormed payload extensions limits.recursionLimit.toNat := by
  rw [Verify.ok_iff running, wellFormed_iff]

/-- `$.a` is well-formed; `$ == $` is not if both sides are one item. -/
theorem verify_accepts_unshared :
    let key : ByteArray := ⟨#[27, 0, 0, 0, 8, 0, 0, 0, 25, 0, 0, 0, 0, 0, 0, 0, 1, 0, 0, 0, 97, 0]⟩
    let shared : ByteArray :=
      ⟨#[8, 0, 0, 0, 0, 0, 0, 0, 16, 0, 0, 0, 16, 0, 0, 0, 27, 0, 0, 0, 0, 0, 0, 0]⟩
    ({} : Limits).isCancelled = false ∧ verify key false {} = .ok () ∧
      WellFormed key false 1024 ∧ ¬ WellFormed shared false 1024 := by
  intro key shared
  have accepted : verify key false {} = .ok () := by
    obtain ⟨_, accepted⟩ := exists_ok (x := verify key false {}) (by decide +kernel)
    exact accepted
  refine ⟨rfl, accepted, (verify_accepts_iff rfl).1 accepted, ?_⟩
  intro h
  have refused : (verify shared false {}).isOk = false := by decide +kernel
  have accepted : verify shared false {} = .ok () := (verify_accepts_iff rfl).2 h
  rw [accepted] at refused
  cases refused

end FlatPath
