import Mathlib

/-!
Success of computations that can fail: a sequence succeeds exactly if each of its steps does, on
what the step before it left.
-/

namespace FlatPath

variable {ε ε' α β σ : Type}

@[simp] theorem ok_bind (a : α) (f : α → Except ε β) : (Except.ok a >>= f) = f a := rfl

@[simp] theorem error_bind (e : ε) (f : α → Except ε β) :
    (Except.error e >>= f) = .error e := rfl

@[simp] theorem except_pure (a : α) : (pure a : Except ε α) = .ok a := rfl

@[simp] theorem except_throw (e : ε) : (throw e : Except ε α) = .error e := rfl

theorem exists_ok {x : Except ε α} (h : x.isOk) : ∃ a, x = .ok a := by
  cases x with
  | error e => cases h
  | ok a => exact ⟨a, rfl⟩

theorem bind_eq_ok {x : Except ε α} {f : α → Except ε β} {b : β} :
    (x >>= f) = .ok b ↔ ∃ a, x = .ok a ∧ f a = .ok b := by
  cases x <;> simp

theorem mapError_eq_ok {x : Except ε α} {f : ε → ε'} {a : α} :
    x.mapError f = .ok a ↔ x = .ok a := by
  cases x <;> simp [Except.mapError]

theorem run_bind_eq_ok {x : StateT σ (Except ε) α} {f : α → StateT σ (Except ε) β} {s : σ}
    {r : β × σ} :
    (x >>= f).run s = .ok r ↔ ∃ a s', x.run s = .ok (a, s') ∧ (f a).run s' = .ok r := by
  rw [StateT.run_bind, bind_eq_ok]
  exact Prod.exists

theorem mapM_cons_eq_ok {f : α → Except ε β} {a : α} {as : List α} {bs : List β} :
    (a :: as).mapM f = .ok bs ↔ ∃ b bs', f a = .ok b ∧ as.mapM f = .ok bs' ∧ b :: bs' = bs := by
  simp only [List.mapM_cons, bind_eq_ok, except_pure, Except.ok.injEq]
  constructor
  · rintro ⟨b, first, bs', rest, same⟩
    exact ⟨b, bs', first, rest, same⟩
  · rintro ⟨b, bs', first, rest, same⟩
    exact ⟨b, first, bs', rest, same⟩

theorem exists_mapM_eq_ok {f : α → Except ε β} {P : β → Prop} {as : List α}
    (h : ∀ a ∈ as, ∃ b, f a = .ok b ∧ P b) : ∃ bs, as.mapM f = .ok bs ∧ ∀ b ∈ bs, P b := by
  induction as with
  | nil => exact ⟨[], rfl, by simp⟩
  | cons a as ih =>
      obtain ⟨b, hb, first⟩ := h a (by simp)
      obtain ⟨bs, hbs, rest⟩ := ih fun a ha => h a (by simp [ha])
      exact ⟨b :: bs, by simp [hb, hbs], by simpa using ⟨first, rest⟩⟩

/-- What is worked out of a list entry by entry is worked out by index. -/
theorem range_mapM_eq_ok {as : List α} {bs : List β} {f : α → Option β} {g : Nat → Except ε β}
    (h : as.mapM f = some bs) (each : ∀ i a b, as[i]? = some a → f a = some b → g i = .ok b) :
    (List.range as.length).mapM g = .ok bs := by
  induction as generalizing bs g with
  | nil =>
      cases h
      rfl
  | cons a as ih =>
      simp only [List.mapM_cons, Option.bind_eq_bind, Option.bind_eq_some_iff, Option.pure_def,
        Option.some.injEq] at h
      obtain ⟨b, first, bs, rest, rfl⟩ := h
      have behind := ih (g := g ∘ Nat.succ) rest fun i => each (i + 1)
      rw [List.length_cons, List.range_succ_eq_map, mapM_cons_eq_ok]
      exact ⟨b, bs, each 0 a b rfl first, by rw [List.mapM_map, behind], rfl⟩

theorem mapM_eq_ok_of_map {as : List α} {bs : List β} {f : α → Except ε β}
    (h : as.map (fun a => (f a).toOption) = bs.map some) : as.mapM f = .ok bs := by
  induction as generalizing bs with
  | nil =>
      obtain rfl : bs = [] := by simpa using h.symm
      rfl
  | cons a as ih =>
      cases bs with
      | nil => cases h
      | cons b bs =>
          obtain ⟨first, rest⟩ := List.cons.inj h
          have first : f a = .ok b := by
            cases found : f a <;> simp_all [Except.toOption]
          exact mapM_cons_eq_ok.2 ⟨b, bs, first, ih rest, rfl⟩

theorem mapM_map_eq_ok {as : List α} {bs : List β} {f : α → Except ε β} (g : β → σ)
    (h : as.mapM f = .ok bs) : (as.mapM fun a => (f a).map g) = .ok (bs.map g) := by
  induction as generalizing bs with
  | nil =>
      cases h
      rfl
  | cons a as ih =>
      obtain ⟨b, bs, first, rest, rfl⟩ := mapM_cons_eq_ok.1 h
      exact mapM_cons_eq_ok.2 ⟨g b, bs.map g, by rw [first]; rfl, ih rest, rfl⟩

theorem map_eq_map_of_mapM_eq_ok {as : List α} {bs : List β} {f : α → Except ε β} {g : β → σ}
    {k : α → σ} (h : as.mapM f = .ok bs) (same : ∀ a b, f a = .ok b → g b = k a) :
    bs.map g = as.map k := by
  induction as generalizing bs with
  | nil =>
      cases h
      rfl
  | cons a as ih =>
      obtain ⟨b, bs, first, rest, rfl⟩ := mapM_cons_eq_ok.1 h
      rw [List.map_cons, List.map_cons, same a b first, ih rest]

end FlatPath
