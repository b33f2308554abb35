import Mathlib
import FlatPath.Proofs.ComposedText

/-!
Round brackets in canonical texts. Outside of strings every opening bracket has its partner within
the same text, unless a numeric literal is spelled with brackets or quotes: so what stands in
brackets can be told from what follows.
-/

namespace FlatPath

namespace Brackets

inductive Mode
  | text | string | escaped

/-- What follows the closing bracket that is due after `depth` others. Those in strings do not
count. -/
def partner : Mode → Nat → List Char → Option (List Char)
  | _, _, [] => none
  | .escaped, depth, _ :: s => partner .string depth s
  | .string, depth, c :: s =>
    if c = '\\' then partner .escaped depth s
    else if c = '"' then partner .text depth s
    else partner .string depth s
  | .text, depth, c :: s =>
    if c = '"' then partner .string depth s
    else if c = '(' then partner .text (depth + 1) s
    else if c = ')' then
      if depth = 0 then some s else partner .text (depth - 1) s
    else partner .text depth s

/-- Any bracket in the text has its partner there. -/
def Paired (t : List Char) : Prop :=
  ∀ depth s, partner .text depth (t ++ s) = partner .text depth s

/-- Characters that are neither brackets nor quotes. -/
def Plain (t : List Char) : Prop :=
  ∀ c ∈ t, c ≠ '"' ∧ c ≠ '(' ∧ c ≠ ')'

namespace Paired

variable {t u : List Char}

theorem nil : Paired [] := fun _ _ => rfl

theorem append (h : Paired t) (h' : Paired u) : Paired (t ++ u) := by
  intro depth s
  rw [List.append_assoc, h, h']

theorem plain (h : Plain t) : Paired t := by
  induction t with
  | nil => exact nil
  | cons c t ih =>
      intro depth s
      obtain ⟨quote, opening, closing⟩ := h c (by simp)
      rw [List.cons_append, partner, if_neg quote, if_neg opening, if_neg closing]
      exact ih (fun c mem => h c (by simp [mem])) depth s

theorem brackets (h : Paired t) : Paired ('(' :: (t ++ [')'])) := by
  intro depth s
  rw [List.cons_append, List.append_assoc]
  exact h (depth + 1) (')' :: s)

/-- The partner of a bracket around a paired text is the one behind it. -/
theorem partner_eq (h : Paired t) (s : List Char) : partner .text 0 (t ++ ')' :: s) = some s :=
  h 0 (')' :: s)

end Paired

theorem paired_encode (t : List Char) : Paired (Quoted.encode t) := by
  intro depth s
  have inside := Quoted.read_escaped (partner .string depth)
    (fun c s backslash quote => by rw [partner, if_neg backslash, if_neg quote])
    (fun c s => rfl) t ('"' :: s)
  rw [Quoted.encode, List.cons_append, List.append_assoc]
  exact inside

end Brackets

/-- A numeric literal is spelled without brackets and quotes. -/
def Item.NumberPlain {ρ ο : Type} : Item String ρ ο → Prop
  | .numeric s => Brackets.Plain s.toList
  | _ => True

theorem Item.numbers_of_numberPlain {ρ ο : Type} {x : Item String ρ ο} (h : x.NumberPlain) :
    x.Numbers Brackets.Plain := by
  cases x with
  | numeric s => exact h
  | _ => trivial

/-- Square and curly brackets are characters like others here. -/
theorem Composed.paired {t : List Char} (h : Composed Brackets.Plain t) : Brackets.Paired t := by
  have plain {t : List Char} (free : ∀ c ∈ t, c ∉ ['"', '(', ')']) : Brackets.Paired t :=
    .plain fun c mem => by simpa using free c mem
  induction h with
  | plain free =>
      refine plain fun c mem mark => free c mem ?_
      have marked : ∀ c ∈ ['"', '(', ')'], c ∈ marks := by simp [marks]
      exact marked c mark
  | number h => exact .plain h
  | literal t => exact Brackets.paired_encode t
  | append _ _ ih ih' => exact ih.append ih'
  | brackets pair _ ih =>
      simp only [bracketPairs, List.mem_cons, Prod.mk.injEq, List.not_mem_nil, or_false] at pair
      obtain ⟨rfl, rfl⟩ | ⟨rfl, rfl⟩ | ⟨rfl, rfl⟩ := pair
      · exact ih.brackets
      · exact (plain (t := ['[']) (by simp)).append (ih.append (plain (by simp)))
      · exact (plain (t := ['\x7b']) (by simp)).append (ih.append (plain (by simp)))

end FlatPath
