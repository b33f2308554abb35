import FlatPath.Pattern.Scan

/-!
No reader of a pattern leaves more characters than it was given. The loops over classes and groups
end for this reason.
-/

namespace FlatPath.Pattern

theorem codePoint_rest {n : Nat} {s r : List Char} {a : Atom} (h : codePoint n s = .ok (a, r)) :
    r = s := by
  unfold codePoint at h
  split at h
  · cases h; rfl
  · cases h

theorem hexDigits_rest {x : Bool} {n v : Nat} {s r : List Char} {a : Atom}
    (h : hexDigits x n v s = .ok (a, r)) : r.length ≤ s.length := by
  fun_induction hexDigits x n v s with
  | case1 v s => exact Nat.le_of_eq (congrArg List.length (codePoint_rest h))
  | case2 | case3 => cases h
  | case4 n v c rest d _ ih =>
    have := ih h
    have := length_skip_le x rest
    simp only [List.length_cons]; omega

theorem hexBrace_rest {x : Bool} {v : Option Nat} {s r : List Char} {a : Atom}
    (h : hexBrace x v s = .ok (a, r)) : r.length ≤ s.length := by
  fun_induction hexBrace x v s with
  | case1 | case2 | case4 => cases h
  | case3 s rest n hs =>
    have h1 := length_skip_le x s
    have h2 := length_skip_le x rest
    rw [codePoint_rest h]
    rw [hs] at h1
    simp only [List.length_cons] at h1; omega
  | case5 v s c rest hs _ d _ ih =>
    have h1 := length_skip_le x s
    have h2 := ih h
    rw [hs] at h1
    simp only [List.length_cons] at h1; omega

theorem hex_rest {x : Bool} {n : Nat} {s r : List Char} {a : Atom}
    (h : hex x n s = .ok (a, r)) : r.length ≤ s.length := by
  have hs := length_skip_le x s
  unfold hex at h
  split at h
  · cases h
  · rename_i rest heq
    rw [heq] at hs
    have := hexBrace_rest h
    simp only [List.length_cons] at hs; omega
  · have := hexDigits_rest h
    omega

theorem afterBrace_rest {x : Bool} {s r : List Char} (h : afterBrace x s = some r) :
    r.length ≤ s.length := by
  fun_induction afterBrace x s with
  | case1 => cases h
  | case2 s rest hs =>
    have h1 := length_skip_le x s
    rw [hs] at h1
    cases h
    simp only [List.length_cons] at h1; omega
  | case3 s c rest hs _ ih =>
    have h1 := length_skip_le x s
    have h2 := ih h
    rw [hs] at h1
    simp only [List.length_cons] at h1; omega

theorem property_rest {x : Bool} {s r : List Char} {a : Atom}
    (h : property x s = .ok (a, r)) : r.length ≤ s.length := by
  have hs := length_skip_le x s
  unfold property at h
  split at h
  · cases h
  · rename_i rest heq
    rw [heq] at hs
    split at h
    · cases h
    · rename_i r' hr
      have := afterBrace_rest hr
      cases h
      simp only [List.length_cons] at hs; omega
  · cases h
  · rename_i c rest _ _ heq
    rw [heq] at hs
    have := length_skip_le x rest
    cases h
    simp only [List.length_cons] at hs; omega

theorem boundaryName_rest (x : Bool) (s : List Char) :
    (boundaryName x s).2.length ≤ s.length := by
  fun_induction boundaryName x s with
  | case1 => simp
  | case2 c rest _ name r hr ih =>
    have := length_skip_le x rest
    rw [hr] at ih
    simp only [List.length_cons] at *; omega
  | case3 => simp

theorem boundary_rest {x : Bool} {s r : List Char} {a : Atom}
    (h : boundary x s = .ok (a, r)) : r.length ≤ s.length := by
  unfold boundary at h
  split at h
  · rename_i inner
    have hs := length_skip_le x inner
    split at h
    · cases h
    · rename_i c rest heq
      rw [heq] at hs
      split at h
      · split at h
        · rename_i name r' hn
          have hb := boundaryName_rest x (c :: rest)
          rw [hn] at hb
          split at h
          · cases h
            simp only [List.length_cons] at *; omega
          · cases h
        · cases h
      · cases h
        simp
  · cases h
    exact Nat.le_refl _

theorem escape_rest {x : Bool} {s r : List Char} {a : Atom} (h : escape x s = .ok (a, r)) :
    r.length < s.length := by
  unfold escape at h
  split at h
  · cases h
  · exact Nat.lt_succ_of_le (hex_rest h)
  · exact Nat.lt_succ_of_le (hex_rest h)
  · exact Nat.lt_succ_of_le (hex_rest h)
  · exact Nat.lt_succ_of_le (property_rest h)
  · exact Nat.lt_succ_of_le (property_rest h)
  · exact Nat.lt_succ_of_le (boundary_rest h)
  · split at h
    · cases h; exact Nat.lt_succ_self _
    · cases h

theorem countDigits_rest (x : Bool) (s : List Char) :
    (countDigits x s).2.length ≤ s.length := by
  fun_induction countDigits x s with
  | case1 => simp
  | case2 c rest _ digits r hr ih =>
    have := length_skip_le x rest
    rw [hr] at ih
    simp only [List.length_cons] at *; omega
  | case3 => simp

theorem count_rest {x : Bool} {s r : List Char} {v : Option Nat} (h : count x s = (v, r)) :
    r.length ≤ s.length := by
  have h1 := length_dropWhile_le Text.isBlank s
  have h2 := countDigits_rest x (s.dropWhile Text.isBlank)
  have h3 := length_dropWhile_le Text.isBlank (countDigits x (s.dropWhile Text.isBlank)).2
  have : r = (countDigits x (s.dropWhile Text.isBlank)).2.dropWhile Text.isBlank := by
    simp only [count, Prod.mk.injEq] at h; exact h.2.symm
  rw [this]; omega

theorem length_dropLazy_le (s : List Char) : (dropLazy s).length ≤ s.length := by
  unfold dropLazy; split <;> simp

theorem counted_rest {x : Bool} {s r : List Char} (h : counted x s = .ok r) :
    r.length ≤ s.length := by
  have hs := length_skip_le x s
  have hlazy (t : List Char) : (dropLazy (skip x t)).length ≤ t.length :=
    Nat.le_trans (length_dropLazy_le _) (length_skip_le x t)
  unfold counted at h
  split at h
  · cases h
  · split at h
    · rename_i lower rest hc
      have h1 := count_rest hc
      have h2 := length_skip_le x rest
      simp only [List.length_cons] at h1
      split at h
      · rename_i rest' _ heq
        rw [heq] at h2
        have := hlazy rest'
        cases h
        simp only [List.length_cons] at h2; omega
      · cases h
      · cases h
      · split at h
        · rename_i upper rest' hc'
          have h3 := count_rest hc'
          have := hlazy rest'
          split at h
          · cases h
          · cases h
            simp only [List.length_cons] at h3; omega
        · cases h
    · rename_i rest hc
      have h1 := count_rest hc
      have := hlazy rest
      cases h
      simp only [List.length_cons] at h1; omega
    · cases h

theorem groupName_rest {first : Bool} {s r name : List Char}
    (h : groupName first s = .ok (name, r)) : r.length ≤ s.length := by
  induction s generalizing first name with
  | nil => cases h
  | cons c rest ih =>
    unfold groupName at h
    split at h
    · cases h; simp
    · split at h
      · cases hr : groupName false rest with
        | error e => rw [hr] at h; cases h
        | ok p =>
          obtain ⟨name', r'⟩ := p
          rw [hr] at h
          cases h
          have := ih hr
          simp only [List.length_cons]; omega
      · cases h

theorem groupFlags_rest {seen s flags r : List Char} {opens : Bool}
    (h : groupFlags seen s = .ok (flags, opens, r)) : r.length ≤ s.length := by
  induction s generalizing seen with
  | nil => cases h
  | cons c rest ih =>
    unfold groupFlags at h
    repeat' split at h
    all_goals solve
      | cases h
      | cases h; simp
      | exact Nat.le_succ_of_le (ih h)

theorem namedOpening_rest {x : Bool} {names : List (List Char)} {s r : List Char} {o : Opening}
    (h : namedOpening x names s = .ok (o, r)) : r.length ≤ s.length := by
  unfold namedOpening at h
  cases hn : groupName true s with
  | error e => rw [hn] at h; cases h
  | ok p =>
    have := groupName_rest hn
    rw [hn] at h
    simp only [bind, Except.bind] at h
    split at h <;> cases h
    omega

theorem opening_rest {x : Bool} {names : List (List Char)} {s r : List Char} {o : Opening}
    (h : opening x names s = .ok (o, r)) : r.length ≤ s.length := by
  have hs := length_skip_le x s
  unfold opening at h
  split at h
  · cases h
  · cases h
  · cases h
  · cases h
  · rename_i rest heq
    rw [heq] at hs
    have := namedOpening_rest h
    simp only [List.length_cons] at hs
    omega
  · rename_i rest _ _ heq
    rw [heq] at hs
    have := namedOpening_rest h
    simp only [List.length_cons] at hs
    omega
  · cases h
  · rename_i rest _ _ _ _ _ _ _ heq
    rw [heq] at hs
    simp only [List.length_cons] at hs
    cases hf : groupFlags [] rest with
    | error e => rw [hf] at h; cases h
    | ok p =>
      obtain ⟨flags, opens, r'⟩ := p
      have := groupFlags_rest hf
      rw [hf] at h
      simp only [bind, Except.bind] at h
      repeat' split at h
      all_goals first | (cases h; done) | (cases h; omega)
  · cases h
    exact hs

end FlatPath.Pattern
