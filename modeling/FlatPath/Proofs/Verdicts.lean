import FlatPath.Proofs.ReadingLimits

/-!
The verdict of the check under two limits. A limit stops the check or leaves its verdict as it is,
so bytes that are found corrupt under one limit are accepted under none, and bytes that are accepted
under one are found corrupt under none.
-/

namespace FlatPath

variable {limits limits' : Limits}

/-- What the check finds under the lower of two limits it finds under the higher one too, unless it
was the limit that stopped it. -/
theorem verify_of_lower (running : limits.isCancelled = false)
    (running' : limits'.isCancelled = false)
    (lower : limits.recursionLimit ≤ limits'.recursionLimit) {payload : ByteArray}
    {extensions : Bool} {verdict : Except FormatError Unit}
    (found : verify payload extensions limits = verdict)
    (decided : verdict ≠ .error (.limit (.tooDeep limits.recursionLimit))) :
    verify payload extensions limits' = verdict := by
  have cut := cut_verify (Limits.under_of_le running running' lower) payload extensions
  rw [cut.of_ne (by rwa [found]), found]

/-- What the check finds under one limit it finds under every other one, unless one of the two stops
it. -/
theorem verify_of_decided (running : limits.isCancelled = false)
    (running' : limits'.isCancelled = false) {payload : ByteArray} {extensions : Bool}
    {verdict : Except FormatError Unit} (found : verify payload extensions limits = verdict)
    (decided : verdict ≠ .error (.limit (.tooDeep limits.recursionLimit))) :
    verify payload extensions limits' = verdict ∨
      verify payload extensions limits' = .error (.limit (.tooDeep limits'.recursionLimit)) := by
  obtain lower | lower := UInt32.le_total limits.recursionLimit limits'.recursionLimit
  · exact .inl (verify_of_lower running running' lower found decided)
  · have cut := cut_verify (Limits.under_of_le running' running lower) payload extensions
    rwa [Cut, found] at cut

/-- Limits do not decide what is corrupt. What one limit finds corrupt another one refuses, for the
same reason or for its depth; what one limit accepts another one accepts or refuses for its depth,
and a limit that is at least as high accepts it. -/
theorem verify_verdict (running : limits.isCancelled = false)
    (running' : limits'.isCancelled = false) (payload : ByteArray) (extensions : Bool) :
    (∀ e, verify payload extensions limits = .error e → e.isCorruption →
      verify payload extensions limits' = .error e ∨
        verify payload extensions limits' = .error (.limit (.tooDeep limits'.recursionLimit))) ∧
    (verify payload extensions limits = .ok () →
      (verify payload extensions limits' = .ok () ∨
        verify payload extensions limits' = .error (.limit (.tooDeep limits'.recursionLimit))) ∧
      (limits.recursionLimit ≤ limits'.recursionLimit →
        verify payload extensions limits' = .ok ())) := by
  refine ⟨fun e refused corrupt => ?_, fun accepted => ⟨?_, fun lower => ?_⟩⟩
  · refine verify_of_decided running running' refused ?_
    rintro ⟨⟩
    cases corrupt
  · exact verify_of_decided running running' accepted nofun
  · exact verify_of_lower running running' lower accepted nofun

/-- `$ == $` nests two deep. Where both sides are one item that is found out under two, and under
one the limit comes first. -/
theorem verify_verdict_shared :
    let apart : ByteArray := ⟨#[8, 0, 0, 0, 0, 0, 0, 0, 16, 0, 0, 0, 24, 0, 0, 0,
      27, 0, 0, 0, 0, 0, 0, 0, 27, 0, 0, 0, 0, 0, 0, 0]⟩
    let shared : ByteArray :=
      ⟨#[8, 0, 0, 0, 0, 0, 0, 0, 16, 0, 0, 0, 16, 0, 0, 0, 27, 0, 0, 0, 0, 0, 0, 0]⟩
    let two : Limits := { recursionLimit := 2 }
    let one : Limits := { recursionLimit := 1 }
    (verify shared false two = .error (.corrupt 16 .repeatedItem) ∧
      verify shared false one = .error (.limit (.tooDeep 1))) ∧
    verify apart false two = .ok () ∧ verify apart false {} = .ok () ∧
      verify apart false one = .error (.limit (.tooDeep 1)) := by
  intro apart shared two one
  have running (n : UInt32) : ({ recursionLimit := n } : Limits).isCancelled = false := rfl
  have repeated : verify shared false two = .error (.corrupt 16 .repeatedItem) := by
    decide +kernel
  have accepted : verify apart false two = .ok () := by decide +kernel
  have refused := (verify_verdict (running 2) (running 1) shared false).1 _ repeated rfl
  have deep := ((verify_verdict (running 2) (running 1) apart false).2 accepted).1
  have higher := ((verify_verdict (running 2) (running 1024) apart false).2 accepted).2
  exact ⟨⟨repeated, refused.resolve_left (by decide +kernel)⟩, accepted, higher (by decide),
    deep.resolve_left (by decide +kernel)⟩

end FlatPath
