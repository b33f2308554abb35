/-!
Limits on walks over nested operands. A walk enters every operand chain through its `Descent`,
which refuses once the caller has raised the cancel token or the nesting is too deep. The length
of a chain never counts.
-/

namespace FlatPath

inductive LimitError
  | tooDeep (limit : UInt32)
  | cancelled
deriving DecidableEq, Inhabited

def LimitError.message : LimitError → String
  | .tooDeep limit => "recursion limit exceeded (limit " ++ toString limit.toNat ++ ")"
  | .cancelled => "operation cancelled"

/-- A flag the caller raises to stop a walk. -/
structure CancelToken where
  raised : Bool := false
deriving DecidableEq

structure Limits where
  recursionLimit : UInt32 := 1024
  token : Option CancelToken := none
deriving DecidableEq

namespace Limits

/-- No token, and a limit that no buffer with four-byte offsets can reach. -/
def unbounded : Limits :=
  { recursionLimit := 4294967295 }

def isCancelled (limits : Limits) : Bool :=
  limits.token.any (·.raised)

/-- Raises the token, if one is attached. -/
def cancel (limits : Limits) : Limits :=
  { limits with token := limits.token.map fun _ => ⟨true⟩ }

end Limits

/-- The nesting reached by a walk under its limits. -/
structure Descent where
  limits : Limits
  depth : Nat := 0
deriving DecidableEq

def Limits.descent (limits : Limits) : Descent :=
  { limits }

namespace Descent

/-- A raised token is reported before the depth. -/
def enter (d : Descent) : Except LimitError Descent :=
  if d.limits.isCancelled then
    .error .cancelled
  else if d.limits.recursionLimit.toNat ≤ d.depth then
    .error (.tooDeep d.limits.recursionLimit)
  else
    .ok { d with depth := d.depth + 1 }

def leave (d : Descent) : Descent :=
  { d with depth := d.depth - 1 }

end Descent

end FlatPath
