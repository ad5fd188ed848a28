/-!
# GcodeJob.Job.CancelToken

Cooperative cancellation.  A token is a handle to a flag; its clones are
handles to the same flag, and a flag once set stays set.
-/

namespace GcodeJob

/-- Flags, and the handles that lead to them. -/
structure Tokens where
  flags : Array Bool
  handles : Array Nat
  deriving DecidableEq, Repr

namespace Tokens

def empty : Tokens := ⟨#[], #[]⟩

/-- A new token with a flag of its own. -/
def add (t : Tokens) : Tokens := ⟨t.flags.push false, t.handles.push t.flags.size⟩

/-- A further handle to the flag of an existing one. -/
def clone (t : Tokens) (handle : Nat) : Tokens :=
  { t with handles := t.handles.push (t.handles[handle]?.getD t.flags.size) }

/-- Cancels every clone of a token. -/
def cancel (t : Tokens) (handle : Nat) : Tokens :=
  { t with flags := t.flags.setIfInBounds (t.handles[handle]?.getD t.flags.size) true }

def isCancelled (t : Tokens) (handle : Nat) : Bool :=
  ((t.handles[handle]?).bind (t.flags[·]?)).getD false

end Tokens

end GcodeJob
