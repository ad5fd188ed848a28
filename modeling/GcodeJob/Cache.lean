import GcodeJob.Command.Issued

/-!
# GcodeJob.Cache

A bounded store of issued commands by line.  What is inserted first leaves
first: a look-up refreshes nothing, and a line that is there keeps the
command it has.
-/

namespace GcodeJob

/-- Commands in the order they were inserted, oldest first. -/
structure Cache where
  capacity : Nat
  entries : List Issued
  deriving DecidableEq, Repr

namespace Cache

/-- A store with nothing in it yet.  Room for all of its capacity is asked for at once; where
there can be no such room, there is no program whose store this would be. -/
def empty (capacity : Nat) : Cache := ⟨capacity, []⟩

/-- The last `capacity` entries. -/
def evict (capacity : Nat) (entries : List Issued) : List Issued :=
  entries.drop (entries.length - capacity)

def get? (c : Cache) (line : Nat) : Option Issued := c.entries.find? (·.line == line)

def contains (c : Cache) (line : Nat) : Bool := (c.get? line).isSome

/-- The command held for the line, inserted now if there was none.  With no
room at all it is given back and not kept. -/
def insert (c : Cache) (entry : Issued) : Issued × Cache :=
  match c.get? entry.line with
  | some held => (held, c)
  | none => (entry, { c with entries := evict c.capacity (c.entries ++ [entry]) })

/-- Changes the capacity; the oldest entries beyond it leave at once. -/
def setCapacity (c : Cache) (capacity : Nat) : Cache := ⟨capacity, evict capacity c.entries⟩

def clear (c : Cache) : Cache := { c with entries := [] }

def length (c : Cache) : Nat := c.entries.length

/-- What is left is the younger part of what was there. -/
theorem evict_suffix (capacity : Nat) (entries : List Issued) :
    evict capacity entries <:+ entries := List.drop_suffix ..

theorem length_evict (capacity : Nat) (entries : List Issued) :
    (evict capacity entries).length = min entries.length capacity := by
  simp only [evict, List.length_drop]
  omega

/-- A line that is held keeps its command, and nothing else changes. -/
theorem insert_of_get? {c : Cache} {entry held : Issued} (h : c.get? entry.line = some held) :
    c.insert entry = (held, c) := by
  simp only [insert, h]

/-- A line that has no command gets the one that is inserted, as long as there is room. -/
theorem insert_of_absent {c : Cache} {entry : Issued} (h : c.get? entry.line = none) :
    c.insert entry = (entry, { c with entries := evict c.capacity (c.entries ++ [entry]) }) := by
  simp only [insert, h]

end Cache

end GcodeJob
