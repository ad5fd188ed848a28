import GcodeJob.Cache
import Mathlib.Data.List.Nodup

/-!
# GcodeJob.Proofs.Cache

The cache beside a plain list of commands, which adds what is new at its end
and drops from its front, one command after the other, what it has no room for.
Looking something up, and inserting a command for a line that has one, leave
the list alone; nothing is moved to another place in it, or replaced.

**Main result** (`Cache.bounded_fifo`): whatever is asked of it, the cache is
that list and answers from it.
-/

namespace GcodeJob.Cache

/-! ## What is asked -/

/-- What can be asked of a cache. -/
inductive Request
  | insert (entry : Issued)
  | get (line : Nat)
  | contains (line : Nat)
  | setCapacity (capacity : Nat)
  | clear

inductive Answer
  /-- The command to use from now on for the line of the one that was inserted. -/
  | use (held : Issued)
  | found (held? : Option Issued)
  | holds (isHeld : Bool)
  | done

/-- What a cache answers, and the cache after it. -/
def ask (c : Cache) : Request → Answer × Cache
  | .insert entry =>
    let (held, c) := c.insert entry
    (.use held, c)
  | .get line => (.found (c.get? line), c)
  | .contains line => (.holds (c.contains line), c)
  | .setCapacity capacity => (.done, c.setCapacity capacity)
  | .clear => (.done, c.clear)

/-- A cache after all that was asked of it. -/
def serve (c : Cache) (requests : List Request) : Cache :=
  requests.foldl (fun c request => (c.ask request).2) c

/-! ## A plain list -/

/-- Drops from the front of a list for as long as it is longer than it may be. -/
def shed (capacity : Nat) : List Issued → List Issued
  | [] => []
  | first :: rest => if capacity < rest.length + 1 then shed capacity rest else first :: rest

/-- A plain list of commands, the oldest first. -/
structure Plain where
  capacity : Nat
  items : List Issued := []
  /-- All that has been added since the list was last cleared. -/
  log : List Issued := []

namespace Plain

/-- Whether a line has a command. -/
def Has (l : Plain) (line : Nat) : Prop := ∃ held ∈ l.items, held.line = line

instance (l : Plain) (line : Nat) : Decidable (l.Has line) :=
  inferInstanceAs (Decidable (∃ held ∈ l.items, held.line = line))

/-- What becomes of the list.  Only a command for a line that has none is added. -/
def step (l : Plain) : Request → Plain
  | .insert entry =>
    if l.Has entry.line then l
    else { l with items := shed l.capacity (l.items ++ [entry]), log := l.log ++ [entry] }
  | .get _ | .contains _ => l
  | .setCapacity capacity => { l with capacity, items := shed capacity l.items }
  | .clear => { l with items := [], log := [] }

def run (l : Plain) (requests : List Request) : Plain := requests.foldl step l

/-- What may be answered from the list. -/
def Answers (l : Plain) : Request → Answer → Prop
  | .insert entry, .use held =>
    held ∈ l.items ∧ held.line = entry.line ∨ ¬l.Has entry.line ∧ held = entry
  | .get line, .found held? => ∀ held, held? = some held ↔ held ∈ l.items ∧ held.line = line
  | .contains line, .holds isHeld => isHeld = true ↔ l.Has line
  | .setCapacity _, .done | .clear, .done => True
  | _, _ => False

/-- Each line has at most one command, no more are there than there is room
for, and they are the latest that were added, in their order. -/
structure Sound (l : Plain) : Prop where
  distinct : (l.items.map Issued.line).Nodup
  fits : l.items.length ≤ l.capacity
  latest : l.items <:+ l.log

end Plain

/-! ## Dropping from the front -/

/-- All that is too much goes at once, or one after the other. -/
theorem evict_eq_shed (capacity : Nat) (entries : List Issued) :
    evict capacity entries = shed capacity entries := by
  induction entries with
  | nil => simp [evict, shed]
  | cons first rest ih =>
    unfold evict at ih ⊢
    unfold shed
    rw [List.length_cons]
    by_cases long : capacity < rest.length + 1
    · rw [if_pos long, Nat.succ_sub (Nat.le_of_lt_succ long), List.drop_succ_cons, ih]
    · rw [if_neg long, Nat.sub_eq_zero_of_le (Nat.le_of_not_lt long), List.drop_zero]

theorem shed_suffix (capacity : Nat) (items : List Issued) : shed capacity items <:+ items :=
  evict_eq_shed capacity items ▸ evict_suffix capacity items

theorem length_shed_le (capacity : Nat) (items : List Issued) :
    (shed capacity items).length ≤ capacity := by
  rw [← evict_eq_shed, length_evict]
  exact Nat.min_le_right _ _

/-! ## What the list keeps -/

namespace Plain

variable {l : Plain}

theorem sound_empty (capacity : Nat) : Sound { capacity } :=
  ⟨List.nodup_nil, Nat.zero_le _, List.suffix_refl _⟩

/-- A list may lose its front. -/
theorem Sound.shed (h : l.Sound) (capacity : Nat) :
    Sound { l with capacity, items := Cache.shed capacity l.items } where
  distinct := h.distinct.sublist ((shed_suffix capacity l.items).sublist.map _)
  fits := length_shed_le capacity l.items
  latest := (shed_suffix capacity l.items).trans h.latest

theorem nodup_append {entry : Issued} (h : l.Sound) (none : ¬l.Has entry.line) :
    ((l.items ++ [entry]).map Issued.line).Nodup := by
  rw [List.map_append, List.nodup_append]
  refine ⟨h.distinct, by simp, ?_⟩
  rintro line mem _ new rfl
  obtain ⟨held, at_, rfl⟩ := List.mem_map.mp mem
  exact none ⟨held, at_, by simpa using new⟩

theorem Sound.step (h : l.Sound) (request : Request) : (l.step request).Sound := by
  cases request with
  | get | contains => exact h
  | setCapacity capacity => exact h.shed capacity
  | clear => exact sound_empty l.capacity
  | insert entry =>
    unfold Plain.step
    dsimp only
    split
    next => exact h
    next none =>
      have added := shed_suffix l.capacity (l.items ++ [entry])
      refine ⟨(nodup_append h none).sublist (added.sublist.map _), length_shed_le _ _, ?_⟩
      exact added.trans (List.suffix_append_self_iff.mpr h.latest)

theorem Sound.run (h : l.Sound) (requests : List Request) : (l.run requests).Sound := by
  induction requests generalizing l with
  | nil => exact h
  | cons request requests ih => exact ih (h.step request)

end Plain

/-! ## The cache is the list -/

/-- A cache that holds what a list holds. -/
structure Mirrors (c : Cache) (l : Plain) : Prop where
  capacity : c.capacity = l.capacity
  entries : c.entries = l.items

namespace Mirrors

variable {c : Cache} {l : Plain} {line : Nat}

theorem get?_eq_none_iff (h : c.Mirrors l) : c.get? line = none ↔ ¬l.Has line := by
  simp [get?, h.entries, List.find?_eq_none, Plain.Has]

theorem get?_eq_some_iff (h : c.Mirrors l) (sound : l.Sound) {held : Issued} :
    c.get? line = some held ↔ held ∈ l.items ∧ held.line = line := by
  constructor
  · intro found
    refine ⟨h.entries ▸ List.mem_of_find?_eq_some found, ?_⟩
    simpa using List.find?_some found
  · rintro ⟨mem, rfl⟩
    cases found : c.get? held.line with
    | none => exact absurd ⟨held, mem, rfl⟩ (h.get?_eq_none_iff.mp found)
    | some other =>
      have own : other ∈ l.items := h.entries ▸ List.mem_of_find?_eq_some found
      have same : other.line = held.line := by simpa using List.find?_some found
      rw [List.inj_on_of_nodup_map sound.distinct own mem same]

/-- The cache after a request is the list after it. -/
theorem ask (h : c.Mirrors l) (request : Request) : (c.ask request).2.Mirrors (l.step request) := by
  cases request with
  | get | contains => exact h
  | setCapacity capacity =>
    refine ⟨rfl, ?_⟩
    change evict capacity c.entries = Cache.shed capacity l.items
    rw [evict_eq_shed, h.entries]
  | clear => exact ⟨h.capacity, rfl⟩
  | insert entry =>
    unfold Cache.ask Plain.step
    dsimp only
    by_cases there : l.Has entry.line
    · obtain ⟨held, found⟩ := Option.ne_none_iff_exists'.mp (mt h.get?_eq_none_iff.mp (not_not.mpr there))
      rw [if_pos there, insert_of_get? found]
      exact h
    · rw [if_neg there, insert_of_absent (h.get?_eq_none_iff.mpr there)]
      refine ⟨h.capacity, ?_⟩
      dsimp only
      rw [evict_eq_shed, h.entries, h.capacity]

theorem answers (h : c.Mirrors l) (sound : l.Sound) (request : Request) :
    l.Answers request (c.ask request).1 := by
  cases request with
  | get line => exact fun held => h.get?_eq_some_iff sound
  | contains line =>
    change (c.get? line).isSome = true ↔ l.Has line
    rw [Option.isSome_iff_ne_none, Ne, h.get?_eq_none_iff, not_not]
  | setCapacity | clear => trivial
  | insert entry =>
    unfold Cache.ask
    dsimp only
    cases found : c.get? entry.line with
    | some held =>
      rw [insert_of_get? found]
      exact .inl ((h.get?_eq_some_iff sound).mp found)
    | none =>
      rw [insert_of_absent found]
      exact .inr ⟨h.get?_eq_none_iff.mp found, rfl⟩

theorem serve (h : c.Mirrors l) (requests : List Request) :
    (c.serve requests).Mirrors (l.run requests) := by
  induction requests generalizing c l with
  | nil => exact h
  | cons request requests ih => exact ih (h.ask request)

end Mirrors

/-- **The cache is a bounded first-in, first-out list.**  After any requests it
holds what the plain list holds, one command for each line, no more than its
capacity and the latest of those that were added since it was last cleared, in
the order they were added; and it answers the next request from that list. -/
theorem bounded_fifo (capacity : Nat) (requests : List Request) :
    let c := (empty capacity).serve requests
    let l := Plain.run { capacity } requests
    c.capacity = l.capacity ∧ c.entries = l.items ∧
      (c.entries.map Issued.line).Nodup ∧ c.length ≤ c.capacity ∧ c.entries <:+ l.log ∧
      ∀ request, l.Answers request (c.ask request).1 := by
  intro c l
  have mirrors : c.Mirrors l := Mirrors.serve ⟨rfl, rfl⟩ requests
  have sound : l.Sound := (Plain.sound_empty capacity).run requests
  refine ⟨mirrors.capacity, mirrors.entries, ?_, ?_, ?_, mirrors.answers sound⟩
  · exact mirrors.entries ▸ sound.distinct
  · rw [length, mirrors.entries, mirrors.capacity]
    exact sound.fits
  · exact mirrors.entries ▸ sound.latest

end GcodeJob.Cache
