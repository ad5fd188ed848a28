import GcodeJob.Proofs.Program.Sharing

/-!
# GcodeJob.Proofs.Program.Identity

One command for each line that is kept.  Many may parse a line at the same
time, but the first to keep its command settles which one it is, for the
others and for everyone who comes later, until the cache lets it go.  So a
time written by one of them is the time all of them see.

**Main result** (`Sharing.one_command_per_line`).
-/

namespace GcodeJob

/-! ## A cache with one command for each line -/

namespace Cache

/-- Each command that is held is the one found for its line. -/
def Distinct (c : Cache) : Prop := ∀ held ∈ c.entries, c.get? held.line = some held

section
variable {c : Cache} {line : Nat} {held : Issued}

theorem mem_of_get? (found : c.get? line = some held) : held ∈ c.entries :=
  List.mem_of_find?_eq_some found

theorem line_of_get? (found : c.get? line = some held) : held.line = line := by
  simpa using List.find?_some found

namespace Distinct

theorem empty (capacity : Nat) : (Cache.empty capacity).Distinct := by
  simp [Distinct, Cache.empty]

/-- The cache lets the oldest go; what is left for a line is what was there. -/
theorem get?_of_suffix (h : c.Distinct) {c' : Cache} (fewer : c'.entries <:+ c.entries)
    (found : c'.get? line = some held) : c.get? line = some held := by
  have mem := fewer.subset (mem_of_get? found)
  rw [← line_of_get? found]
  exact h held mem

theorem of_suffix (h : c.Distinct) {c' : Cache} (fewer : c'.entries <:+ c.entries) :
    c'.Distinct := by
  intro held mem
  cases found : c'.get? held.line with
  | none =>
    have absent := List.find?_eq_none.mp found held mem
    simp at absent
  | some other =>
    have same := h.get?_of_suffix fewer found
    rw [h held (fewer.subset mem)] at same
    exact same.symm

/-- A command may be added for a line that has none. -/
theorem append (h : c.Distinct) (none : c.get? held.line = none) :
    Distinct { c with entries := c.entries ++ [held] } := by
  intro other mem
  unfold get?
  rw [List.find?_append]
  rcases List.mem_append.mp mem with before | last
  · have found : c.entries.find? (·.line == other.line) = some other := h other before
    simp [found]
  · obtain rfl := List.mem_singleton.mp last
    have absent : c.entries.find? (·.line == other.line) = Option.none := none
    simp [absent]

end Distinct

end

end Cache

namespace Sharing

/-! ## What all steps keep -/

/-- One command for each kept line, and none that has not been issued. -/
structure Orderly (s : Sharing) : Prop where
  distinct : s.program.cache.Distinct
  kept : ∀ held ∈ s.program.cache.entries, held.serial < s.program.sheet.times.size
  given : ∀ answer ∈ s.answers, ∀ held, answer.reply = some (.ok held) →
    held.serial < s.program.sheet.times.size

section
variable {s t : Sharing} {line : Nat} {held : Issued}

theorem orderly_opened (path : String) (medium : Medium) (settings : StreamSettings) :
    (opened path medium settings).Orderly :=
  ⟨.empty settings.cacheCapacity, nofun, nofun⟩

namespace Orderly

/-- A kept command has been issued. -/
theorem serial_lt (h : s.Orderly) (cached : s.program.cached? line = some held) :
    held.serial < s.program.sheet.times.size := h.kept held (Cache.mem_of_get? cached)

/-- Kept commands stay or are new, and so do given ones. -/
theorem of_grown (h : s.Orderly) (sheet : s.program.sheet.Grown t.program.sheet)
    (distinct : t.program.cache.Distinct)
    (kept : ∀ held ∈ t.program.cache.entries, held ∈ s.program.cache.entries ∨
      held.serial < t.program.sheet.times.size)
    {new : List Answer} (answers : t.answers = s.answers ++ new)
    (given : ∀ answer ∈ new, ∀ held, answer.reply = some (.ok held) →
      held.serial < t.program.sheet.times.size) : t.Orderly where
  distinct := distinct
  kept := by
    intro held mem
    rcases kept held mem with before | issued
    · exact Nat.lt_of_lt_of_le (h.kept held before) sheet.size_le
    · exact issued
  given := by
    intro answer mem held ok
    rw [answers] at mem
    rcases List.mem_append.mp mem with before | last
    · exact Nat.lt_of_lt_of_le (h.given answer before held ok) sheet.size_le
    · exact given answer last held ok

theorem acts (h : s.Orderly) (acts : s.Acts t) : t.Orderly := by
  have sheet := acts.sheet_grown
  cases acts with
  | idles new cache _ answers none =>
    refine h.of_grown sheet (cache ▸ h.distinct) (fun held mem => .inl (cache ▸ mem)) answers ?_
    exact fun answer mem held ok => absurd ok (none answer mem held)
  | gives reader? line held cached cache _ answers =>
    refine h.of_grown sheet (cache ▸ h.distinct) (fun held mem => .inl (cache ▸ mem)) answers ?_
    simp only [List.mem_singleton, forall_eq, Option.some.injEq, Except.ok.injEq]
    exact fun _ same => same ▸ Nat.lt_of_lt_of_le (h.serial_lt cached) sheet.size_le
  | keeps reader line raw none issued cache answers =>
    have last : (s.program.sheet.issue (.parse line raw)).1.serial <
        t.program.sheet.times.size := by
      rw [issued]
      simp [Timesheet.issue]
    refine h.of_grown sheet ((h.distinct.append (Program.get?_issue none)).of_suffix cache)
      (fun held mem => ?_) answers ?_
    · rcases List.mem_append.mp (cache.subset mem) with before | new
      · exact .inl before
      · exact .inr (List.mem_singleton.mp new ▸ last)
    · simp only [List.mem_singleton, forall_eq, Option.some.injEq, Except.ok.injEq]
      exact fun _ same => same ▸ last
  | sheds cache _ answers =>
    exact h.of_grown sheet (h.distinct.of_suffix cache) (fun held mem => .inl (cache.subset mem))
      (answers.trans (List.append_nil _).symm) (by simp)

theorem step (h : s.Orderly) (e : Event) : (s.step e).Orderly := by
  cases e with
  | record held ms =>
    have size : (s.program.recordTime held ms).sheet.times.size = s.program.sheet.times.size := by
      simp [Program.recordTime, Timesheet.record]
    refine ⟨h.distinct, ?_, ?_⟩
    · exact fun held mem => size ▸ h.kept held mem
    · exact fun answer mem held ok => size ▸ h.given answer mem held ok
  | _ => exact h.acts (s.acts_step (by simp))

theorem run (h : s.Orderly) (events : List Event) : (s.run events).Orderly := by
  induction events generalizing s with
  | nil => exact h
  | cons e events ih => exact ih (h.step e)

end Orderly

/-! ## One step -/

namespace Acts

/-- As long as a line is kept, its command is the same. -/
theorem cached?_eq (acts : s.Acts t) (h : s.Orderly) {other : Issued}
    (was : s.program.cached? line = some held) (now : t.program.cached? line = some other) :
    other = held := by
  unfold Program.cached? at was now
  cases acts with
  | idles _ cache | gives _ _ _ _ cache =>
    rw [cache, was] at now
    exact (Option.some.inj now).symm
  | keeps reader line' raw none _ cache =>
    have found := (h.distinct.append (Program.get?_issue none)).get?_of_suffix cache now
    have first : s.program.cache.entries.find? (·.line == line) = some held := was
    simp only [Cache.get?, List.find?_append, first, Option.some_or, Option.some.injEq] at found
    exact found.symm
  | sheds cache =>
    have found := h.distinct.get?_of_suffix cache now
    rw [was] at found
    exact (Option.some.inj found).symm

/-- Whoever is given the command of a line that is kept is given that one. -/
theorem exists_given (acts : s.Acts t) (was : s.program.cached? line = some held) :
    ∃ given, t.answers = s.answers ++ given ∧ ∀ answer ∈ given, answer.line = line →
      ∀ other, answer.reply = some (.ok other) → other = held := by
  cases acts with
  | idles new _ _ answers none =>
    exact ⟨new, answers, fun answer mem _ other ok => absurd ok (none answer mem other)⟩
  | gives reader? line' found cached _ _ answers =>
    refine ⟨_, answers, ?_⟩
    simp only [List.mem_singleton, forall_eq, Option.some.injEq, Except.ok.injEq]
    rintro rfl other rfl
    exact Option.some.inj (cached.symm.trans was)
  | keeps reader line' raw none _ _ answers =>
    refine ⟨_, answers, ?_⟩
    simp only [List.mem_singleton, forall_eq]
    rintro rfl
    cases none.symm.trans was
  | sheds _ _ answers => exact ⟨[], by simp [answers], by simp⟩

/-- A command that comes to be kept has just been issued, to whoever is given it. -/
theorem comes (acts : s.Acts t) (h : s.Orderly) (was : s.program.cached? line = none)
    (now : t.program.cached? line = some held) :
    (∃ reader, t.answers = s.answers ++ [⟨some reader, line, some (.ok held)⟩]) ∧
      t.program.time held = 0 ∧ held.serial = s.program.sheet.times.size := by
  cases acts with
  | idles _ cache | gives _ _ _ _ cache =>
    rw [Program.cached?, cache] at now
    cases was.symm.trans now
  | keeps reader line' raw none sheet cache answers =>
    rcases List.mem_append.mp (cache.subset (Cache.mem_of_get? now)) with before | last
    · have found := h.distinct held before
      rw [Cache.line_of_get? now] at found
      cases was.symm.trans found
    · obtain rfl := List.mem_singleton.mp last
      obtain rfl : line' = line := Cache.line_of_get? now
      refine ⟨⟨reader, answers⟩, ?_, rfl⟩
      rw [Program.time, sheet]
      exact Timesheet.time_issue ..
  | sheds cache =>
    cases was.symm.trans (h.distinct.get?_of_suffix cache now)

end Acts

/-- What a step makes of the time of a command. -/
def Event.timeAfter (held : Issued) (ms : Int) : Event → Int
  | .record other ms' => if other.serial = held.serial then ms' else ms
  | _ => ms

namespace Orderly

theorem cached?_step (h : s.Orderly) {e : Event} {other : Issued}
    (was : s.program.cached? line = some held)
    (now : (s.step e).program.cached? line = some other) : other = held := by
  cases e with
  | record => exact Option.some.inj (now.symm.trans was)
  | _ => exact (s.acts_step (by simp)).cached?_eq h was now

theorem exists_given_step (was : s.program.cached? line = some held) (e : Event) :
    ∃ given, (s.step e).answers = s.answers ++ given ∧ ∀ answer ∈ given, answer.line = line →
      ∀ other, answer.reply = some (.ok other) → other = held := by
  cases e with
  | record => exact ⟨[], by simp [Sharing.step], by simp⟩
  | _ => exact (s.acts_step (by simp)).exists_given was

theorem time_step (h : s.Orderly) (was : s.program.cached? line = some held) (e : Event) :
    (s.step e).program.time held = e.timeAfter held (s.program.time held) := by
  have issued := h.serial_lt was
  cases e with
  | record other ms =>
    unfold Event.timeAfter
    dsimp only
    split
    next same =>
      have written := Timesheet.time_record s.program.sheet held ms issued
      rw [Timesheet.record, ← same] at written
      exact written
    next ne => exact Timesheet.time_record_of_ne s.program.sheet other held ms ne
  | _ => exact (s.acts_step (by simp)).sheet_grown.time_eq issued

theorem comes_step (h : s.Orderly) {e : Event} (was : s.program.cached? line = none)
    (now : (s.step e).program.cached? line = some held) :
    (∃ reader, (s.step e).answers = s.answers ++ [⟨some reader, line, some (.ok held)⟩]) ∧
      (s.step e).program.time held = 0 ∧ held.serial = s.program.sheet.times.size := by
  cases e with
  | record => cases was.symm.trans now
  | _ => exact (s.acts_step (by simp)).comes h was now

end Orderly

end

/-! ## Courses -/

/-- After each step of a course some command is kept for the line. -/
def StaysKept (line : Nat) (s : Sharing) : List Event → Prop
  | [] => True
  | e :: events =>
    ((s.step e).program.cached? line).isSome = true ∧ (s.step e).StaysKept line events

instance StaysKept.decide (line : Nat) (s : Sharing) (events : List Event) :
    Decidable (s.StaysKept line events) :=
  match events with
  | [] => inferInstanceAs (Decidable True)
  | e :: events =>
    have := StaysKept.decide line (s.step e) events
    inferInstanceAs (Decidable (_ ∧ (s.step e).StaysKept line events))

/-- The time last written to a command in a course, or else the one it had before. -/
def lastTime (held : Issued) (ms : Int) (events : List Event) : Int :=
  events.foldl (fun ms e => e.timeAfter held ms) ms

/-- As long as a line is kept, there is one command for it. -/
theorem Orderly.run_of_staysKept {s : Sharing} {line : Nat} {held : Issued} (h : s.Orderly)
    (was : s.program.cached? line = some held) {later : List Event}
    (stays : s.StaysKept line later) :
    (s.run later).program.cached? line = some held ∧
      (s.run later).program.time held = lastTime held (s.program.time held) later ∧
      ∃ given, (s.run later).answers = s.answers ++ given ∧ ∀ answer ∈ given, answer.line = line →
        ∀ other, answer.reply = some (.ok other) → other = held := by
  induction later generalizing s with
  | nil => exact ⟨was, rfl, [], by simp [Sharing.run], by simp⟩
  | cons e later ih =>
    obtain ⟨some_, stays⟩ := stays
    obtain ⟨other, now⟩ := Option.isSome_iff_exists.mp some_
    obtain rfl := h.cached?_step was now
    obtain ⟨kept, time, given, answers, same⟩ := ih (h.step e) now stays
    obtain ⟨first, answers_e, same_e⟩ := exists_given_step was e
    refine ⟨kept, ?_, first ++ given, ?_, fun answer mem => ?_⟩
    · rw [h.time_step was e] at time
      exact time
    · rw [answers_e, List.append_assoc] at answers
      exact answers
    · rcases List.mem_append.mp mem with at_first | after
      · exact same_e answer at_first
      · exact same answer after

/-- **One command for each line that is kept.**  Whatever readers, closers and
the build do between any two of each other's sections, and wherever the cache
is given another capacity: as long as a line stays kept, its command is the one
first kept, everyone who is given a command for the line is given that one,
and its time is the one last written by anyone who holds it.  A command comes
to be kept for a line only where none is; it has then just been issued, to
whoever read the line, so nobody holds it yet, and its time is zero. -/
theorem one_command_per_line (path : String) (medium : Medium) (settings : StreamSettings)
    (events : List Event) :
    let s := (opened path medium settings).run events
    (∀ (line : Nat) (held : Issued) (later : List Event), s.program.cached? line = some held →
      s.StaysKept line later →
      let t := s.run later
      t.program.cached? line = some held ∧
        t.program.getCommand line = (.ok (some held), t.program) ∧
        t.program.time held = lastTime held (s.program.time held) later ∧
        ∃ given, t.answers = s.answers ++ given ∧ ∀ answer ∈ given, answer.line = line →
          ∀ other, answer.reply = some (.ok other) → other = held) ∧
    ∀ (line : Nat) (held : Issued) (e : Event), s.program.cached? line = none →
      (s.step e).program.cached? line = some held →
      (s.step e).program.time held = 0 ∧
        (∃ reader, (s.step e).answers = s.answers ++ [⟨some reader, line, some (.ok held)⟩]) ∧
        ∀ answer ∈ s.answers, ∀ other, answer.reply = some (.ok other) →
          other.serial ≠ held.serial := by
  intro s
  have orderly : s.Orderly := (orderly_opened path medium settings).run events
  refine ⟨fun line held later was stays => ?_, fun line held e was now => ?_⟩
  · obtain ⟨kept, time, given⟩ := orderly.run_of_staysKept was stays
    exact ⟨kept, by simp [Program.getCommand, kept], time, given⟩
  · obtain ⟨given, time, serial⟩ := orderly.comes_step was now
    refine ⟨time, given, fun answer mem other ok same => ?_⟩
    have issued := orderly.given answer mem other ok
    omega

/-- Two readers that both find a line missing: the second parses it in vain and
is given the command of the first.  Its time is written and seen, until the
command is dropped for want of room and the line is parsed anew. -/
theorem one_command_per_line_of_two_readers :
    let file : RegularFile := ⟨⟨#[71, 49, 10, 71, 50, 10]⟩, by decide, .whole⟩
    let fresh := opened "job" (.file file) ⟨9, 1⟩
    let advance (reader count : Nat) : List Event := List.replicate count (.advance reader)
    let held : Issued := ⟨0, .parse 0 "G1"⟩
    let new : Issued := ⟨2, .parse 0 "G1"⟩
    let first := List.replicate 6 .build ++ [.get 0, .get 0] ++ advance 1 2 ++ advance 0 5
    let later := advance 1 3 ++ [.record held 7, .look 0]
    let anew := first ++ later ++ [.setCapacity 0, .setCapacity 1, .get 0] ++ advance 2 4
    let s := fresh.run first
    let t := s.run later
    let u := fresh.run anew
    s.program.cached? 0 = some held ∧ s.StaysKept 0 later ∧ t.program.cached? 0 = some held ∧
      t.program.time held = 7 ∧ t.answers.map Answer.reader? = [some 0, some 1, none] ∧
      (∃ given, t.answers = s.answers ++ given ∧ ∀ answer ∈ given, answer.line = 0 →
        ∀ other, answer.reply = some (.ok other) → other = held) ∧
      u.program.cached? 0 = none ∧ (u.step (.advance 2)).program.cached? 0 = some new ∧
      (u.step (.advance 2)).program.time new = 0 := by
  intro file fresh advance held new first later anew s t u
  have kept : s.program.cached? 0 = some held := by decide +kernel
  have stays : s.StaysKept 0 later := by decide +kernel
  have readers : t.answers.map Answer.reader? = [some 0, some 1, none] := by decide +kernel
  have none : u.program.cached? 0 = none := by decide +kernel
  have comes : (u.step (.advance 2)).program.cached? 0 = some new := by decide +kernel
  have written : lastTime held (s.program.time held) later = 7 := rfl
  have at_s : (opened "job" (.file file) ⟨9, 1⟩).run first = s := rfl
  have at_u : (opened "job" (.file file) ⟨9, 1⟩).run anew = u := rfl
  have before := one_command_per_line "job" (.file file) ⟨9, 1⟩ first
  have after := one_command_per_line "job" (.file file) ⟨9, 1⟩ anew
  dsimp only at before after
  rw [at_s] at before
  rw [at_u] at after
  obtain ⟨same, -, time, given⟩ := before.1 0 held later kept stays
  exact ⟨kept, stays, same, time.trans written, readers, given, none, comes,
    (after.2 0 new (.advance 2) none comes).1⟩

end Sharing

end GcodeJob
