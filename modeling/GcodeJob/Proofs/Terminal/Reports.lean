import GcodeJob.Proofs.Terminal.Reporter

/-!
# GcodeJob.Proofs.Terminal.Reports

All that a reporter prints while statuses are reported to it one after another.
The line whose time is to be told is a second copy of the line that was reported
last, and is moved only where a status is drawn; the two agree (`UpToDate`), since
a status of another line is always a change.  So the output is what the reports
owe (`printed`), whatever the program has kept at each of them.

**Main result** (`Reporter.timed_once`): a time is printed for each line that the
reported line leaves and whose command is kept and has run, in this order, directly
in front of the status that left it, and no other time is printed.
-/

namespace GcodeJob

/-- A status that is reported, and the program as it is then. -/
structure Report where
  program : Program
  status : Status

namespace Reporter

/-- Reports one after another; what is refused ends it. -/
def reportAll (r : Reporter) : List Report → Except Error Unit × Reporter
  | [] => (.ok (), r)
  | c :: rest =>
    match r.report c.program c.status with
    | (.ok (), r) => r.reportAll rest
    | refused => refused

/-- Reports one after another, and then the end. -/
def reportToEnd (r : Reporter) (calls : List Report) (last : Program) :
    Except Error Unit × Reporter :=
  match r.reportAll calls with
  | (.ok (), r) => r.finish last
  | refused => refused

/-! ## What is printed -/

/-- A command and the time it took. -/
structure Timing where
  command : Issued
  time : Int

/-- What is printed in one piece. -/
inductive Printed
  | timing (t : Timing)
  | status (s : Status)
  | ended

namespace Printed

def marks : Printed → List Ink
  | timing t => Reporter.timing t.command t.time
  | status s => statusLine s
  | ended => [.text "\n"]

def timing? : Printed → Option Timing
  | timing t => some t
  | _ => none

end Printed

/-- The colour that a mark starts. -/
def colour? : Ink → Option Colour
  | .foreground colour => some colour
  | _ => none

/-- Only the time of a command is coloured. -/
theorem filterMap_colour? (items : List Printed) :
    (items.flatMap Printed.marks).filterMap colour? =
      (items.filterMap Printed.timing?).map fun t => (TimingBand.ofTime t.time).colour := by
  induction items with
  | nil => rfl
  | cons item rest ih =>
    rw [List.flatMap_cons, List.filterMap_append, ih]
    cases item <;> rfl

/-- The time that is to be told when a line is left: that of its command, if there is such a
line, its command is kept and has run. -/
def owed? (p : Program) (line : Int) : Option Timing :=
  if line < 0 then none
  else (p.cached? line.toNat).bind fun i => if 0 < p.time i then some ⟨i, p.time i⟩ else none

theorem farewell_eq (p : Program) (line : Int) :
    farewell p line = ((owed? p line).toList.map Printed.timing).flatMap Printed.marks := by
  unfold farewell owed?
  split
  · rfl
  cases p.cached? line.toNat with
  | none => rfl
  | some i =>
    dsimp only
    by_cases run : p.time i ≤ 0
    · simp [run, Int.not_lt.mpr run]
    · simp [run, Int.not_le.mp run, Printed.marks]

/-! ## What a sequence of reports prints -/

/-- The line of the status that was reported last. -/
def lineOf (previous : Option Status) : Int := (previous.map Status.line).getD noLine

/-- What one report prints. -/
def news (previous : Option Status) (c : Report) : List Printed :=
  if (StatusWatch.observe ⟨previous⟩ c.status).1.any then
    (if c.status.line = lineOf previous then []
      else (owed? c.program (lineOf previous)).toList.map .timing) ++ [.status c.status]
  else []

def printed (previous : Option Status) : List Report → List Printed
  | [] => []
  | c :: rest => news previous c ++ printed (some c.status) rest

/-- The status reported last, after some more reports. -/
def lastOf (previous : Option Status) (calls : List Report) : Option Status :=
  calls.foldl (fun _ c => some c.status) previous

/-- The reporter works and knows the status that was reported last, and its line as the one
whose time is to be told. -/
structure UpToDate (r : Reporter) (previous : Option Status) : Prop where
  works : r.sink.Works
  watch : r.watch = ⟨previous⟩
  line : r.currentLine = lineOf previous

theorem upToDate_new {sink : Sink} (works : sink.Works) : UpToDate { sink } none :=
  ⟨works, rfl, rfl⟩

/-- A status that shows no change is one of the same line. -/
theorem line_eq_of_unchanged {previous : Option Status} {s : Status}
    (h : ¬(StatusWatch.observe ⟨previous⟩ s).1.any = true) : s.line = lineOf previous := by
  cases previous with
  | none => exact absurd rfl h
  | some q =>
    refine Decidable.byContradiction fun other => h ?_
    have moved : (q.line != s.line) = true := bne_iff_ne.mpr fun same => other same.symm
    simp [StatusWatch.observe, StatusChange.between, StatusChange.any, moved]

variable {r : Reporter} {previous : Option Status}

theorem UpToDate.report (h : r.UpToDate previous) (c : Report) :
    ∃ r', r.report c.program c.status = (.ok (), r') ∧ r'.UpToDate (some c.status) ∧
      r'.sink.written.reverse =
        r.sink.written.reverse ++ (news previous c).flatMap Printed.marks := by
  rw [report_eq _ _ h.works, h.watch, h.line]
  unfold news
  split
  next =>
    refine ⟨_, rfl, ⟨works_put h.works _, rfl, rfl⟩, ?_⟩
    split <;> simp [farewell_eq, Printed.marks]
  next same =>
    exact ⟨_, rfl, ⟨h.works, rfl, (line_eq_of_unchanged same).symm⟩, by simp⟩

theorem UpToDate.reportAll (h : r.UpToDate previous) (calls : List Report) :
    ∃ r', r.reportAll calls = (.ok (), r') ∧ r'.UpToDate (lastOf previous calls) ∧
      r'.sink.written.reverse =
        r.sink.written.reverse ++ (printed previous calls).flatMap Printed.marks := by
  induction calls generalizing r previous with
  | nil => exact ⟨r, rfl, h, by simp [printed]⟩
  | cons c rest ih =>
    obtain ⟨r₁, reported, current, written⟩ := h.report c
    obtain ⟨r₂, others, current, written'⟩ := ih current
    refine ⟨r₂, ?_, current, ?_⟩
    · rw [Reporter.reportAll, reported]
      exact others
    · rw [written', written, printed, List.flatMap_append, List.append_assoc]

/-! ## The times -/

/-- The times that reports and their end are to tell, when `line` is the one before them. -/
def owedBy (last : Program) (line : Int) : List Report → List Timing
  | [] => (owed? last line).toList
  | c :: rest =>
    (if c.status.line = line then [] else (owed? c.program line).toList) ++
      owedBy last c.status.line rest

/-- What reports and their end may print, when `line` is the one before them.  Where the line
is left, its time is told and then the status that leaves it. -/
inductive Prints (last : Program) : Int → List Report → List Printed → Prop
  | ended {line : Int} : Prints last line [] ((owed? last line).toList.map .timing ++ [.ended])
  | unchanged {line : Int} {c : Report} {rest : List Report} {items : List Printed}
      (same : c.status.line = line) (later : Prints last line rest items) :
      Prints last line (c :: rest) items
  | drawn {line : Int} {c : Report} {rest : List Report} {items : List Printed}
      (same : c.status.line = line) (later : Prints last line rest items) :
      Prints last line (c :: rest) (.status c.status :: items)
  | left {line : Int} {c : Report} {rest : List Report} {items : List Printed}
      (other : c.status.line ≠ line) (later : Prints last c.status.line rest items) :
      Prints last line (c :: rest)
        ((owed? c.program line).toList.map .timing ++ .status c.status :: items)

theorem filterMap_timing? (t? : Option Timing) :
    (t?.toList.map Printed.timing).filterMap Printed.timing? = t?.toList := by
  cases t? <;> rfl

/-- Whatever is printed, the times are those that are owed. -/
theorem Prints.timings {last : Program} {line : Int} {calls : List Report} {items : List Printed}
    (h : Prints last line calls items) :
    items.filterMap Printed.timing? = owedBy last line calls := by
  induction h with
  | ended => rw [List.filterMap_append, filterMap_timing?]; exact List.append_nil _
  | unchanged same _ ih => rw [ih, owedBy, if_pos same, same]; rfl
  | drawn same _ ih => rw [List.filterMap_cons_none rfl, ih, owedBy, if_pos same, same]; rfl
  | left other _ ih =>
    rw [List.filterMap_append, filterMap_timing?, List.filterMap_cons_none rfl, ih, owedBy,
      if_neg other]

theorem prints_printed (last : Program) (previous : Option Status) (calls : List Report) :
    Prints last (lineOf previous) calls (printed previous calls ++
      ((owed? last (lineOf (lastOf previous calls))).toList.map .timing ++ [.ended])) := by
  induction calls generalizing previous with
  | nil => exact .ended
  | cons c rest ih =>
    have later := ih (some c.status)
    rw [printed, List.append_assoc]
    unfold news
    split
    next =>
      split
      next same => exact .drawn same (same ▸ later)
      next other =>
        rw [List.append_assoc]
        exact .left other later
    next unchanged =>
      have same := line_eq_of_unchanged unchanged
      exact .unchanged same (same ▸ later)

/-- The time of a line is told once each time the reported line leaves it, if its command is
kept at that moment and has run, in front of the status that left it or of the end; nothing
else that is printed is a time. -/
theorem timed_once {sink : Sink} (works : sink.Works) (calls : List Report) (last : Program) :
    ∃ r' items, reportToEnd { sink } calls last = (.ok (), r') ∧
      r'.sink.written.reverse = sink.written.reverse ++ items.flatMap Printed.marks ∧
      Prints last noLine calls items ∧
      items.filterMap Printed.timing? = owedBy last noLine calls ∧
      (items.flatMap Printed.marks).filterMap colour? =
        (owedBy last noLine calls).map fun t => (TimingBand.ofTime t.time).colour := by
  obtain ⟨r, reported, current, written⟩ := (upToDate_new works).reportAll calls
  have prints := prints_printed last none calls
  rw [reportToEnd, reported]
  refine ⟨_, _, finish_eq last current.works, ?_, prints, prints.timings, ?_⟩
  · simp [written, farewell_eq, current.line, Printed.marks]
  · rw [filterMap_colour?, prints.timings]
    rfl

theorem timed_once_of_two_lines :
    let p : Program :=
      { file := .openAt "job" .absent 64, cache := ⟨1, [⟨0, .parse 0 "G1 X1"⟩]⟩, sheet := ⟨#[130]⟩ }
    let calls : List Report :=
      [⟨p, { line := 0 }⟩, ⟨p, { line := 0, time := 130 }⟩, ⟨p, { line := 1 }⟩]
    ({} : Sink).Works ∧ ∃ r', reportToEnd {} calls p = (.ok (), r') ∧
      r'.sink.written.reverse.filterMap colour? = [.darkGreen] := by
  intro p calls
  have works : ({} : Sink).Works := ⟨rfl, rfl⟩
  obtain ⟨r', items, reported, written, -, -, colours⟩ := timed_once works calls p
  have owed : owedBy p noLine calls = [⟨⟨0, .parse 0 "G1 X1"⟩, 130⟩] := rfl
  refine ⟨works, r', reported, ?_⟩
  rw [written, List.reverse_nil, List.nil_append, colours, owed]
  rfl

end Reporter

end GcodeJob
