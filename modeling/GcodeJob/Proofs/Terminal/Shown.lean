import GcodeJob.Proofs.Terminal.Reports
import Mathlib.Data.List.Chain
import Mathlib.Data.List.Induction

/-!
# GcodeJob.Proofs.Terminal.Shown

What stands on the status line.  A status is compared with the one reported before
it, by less than what the line shows (`Unseen`), and not with the one that stands
there.  So the line may fall behind: by the number of lines and the time, which are
not compared at all, and by steps of the progress that are each too small.

**Main result** (`Reporter.shown_since_change`): after every report the line shows the
last status that was seen to change, which has the state and the line of the one just
reported.  It shows the text of that one wherever no change goes unseen that a
reader would see.
-/

namespace GcodeJob.Reporter

/-- The text that was put last on a cleared line, of marks with the latest first. -/
def shown? : List Ink → Option String
  | .text words :: .clearLine :: _ => some words
  | _ :: earlier => shown? earlier
  | [] => none

/-- What changes from one status to the next is not seen. -/
def Unseen (a b : Status) : Prop :=
  a.state = b.state ∧ a.line = b.line ∧
    Single.epsilon.lt (a.progress.sub b.progress).abs = false

theorem any_between_eq_false_iff {a b : Status} :
    (StatusChange.between a b).any = false ↔ Unseen a b := by
  simp [StatusChange.any, StatusChange.between, Unseen]

variable {r : Reporter} {previous : Option Status}

/-- A report shows its status, or leaves what is shown. -/
theorem UpToDate.report_shown (h : r.UpToDate previous) (c : Report) :
    ∃ r', r.report c.program c.status = (.ok (), r') ∧ r'.UpToDate (some c.status) ∧
      shown? r'.sink.written =
        if (StatusWatch.observe ⟨previous⟩ c.status).1.any then some c.status.text
        else shown? r.sink.written := by
  obtain ⟨r', reported, current, written⟩ := h.report c
  refine ⟨r', reported, current, ?_⟩
  rw [← r'.sink.written.reverse_reverse, written]
  unfold news
  split <;> simp [Printed.marks, statusLine, shown?]

theorem reportAll_concat (r : Reporter) (calls : List Report) (c : Report) :
    r.reportAll (calls ++ [c]) =
      match r.reportAll calls with
      | (.ok (), r) => r.report c.program c.status
      | refused => refused := by
  induction calls generalizing r with
  | nil =>
    simp only [List.nil_append, reportAll]
    rcases r.report c.program c.status with ⟨_ | _, _⟩ <;> rfl
  | cons b rest ih =>
    simp only [List.cons_append, reportAll]
    rcases r.report b.program b.status with ⟨_ | _, r'⟩
    · rfl
    · exact ih r'

/-- The line shows a status that was reported, since which no change was seen.  It has the
state and the line of the status just reported, and its text, unless something that is
not seen changes the text. -/
theorem shown_since_change {sink : Sink} (works : sink.Works) (calls : List Report) (c : Report) :
    ∃ r', reportAll { sink } (calls ++ [c]) = (.ok (), r') ∧ r'.UpToDate (some c.status) ∧
      (∃ earlier drawn later, calls ++ [c] = earlier ++ drawn :: later ∧
        shown? r'.sink.written = some drawn.status.text ∧
        drawn.status.state = c.status.state ∧ drawn.status.line = c.status.line ∧
        (drawn :: later).IsChain fun a b => Unseen a.status b.status) ∧
      (((calls ++ [c]).IsChain fun a b =>
          Unseen a.status b.status → a.status.text = b.status.text) →
        shown? r'.sink.written = some c.status.text) := by
  induction calls using List.reverseRecOn generalizing c with
  | nil =>
    obtain ⟨r', reported, current, shown⟩ := (upToDate_new works).report_shown c
    rw [reportAll_concat]
    exact ⟨r', reported, current, ⟨[], c, [], rfl, shown, rfl, rfl, .singleton _⟩, fun _ => shown⟩
  | append_singleton calls b ih =>
    obtain ⟨r, reported, current, standing, text⟩ := ih b
    obtain ⟨earlier, drawn, later, parts, shown, state, line, chain⟩ := standing
    obtain ⟨r', reported', current', shown'⟩ := current.report_shown c
    rw [reportAll_concat, reported]
    refine ⟨r', reported', current', ?_⟩
    change shown? r'.sink.written = if (StatusChange.between b.status c.status).any then _ else _
      at shown'
    split at shown'
    next seen =>
      exact ⟨⟨calls ++ [b], c, [], rfl, shown', rfl, rfl, .singleton _⟩, fun _ => shown'⟩
    next unseen =>
      -- What is drawn stays, and the status just reported is one more that shows no change.
      have quiet := any_between_eq_false_iff.mp (eq_false_of_ne_true unseen)
      have last : (drawn :: later).getLast? = some b := by
        rw [← List.getLast?_append_of_ne_nil earlier (List.cons_ne_nil _ _), ← parts,
          List.getLast?_concat]
      refine ⟨⟨earlier, drawn, later ++ [c], ?_, shown'.trans shown, state.trans quiet.1,
        line.trans quiet.2.1, ?_⟩, fun plain => ?_⟩
      · rw [parts, List.append_assoc, List.cons_append]
      · refine List.isChain_append.mpr ⟨chain, .singleton _, fun x at_end y at_start => ?_⟩
        obtain rfl : b = x := Option.some.inj (last.symm.trans at_end)
        obtain rfl : c = y := Option.some.inj at_start
        exact quiet
      · rw [List.append_assoc, List.singleton_append, List.isChain_append_cons_cons] at plain
        rw [shown', text plain.1, plain.2.1 quiet]

theorem shown_since_change_of_progress :
    let p : Program := { file := .openAt "job" .absent 64, cache := .empty 1 }
    let start : Status := { state := .printing, line := 0, totalLines := 1 }
    let half : Status := { start with progress := ⟨0x3f000000⟩ }
    ({} : Sink).Works ∧ ∃ r', reportAll {} [⟨p, start⟩, ⟨p, half⟩] = (.ok (), r') ∧
      shown? r'.sink.written = some "Printing    line 1/1 [#####-----] 0 ms" := by
  intro p start half
  have works : ({} : Sink).Works := ⟨rfl, rfl⟩
  obtain ⟨r', reported, -, -, text⟩ := shown_since_change works [⟨p, start⟩] ⟨p, half⟩
  have seen : ¬Unseen start half := by
    unfold Unseen
    decide
  refine ⟨works, r', reported, (text ?_).trans ?_⟩
  · exact List.isChain_pair.mpr fun unseen => absurd unseen seen
  · decide +kernel

/-- The time of the finished command is shown by the line, but not looked at. -/
theorem stale_time_shown :
    let p : Program := { file := .openAt "job" .absent 64, cache := .empty 1 }
    let before : Status := { state := .printing, line := 0, totalLines := 1 }
    let after : Status := { before with time := 130 }
    ({} : Sink).Works ∧ ∃ r', reportAll {} [⟨p, before⟩, ⟨p, after⟩] = (.ok (), r') ∧
      shown? r'.sink.written = some before.text ∧ before.text ≠ after.text := by
  intro p before after
  have works : ({} : Sink).Works := ⟨rfl, rfl⟩
  obtain ⟨r, first, current, shown⟩ := (upToDate_new works).report_shown ⟨p, before⟩
  obtain ⟨r', second, -, shown'⟩ := current.report_shown ⟨p, after⟩
  have unseen : (StatusWatch.observe ⟨some before⟩ after).1.any = false := by decide +kernel
  refine ⟨works, r', ?_, ?_, by decide +kernel⟩
  · simp only [reportAll, first, second]
  · exact (shown'.trans (if_neg (ne_true_of_eq_false unseen))).trans shown

end GcodeJob.Reporter
