import GcodeJob.Terminal.Reporter

/-!
# GcodeJob.Proofs.Terminal.Reporter

Reporting on an output that does not fail (`Sink.Works`): every mark is
written, nothing is refused, and the output goes on working.  What a reporter
writes is told by one equation for each of its operations.
-/

namespace GcodeJob

/-- Neither writing nor flushing is refused. -/
structure Sink.Works (s : Sink) : Prop where
  writes : s.refusesWrite = false
  flushes : s.refusesFlush = false

namespace Sink.Works
variable {s : Sink}

theorem withWritten (h : s.Works) (written : List Ink) : { s with written }.Works :=
  ⟨h.writes, h.flushes⟩

theorem write_eq (h : s.Works) (marks : List Ink) :
    s.write marks = (.ok (), { s with written := marks.reverse ++ s.written }) := by
  rw [write, if_neg (by simp [h.writes])]

theorem writeFlushed_eq (h : s.Works) (marks : List Ink) :
    s.writeFlushed marks = (.ok (), { s with written := marks.reverse ++ s.written }) := by
  rw [writeFlushed, h.write_eq]
  dsimp only
  rw [flush, if_neg (by simp [h.flushes])]

end Sink.Works

namespace Reporter
variable {r : Reporter}

/-- The reporter when some marks have been written. -/
def put (r : Reporter) (marks : List Ink) : Reporter :=
  { r with sink := { r.sink with written := marks.reverse ++ r.sink.written } }

@[simp] theorem written_put (marks : List Ink) :
    (r.put marks).sink.written = marks.reverse ++ r.sink.written := rfl

@[simp] theorem put_nil : r.put [] = r := rfl

@[simp] theorem put_put (first second : List Ink) :
    (r.put first).put second = r.put (first ++ second) := by
  simp [put]

theorem works_put (h : r.sink.Works) (marks : List Ink) : (r.put marks).sink.Works :=
  h.withWritten _

theorem leaveLine_eq (p : Program) (h : r.sink.Works) :
    r.leaveLine p = (.ok (), r.put (farewell p r.currentLine)) := by
  rw [leaveLine, h.write_eq]
  rfl

theorem draw_eq (p : Program) (s : Status) (h : r.sink.Works) :
    r.draw p s = (.ok (), { r.put
      ((if s.line = r.currentLine then [] else farewell p r.currentLine) ++ statusLine s) with
        currentLine := s.line }) := by
  have left : (if s.line = r.currentLine then (.ok (), r) else r.leaveLine p) =
      ((.ok () : Except Error Unit),
        r.put (if s.line = r.currentLine then [] else farewell p r.currentLine)) := by
    split
    · rw [put_nil]
    · exact leaveLine_eq p h
  rw [draw, left]
  dsimp only
  rw [(works_put h _).writeFlushed_eq, ← put_put]
  rfl

theorem report_eq (p : Program) (s : Status) (h : r.sink.Works) :
    r.report p s =
      if (r.watch.observe s).1.any then
        (.ok (), { r.put
          ((if s.line = r.currentLine then [] else farewell p r.currentLine) ++ statusLine s) with
            currentLine := s.line, watch := ⟨some s⟩ })
      else (.ok (), { r with watch := ⟨some s⟩ }) := by
  unfold report
  dsimp only
  split
  · exact draw_eq p s (r := { r with watch := ⟨some s⟩ }) h
  · rfl

theorem finish_eq (p : Program) (h : r.sink.Works) :
    r.finish p = (.ok (), { r.put (farewell p r.currentLine ++ [.text "\n"]) with
      currentLine := noLine }) := by
  rw [finish, leaveLine_eq p h]
  dsimp only
  rw [(works_put h _).writeFlushed_eq, ← put_put]
  rfl

/-- A status is reported. -/
theorem exists_report (p : Program) (s : Status) (h : r.sink.Works) :
    ∃ r', r.report p s = (.ok (), r') ∧ r'.sink.Works := by
  rw [report_eq p s h]
  split
  · exact ⟨_, rfl, works_put h _⟩
  · exact ⟨_, rfl, h⟩

/-- The report is ended. -/
theorem exists_finish (p : Program) (h : r.sink.Works) :
    ∃ r', r.finish p = (.ok (), r') ∧ r'.sink.Works :=
  ⟨_, finish_eq p h, works_put h _⟩

end Reporter

end GcodeJob
